import HttpJet.H2.Recv
import Mathlib.Order.Interval.Finset.Nat
import Mathlib.Data.Finset.Max

/-!
# Budgets that time pays back

A budget for resets is one instant, the end of the debt, which every charge moves one refill
interval on.  For a response, the time for which writes are blocked runs up, and every 16 KiB that
get through take one window off it.
-/

namespace HttpJet.Rates

/-- The end of the debt after a charge. -/
def till (refill : Nat) (debt : Option Nat) (now : Nat) : Nat :=
  (debt.filter fun t => now < t).getD now + refill

/-- The charge of the reset budgets, and whether the end of the debt is too far ahead. -/
def charge (refill burst : Nat) (debt : Option Nat) (now : Nat) : Option Nat × Bool :=
  (some (till refill debt now), decide (refill * burst < till refill debt now - now))

structure CancelBudget where
  debtUntil : Option Nat

def h3CancelBurst : Nat := 200

/-- A tenth of a second, in nanoseconds. -/
def h3CancelRefill : Nat := 100 * 1000000

/-- `CancelBudget::charge` -/
def CancelBudget.charge (budget : CancelBudget) (now : Nat) : CancelBudget × Bool :=
  let (debtUntil, exhausted) := Rates.charge h3CancelRefill h3CancelBurst budget.debtUntil now
  (⟨debtUntil⟩, exhausted)

section Calls

variable {σ : Type} (step : σ → Nat → σ × Bool) (start : σ) (times : Nat → Nat)

/-- The budget before a call, with a charge at each of the times before. -/
def stateAt : Nat → σ
  | 0 => start
  | call + 1 => (step (stateAt call) (times call)).1

def exhausted (call : Nat) : Bool := (step (stateAt step start times call) (times call)).2

end Calls

/-- What a bucket that leaks one charge in every interval and holds a burst of them reports. -/
structure LeakyBucket (refill burst : Nat) (times : Nat → Nat) (exhausted : Nat → Bool) : Prop where
  exhausted_iff : ∀ call, exhausted call = true ↔
    ∃ first ≤ call, burst * refill + (times call - times first) < (call - first + 1) * refill
  passing_le : 0 < refill → ∀ first last time, times last ≤ times first + time →
    ((Finset.Icc first last).filter fun call => exhausted call = false).card ≤ burst + time / refill

section

variable (refill burst : Nat) {times : Nat → Nat}

theorem till_some (debt now : Nat) : till refill (some debt) now = max debt now + refill := by
  rw [till, Option.filter_some]
  split_ifs with ahead
  · rw [Nat.max_eq_left (Nat.le_of_lt (of_decide_eq_true ahead)), Option.getD_some]
  · rw [Nat.max_eq_right (Nat.not_lt.mp (mt decide_eq_true ahead)), Option.getD_none]

/-- The end of the debt is the latest that the charges from some call on make of it. -/
theorem le_till_iff (call bound : Nat) :
    bound ≤ till refill (stateAt (charge refill burst) none times call) (times call) ↔
      ∃ first ≤ call, bound ≤ times first + (call - first + 1) * refill := by
  induction call generalizing bound with
  | zero =>
    change bound ≤ times 0 + refill ↔ _
    constructor
    · intro below
      exact ⟨0, le_rfl, by omega⟩
    · rintro ⟨first, none, below⟩
      rw [Nat.le_zero.mp none] at below
      omega
  | succ call ih =>
    have further {first : Nat} (earlier : first ≤ call) :
        (call + 1 - first + 1) * refill = (call - first + 1) * refill + refill := by
      rw [Nat.succ_sub earlier, Nat.succ_mul]
    rw [stateAt, charge, till_some]
    constructor
    · intro below
      by_cases last : bound ≤ times (call + 1) + refill
      · exact ⟨call + 1, le_rfl, by rwa [Nat.sub_self, Nat.zero_add, Nat.one_mul]⟩
      · obtain ⟨first, earlier, reached⟩ := (ih (bound - refill)).mp (by omega)
        exact ⟨first, Nat.le_succ_of_le earlier, by rw [further earlier]; omega⟩
    · rintro ⟨first, earlier, below⟩
      by_cases last : first = call + 1
      · rw [last, Nat.sub_self, Nat.zero_add, Nat.one_mul] at below
        omega
      · have before : first ≤ call := by omega
        rw [further before] at below
        have reached := (ih (bound - refill)).mpr ⟨first, before, by omega⟩
        omega

theorem exhausted_charge_iff (ordered : Monotone times) (call : Nat) :
    exhausted (charge refill burst) none times call = true ↔
      ∃ first ≤ call,
        burst * refill + (times call - times first) < (call - first + 1) * refill := by
  have beyond : exhausted (charge refill burst) none times call = true ↔
      times call + burst * refill + 1 ≤
      till refill (stateAt (charge refill burst) none times call) (times call) := by
    rw [exhausted, charge, decide_eq_true_iff, Nat.mul_comm]
    omega
  rw [beyond, le_till_iff]
  refine exists_congr fun first => and_congr_right fun earlier => ?_
  have order := ordered earlier
  omega

/-- Of the charges within a time no more pass than the burst and what the time returns. -/
theorem leakyBucket_charge (ordered : Monotone times) :
    LeakyBucket refill burst times (exhausted (charge refill burst) none times) where
  exhausted_iff := exhausted_charge_iff refill burst ordered
  passing_le positive first last time within := by
    obtain ⟨reports, all⟩ : ∃ reports, exhausted (charge refill burst) none times = reports :=
      ⟨_, rfl⟩
    rw [all]
    rcases ((Finset.Icc first last).filter (reports · = false)).eq_empty_or_nonempty with none
      | some
    · rw [none]
      exact Nat.zero_le _
    · obtain ⟨latest, passed, greatest⟩ := Finset.exists_max_image _ id some
      obtain ⟨inside, passes⟩ := Finset.mem_filter.mp passed
      obtain ⟨from_first, to_last⟩ := Finset.mem_Icc.mp inside
      have early :
          (Finset.Icc first last).filter (reports · = false) ⊆ Finset.Icc first latest := by
        intro call member
        have bounds := Finset.mem_Icc.mp (Finset.mem_filter.mp member).1
        exact Finset.mem_Icc.mpr ⟨bounds.1, greatest call member⟩
      have count := Finset.card_le_card early
      rw [Nat.card_Icc] at count
      have paid : (latest - first + 1) * refill ≤ time + burst * refill := by
        by_contra more
        have order := ordered to_last
        rw [← all,
          (exhausted_charge_iff refill burst ordered _).mpr ⟨first, from_first, by omega⟩] at passes
        cases passes
      have bound := (Nat.le_div_iff_mul_le positive).mpr paid
      rw [Nat.add_mul_div_right _ _ positive] at bound
      omega

/-- A budget reports what the charges on its debt report. -/
theorem exhausted_eq {σ : Type} {step : σ → Nat → σ × Bool} (debt : σ → Option Nat) {start : σ}
    (same : ∀ s now, charge refill burst (debt s) now = (debt (step s now).1, (step s now).2))
    (fresh : debt start = none) :
    exhausted step start times = exhausted (charge refill burst) none times := by
  have states (call : Nat) :
      debt (stateAt step start times call) = stateAt (charge refill burst) none times call := by
    induction call with
    | zero => exact fresh
    | succ call ih => rw [stateAt, stateAt, ← ih, same]
  funext call
  rw [exhausted, exhausted, ← states, same]

end

/-- Both reset budgets are exhausted by a charge exactly when some stretch of charges up to it is
longer than the burst and what its time returns; so within any time no more charges pass than the
burst and what that time returns, however long the budget was idle. -/
theorem resetBudgets_exact (times : Nat → Nat) (ordered : Monotone times) :
    (∀ refill burst, LeakyBucket refill burst times (exhausted (charge refill burst) none times)) ∧
    (∀ recv : H2.Recv, recv.resetDebtUntil = none →
      LeakyBucket H2.Recv.rapidResetRefill H2.Recv.rapidResetBurst times
        (exhausted H2.Recv.chargeInflightResetAt recv times)) ∧
    LeakyBucket h3CancelRefill h3CancelBurst times
      (exhausted CancelBudget.charge ⟨none⟩ times) := by
  refine ⟨fun refill burst => leakyBucket_charge refill burst ordered, fun recv fresh => ?_, ?_⟩
  · rw [exhausted_eq _ _ H2.Recv.resetDebtUntil (fun _ _ => rfl) fresh]
    exact leakyBucket_charge _ _ ordered
  · rw [exhausted_eq _ _ CancelBudget.debtUntil (fun _ _ => rfl) rfl]
    exact leakyBucket_charge _ _ ordered

/-- Two charges at every instant, with a burst of three and an interval of two. -/
theorem resetBudgets_exact_pairs : exhausted (charge 2 3) none (· / 2) 2 = false ∧
    exhausted (charge 2 3) none (· / 2) 3 = true := by
  have pairs := ((resetBudgets_exact (· / 2) fun _ _ => Nat.div_le_div_right).1 2 3).exhausted_iff
  exact ⟨by decide, (pairs 3).mpr ⟨0, by decide, by decide⟩⟩

/-! ## The send progress of a response -/

def h1SendMinProgress : Nat := 16 * 1024
def h1WriteProgressGrain : Nat := 64 * 1024

/-- `Duration::MAX`, in nanoseconds. -/
def durationMax : Nat := 2 ^ 64 * 10 ^ 9 - 1

structure SendProgress where
  window : Option Nat
  blocked : Nat
  progressed : Nat

namespace SendProgress

def new (window : Option Nat) : SendProgress := ⟨window, 0, 0⟩

variable (clock : SendProgress)

/-- What `budget` takes to be owed, in 64 bits. -/
def owed : Nat := (2 ^ 64 + h1SendMinProgress - clock.progressed) % 2 ^ 64

/-- How long a write may stay blocked: the rest of the window, and a window for each further step
it could report.  The source panics where the sum is beyond `durationMax`. -/
def budget (len : Nat) : Option Nat :=
  clock.window.map fun window =>
    let extra := (min len h1WriteProgressGrain - clock.owed) / h1SendMinProgress % 2 ^ 32
    window - clock.blocked + min (window * extra) durationMax

/-- The clock after a write, and whether it runs out. -/
def record (sent blocked : Nat) : SendProgress × Bool :=
  match clock.window with
  | none => (clock, false)
  | some window =>
    let progressed := min (clock.progressed + sent) (2 ^ 64 - 1)
    let blocked := min (clock.blocked + blocked) durationMax
    let earned := progressed / h1SendMinProgress
    let clock : SendProgress :=
      if 0 < earned then
        ⟨window, blocked - min (window * min earned (2 ^ 32 - 1)) durationMax,
          progressed % h1SendMinProgress⟩
      else ⟨window, blocked, progressed⟩
    (clock, decide (window ≤ clock.blocked))

/-- A clock with its credit taken off: nothing, where nothing is earned. -/
def credited (window sent blocked : Nat) : SendProgress :=
  let progressed := min (clock.progressed + sent) (2 ^ 64 - 1)
  ⟨some window, min (clock.blocked + blocked) durationMax -
    min (window * min (progressed / h1SendMinProgress) (2 ^ 32 - 1)) durationMax,
      progressed % h1SendMinProgress⟩

theorem record_armed {clock : SendProgress} {window : Nat} (armed : clock.window = some window)
    (sent blocked : Nat) : clock.record sent blocked =
      (clock.credited window sent blocked,
        decide (window ≤ (clock.credited window sent blocked).blocked)) := by
  rw [record, armed, credited]
  dsimp only
  split_ifs with earned
  · rfl
  · rw [Nat.eq_zero_of_not_pos earned, Nat.zero_min, Nat.mul_zero, Nat.zero_min, Nat.sub_zero,
      Nat.mod_eq_of_lt (Nat.lt_of_div_eq_zero (by decide) (Nat.eq_zero_of_not_pos earned))]

end SendProgress

/-- The writes of a response: what each of them sends, and how long it is blocked. -/
structure Writes where
  window : Nat
  sent : Nat → Nat
  blocked : Nat → Nat

namespace Writes

variable (w : Writes) (calls : Nat)

def record (clock : SendProgress) (call : Nat) : SendProgress × Bool :=
  clock.record (w.sent call) (w.blocked call)

/-- The clock after the first writes. -/
def clockAt : SendProgress := stateAt w.record (.new (some w.window)) id calls

/-- Whether the clock runs out at a write. -/
def timesOut (call : Nat) : Bool := exhausted w.record (.new (some w.window)) id call

def total (amounts : Nat → Nat) : Nat := ∑ call ∈ Finset.range calls, amounts call

/-- The whole steps in what is sent. -/
def steps : Nat := total calls w.sent / h1SendMinProgress

theorem total_succ (amounts : Nat → Nat) :
    total (calls + 1) amounts = total calls amounts + amounts calls :=
  Finset.sum_range_succ amounts calls

theorem window_clockAt : (w.clockAt calls).window = some w.window := by
  induction calls with
  | zero => rfl
  | succ calls ih => exact congrArg (fun step => step.1.window) (SendProgress.record_armed ih ..)

theorem clockAt_succ :
    w.clockAt (calls + 1) = (w.clockAt calls).credited w.window (w.sent calls) (w.blocked calls) :=
  congrArg Prod.fst (SendProgress.record_armed (w.window_clockAt calls) _ _)

theorem timesOut_eq : w.timesOut calls = decide (w.window ≤ (w.clockAt (calls + 1)).blocked) := by
  rw [clockAt_succ]
  exact congrArg Prod.snd (SendProgress.record_armed (w.window_clockAt calls) _ _)

theorem progressed_lt : (w.clockAt calls).progressed < h1SendMinProgress := by
  cases calls with
  | zero => exact Nat.zero_lt_succ _
  | succ =>
    rw [clockAt_succ]
    exact Nat.mod_lt _ (by decide)

/-- The blocked time is on the clock but for a window for each step that was sent. -/
theorem blocked_le (representable : total calls w.blocked ≤ durationMax) :
    ∃ earned, earned * h1SendMinProgress + (w.clockAt calls).progressed ≤ total calls w.sent ∧
      total calls w.blocked ≤ (w.clockAt calls).blocked + w.window * earned := by
  induction calls with
  | zero => exact ⟨0, le_rfl, le_rfl⟩
  | succ calls ih =>
    rw [total_succ] at representable
    obtain ⟨earned, counted, covered⟩ := ih (le_trans (Nat.le_add_right ..) representable)
    rw [clockAt_succ, SendProgress.credited, total_succ, total_succ]
    dsimp only
    generalize (w.clockAt calls).progressed = before at counted ⊢
    have whole := Nat.div_add_mod' (min (before + w.sent calls) (2 ^ 64 - 1)) h1SendMinProgress
    generalize min (before + w.sent calls) (2 ^ 64 - 1) / h1SendMinProgress = more at whole ⊢
    refine ⟨earned + more, ?_, ?_⟩
    · rw [Nat.add_mul]
      omega
    · have credit : w.window * min more (2 ^ 32 - 1) ≤ w.window * more :=
        Nat.mul_le_mul_left _ (min_le_left ..)
      rw [Nat.mul_add]
      omega

/-- The clock shows no more than the writes from some point on account for. -/
theorem le_blocked (few : ∀ call, w.sent call + h1SendMinProgress ≤ 2 ^ 46) :
    (w.clockAt calls).progressed = total calls w.sent % h1SendMinProgress ∧
      ∃ first ≤ calls,
        (w.clockAt calls).blocked + total first w.blocked + w.window * w.steps calls ≤
        total calls w.blocked + w.window * w.steps first := by
  induction calls with
  | zero => exact ⟨rfl, 0, le_rfl, le_rfl⟩
  | succ calls ih =>
    obtain ⟨progressed, first, earlier, charged⟩ := ih
    have bounded := few calls
    obtain ⟨more, crossed, earned⟩ : ∃ more, w.steps (calls + 1) = w.steps calls + more ∧
        (total calls w.sent % h1SendMinProgress + w.sent calls) / h1SendMinProgress = more := by
      refine ⟨_, ?_, rfl⟩
      rw [steps, steps, total_succ, h1SendMinProgress]
      omega
    have unclamped : min (total calls w.sent % h1SendMinProgress + w.sent calls) (2 ^ 64 - 1) =
        total calls w.sent % h1SendMinProgress + w.sent calls ∧ min more (2 ^ 32 - 1) = more := by
      rw [h1SendMinProgress] at *
      omega
    rw [clockAt_succ, SendProgress.credited, crossed]
    dsimp only
    rw [progressed, unclamped.1, earned, unclamped.2]
    refine ⟨by rw [Nat.mod_add_mod, total_succ], ?_⟩
    by_cases paid : min ((w.clockAt calls).blocked + w.blocked calls) durationMax ≤
        min (w.window * more) durationMax
    · refine ⟨calls + 1, le_rfl, ?_⟩
      rw [crossed, Nat.sub_eq_zero_of_le paid, Nat.zero_add]
    · refine ⟨first, le_trans earlier (Nat.le_succ _), ?_⟩
      rw [total_succ, Nat.mul_add]
      omega

/-- The rate that is enforced: what passes was blocked for less than a window and one for each
whole step, and a write passes when that holds of the writes from every point on. -/
theorem sendProgress_bounds (w : Writes) (positive : 0 < w.window) :
    (∀ calls, (w.clockAt calls).progressed < h1SendMinProgress ∧
      (w.clockAt calls).owed = h1SendMinProgress - (w.clockAt calls).progressed ∧
      ∀ len, (w.clockAt calls).budget len = some (w.window - (w.clockAt calls).blocked +
        min (w.window * ((min len h1WriteProgressGrain -
          (h1SendMinProgress - (w.clockAt calls).progressed)) / h1SendMinProgress)) durationMax)) ∧
    (∀ calls, total calls w.blocked ≤ durationMax → (∀ call < calls, w.timesOut call = false) →
      total calls w.blocked < w.window * (1 + w.steps calls)) ∧
    ((∀ call, w.sent call + h1SendMinProgress ≤ 2 ^ 46) → ∀ call,
      (∀ first ≤ call, total (call + 1) w.blocked + w.window * w.steps first <
        total first w.blocked + w.window * (1 + w.steps (call + 1))) →
      w.timesOut call = false) := by
  refine ⟨fun calls => ?_, fun calls representable pass => ?_, fun few call within => ?_⟩
  · have below := w.progressed_lt calls
    have owed : (w.clockAt calls).owed = h1SendMinProgress - (w.clockAt calls).progressed := by
      rw [SendProgress.owed, h1SendMinProgress] at *
      omega
    refine ⟨below, owed, fun len => ?_⟩
    have few :
        (min len h1WriteProgressGrain - (w.clockAt calls).owed) / h1SendMinProgress < 2 ^ 32 := by
      rw [h1SendMinProgress, h1WriteProgressGrain]
      omega
    rw [SendProgress.budget, window_clockAt, Option.map_some, ← owed, Nat.mod_eq_of_lt few]
  · obtain ⟨earned, counted, covered⟩ := w.blocked_le calls representable
    have fewer : earned ≤ w.steps calls :=
      (Nat.le_div_iff_mul_le (by decide)).mpr (le_trans (Nat.le_add_right ..) counted)
    have credit := Nat.mul_le_mul_left w.window fewer
    have left : (w.clockAt calls).blocked < w.window := by
      cases calls with
      | zero => exact positive
      | succ calls =>
        have passed := pass calls (Nat.lt_succ_self calls)
        rw [timesOut_eq, decide_eq_false_iff_not] at passed
        exact Nat.not_le.mp passed
    rw [Nat.mul_add, Nat.mul_one]
    omega
  · rw [timesOut_eq, decide_eq_false_iff_not, Nat.not_le]
    obtain ⟨-, first, earlier, charged⟩ := w.le_blocked (call + 1) few
    rcases Nat.lt_or_eq_of_le earlier with before | rfl
    · have kept := within first (Nat.le_of_lt_succ before)
      rw [Nat.mul_add, Nat.mul_one] at kept
      omega
    · omega

theorem sendProgress_bounds_steady :
    timesOut ⟨10, fun _ => h1SendMinProgress, fun _ => 5⟩ 3 = false := by
  have few : h1SendMinProgress + h1SendMinProgress ≤ 2 ^ 46 := by decide
  exact (sendProgress_bounds ⟨10, _, _⟩ (by decide)).2.2 (fun _ => few) 3 (by decide)

/-- Two writes that are blocked for longer than a clock can show. -/
def endless : Writes :=
  ⟨2 ^ 63 * 10 ^ 9, (· * h1SendMinProgress), fun call => if call = 0 then 1 else durationMax⟩

/-- A write that earns more windows than 32 bits count. -/
def generous : Writes := ⟨1, fun _ => 2 ^ 50, fun _ => 2 ^ 33⟩

/-- The writes of the first pass though they were blocked for too long; that of the second was not,
and does not pass. -/
theorem sendProgress_exceeded :
    (endless.timesOut 0 = false ∧ endless.timesOut 1 = false ∧
      total 2 endless.blocked = endless.window * (1 + endless.steps 2)) ∧
    total 1 generous.blocked + generous.window * generous.steps 0 <
        total 0 generous.blocked + generous.window * (1 + generous.steps 1) ∧
      generous.timesOut 0 = true := by
  decide

end Writes

end HttpJet.Rates
