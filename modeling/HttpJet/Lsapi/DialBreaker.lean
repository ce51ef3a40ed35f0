import Mathlib.Data.List.Chain
import Mathlib.Data.List.Infix

/-!
# The dial breaker

The breaker opens on failures that follow each other closely for long enough, closes on a
success, and while it is open admits one trial at a time.
-/

namespace HttpJet.Lsapi

open List

/-- In nanoseconds. -/
abbrev Instant := Nat

def breakerTrialCooldown : Nat := 1000000000

def breakerTripAfter : Nat := 8000000000

def breakerEpisodeGap : Nat := 2000000000

structure FailEpisode where
  first : Instant
  last : Instant

structure DialBreaker where
  episode : Option FailEpisode
  isOpen : Bool
  nextTrialAt : Instant
  trialInFlight : Bool

inductive DialAdmission where
  | proceed
  | trial
  | reject
  deriving DecidableEq

namespace DialBreaker

def new (now : Instant) : DialBreaker := ⟨none, false, now, false⟩

variable (b : DialBreaker)

def admitDial (now : Instant) : DialBreaker × DialAdmission :=
  if !b.isOpen then (b, .proceed)
  else if b.nextTrialAt ≤ now ∧ b.trialInFlight = false then
    ({ b with trialInFlight := true, nextTrialAt := now + breakerTrialCooldown }, .trial)
  else (b, .reject)

def record (success : Bool) (now : Instant) : DialBreaker :=
  if success then { b with episode := none, isOpen := false }
  else
    let first :=
      match b.episode with
      | some e => if now - e.last ≤ breakerEpisodeGap then e.first else now
      | none => now
    { b with episode := some ⟨first, now⟩, isOpen := b.isOpen || breakerTripAfter ≤ now - first }

end DialBreaker

/-! ## Calls -/

inductive DialCall where
  | record (success : Bool) (now : Instant)
  | admits (now : Instant)
  | dropGuard

def DialCall.now? : DialCall → Option Instant
  | .record _ now | .admits now => some now
  | .dropGuard => none

/-- The breaker, the number of its live guards, and when they were handed out, the last first. -/
structure Dialing where
  breaker : DialBreaker
  live : Nat
  trials : List Instant

namespace Dialing

def step (d : Dialing) : DialCall → Dialing
  | .record success now => { d with breaker := d.breaker.record success now }
  | .admits now =>
    match d.breaker.admitDial now with
    | (b, .trial) => ⟨b, d.live + 1, now :: d.trials⟩
    | (b, _) => { d with breaker := b }
  | .dropGuard =>
    -- There may be no guard to drop.
    if d.live = 0 then d
    else { d with breaker := { d.breaker with trialInFlight := false }, live := d.live - 1 }

def run (created : Instant) (calls : List DialCall) : Dialing :=
  calls.foldl step ⟨.new created, 0, []⟩

end Dialing

/-- The failures since the last success, the last first. -/
def failedAfter (failed : List Instant) : DialCall → List Instant
  | .record true _ => []
  | .record false now => now :: failed
  | _ => failed

def failures (calls : List DialCall) : List Instant := calls.foldl failedAfter []

/-- Failures in a row, none long after the one before. -/
def Ongoing (failed : List Instant) : Prop :=
  failed.IsChain fun later earlier => later - earlier ≤ breakerEpisodeGap

/-- Failures went on for too long. -/
def Tripped (failed : List Instant) : Prop :=
  ∃ chain, chain <:+: failed ∧ Ongoing chain ∧
    ∃ last ∈ chain, ∃ first ∈ chain, breakerTripAfter ≤ last - first

/-- Where the failures that go on up to `last` began. -/
def episodeStart (last : Instant) : List Instant → Instant
  | [] => last
  | earlier :: failed =>
    if last - earlier ≤ breakerEpisodeGap then episodeStart earlier failed else last

variable {now : Instant} {failed : List Instant}

theorem episodeStart_reached (now : Instant) (failed : List Instant) :
    ∃ chain, now :: chain <+: now :: failed ∧ Ongoing (now :: chain) ∧
      episodeStart now failed ∈ now :: chain := by
  induction failed generalizing now with
  | nil => exact ⟨[], by simp [Ongoing, episodeStart]⟩
  | cons earlier failed ih =>
    obtain ⟨chain, begins, ongoing, member⟩ := ih earlier
    rw [episodeStart]
    split_ifs with close
    · exact ⟨earlier :: chain, by simpa using begins, ongoing.cons_cons close,
        mem_cons_of_mem _ member⟩
    · exact ⟨[], by simp [Ongoing]⟩

theorem episodeStart_le {chain : List Instant} (sorted : (now :: failed).Pairwise (· ≥ ·))
    (begins : chain <+: now :: failed) (ongoing : Ongoing chain) :
    ∀ time ∈ chain, episodeStart now failed ≤ time := by
  induction failed generalizing now chain with
  | nil =>
    intro time member
    simpa [episodeStart] using (mem_singleton.mp (begins.subset member)).ge
  | cons earlier failed ih =>
    obtain ⟨before, rest⟩ := pairwise_cons.mp sorted
    cases chain with
    | nil => exact nofun
    | cons head chain =>
      obtain ⟨rfl, within⟩ := cons_prefix_cons.mp begins
      intro time member
      rw [episodeStart]
      split_ifs with close
      · rcases mem_cons.mp member with rfl | member
        · have start :=
            ih rest (prefix_append [earlier] failed) (.singleton _) earlier mem_cons_self
          exact start.trans (before earlier mem_cons_self)
        · exact ih rest within ongoing.tail time member
      · rcases mem_cons.mp member with rfl | member
        · exact le_rfl
        · cases chain with
          | nil => nomatch member
          | cons next chain =>
            obtain ⟨rfl, -⟩ := cons_prefix_cons.mp within
            exact absurd (isChain_cons_cons.mp ongoing).1 close

theorem tripped_cons (sorted : (now :: failed).Pairwise (· ≥ ·)) :
    Tripped (now :: failed) ↔ Tripped failed ∨
      breakerTripAfter ≤ now - episodeStart now failed := by
  constructor
  · rintro ⟨chain, within, ongoing, last, isLast, first, isFirst, long⟩
    rcases infix_cons_iff.mp within with begins | within
    · have start := episodeStart_le sorted begins ongoing first isFirst
      have latest : last ≤ now := by
        rcases mem_cons.mp (begins.subset isLast) with rfl | earlier
        · exact le_rfl
        · exact (pairwise_cons.mp sorted).1 last earlier
      exact .inr (long.trans ((Nat.sub_le_sub_right latest _).trans (Nat.sub_le_sub_left start _)))
    · exact .inl ⟨chain, within, ongoing, last, isLast, first, isFirst, long⟩
  · rintro (⟨chain, within, rest⟩ | long)
    · exact ⟨chain, within.trans (suffix_cons now failed).isInfix, rest⟩
    · obtain ⟨chain, begins, ongoing, member⟩ := episodeStart_reached now failed
      exact ⟨now :: chain, begins.isInfix, ongoing, now, mem_cons_self, _, member, long⟩

/-! ## Runs -/

structure Traced (created : Instant) (failed : List Instant) (d : Dialing) : Prop where
  episode : d.breaker.episode = failed.head?.map fun last => ⟨episodeStart last failed.tail, last⟩
  isOpen : d.breaker.isOpen = true ↔ Tripped failed
  guarded : d.live = d.breaker.trialInFlight.toNat
  next : d.breaker.nextTrialAt = (d.trials.head?.map (· + breakerTrialCooldown)).getD created
  spaced : d.trials.Pairwise fun later earlier => earlier + breakerTrialCooldown ≤ later

variable {created : Instant} {d : Dialing}

section

variable (traced : Traced created failed d)
include traced

theorem Traced.fail (sorted : (now :: failed).Pairwise (· ≥ ·)) :
    Traced created (now :: failed) (d.step (.record false now)) where
  episode := by
    cases failed <;> simp [Dialing.step, DialBreaker.record, traced.episode, episodeStart]
  isOpen := by
    rw [tripped_cons sorted, ← traced.isOpen]
    cases failed <;> simp [Dialing.step, DialBreaker.record, traced.episode, episodeStart]
  guarded := traced.guarded
  next := traced.next
  spaced := traced.spaced

theorem Traced.succeed : Traced created [] (d.step (.record true now)) :=
  { traced with episode := rfl, isOpen := by simp [Dialing.step, DialBreaker.record, Tripped] }

theorem Traced.admits (now : Instant) : Traced created failed (d.step (.admits now)) := by
  simp only [Dialing.step, DialBreaker.admitDial]
  split_ifs with shut free
  · exact traced
  · obtain ⟨due, idle⟩ := free
    refine { traced with guarded := by simp [traced.guarded, idle], next := rfl, spaced := ?_ }
    have spaced := traced.spaced
    rw [traced.next] at due
    refine pairwise_cons.mpr ⟨fun earlier member => ?_, spaced⟩
    cases trials : d.trials with
    | nil => simp [trials] at member
    | cons last trials =>
      rw [trials] at due spaced member
      rcases mem_cons.mp member with rfl | member
      · exact due
      · exact ((pairwise_cons.mp spaced).1 earlier member).trans ((Nat.le_add_right ..).trans due)
  · exact traced

theorem Traced.dropGuard : Traced created failed (d.step .dropGuard) := by
  rw [Dialing.step]
  split_ifs with none
  · exact traced
  · have guarded := traced.guarded
    have few := d.breaker.trialInFlight.toNat_le
    exact { traced with guarded := by simp; omega }

end

theorem Traced.run (traced : Traced created failed d) {calls : List DialCall}
    (ordered : (failed.reverse ++ calls.filterMap DialCall.now?).Pairwise (· ≤ ·)) :
    Traced created (calls.foldl failedAfter failed) (calls.foldl Dialing.step d) := by
  induction calls generalizing failed d with
  | nil => exact traced
  | cons call calls ih =>
    cases call with
    | record success now =>
      cases success with
      | true => exact ih traced.succeed (pairwise_append.mp ordered).2.1.of_cons
      | false =>
        have later :
            ((now :: failed).reverse ++ calls.filterMap DialCall.now?).Pairwise (· ≤ ·) := by
          simpa [DialCall.now?] using ordered
        exact ih (traced.fail (pairwise_reverse.mp (pairwise_append.mp later).1)) later
    | admits now =>
      exact ih (traced.admits now)
        (ordered.sublist ((sublist_cons_self now _).append_left failed.reverse))
    | dropGuard => exact ih traced.dropGuard ordered

/-- The breaker is open after failures that went on for too long; then it admits one trial at a
time and one in a cooldown, and refuses none that is due. -/
theorem breaker_trips_and_recovers (created : Instant) (calls : List DialCall)
    (ordered : (created :: calls.filterMap DialCall.now?).Pairwise (· ≤ ·)) :
    let d := Dialing.run created calls
    (d.breaker.isOpen = true ↔ Tripped (failures calls)) ∧ d.live ≤ 1 ∧
      (d.trials.Pairwise fun later earlier => earlier + breakerTrialCooldown ≤ later) ∧
      ∀ now, created ≤ now → d.breaker.isOpen = true → d.live = 0 →
        (∀ trial ∈ d.trials, trial + breakerTrialCooldown ≤ now) →
          (d.breaker.admitDial now).2 = .trial := by
  intro d
  have fresh : Traced created [] ⟨.new created, 0, []⟩ :=
    ⟨rfl, by simp [DialBreaker.new, Tripped], rfl, rfl, .nil⟩
  have traced : Traced created (failures calls) d := fresh.run ordered.of_cons
  refine ⟨traced.isOpen, traced.guarded ▸ Bool.toNat_le _, traced.spaced, ?_⟩
  intro now since isOpen none cooled
  have idle : d.breaker.trialInFlight = false := by simpa [none] using traced.guarded.symm
  have due : d.breaker.nextTrialAt ≤ now := by
    rw [traced.next]
    cases trials : d.trials with
    | nil => exact since
    | cons last trials => exact cooled last (trials ▸ mem_cons_self)
  simp [DialBreaker.admitDial, isOpen, due, idle]

/-- Failures every two seconds, for eight seconds. -/
theorem breaker_trips :
    let calls := (range 5).map fun i => DialCall.record false (i * breakerEpisodeGap)
    (Dialing.run 0 calls).breaker.isOpen = true ∧ Tripped (failures calls) :=
  ⟨by rfl, (breaker_trips_and_recovers 0 _ (by decide)).1.mp (by rfl)⟩

end HttpJet.Lsapi
