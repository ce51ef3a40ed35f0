import Mathlib.Data.List.Basic
import Mathlib.Logic.Relation

/-!
# Loops and runs

A turn of a loop goes on with a new state or stops with a result.  `Passes` relates the states of
one execution and `Ends` its first state to the result; fuel above a measure that the turns decrease
finds it. A run folds a step function over a list of events, and `noted` runs a history beside the
machine: what an observer has written down about the events.
-/

namespace HttpJet.Library

/-- An invariant of the steps of a relation is an invariant of its sequences of steps. -/
theorem Runs.steps_invariant {σ : Type*} {step : σ → σ → Prop} {Inv : σ → Prop}
    (preserved : ∀ s s', step s s' → Inv s → Inv s') {s s' : σ}
    (steps : Relation.ReflTransGen step s s') (holds : Inv s) : Inv s' := by
  induction steps with
  | refl => exact holds
  | tail _ taken ih => exact preserved _ _ taken ih

inductive Turn (σ ρ : Type) where
  | again (state : σ)
  | stop (result : ρ)
  deriving DecidableEq

namespace Loop

variable {σ ρ : Type}
variable {s t u : σ} {result : ρ}

def run (turn : σ → Turn σ ρ) : Nat → σ → Option ρ
  | 0, _ => none
  | fuel + 1, s =>
    match turn s with
    | .again next => run turn fuel next
    | .stop result => some result

/-- An execution takes the first state to the second. -/
def Passes (turn : σ → Turn σ ρ) : σ → σ → Prop :=
  Relation.ReflTransGen fun s next => turn s = .again next

/-- An execution from the state stops with the result. -/
def Ends (turn : σ → Turn σ ρ) (s : σ) (result : ρ) : Prop :=
  ∃ last, Passes turn s last ∧ turn last = .stop result

variable {turn : σ → Turn σ ρ}

theorem Passes.refl (s : σ) : Passes turn s s := Relation.ReflTransGen.refl

theorem Passes.trans (first : Passes turn s t) (second : Passes turn t u) :
    Passes turn s u := Relation.ReflTransGen.trans first second

theorem Passes.single (taken : turn s = .again t) : Passes turn s t :=
  Relation.ReflTransGen.single taken

/-- An execution is a chain: of two of its states one leads to the other. -/
theorem Passes.total (first : Passes turn s t) (second : Passes turn s u) :
    Passes turn t u ∨ Passes turn u t := by
  refine Relation.ReflTransGen.total_of_right_unique ?_ first second
  intro a b c ab ac
  rw [ab] at ac
  exact Turn.again.inj ac

/-- A state that stops leads nowhere else. -/
theorem Passes.eq_of_stop (stops : turn s = .stop result) (passes : Passes turn s t) : t = s := by
  cases Relation.ReflTransGen.cases_head passes with
  | inl same => exact same.symm
  | inr taken =>
    obtain ⟨_, again, _⟩ := taken
    rw [stops] at again
    contradiction

theorem Passes.cases_again (taken : turn s = .again t) (passes : Passes turn s u) :
    u = s ∨ Passes turn t u := by
  cases Relation.ReflTransGen.cases_head passes with
  | inl same => exact .inl same.symm
  | inr first =>
    obtain ⟨_, again, rest⟩ := first
    rw [taken] at again
    rw [Turn.again.inj again]
    exact .inr rest

/-- A property that every turn keeps holds along an execution. -/
theorem Passes.invariant {P : σ → Prop} (kept : ∀ s next, turn s = .again next → P s → P next)
    (passes : Passes turn s t) (holds : P s) : P t :=
  Runs.steps_invariant kept passes holds

/-- The states of an execution have one result. -/
theorem Ends.later (passes : Passes turn s t) (ends : Ends turn s result) : Ends turn t result := by
  obtain ⟨last, whole, stops⟩ := ends
  cases passes.total whole with
  | inl rest => exact ⟨last, rest, stops⟩
  | inr back => exact ⟨last, by rw [back.eq_of_stop stops]; exact Passes.refl last, stops⟩

theorem Ends.unique {first second : ρ} (one : Ends turn s first) (two : Ends turn s second) :
    first = second := by
  obtain ⟨_, passes, stops⟩ := one
  obtain ⟨_, passes', stops'⟩ := two.later passes
  rw [passes'.eq_of_stop stops, stops] at stops'
  exact Turn.stop.inj stops'

theorem ends_of_run {fuel : Nat} (found : run turn fuel s = some result) : Ends turn s result := by
  induction fuel generalizing s with
  | zero => contradiction
  | succ _ ih =>
    rw [run] at found
    cases taken : turn s with
    | again =>
      rw [taken] at found
      obtain ⟨last, rest, stops⟩ := ih found
      exact ⟨last, (Passes.single taken).trans rest, stops⟩
    | stop =>
      rw [taken] at found
      rw [Option.some.inj found] at taken
      exact ⟨s, Passes.refl s, taken⟩

section

variable {measure : σ → Nat} (decreases : ∀ s next, turn s = .again next → measure next < measure s)

include decreases

theorem run_isSome {fuel : Nat} (enough : measure s < fuel) : (run turn fuel s).isSome := by
  induction fuel generalizing s with
  | zero => contradiction
  | succ _ ih =>
    rw [run]
    cases taken : turn s with
    | again next =>
      have smaller := decreases s next taken
      exact ih (by omega)
    | stop => rfl

end

/-- Two loops whose turns agree agree, unless a turn stops one of them. -/
theorem run_agrees {other : σ → Turn σ ρ} {P : ρ → Prop}
    (agrees : ∀ s, turn s = other s ∨ ∃ result, turn s = .stop result ∧ P result)
    (fuel : Nat) (s : σ) :
    run turn fuel s = run other fuel s ∨ ∃ result, run turn fuel s = some result ∧ P result := by
  induction fuel generalizing s with
  | zero => exact .inl rfl
  | succ _ ih =>
    rw [run, run]
    obtain same | ⟨result, stops, given⟩ := agrees s
    · rw [← same]
      cases turn s with
      | again next => exact ih next
      | stop => exact .inl rfl
    · exact .inr ⟨result, by rw [stops], given⟩

end Loop

end HttpJet.Library

namespace HttpJet.Library.Runs

variable {σ ε η : Type*}

/-- Step the machine and let the observer note what the event did. -/
def noted (step : σ → ε → σ) (note : σ → ε → η → η) (state : σ × η) (e : ε) : σ × η :=
  (step state.1 e, note state.1 e state.2)

/-- The history of a run. -/
def history (step : σ → ε → σ) (note : σ → ε → η → η) (s : σ) (h : η) (events : List ε) : η :=
  (events.foldl (noted step note) (s, h)).2

theorem foldl_noted_fst (step : σ → ε → σ) (note : σ → ε → η → η) (s : σ) (h : η)
    (events : List ε) : (events.foldl (noted step note) (s, h)).1 = events.foldl step s := by
  induction events generalizing s h with
  | nil => rfl
  | cons e _ ih => exact ih (step s e) (note s e h)

theorem history_concat (step : σ → ε → σ) (note : σ → ε → η → η) (s : σ) (h : η) (events : List ε)
    (e : ε) : history step note s h (events ++ [e]) =
      note (events.foldl step s) e (history step note s h events) := by
  rw [history, List.foldl_append, List.foldl_cons, List.foldl_nil, noted, foldl_noted_fst]
  rfl

/-- An invariant of the events read so far and of the state, for steps that may fail. -/
theorem foldlM_invariant {ω : Type*} {step : σ → ε → Except ω σ} (Inv : List ε → σ → Prop)
    {events : List ε}
    (preserved : ∀ before, ∀ e ∈ events, ∀ s s', Inv before s → step s e = .ok s' →
      Inv (before ++ [e]) s')
    (before : List ε) {s s' : σ} (holds : Inv before s) (ran : events.foldlM step s = .ok s') :
    Inv (before ++ events) s' := by
  induction events generalizing before s with
  | nil =>
    obtain rfl := Except.ok.inj ran
    rw [List.append_nil]
    exact holds
  | cons e _ ih =>
    rw [List.foldlM_cons] at ran
    cases stepped : step s e with
    | error =>
      rw [stepped] at ran
      nomatch ran
    | ok next =>
      rw [stepped] at ran
      have first := preserved before e List.mem_cons_self s next holds stepped
      have later :=
        ih (fun before e listed => preserved before e (List.mem_cons_of_mem _ listed)) _ first ran
      rwa [List.append_assoc] at later

end HttpJet.Library.Runs
