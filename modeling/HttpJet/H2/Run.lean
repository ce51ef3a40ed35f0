import HttpJet.H2.Loop
import HttpJet.Library.Runs

/-!
# Inductions over runs

A run is a list of events in the order the loop selects them.  `live_invariant` is for what holds of
the core and the frames fed as long as the loop is live, `run_invariant` for what holds of the core
in every state, and `link_invariant` for what holds of the whole link and its notes.

Pumping ends: each visit that writes takes a pending byte or an unfinished response away, and
between two of them the schedule is gone through at most once, so the pump never stops for its fuel.
-/

namespace HttpJet.H2.Conn

open Library List
open HttpJet.H2.Core (Moves MovesTo)
open Link (Acts ActsTo Feeds)

variable {config : Config} {events : List Event}

/-- The frames a run has fed to frame processing. -/
def fedFrames (config : Config) (events : List Event) : List Frame :=
  Runs.history (step config) (fun c e frames => frames ++ (fed config c e).toList) (fresh config) []
    events

/-- What a run has taken in. -/
def notes (config : Config) (events : List Event) : List Note :=
  Runs.history (step config) (fun c e taken => taken ++ observe config c e) (fresh config) [] events

theorem run_concat (config : Config) (events : List Event) (e : Event) :
    run config (events ++ [e]) = step config (run config events) e := by
  rw [run, run, foldl_append]
  rfl

theorem fedFrames_concat (config : Config) (events : List Event) (e : Event) :
    fedFrames config (events ++ [e]) =
      fedFrames config events ++ (fed config (run config events) e).toList := by
  rw [fedFrames, Runs.history_concat]
  rfl

theorem notes_concat (config : Config) (events : List Event) (e : Event) :
    notes config (events ++ [e]) = notes config events ++ observe config (run config events) e := by
  rw [notes, Runs.history_concat]
  rfl

/-- The loop still reads, or it stopped without a GOAWAY. -/
def Live (c : Conn) : Prop := c.reading = true ∨ ∀ seg ∈ c.session.core.out, ¬seg.IsGoaway

/-- What is known of the core and of the frames fed so far, as long as the loop is live. -/
theorem live_invariant (Inv : Core → List Frame → Prop) (start : Inv (fresh config).session.core [])
    (handled : ∀ {active accepting f k k' outcome frames}, Inv k frames →
      Core.Handles active accepting f k k' outcome → outcome ≠ .stopReading →
        Inv k' (frames ++ [f]))
    (moved : ∀ {k k' frames}, Inv k frames → Moves k k' → Inv k' frames) (events : List Event) :
    Live (run config events) → Inv (run config events).session.core (fedFrames config events) := by
  have movedTo {k k' : Core} {frames : List Frame} (holds : Inv k frames) (moves : MovesTo k k') :
      Inv k' frames := by
    induction moves with
    | refl => exact holds
    | tail _ last ih => exact moved ih last
  induction events using reverseRecOn with
  | nil => exact fun _ => start
  | append_singleton events e ih =>
    rw [run_concat, fedFrames_concat]
    intro live
    obtain ⟨idle, acts⟩ | ⟨f, l, feeds, ⟨reads, handles⟩, acts⟩ :=
      step_link config (run config events) e []
    · rw [idle, Option.toList_none, append_nil]
      refine movedTo (ih ?_) acts.moves
      exact live.imp acts.reading fun none seg member => none seg (acts.moves.out.subset member)
    · have moves := acts.moves
      rw [Link.settle_core] at moves
      rw [feeds, Option.toList_some]
      refine movedTo (handled (ih (.inl reads)) handles ?_) moves
      rintro rfl
      rcases live with reads' | none
      · nomatch (acts.reading reads')
      · obtain ⟨seg, member, isGoaway⟩ := handles.bounds.1.2 rfl
        exact none seg (moves.out.subset member) isGoaway

/-- A property of the core that frames keep in a live state, and moves keep always. -/
theorem run_invariant (Inv : Core → List Frame → Prop) (Always : Core → Prop)
    (live : ∀ events, Live (run config events) →
      Inv (run config events).session.core (fedFrames config events))
    (start : Always (fresh config).session.core)
    (handled : ∀ {active accepting f k k' outcome frames}, Inv k frames → Always k →
      Core.Handles active accepting f k k' outcome → Always k')
    (moved : ∀ {k k'}, Always k → Moves k k' → Always k') (events : List Event) :
    Always (run config events).session.core := by
  have movedTo {k k' : Core} (holds : Always k) (moves : MovesTo k k') : Always k' := by
    induction moves with
    | refl => exact holds
    | tail _ last ih => exact moved ih last
  induction events using reverseRecOn with
  | nil => exact start
  | append_singleton events e ih =>
    rw [run_concat]
    obtain ⟨_, acts⟩ | ⟨f, l, _, ⟨reads, handles⟩, acts⟩ :=
      step_link config (run config events) e []
    · exact movedTo ih acts.moves
    · have moves := acts.moves
      rw [Link.settle_core] at moves
      exact movedTo (handled (live events (.inl reads)) ih handles) moves

/-- The limits of a connection are those of its configuration. -/
theorem run_limits (config : Config) (events : List Event) :
    Core.SameLimits (fresh config).session.core (run config events).session.core :=
  run_invariant (fun _ _ => True) (Core.SameLimits (fresh config).session.core)
    (fun _ _ => trivial) ⟨rfl, rfl, rfl⟩ (fun _ same handles => same.trans handles.bounds.2.1)
    (fun same moves => same.trans moves.steady.1) events

/-! ## The whole link -/

/-- The link of a run, with what it has taken in. -/
def linkOf (config : Config) (events : List Event) : Link :=
  (run config events).link (notes config events)

/-- Every frame that the run feeds to frame processing is one that is allowed then. -/
def Obeys (config : Config) (Allowed : Frame → Core → Prop) (events : List Event) : Prop :=
  ∀ earlier e f, earlier ++ [e] <+: events → fed config (run config earlier) e = some f →
    Allowed f (run config earlier).session.core

theorem Obeys.always (events : List Event) :
    Obeys config (fun _ _ => True) events := fun _ _ _ _ _ => trivial

theorem fedFrames_within (config : Config) (earlier later : List Event) :
    fedFrames config earlier <+: fedFrames config (earlier ++ later) := by
  induction later using reverseRecOn with
  | nil => exact ⟨[], congrArg (fedFrames config) (append_nil earlier) ▸ append_nil _⟩
  | append_singleton _ _ ih =>
    rw [← append_assoc, fedFrames_concat]
    exact ih.trans (prefix_append ..)

theorem Obeys.of_fed {Allowed : Frame → Core → Prop}
    (each : ∀ f ∈ fedFrames config events, ∀ k, Allowed f k) : Obeys config Allowed events := by
  rintro earlier e f ⟨later, rfl⟩ feeds
  refine each f ((fedFrames_within config (earlier ++ [e]) later).subset ?_) _
  rw [fedFrames_concat, feeds]
  exact mem_append_right _ (mem_singleton_self f)

theorem Obeys.of_frames {Allowed : Frame → Core → Prop}
    (each : ∀ {f now inFlight}, Event.frame f now inFlight ∈ events → ∀ k, Allowed f k) :
    Obeys config Allowed events := by
  intro earlier e f early feeds
  cases e with
  | frame =>
    obtain ⟨_, same⟩ := Option.ite_none_right_eq_some.mp feeds
    cases same
    exact each (early.subset (mem_append_right _ (mem_singleton_self _))) _
  | _ => cases feeds

theorem acts_invariant {Inv : Link → Prop} (acted : ∀ {l l'}, Inv l → Acts l l' → Inv l')
    {l l' : Link} (holds : Inv l) (acts : ActsTo l l') : Inv l' := by
  induction acts with
  | refl => exact holds
  | tail _ last ih => exact acted ih last

/-- What actions keep, and frames keep where they are allowed, holds after every run that
feeds allowed frames only. -/
theorem link_invariant (Inv : Link → Prop) (Allowed : Frame → Core → Prop)
    (start : Inv ((fresh config).link []))
    (fed : ∀ {f l l'}, Inv l → Allowed f l.core → Feeds f l l' → Inv l')
    (acted : ∀ {l l'}, Inv l → Acts l l' → Inv l') (events : List Event)
    (obeys : Obeys config Allowed events) : Inv (linkOf config events) := by
  induction events using reverseRecOn with
  | nil => exact start
  | append_singleton events e ih =>
    have holds := ih fun earlier e f shorter =>
      obeys earlier e f (shorter.trans (prefix_append ..))
    rw [linkOf, run_concat, notes_concat]
    obtain ⟨_, acts⟩ | ⟨f, l, feeds, handled, acts⟩ :=
      step_link config (run config events) e (notes config events)
    · exact acts_invariant acted holds acts
    · have allowed := obeys events e f prefix_rfl feeds
      exact acts_invariant acted (fed holds allowed handled) acts

/-- Any number of visits of the send schedule, from the state a run has reached. -/
def visited (config : Config) (events : List Event) (visits : Nat) : Conn :=
  (fun c => c.pumpVisit.1)^[visits] (run config events)

theorem visited_invariant {Inv : Link → Prop} (acted : ∀ {l l'}, Inv l → Acts l l' → Inv l')
    (holds : Inv (linkOf config events)) (visits : Nat) :
    Inv ((visited config events visits).link (notes config events)) := by
  induction visits with
  | zero => exact holds
  | succ visits ih =>
    have visit := goes_pumpVisit (visited config events visits) (notes config events)
    rw [append_nil] at visit
    rw [visited, Function.iterate_succ_apply']
    exact acts_invariant acted ih visit

/-- Every run is an execution of the connection machine on the frames that were fed. -/
theorem run_refines_link (config : Config) (events : List Event) (visits : Nat) :
    Relation.ReflTransGen (fun l l' => (∃ f ∈ fedFrames config events, Feeds f l l') ∨ Acts l l')
      ((fresh config).link []) ((visited config events visits).link (notes config events)) :=
  visited_invariant (fun path acts => path.tail (.inr acts))
    (link_invariant _ (fun f _ => f ∈ fedFrames config events) .refl
      (fun path fed feeds => path.tail (.inl ⟨_, fed, feeds⟩))
      (fun path acts => path.tail (.inr acts)) events (.of_fed fun _ fed _ => fed)) visits

end HttpJet.H2.Conn

namespace HttpJet.H2

open Library

variable {sid : StreamId} {st : OutStream}

theorem Pumps.progress {sendConn : Int} {maxFrame : Nat}
    {result : OutStream × List Seg × Int × Bool}
    (pumps : Pumps sid st sendConn maxFrame result) : result.1.pending.length ≤ st.pending.length ∧
      (result.2.2.2 = true → result.1.done = true ∨
        result.1.pending.length < st.pending.length) := by
  cases pumps with
  | nothing => exact ⟨le_rfl, (nomatch ·)⟩
  | payload =>
    rw [List.length_drop]
    exact ⟨Nat.sub_le .., fun _ => .inr (by omega)⟩
  | last => exact ⟨le_rfl, fun _ => .inl rfl⟩

namespace Conn

/-- The bytes to send and the responses to finish. -/
def work (outstreams : HashMap StreamId OutStream) : Nat :=
  HashMap.total (fun _ st => st.pending.length + 1) outstreams

theorem work_del {outstreams : HashMap StreamId OutStream} (found : outstreams.get sid = some st) :
    work (outstreams.del sid) + (st.pending.length + 1) = work outstreams :=
  HashMap.total_del_of_get found

variable (c : Conn)

theorem queuePull_keeps (sid : StreamId) (st : OutStream) :
    (c.queuePull sid st).1.outstreams = c.outstreams ∧
      (c.queuePull sid st).1.sendSchedule = c.sendSchedule ∧
      (c.queuePull sid st).2.pending = st.pending ∧ (c.queuePull sid st).2.done = st.done := by
  rw [queuePull]
  split_ifs <;> exact ⟨rfl, rfl, rfl, rfl⟩

/-- A response is finished and goes, or it stays at the back of the schedule. -/
theorem pumpStream_cases (sid : StreamId) (st : OutStream) :
    ∃ st' : OutStream, st'.pending.length ≤ st.pending.length ∧
      ((c.pumpStream sid st).2 = true → st'.done = true ∨ st'.pending.length < st.pending.length) ∧
      (st'.done = true ∧ (c.pumpStream sid st).1.outstreams = c.outstreams.del sid ∧
          (c.pumpStream sid st).1.sendSchedule = c.sendSchedule ∨
        st'.done = false ∧ (c.pumpStream sid st).1.outstreams = c.outstreams.put sid st' ∧
          (c.pumpStream sid st).1.sendSchedule = c.sendSchedule ++ [sid]) := by
  obtain ⟨fewer, progress⟩ :=
    (pumpOneFrame_pumps sid st c.sendConn (max c.session.peer.maxFrameSize 1)).progress
  rw [pumpStream]
  generalize pumpOneFrame sid st c.sendConn (max c.session.peer.maxFrameSize 1) = result at *
  obtain ⟨outstreams, schedule, pending, done⟩ := queuePull_keeps { c with
    sendConn := result.2.2.1
    session := { c.session with out := c.session.out ++ result.2.1 } } sid result.1
  refine ⟨_, le_of_eq_of_le (congrArg List.length pending) fewer, ?_⟩
  dsimp only
  split_ifs with beyond
  · exact ⟨fun _ => .inl beyond, .inl ⟨beyond, congrArg (HashMap.del · sid) outstreams, schedule⟩⟩
  · refine ⟨fun wrote => .inr ?_, .inr ⟨Bool.eq_false_iff.mpr beyond,
      congrArg (HashMap.put · sid _) outstreams, congrArg (· ++ [sid]) schedule⟩⟩
    exact lt_of_eq_of_lt (congrArg List.length pending)
      ((progress wrote).resolve_left fun finished => beyond (done.trans finished))

theorem pumpStream_work (sid : StreamId) (st : OutStream) (found : c.outstreams.get sid = some st) :
    (c.pumpStream sid st).1.sendSchedule.length ≤ c.sendSchedule.length + 1 ∧
    work (c.pumpStream sid st).1.outstreams + (c.pumpStream sid st).2.toNat ≤
      work c.outstreams := by
  obtain ⟨st', _, progress, ⟨beyond, outstreams, schedule⟩ | ⟨live, outstreams, schedule⟩⟩ :=
    c.pumpStream_cases sid st
  · have removed := work_del found
    rw [outstreams, schedule]
    have once := Bool.toNat_le (c.pumpStream sid st).2
    exact ⟨Nat.le_succ _, by omega⟩
  · have replaced : work (c.outstreams.put sid st') + (st.pending.length + 1) =
        st'.pending.length + 1 + work c.outstreams := HashMap.total_put_of_get found st'
    rw [outstreams, schedule]
    refine ⟨le_of_eq (List.length_append ..), ?_⟩
    cases wrote : (c.pumpStream sid st).2 with
    | false =>
      rw [Bool.toNat_false]
      omega
    | true =>
      have shorter := (progress wrote).resolve_left fun beyond =>
        Bool.false_ne_true (live.symm.trans beyond)
      rw [Bool.toNat_true]
      omega

theorem pumpVisit_work : c.pumpVisit.1.sendSchedule.length ≤ c.sendSchedule.length ∧
      work c.pumpVisit.1.outstreams + c.pumpVisit.2.toNat ≤ work c.outstreams := by
  rw [pumpVisit]
  cases scheduled : c.sendSchedule with
  | nil => exact ⟨le_of_eq (congrArg List.length scheduled), le_rfl⟩
  | cons sid schedule =>
    dsimp only
    cases found : c.outstreams.get sid with
    | none => exact ⟨Nat.le_succ _, le_rfl⟩
    | some st =>
      dsimp only
      split_ifs
      · exact ⟨Nat.le_succ _, Nat.le.intro (work_del found)⟩
      · exact pumpStream_work { c with sendSchedule := schedule } sid st found

/-- Fuel for every byte and response, each with a round of the schedule, lasts for one more
visit. -/
theorem pumpVisit_fuel {length fuel visits : Nat} (short : c.sendSchedule.length ≤ length)
    (enough : work c.outstreams * (length + 1) + (visits + 1) ≤ fuel + 1) :
    c.pumpVisit.1.sendSchedule.length ≤ length ∧ work c.pumpVisit.1.outstreams * (length + 1) +
      (if c.pumpVisit.2 = true then c.pumpVisit.1.sendSchedule.length else visits) ≤ fuel := by
  obtain ⟨shorter, progress⟩ := c.pumpVisit_work
  have less := Nat.mul_le_mul_right (length + 1) progress
  rw [Nat.add_mul] at less
  refine ⟨shorter.trans short, ?_⟩
  cases wrote : c.pumpVisit.2 with
  | true =>
    rw [wrote, Bool.toNat_true] at less
    rw [if_pos rfl]
    omega
  | false =>
    rw [wrote, Bool.toNat_false] at less
    rw [if_neg Bool.false_ne_true]
    omega

theorem pumpLoop_enough (length : Nat) {fuel visits : Nat} {c : Conn}
    (short : c.sendSchedule.length ≤ length)
    (enough : work c.outstreams * (length + 1) + visits ≤ fuel)
    (more : Nat) : pumpLoop (fuel + more) visits c = pumpLoop fuel visits c := by
  induction fuel generalizing visits c with
  | zero =>
    have none : visits = 0 := by omega
    subst none
    cases more with
    | zero => rfl
    | succ => rw [Nat.zero_add, pumpLoop, pumpLoop]
  | succ _ ih =>
    rw [Nat.succ_add]
    cases visits with
    | zero => rfl
    | succ =>
      rw [pumpLoop, pumpLoop]
      split_ifs
      · rfl
      · obtain ⟨short, enough⟩ := c.pumpVisit_fuel short enough
        exact ih short enough

/-- One turn of the pump's loop: the visits that it allows from then on, and the connection. -/
def pumpTurn (state : Nat × Conn) : Nat × Conn :=
  (if state.2.pumpVisit.2 then state.2.pumpVisit.1.sendSchedule.length else state.1 - 1,
    state.2.pumpVisit.1)

/-- The loop has no visit left, or nothing to visit. -/
def PumpLeaves (state : Nat × Conn) : Prop := state.1 = 0 ∨ state.2.sendSchedule = []

theorem pumpLoop_leaves (length : Nat) {fuel visits : Nat} {c : Conn}
    (short : c.sendSchedule.length ≤ length)
    (enough : work c.outstreams * (length + 1) + visits ≤ fuel) :
    ∃ turns ≤ fuel, (pumpTurn^[turns] (visits, c)).2 = pumpLoop fuel visits c ∧
      PumpLeaves (pumpTurn^[turns] (visits, c)) ∧
      ∀ earlier < turns, ¬PumpLeaves (pumpTurn^[earlier] (visits, c)) := by
  have none {P : Nat → Prop} : ∀ earlier < 0, P earlier :=
    fun _ before => absurd before (Nat.not_lt_zero _)
  induction fuel generalizing visits c with
  | zero => exact ⟨0, le_rfl, rfl, .inl (by omega : visits = 0), none⟩
  | succ fuel ih =>
    cases visits with
    | zero => exact ⟨0, Nat.zero_le _, rfl, .inl rfl, none⟩
    | succ visits =>
      rw [pumpLoop]
      split_ifs with idle
      · exact ⟨0, Nat.zero_le _, rfl, .inr (List.isEmpty_iff.mp idle), none⟩
      · obtain ⟨short, enough⟩ := c.pumpVisit_fuel short enough
        obtain ⟨turns, few, same, leaves, stays⟩ := ih short enough
        refine ⟨turns + 1, Nat.succ_le_succ few, same, leaves, fun earlier before => ?_⟩
        cases earlier with
        | zero =>
          rintro (used | empty)
          · exact Nat.succ_ne_zero visits used
          · exact idle (List.isEmpty_iff.mpr empty)
        | succ earlier => exact stays earlier (Nat.lt_of_succ_lt_succ before)

/-- The fuel of the pump is enough: the loop leaves by its own condition within as many visits,
where it holds for the first time, and with more fuel the pump does the same. -/
theorem pumpStreams_enough :
    (∃ turns ≤ c.pumpFuel, (pumpTurn^[turns] (c.sendSchedule.length, c)).2 = c.pumpStreams ∧
      PumpLeaves (pumpTurn^[turns] (c.sendSchedule.length, c)) ∧
      ∀ earlier < turns, ¬PumpLeaves (pumpTurn^[earlier] (c.sendSchedule.length, c))) ∧
    ∀ more, pumpLoop (c.pumpFuel + more) c.sendSchedule.length c = c.pumpStreams := by
  have fuel :
      work c.outstreams * (c.sendSchedule.length + 1) + c.sendSchedule.length ≤ c.pumpFuel := by
    rw [pumpFuel, Nat.add_mul, ← work]
    omega
  exact ⟨pumpLoop_leaves _ le_rfl fuel, pumpLoop_enough _ le_rfl fuel⟩

/-- A response that waits for its body or for a window. -/
def Idle (sid : StreamId) : Prop :=
  ∃ st, c.outstreams.get sid = some st ∧ st.done = false ∧
    if st.pending = [] then st.eof = false ∧ (st.body = true → st.pulling = true)
    else min c.sendConn st.window ≤ 0

/-- A visit that writes nothing leaves alone what waits, and puts back only what waits now. -/
theorem pumpVisit_idle (rest : List StreamId) (first : c.sendSchedule = sid :: rest)
    (mute : c.pumpVisit.2 = false) : (∀ other, c.Idle other → c.pumpVisit.1.Idle other) ∧
      ∃ back, c.pumpVisit.1.sendSchedule = rest ++ back ∧ ∀ other ∈ back,
        c.pumpVisit.1.Idle other := by
  rw [pumpVisit, first] at *
  dsimp only at *
  cases found : c.outstreams.get sid with
  | none => exact ⟨fun _ idle => idle, [], (List.append_nil _).symm, by simp⟩
  | some st =>
    rw [found] at mute
    dsimp only at *
    split_ifs at * with done
    · refine ⟨?_, [], (List.append_nil _).symm, by simp⟩
      grind [Idle, HashMap.get_del]
    · obtain ⟨same, waits⟩ : pumpOneFrame sid st c.sendConn (max c.session.peer.maxFrameSize 1) =
          (st, [], c.sendConn, false) ∧
          if st.pending = [] then st.eof = false else min c.sendConn st.window ≤ 0 := by
        grind [pumpStream, pumpOneFrame]
      rw [pumpStream, same]
      dsimp only [queuePull]
      split_ifs <;> refine ⟨?_, [sid], rfl, ?_⟩ <;> grind [Idle, HashMap.get_put]

theorem pumpLoop_idle {length fuel visits : Nat} {c : Conn} (short : c.sendSchedule.length ≤ length)
    (enough : work c.outstreams * (length + 1) + visits ≤ fuel)
    (idle : ∀ sid ∈ c.sendSchedule.drop visits, c.Idle sid) :
    ∀ sid ∈ (pumpLoop fuel visits c).sendSchedule, (pumpLoop fuel visits c).Idle sid := by
  induction fuel generalizing visits c with
  | zero =>
    obtain rfl : visits = 0 := by omega
    exact idle
  | succ fuel ih =>
    cases visits with
    | zero => exact idle
    | succ visits =>
      rw [pumpLoop]
      split_ifs with empty
      · rw [List.isEmpty_iff.mp empty]
        exact fun _ member => absurd member List.not_mem_nil
      · obtain ⟨_, rest, first⟩ := List.ne_nil_iff_exists_cons.mp (mt List.isEmpty_iff.mpr empty)
        obtain ⟨short, enough⟩ := c.pumpVisit_fuel short enough
        dsimp only
        refine ih short enough fun other member => ?_
        cases wrote : c.pumpVisit.2 with
        | true =>
          rw [wrote, if_pos rfl, List.drop_length] at member
          cases member
        | false =>
          obtain ⟨kept, back, schedule, waits⟩ := c.pumpVisit_idle rest first wrote
          rw [wrote, if_neg Bool.false_ne_true, schedule, List.drop_append] at member
          rw [first, List.drop_succ_cons] at idle
          exact (List.mem_append.mp member).elim (fun before => kept other (idle other before))
            fun after => waits other (List.mem_of_mem_drop after)

/-- The pump leaves every response on the schedule waiting for its body or for a window. -/
theorem pumpStreams_idle : ∀ sid ∈ c.pumpStreams.sendSchedule, c.pumpStreams.Idle sid := by
  refine @pumpLoop_idle c.sendSchedule.length _ _ c le_rfl ?_ ?_
  · rw [pumpFuel, Nat.add_mul, ← work]
    omega
  · rw [List.drop_length]
    exact nofun

theorem pumpStreams_idle_blocked :
    ((fresh smallConfig).register 1 [0] false 0).pumpStreams.Idle 1 :=
  pumpStreams_idle _ _ (by decide +kernel)

end Conn

end HttpJet.H2
