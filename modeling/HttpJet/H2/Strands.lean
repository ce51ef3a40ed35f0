import HttpJet.H2.Places

/-!
# One stream of a connection

`Strand` is what the connection keeps of one stream, beside all that was written and noted.  `Turn`
is what a trip or an action can do to it: most leave it alone, and the others are the few things
that can happen to a response.  An invariant of single streams is proved by cases on turns.
-/

namespace HttpJet.H2

open Hpack.Integer Library List
open HashMap
open Link (Acts)

variable {sid other : StreamId}

/-! ## What is written and noted -/

namespace Seg

/-- A frame of a stream: a field block, DATA or RST_STREAM. -/
def On (sid : StreamId) : Seg → Prop
  | .fields streamId .. | .data streamId .. | .rstStream streamId _ => streamId = sid
  | _ => False

/-- Neither a DATA header nor a payload. -/
def Bare : Seg → Prop
  | .data .. | .body _ => False
  | _ => True

theorem Mute.plain {seg : Seg} (mute : seg.Mute) : seg.Bare ∧ ∀ sid, ¬seg.On sid := by
  cases seg with
  | settingsAck | pingAck | windowUpdate => exact ⟨trivial, fun _ => id⟩
  | _ => exact absurd mute id

end Seg

/-- A DATA header, and the payload behind it. -/
def dataFrame (sid : StreamId) (chunk : Octets) (last : Bool) : List Seg :=
  .data sid chunk.length last :: if chunk = [] then [] else [.body chunk]

theorem dataFrame_take (sid : StreamId) {pending : Octets} {n : Nat} (positive : 0 < n)
    (held : n ≤ pending.length) (last : Bool) :
    dataFrame sid (pending.take n) last = [.data sid n last, .body (pending.take n)] := by
  have some : pending.take n ≠ [] := by
    rw [← length_pos_iff, length_take_of_le held]
    exact positive
  rw [dataFrame, if_neg some, length_take_of_le held]

theorem forall_dataFrame {chunk : Octets} {last : Bool} {p : Seg → Prop}
    (head : p (.data sid chunk.length last)) (body : p (.body chunk)) :
    ∀ seg ∈ dataFrame sid chunk last, p seg := by
  rw [dataFrame]
  split_ifs
  · exact forall_mem_singleton.mpr head
  · exact forall_mem_cons.mpr ⟨head, forall_mem_singleton.mpr body⟩

/-- What is written at once: segments without DATA, or a DATA frame. -/
inductive Writes : List Seg → Prop
  | bare {segs : List Seg} (bare : ∀ seg ∈ segs, seg.Bare) : Writes segs
  | data (sid : StreamId) (chunk : Octets) (last : Bool) : Writes (dataFrame sid chunk last)

namespace Note

/-- The response of a stream. -/
def opensOn (sid : StreamId) : Note → Bool
  | .begins streamId _ _ _ => streamId == sid
  | _ => false

/-- Nothing about the response of a stream or its window. -/
def Foreign (sid : StreamId) : Note → Prop
  | .begins streamId .. | .chunk streamId _ | .finished streamId | .credit streamId _ =>
    streamId ≠ sid
  | .rejected _ => False
  | _ => True

end Note

/-- What a response is registered as, with the window that it is offered. -/
def Opening.registered (offered : Int) : Opening → Option OutStream
  | .headersOnly => none
  | .register pending source => some
    { pending := pending, body := source, pulling := false, eof := !source, done := false,
      window := min offered maxWindow }

/-! ## Strands -/

/-- A stream whose response is still to come. -/
def Awaited (receiving : HashMap StreamId Bool) (inflightSids : List StreamId)
    (sid : StreamId) : Prop :=
  receiving.contains sid = true ∨ sid ∈ inflightSids

structure Strand where
  /-- The client cannot open the stream any more. -/
  past : Prop
  /-- The request is being received or handled. -/
  waits : Prop
  response : Option OutStream
  pulls : Nat
  /-- Early credit. -/
  parked : Option Int
  /-- The initial window of the peer. -/
  window : Int
  out : List Seg
  notes : List Note

def Place.strand (p : Place) (sid : StreamId) : Strand where
  past := sid ≤ p.last
  waits := Awaited p.receiving p.inflightSids sid
  response := p.outstreams.get sid
  pulls := p.pulls.count sid
  parked := p.pendingWindow.get sid
  window := p.peer.initialWindow
  out := p.out
  notes := p.notes

namespace Strand

/-- A stream is in one place. -/
structure Sane (s : Strand) : Prop where
  waiting : s.waits → s.past ∧ s.response = none
  sending : ∀ {st}, s.response = some st → s.past ∧ ¬s.waits

/-- What does not concern a stream, but that its request may come or go. -/
structure Rests (sid : StreamId) (s s' : Strand) : Prop where
  past : s.past → s'.past := by exact id
  waits : s'.waits → s.waits ∨ ¬s.past ∧ sid % 2 = 1 := by exact .inl
  response : s'.response = s.response := by rfl
  pulls : s'.pulls = s.pulls := by rfl
  parked : s'.parked = s.parked ∨ s'.parked = none ∧ ¬s'.waits := by exact .inl rfl
  window : s'.window = s.window := by rfl
  out : ∃ segs, s'.out = s.out ++ segs ∧ Writes segs ∧ ∀ seg ∈ segs, ¬seg.On sid := by
    exact ⟨[], (append_nil _).symm, .bare (forall_mem_nil _), forall_mem_nil _⟩
  notes : ∃ taken, s'.notes = s.notes ++ taken ∧ ∀ n ∈ taken, n.Foreign sid := by
    exact ⟨[], (append_nil _).symm, forall_mem_nil _⟩

/-- What can happen to a stream.  A stray frame may reset one that is idle; the peer may reset
it. -/
inductive Turn (sid : StreamId) (stray peer : Prop) (s : Strand) : Strand → Prop
  | rests {s' : Strand} (rests : Rests sid s s') : Turn sid stray peer s s'
  /-- Interim heads. -/
  | hints (segs : List Seg) (waits : s.waits)
      (interim : ∀ seg ∈ segs, ∃ first rest, seg = .fields sid true false first rest) :
      Turn sid stray peer s { s with out := s.out ++ segs }
  /-- A bodiless response to a request that is not handled. -/
  | answers {waits : Prop} {response : Option OutStream} {parked : Option Int} (first : Octets)
      (rest : List Octets) (waited : s.waits) (left : ¬waits) (silent : response = none) :
      Turn sid stray peer s { s with
        waits := waits
        response := response
        parked := parked
        out := s.out ++ [.fields sid false true first rest] }
  /-- RST_STREAM, with the response gone or done. -/
  | resets {waits : Prop} {response : Option OutStream} {parked : Option Int} (error : ErrorCode)
      (known : s.past ∨ stray) (left : ¬waits)
      (gone : response = none ∨
        ∃ st, s.response = some st ∧ response = some { st with done := true })
      (taken : parked = s.parked ∨ parked = none) :
      Turn sid stray peer s { s with
        waits := waits
        response := response
        parked := parked
        out := s.out ++ [.rstStream sid error] }
  /-- The response is done, or the peer has reset the stream. -/
  | gives {waits : Prop} {response : Option OutStream} {parked : Option Int}
      (why : peer ∨ ∃ st, s.response = some st ∧ st.done = true) (left : ¬waits)
      (gone : response = none) (taken : parked = s.parked ∨ parked = none) :
      Turn sid stray peer s { s with waits := waits, response := response, parked := parked }
  | begins {waits : Prop} {response : Option OutStream} {parked : Option Int} (isHead : Bool)
      (answer : Response) (shape : Opening) (opens : opening isHead answer = shape)
      (hints : List Seg)
      (interim : ∀ seg ∈ hints, ∃ first rest, seg = .fields sid true false first rest)
      (first : Octets) (rest : List Octets) (waited : s.waits) (left : ¬waits)
      (registered : response = shape.registered (s.window + s.parked.getD 0)) :
      Turn sid stray peer s { s with
        waits := waits
        response := response
        parked := parked
        out := s.out ++ (hints ++ [.fields sid false shape.ended first rest])
        notes := s.notes ++ [.begins sid isHead answer (s.window + s.parked.getD 0)] }
  /-- A DATA frame, which is the last one when nothing is left. -/
  | sends {response : Option OutStream} {out : List Seg} (st : OutStream) (n : Nat)
      (found : s.response = some st) (live : st.done = false)
      (written : out = s.out ++ dataFrame sid (st.pending.take n)
        (st.eof && (st.pending.drop n).isEmpty))
      (sent : response = some { st with
        pending := st.pending.drop n
        window := st.window - (st.pending.take n).length
        done := st.eof && (st.pending.drop n).isEmpty }) :
      Turn sid stray peer s { s with response := response, out := out }
  | pulls {response : Option OutStream} {pulls : Nat} (st : OutStream)
      (found : s.response = some st) (idle : st.pulling = false) (more : st.eof = false)
      (asked : response = some { st with body := false, pulling := true })
      (counted : pulls = s.pulls + 1) :
      Turn sid stray peer s { s with response := response, pulls := pulls }
  /-- A pull comes back with bytes. -/
  | delivers {response : Option OutStream} {pulls : Nat} (st : OutStream) (data : Octets)
      (found : s.response = some st) (waiting : 0 < s.pulls)
      (filled : response = some
        { st with pulling := false, body := true, pending := st.pending ++ data })
      (counted : pulls = s.pulls - 1) :
      Turn sid stray peer s
        { s with response := response, pulls := pulls, notes := s.notes ++ [.chunk sid data] }
  | finishes {response : Option OutStream} {pulls : Nat} (st : OutStream)
      (found : s.response = some st) (waiting : 0 < s.pulls)
      (filled : response = some { st with pulling := false, eof := true })
      (counted : pulls = s.pulls - 1) :
      Turn sid stray peer s
        { s with response := response, pulls := pulls, notes := s.notes ++ [.finished sid] }
  /-- A pull comes back with nothing, or for a response that is gone. -/
  | returns {response : Option OutStream} {pulls : Nat}
      (back : response = s.response.map fun st => { st with pulling := false })
      (counted : pulls = s.pulls - 1) :
      Turn sid stray peer s { s with response := response, pulls := pulls }
  | credits {response : Option OutStream} (st : OutStream) (increment : Nat)
      (found : s.response = some st)
      (granted : response = some { st with window := st.window + increment }) :
      Turn sid stray peer s
        { s with response := response, notes := s.notes ++ [.credit sid increment] }
  | parks {parked : Option Int} (increment : Nat) (waits : s.waits)
      (credited : parked = some (s.parked.getD 0 + increment)) :
      Turn sid stray peer s
        { s with parked := parked, notes := s.notes ++ [.credit sid increment] }
  | shifts {response : Option OutStream} (window : Int)
      (shifted : response =
        s.response.map fun st => { st with window := st.window + (window - s.window) }) :
      Turn sid stray peer s { s with window := window, response := response }
  /-- A SETTINGS frame that is rejected half-way. -/
  | unsettles (window : Int) :
      Turn sid stray peer s
        { s with window := window, notes := s.notes ++ [.rejected (window - s.window)] }

end Strand

open Strand (Turn)

/-! ## Streams that wait -/

section

variable {receiving : HashMap StreamId Bool} {inflightSids : List StreamId}

theorem awaited_drop (waits : Awaited (receiving.del other) inflightSids sid) :
    Awaited receiving inflightSids sid := by
  rw [Awaited, contains_del, Bool.and_eq_true] at waits
  exact waits.imp_left And.right

theorem awaited_abort (waits : Awaited (receiving.del other) (inflightSids.erase other) sid) :
    Awaited receiving inflightSids sid :=
  (awaited_drop waits).imp_right mem_of_mem_erase

/-- A stream that leaves the receiving ones and is not handled is awaited no longer. -/
theorem not_awaited_del (unhandled : sid ∉ inflightSids) :
    ¬Awaited (receiving.del sid) inflightSids sid := by
  rintro (received | handled)
  · rw [contains_eq_false.mpr (get_del_self ..)] at received
    exact Bool.false_ne_true received
  · exact unhandled handled

theorem awaited_put {refused : Bool}
    (waits : Awaited (receiving.put other refused) inflightSids sid) :
    sid = other ∨ Awaited receiving inflightSids sid := by
  rw [Awaited, contains_put, Bool.or_eq_true, decide_eq_true_iff, or_assoc] at waits
  exact waits

/-- A stream that was received already is awaited as before. -/
theorem awaited_keep (known : receiving.contains other = true) {refused : Bool}
    (waits : Awaited (receiving.put other refused) inflightSids sid) :
    Awaited receiving inflightSids sid := by
  rcases awaited_put waits with rfl | before
  · exact .inl known
  · exact before

theorem awaited_dispatch (known : receiving.contains other = true)
    (waits : Awaited (receiving.del other) (inflightSids.insert other) sid) :
    Awaited receiving inflightSids sid := by
  rcases awaited_drop waits with received | handled
  · exact .inl received
  · rcases mem_insert_iff.mp handled with rfl | before
    · exact .inl known
    · exact .inr before

end

/-! ## Trips -/

namespace Place

variable {p p' : Place}

theorem Placed.sane (placed : p.Placed) (sid : StreamId) : (p.strand sid).Sane where
  waiting waits := by
    rcases waits with received | handled
    · obtain ⟨below, _, silent⟩ := placed.of_received received
      exact ⟨below, silent⟩
    · obtain ⟨below, _, silent⟩ := placed.of_running handled
      exact ⟨below, silent⟩
  sending found := by
    obtain ⟨below, unreceived, unhandled⟩ := placed.of_answered found
    refine ⟨below, not_or.mpr ⟨?_, unhandled⟩⟩
    rw [contains_eq_false.mpr unreceived]
    exact Bool.false_ne_true

theorem Placed.not_awaited (placed : p.Placed) (handled : sid ∈ p.inflightSids) :
    ¬Awaited p.receiving (p.inflightSids.erase sid) sid := by
  rintro (received | handled')
  · rw [contains_eq_false.mpr (placed.of_running handled).2.1] at received
    exact Bool.false_ne_true received
  · exact placed.nodup.not_mem_erase handled'

end Place

theorem wrote_one {seg : Seg} (out : List Seg) (bare : seg.Bare) (apart : ¬seg.On sid) :
    ∃ segs, out ++ [seg] = out ++ segs ∧ Writes segs ∧ ∀ seg ∈ segs, ¬seg.On sid :=
  ⟨[seg], rfl, .bare (forall_mem_singleton.mpr bare), forall_mem_singleton.mpr apart⟩

theorem wrote_bare {segs : List Seg} (out : List Seg)
    (plain : ∀ seg ∈ segs, seg.Bare ∧ ¬seg.On sid) :
    ∃ segs', out ++ segs = out ++ segs' ∧ Writes segs' ∧ ∀ seg ∈ segs', ¬seg.On sid :=
  ⟨segs, rfl, .bare fun seg member => (plain seg member).1, fun seg member => (plain seg member).2⟩

theorem noted_one {n : Note} (notes : List Note) (foreign : n.Foreign sid) :
    ∃ taken, notes ++ [n] = notes ++ taken ∧ ∀ n ∈ taken, n.Foreign sid :=
  ⟨[n], rfl, forall_mem_singleton.mpr foreign⟩

/-- What a frame does to one stream. -/
theorem Place.Trip.turn {f : Frame} {p p' : Place} (trip : Trip f p p') (placed : p.Placed)
    (sid : StreamId) :
    Turn sid (Core.SelfDependent f ∧ f.streamId = sid) (f.kind = Kind.rstStream ∧ f.streamId = sid)
      (p.strand sid) (p'.strand sid) := by
  have erased := placed.nodup.not_mem_erase (a := f.streamId)
  cases trip with
  | writes segs mute =>
    exact .rests { out := wrote_bare _ fun seg member =>
      ⟨(mute seg member).plain.1, (mute seg member).plain.2 sid⟩ }
  | announces segs known interim =>
    by_cases own : f.streamId = sid
    · subst own
      refine .hints segs (.inl known) fun seg member => ?_
      obtain ⟨first, rfl⟩ := interim seg member
      exact ⟨first, [], rfl⟩
    · refine .rests { out := wrote_bare _ fun seg member => ?_ }
      obtain ⟨first, rfl⟩ := interim seg member
      exact ⟨trivial, own⟩
  | opens _ _ odd above =>
    refine .rests { past := fun below => le_trans below above.le, waits := fun waits => ?_ }
    rcases awaited_put waits with rfl | before
    · exact .inr ⟨Nat.not_le.mpr above, odd⟩
    · exact .inl before
  | passes _ _ above => exact .rests { past := fun below => le_trans below above.le }
  | keeps _ found =>
    exact .rests {
      waits := fun waits => .inl (awaited_keep (HashMap.contains_iff.mpr ⟨_, found⟩) waits) }
  | drops => exact .rests { waits := fun waits => .inl (awaited_drop waits) }
  | dispatches _ _ found =>
    exact .rests {
      waits := fun waits => .inl (awaited_dispatch (HashMap.contains_iff.mpr ⟨_, found⟩) waits) }
  | answers first rest known =>
    by_cases own : f.streamId = sid
    · subst own
      exact .answers first rest (.inl known) (not_awaited_del (placed.of_received known).2.1)
        (get_del_self ..)
    · exact .rests {
        waits := fun waits => .inl (awaited_drop waits)
        response := get_del_of_ne _ (Ne.symm own)
        parked := .inl (get_del_of_ne _ (Ne.symm own))
        out := wrote_one _ trivial own }
  | rejects first rest known =>
    obtain ⟨_, unhandled, silent⟩ := placed.of_received known
    by_cases own : f.streamId = sid
    · subst own
      exact .answers first rest (.inl known) (not_awaited_del unhandled) silent
    · exact .rests {
        waits := fun waits => .inl (awaited_drop waits)
        out := wrote_one _ trivial own }
  | resets error known =>
    by_cases own : f.streamId = sid
    · subst own
      exact .resets error (known.imp_right fun itself => ⟨itself, rfl⟩) (not_awaited_del erased)
        (.inl (get_del_self ..)) (.inr (get_del_self ..))
    · exact .rests {
        waits := fun waits => .inl (awaited_abort waits)
        response := get_del_of_ne _ (Ne.symm own)
        parked := .inl (get_del_of_ne _ (Ne.symm own))
        out := wrote_one _ trivial own }
  | resetsRunning error running =>
    obtain ⟨below, _, silent⟩ := placed.of_running running
    by_cases own : f.streamId = sid
    · subst own
      exact .resets error (.inl below) (not_awaited_del erased) (.inl silent) (.inl rfl)
    · exact .rests {
        waits := fun waits => .inl (awaited_abort waits)
        out := wrote_one _ trivial own }
  | aborts _ kind =>
    by_cases own : f.streamId = sid
    · subst own
      exact .gives (.inl ⟨kind, rfl⟩) (not_awaited_del erased) (get_del_self ..)
        (.inr (get_del_self ..))
    · exact .rests {
        waits := fun waits => .inl (awaited_abort waits)
        response := get_del_of_ne _ (Ne.symm own)
        parked := .inl (get_del_of_ne _ (Ne.symm own)) }
  | abortsRunning => exact .rests { waits := fun waits => .inl (awaited_abort waits) }
  | refuses => exact .rests {}
  | closes => exact .rests { out := wrote_one _ trivial id }
  | shifts peer => exact .shifts peer.initialWindow (get_mapValues ..)
  | unsettles peer =>
    exact p.unsettled (Q := fun q => Turn _ _ _ _ (q.strand sid)) peer
      (fun kept => .rests { window := kept }) (.unsettles peer.initialWindow)

/-! ## Actions -/

theorem Link.Acts.turn {l l' : Link} (acts : Acts l l') (placed : l.place.Placed) (sid : StreamId) :
    Turn sid False False (l.place.strand sid) (l'.place.strand sid) := by
  have awaiting {other : StreamId} (awaiting : l.Awaiting other) :
      Awaited l.place.receiving l.place.inflightSids other :=
    awaiting.imp_left (contains_mapValues ..).trans
  have fewer {other : StreamId} (waits : Awaited l.place.receiving
      (l.place.inflightSids.erase other) sid) : Awaited l.place.receiving
        l.place.inflightSids sid :=
    waits.imp_right mem_of_mem_erase
  cases acts with
  | stops => exact .rests {}
  | closes => exact .rests { out := wrote_one _ trivial id }
  | expires other known taken =>
    obtain ⟨segs, written, same⟩ := l.place_expires other taken
    obtain ⟨below, unhandled, silent⟩ :=
      placed.of_received ((contains_mapValues ..).trans known)
    have gone : ¬Awaited (l.place.receiving.del other) l.place.inflightSids other :=
      not_awaited_del unhandled
    rw [same]
    by_cases own : other = sid
    · subst own
      have left : (if taken then l.pendingWindow.del other else l.pendingWindow).get other =
          l.pendingWindow.get other ∨
          (if taken then l.pendingWindow.del other else l.pendingWindow).get other = none := by
        split_ifs
        · exact .inr (get_del_self ..)
        · exact .inl rfl
      rcases written with rfl | rfl
      · exact .rests {
          waits := fun waits => absurd waits gone
          parked := left.imp_right fun none => ⟨none, gone⟩
          out := wrote_bare _ (forall_mem_nil _) }
      · exact .resets .cancel (.inl below) gone (.inl silent) left
    · exact .rests {
        waits := fun waits => .inl (awaited_drop waits)
        parked := by
          change (if taken then l.pendingWindow.del other else l.pendingWindow).get sid = _ ∨ _
          rw [apply_ite (HashMap.get · sid), get_del_of_ne _ (Ne.symm own), ite_self]
          exact .inl rfl
        out := wrote_bare _ (Link.forall_expired written ⟨trivial, own⟩) }
  | aborts other running =>
    obtain ⟨below, _, silent⟩ := placed.of_running running
    by_cases own : other = sid
    · subst own
      exact .resets .cancel (.inl below) (placed.not_awaited running) (.inl silent) (.inl rfl)
    · exact .rests { waits := fun waits => .inl (fewer waits), out := wrote_one _ trivial own }
  | clears gone =>
    exact .rests {
      parked := .inr ⟨rfl, fun waits =>
        gone sid (waits.imp_left (contains_mapValues ..).symm.trans)⟩ }
  | leaves => exact .rests { waits := fun waits => .inl (fewer waits) }
  | responds position task found running _ hints interim response shape opens first rest =>
    have handled := placed.tracked (mem_of_getElem? found) running
    obtain ⟨_, _, silent⟩ := placed.of_running handled
    by_cases own : task.sid = sid
    · subst own
      cases shape with
      | headersOnly =>
        exact .begins task.isHead response .headersOnly opens hints interim first rest
          (.inr handled)
          (placed.not_awaited handled) silent
      | register pending source =>
        exact .begins task.isHead response (.register pending source) opens hints interim first rest
          (.inr handled) (placed.not_awaited handled) (get_put_self ..)
    · have plain : ∀ seg ∈ hints ++ [.fields task.sid false shape.ended first rest],
          seg.Bare ∧ ¬seg.On sid :=
            Link.forall_heads interim (fun _ _ => ⟨trivial, own⟩) ⟨trivial, own⟩
      cases shape with
      | headersOnly =>
        exact .rests {
          waits := fun waits => .inl (fewer waits)
          parked := .inl (get_del_of_ne _ (Ne.symm own))
          out := wrote_bare _ plain
          notes := noted_one _ own }
      | register =>
        exact .rests {
          waits := fun waits => .inl (fewer waits)
          response := get_put_of_ne _ (Ne.symm own) _
          parked := .inl (get_del_of_ne _ (Ne.symm own))
          out := wrote_bare _ plain
          notes := noted_one _ own }
  | sends other st n found live positive held =>
    have frame := dataFrame_take other positive held (st.eof && (st.pending.drop n).isEmpty)
    by_cases own : other = sid
    · subst own
      refine .sends st n found live (congrArg (l.core.out ++ ·) frame.symm) ?_
      rw [length_take_of_le held]
      refine (get_put_self ..).trans ?_
      rw [live, Bool.false_or]
    · exact .rests {
        response := get_put_of_ne _ (Ne.symm own) _
        out := ⟨_, rfl, frame ▸ .data .., frame ▸ forall_dataFrame own id⟩ }
  | ends other st found live empty eof =>
    by_cases own : other = sid
    · subst own
      obtain ⟨pending, _, _, _, _, window⟩ := st
      dsimp only at empty eof live
      subst empty eof live
      refine .sends _ 0 found rfl rfl ((get_put_self ..).trans ?_)
      rw [take_nil, length_nil, Int.natCast_zero, Int.sub_zero]
      rfl
    · exact .rests {
        response := get_put_of_ne _ (Ne.symm own) _
        out := ⟨_, rfl, .data other [] true, forall_mem_singleton.mpr own⟩ }
  | pulls other st found _ _ more idle =>
    by_cases own : other = sid
    · subst own
      exact .pulls st found idle more (get_put_self ..) (by
        change count other (l.pulls ++ [other]) = _
        rw [count_append, count_singleton_self]
        rfl)
    · exact .rests {
        response := get_put_of_ne _ (Ne.symm own) _
        pulls := by
          change count sid (l.pulls ++ [other]) = _
          rw [count_append, count_eq_zero.mpr fun now => own (mem_singleton.mp now).symm]
          rfl }
  | keeps other st found =>
    refine .rests { response := ?_ }
    by_cases own : other = sid
    · subst own
      exact (get_put_self ..).trans found.symm
    · exact get_put_of_ne _ (Ne.symm own) _
  | retires other st found done =>
    by_cases own : other = sid
    · subst own
      exact .gives (.inr ⟨st, found, done⟩) ((placed.sane other).sending found).2
        (get_del_self ..) (.inl rfl)
    · exact .rests { response := get_del_of_ne _ (Ne.symm own) }
  | loses other absent =>
    by_cases own : other = sid
    · subst own
      exact .returns (absent.trans (congrArg (Option.map _) absent).symm) (count_erase_self ..)
    · exact .rests { pulls := count_erase_of_ne (Ne.symm own) }
  | delivers other st data waiting found =>
    by_cases own : other = sid
    · subst own
      exact .delivers st data found (count_pos_iff.mpr waiting) (get_put_self ..)
        (count_erase_self ..)
    · exact .rests {
        response := get_put_of_ne _ (Ne.symm own) _
        pulls := count_erase_of_ne (Ne.symm own)
        notes := noted_one _ own }
  | finishes other st waiting found =>
    by_cases own : other = sid
    · subst own
      exact .finishes st found (count_pos_iff.mpr waiting) (get_put_self ..) (count_erase_self ..)
    · exact .rests {
        response := get_put_of_ne _ (Ne.symm own) _
        pulls := count_erase_of_ne (Ne.symm own)
        notes := noted_one _ own }
  | fails other st waiting found =>
    by_cases own : other = sid
    · subst own
      refine .returns ((get_put_self ..).trans ?_) (count_erase_self ..)
      exact (congrArg (Option.map fun st : OutStream => { st with pulling := false }) found).symm
    · exact .rests {
        response := get_put_of_ne _ (Ne.symm own) _
        pulls := count_erase_of_ne (Ne.symm own) }
  | condemns other st error found =>
    obtain ⟨below, unawaited⟩ := (placed.sane other).sending found
    by_cases own : other = sid
    · subst own
      exact .resets error (.inl below) unawaited (.inr ⟨st, found, get_put_self ..⟩) (.inl rfl)
    · exact .rests { response := get_put_of_ne _ (Ne.symm own) _, out := wrote_one _ trivial own }
  | cancels other known =>
    obtain ⟨st, found⟩ := HashMap.contains_iff.mp known
    obtain ⟨below, unawaited⟩ := (placed.sane other).sending found
    by_cases own : other = sid
    · subst own
      exact .resets .cancel (.inl below) unawaited (.inl (get_del_self ..)) (.inl rfl)
    · exact .rests { response := get_del_of_ne _ (Ne.symm own), out := wrote_one _ trivial own }
  | creditsConn => exact .rests { notes := noted_one _ trivial }
  | credits other st increment found =>
    by_cases own : other = sid
    · subst own
      exact .credits st increment found (get_put_self ..)
    · exact .rests { response := get_put_of_ne _ (Ne.symm own) _, notes := noted_one _ own }
  | parks other increment _ waits =>
    by_cases own : other = sid
    · subst own
      exact .parks increment (awaiting waits) (get_put_self ..)
    · exact .rests { parked := .inl (get_put_of_ne _ (Ne.symm own) _), notes := noted_one _ own }
  | ignores => exact .rests { notes := noted_one _ trivial }
  | overflows other silent waits =>
    obtain ⟨below, _⟩ := (placed.sane other).waiting (awaiting waits)
    rw [l.place_overflows other]
    by_cases own : other = sid
    · subst own
      exact .resets .flowControlError (.inl below) (not_awaited_del placed.nodup.not_mem_erase)
        (.inl silent) (.inr (get_del_self ..))
    · exact .rests {
        waits := fun waits => .inl (awaited_abort waits)
        parked := .inl (get_del_of_ne _ (Ne.symm own))
        out := wrote_one _ trivial own }

end HttpJet.H2
