import HttpJet.H2.Closing

/-!
# Response bodies

What a response delivers, against what its source gave: the bytes in memory, and the chunks of
its pulls, in order.  The payload of a DATA frame stands behind its header in the queue.
-/

namespace HttpJet.H2

open Hpack.Integer Library List
open Strand (Turn)

variable {sid : StreamId} {segs : List Seg}

/-! ## Payloads in the queue -/

/-- DATA of a stream. -/
def Seg.Carries (sid : StreamId) : Seg → Prop
  | .data streamId _ _ => streamId = sid
  | _ => False

theorem Seg.Carries.speaks {seg : Seg} (carries : seg.Carries sid) : seg.Speaks sid := by
  cases seg with
  | data => exact carries
  | _ => exact carries.elim

/-- The payload bytes queued at the front. -/
def leadingBody : List Seg → Octets
  | .body chunk :: rest => chunk ++ leadingBody rest
  | _ => []

/-- The payloads of a stream's DATA frames, in order. -/
def payloads (sid : StreamId) : List Seg → Octets
  | [] => []
  | .data streamId _ _ :: rest =>
    (if streamId = sid then leadingBody rest else []) ++ payloads sid rest
  | _ :: rest => payloads sid rest

/-- Every DATA header declares the payload queued behind it. -/
def Paired (out : List Seg) : Prop :=
  ∀ before {sid length endStream after}, out = before ++ .data sid length endStream :: after →
    (leadingBody after).length = length

theorem leadingBody_append (headed : leadingBody segs = []) (out : List Seg) :
    leadingBody (out ++ segs) = leadingBody out := by
  induction out with
  | nil => exact headed
  | cons seg _ ih =>
    cases seg with
    | body chunk => exact congrArg (chunk ++ ·) ih
    | _ => rfl

theorem payloads_append (headed : leadingBody segs = []) (sid : StreamId) (out : List Seg) :
    payloads sid (out ++ segs) = payloads sid out ++ payloads sid segs := by
  induction out with
  | nil => rfl
  | cons seg _ ih =>
    cases seg with
    | data =>
      rw [cons_append, payloads, payloads, leadingBody_append headed, ih, append_assoc]
    | _ => exact ih

theorem payloads_of_empty (empty : ∀ seg ∈ segs, ¬seg.Carries sid) : payloads sid segs = [] := by
  induction segs with
  | nil => rfl
  | cons seg _ ih =>
    have rest := ih fun seg member => empty seg (mem_cons_of_mem _ member)
    cases seg with
    | data streamId =>
      have other : ¬streamId = sid := empty _ mem_cons_self
      rw [payloads, if_neg other, rest]
      rfl
    | _ => exact rest

theorem payloads_dataFrame (sid : StreamId) (chunk : Octets) (last : Bool) :
    payloads sid (dataFrame sid chunk last) = chunk := by
  rw [dataFrame, payloads, if_pos rfl]
  split_ifs with none
  · exact none.symm
  · change chunk ++ [] ++ [] = chunk
    rw [append_nil, append_nil]

namespace Writes

variable (writes : Writes segs)
include writes

theorem leadingBody : leadingBody segs = [] := by
  cases writes with
  | bare bare =>
    cases segs with
    | nil => rfl
    | cons seg =>
      cases seg with
      | body => exact absurd (bare _ mem_cons_self) id
      | _ => rfl
  | data => rfl

theorem payloads_eq (out : List Seg) (empty : ∀ seg ∈ segs, ¬seg.Carries sid) :
    payloads sid (out ++ segs) = payloads sid out := by
  rw [payloads_append writes.leadingBody, payloads_of_empty empty, append_nil]

theorem paired {out : List Seg} (paired : Paired out) : Paired (out ++ segs) := by
  have behind : Paired segs := by
    cases writes with
    | bare bare =>
      rintro _ _ _ _ _ rfl
      exact absurd (bare _ (mem_append_right _ mem_cons_self)) id
    | data sid chunk =>
      intro before sid' length endStream after split
      rw [dataFrame] at split
      cases before with
      | nil =>
        obtain ⟨head, rfl⟩ := cons_eq_cons.mp split
        cases head
        split_ifs with none
        · rw [none]
          rfl
        · exact congrArg List.length (append_nil chunk)
      | cons _ before =>
        have rest := (cons_eq_cons.mp split).2
        split_ifs at rest
        · exact absurd rest (by simp)
        · exact absurd rest (by cases before <;> simp)
  intro before sid length endStream after split
  rcases append_eq_append_iff.mp split with ⟨middle, rfl, rest⟩ | ⟨middle, rfl, rest⟩
  · exact behind middle rest
  · cases middle with
    | nil => exact behind [] rest.symm
    | cons _ middle =>
      obtain ⟨rfl, rfl⟩ := cons_eq_cons.mp rest
      exact (congrArg List.length (leadingBody_append writes.leadingBody middle)).trans
        (paired before rfl)

end Writes

/-! ## The body of a response -/

namespace Response

variable (isHead : Bool) (response : Response)

/-- What a response brings of its body: all the bytes of one in memory, and none where a body is
not allowed. -/
def entity : Octets :=
  if responseBodyForbidden isHead response.status then []
  else
    match response.body with
    | .full bytes => bytes
    | .file file => file.cachedRanged.getD []
    | _ => []

/-- Whether the body of a response is to be pulled: a stream, or a file that is not in memory. -/
def pulled : Bool :=
  !responseBodyForbidden isHead response.status &&
    match response.body with
    | .stream _ => true
    | .file file => file.cached.isNone && file.len != 0
    | _ => false

/-- A response without a body is ended by its header block; otherwise what it brings is registered,
with the source of the rest. -/
theorem opening_eq : opening isHead response =
    if response.entity isHead = [] ∧ response.pulled isHead = false then .headersOnly
    else .register (response.entity isHead) (response.pulled isHead) := by
  rw [opening, entity, pulled]
  cases responseBodyForbidden isHead response.status with
  | true => rfl
  | false =>
    cases response.body with
    | empty | stream => rfl
    | full bytes => cases bytes <;> rfl
    | file file =>
      obtain ⟨len, range, cached⟩ := file
      cases cached with
      | none => by_cases zero : len = 0 <;> simp [zero, FileBody.cachedRanged]
      | some bytes => simp [inMemory]

variable {isHead response}

theorem of_headersOnly (opens : opening isHead response = .headersOnly) :
    response.entity isHead = [] ∧ response.pulled isHead = false := by
  rw [opening_eq] at opens
  split_ifs at opens with bodiless
  exact bodiless

theorem of_register {pending : Octets} {source : Bool}
    (opens : opening isHead response = .register pending source) :
    response.entity isHead = pending ∧ response.pulled isHead = source := by
  rw [opening_eq] at opens
  split_ifs at opens
  cases opens
  exact ⟨rfl, rfl⟩

end Response

namespace Note

/-- What a note adds to the body of a stream's response. -/
def bytes (sid : StreamId) : Note → Octets
  | .begins streamId isHead response _ => if streamId = sid then response.entity isHead else []
  | .chunk streamId data => if streamId = sid then data else []
  | _ => []

/-- The body of the stream's response is known to its end. -/
def completes (sid : StreamId) : Note → Bool
  | .begins streamId isHead response _ => streamId == sid && !response.pulled isHead
  | .finished streamId => streamId == sid
  | _ => false

end Note

/-- The body of a stream's response, as far as it is known. -/
def bodyOf (sid : StreamId) (notes : List Note) : Octets := notes.flatMap (Note.bytes sid)

/-- The body of a stream's response is known to its end. -/
def complete (sid : StreamId) (notes : List Note) : Bool := notes.any (Note.completes sid)

def Begun (sid : StreamId) (notes : List Note) : Prop := ∃ n ∈ notes, n.opensOn sid = true

/-! ## What notes tell -/

section

variable {notes notes' taken : List Note}

theorem begun_append : Begun sid (notes ++ taken) ↔ Begun sid notes ∨ Begun sid taken := by
  simp only [Begun, mem_append, or_and_right, exists_or]

/-- The same is known of a stream's response. -/
structure Alike (sid : StreamId) (notes notes' : List Note) : Prop where
  body : bodyOf sid notes' = bodyOf sid notes
  known : complete sid notes' = complete sid notes
  begun : Begun sid notes' ↔ Begun sid notes

theorem Alike.refl : Alike sid notes notes := ⟨rfl, rfl, .rfl⟩

theorem Alike.of_quiet (quiet : ∀ n ∈ taken,
    n.bytes sid = [] ∧ n.completes sid = false ∧ n.opensOn sid = false) :
    Alike sid notes (notes ++ taken) where
  body := by
    rw [bodyOf, bodyOf, flatMap_append, flatMap_eq_nil_iff.mpr fun n member => (quiet n member).1,
      append_nil]
  known := by
    rw [complete, complete, any_append, any_eq_false.mpr fun n member =>
      Bool.eq_false_iff.mp (quiet n member).2.1, Bool.or_false]
  begun := begun_append.trans <| or_iff_left fun ⟨n, member, opens⟩ =>
    Bool.false_ne_true ((quiet n member).2.2.symm.trans opens)

theorem Alike.of_foreign (foreign : ∀ n ∈ taken, n.Foreign sid) :
    Alike sid notes (notes ++ taken) := by
  refine .of_quiet fun n member => ?_
  have apart := foreign n member
  cases n with
  | begins =>
    have none := beq_false_of_ne apart
    refine ⟨if_neg apart, Bool.and_eq_false_imp.mpr fun same => ?_, none⟩
    nomatch none.symm.trans same
  | chunk => exact ⟨if_neg apart, rfl, rfl⟩
  | finished => exact ⟨rfl, beq_false_of_ne apart, rfl⟩
  | _ => exact ⟨rfl, rfl, rfl⟩

theorem bodyOf_concat (n : Note) : bodyOf sid (notes ++ [n]) = bodyOf sid notes ++ n.bytes sid := by
  rw [bodyOf, bodyOf, flatMap_append, flatMap_singleton]

theorem complete_concat (n : Note) :
    complete sid (notes ++ [n]) = (complete sid notes || n.completes sid) := by
  rw [complete, complete, any_append, any_cons, any_nil, Bool.or_false]

end

/-! ## What is delivered -/

namespace Strand

structure Delivered (sid : StreamId) (s : Strand) : Prop where
  /-- A response begins once the stream is awaited no longer. -/
  waiting : ¬s.past ∨ s.waits → ¬Begun sid s.notes
  clear : ¬Begun sid s.notes → s.response = none ∧ s.pulls = 0 ∧ ∀ seg ∈ s.out, ¬seg.Carries sid
  blank : ¬Begun sid s.notes → bodyOf sid s.notes = [] ∧ complete sid s.notes = false
  intact : payloads sid s.out <+: bodyOf sid s.notes
  sending : ∀ {st}, s.response = some st →
    payloads sid s.out ++ st.pending = bodyOf sid s.notes ∧ st.eof = complete sid s.notes
  /-- One pull at a time. -/
  single : s.pulls ≤ 1
  pulling : ∀ {st}, s.response = some st → 0 < s.pulls → st.pulling = true ∧ st.eof = false

variable {s s' : Strand} {stray peer : Prop}

/-- A response that has begun. -/
theorem Delivered.of_begun (begun : Begun sid s.notes) (past : s.past) (left : ¬s.waits)
    (intact : payloads sid s.out <+: bodyOf sid s.notes) (single : s.pulls ≤ 1)
    (sending : ∀ {st}, s.response = some st →
      (payloads sid s.out ++ st.pending = bodyOf sid s.notes ∧ st.eof = complete sid s.notes) ∧
      (0 < s.pulls → st.pulling = true ∧ st.eof = false)) : s.Delivered sid where
  waiting open_ := absurd open_ (not_or.mpr ⟨not_not.mpr past, left⟩)
  clear open_ := absurd begun open_
  blank open_ := absurd begun open_
  intact := intact
  sending found := (sending found).1
  single := single
  pulling found := (sending found).2

theorem Delivered.of_sending {st : OutStream} (begun : Begun sid s.notes) (past : s.past)
    (left : ¬s.waits) (found : s.response = some st)
    (whole : payloads sid s.out ++ st.pending = bodyOf sid s.notes)
    (known : st.eof = complete sid s.notes) (single : s.pulls ≤ 1)
    (pulling : 0 < s.pulls → st.pulling = true ∧ st.eof = false) : s.Delivered sid := by
  refine .of_begun begun past left ⟨_, whole⟩ single fun found' => ?_
  rw [← Option.some.inj (found.symm.trans found')]
  exact ⟨⟨whole, known⟩, pulling⟩

namespace Delivered

variable (delivered : s.Delivered sid)
include delivered

theorem begun {st : OutStream} (found : s.response = some st) : Begun sid s.notes := by
  by_contra waits
  nomatch (delivered.clear waits).1.symm.trans found

/-- Nothing of the body is sent or told, and responses and pulls at most go. -/
theorem move (past : s.past → s'.past) (waits : s'.waits → s.waits ∨ ¬s.past)
    (out : s'.out = s.out ++ segs) (writes : Writes segs) (empty : ∀ seg ∈ segs, ¬seg.Carries sid)
    (alike : Alike sid s.notes s'.notes)
    (kept : ∀ {st'}, s'.response = some st' → ∃ st, s.response = some st ∧
      st'.pending = st.pending ∧ st'.eof = st.eof ∧ (0 < s'.pulls → st'.pulling = st.pulling))
    (fewer : s'.pulls ≤ s.pulls) : s'.Delivered sid := by
  have same : payloads sid s'.out = payloads sid s.out := by rw [out, writes.payloads_eq _ empty]
  have unbegun := alike.begun.not
  constructor
  case waiting =>
    intro open_
    refine unbegun.mpr (delivered.waiting ?_)
    rcases open_ with idle | waits'
    · exact .inl fun before => idle (past before)
    · exact (waits waits').symm
  case clear =>
    intro open_
    obtain ⟨silent, none, empty'⟩ := delivered.clear (unbegun.mp open_)
    refine ⟨Option.eq_none_iff_forall_ne_some.mpr fun st' found => ?_, by omega,
      fun seg member => ?_⟩
    · obtain ⟨st, before, _⟩ := kept found
      nomatch silent.symm.trans before
    · rw [out] at member
      exact (mem_append.mp member).elim (empty' seg) (empty seg)
  case blank =>
    intro open_
    rw [alike.body, alike.known]
    exact delivered.blank (unbegun.mp open_)
  case intact =>
    rw [same, alike.body]
    exact delivered.intact
  case sending =>
    intro st' found
    obtain ⟨st, before, pending, eof, _⟩ := kept found
    rw [same, alike.body, alike.known, pending, eof]
    exact delivered.sending before
  case single => exact fewer.trans delivered.single
  case pulling =>
    intro st' found positive
    obtain ⟨st, before, _, eof, pulling⟩ := kept found
    rw [eof, pulling positive]
    exact delivered.pulling before (positive.trans_le fewer)

/-- Nothing is written. -/
theorem change {response : Option OutStream} {pulls : Nat} {notes : List Note}
    {parked : Option Int} {window : Int} (alike : Alike sid s.notes notes)
    (kept : ∀ {st'}, response = some st' → ∃ st, s.response = some st ∧
      st'.pending = st.pending ∧ st'.eof = st.eof ∧ (0 < pulls → st'.pulling = st.pulling))
    (fewer : pulls ≤ s.pulls) : Delivered sid { s with
      response := response
      pulls := pulls
      parked := parked
      window := window
      notes := notes } :=
  delivered.move id .inl (append_nil _).symm (.bare (forall_mem_nil _)) (forall_mem_nil _) alike
    kept fewer

end Delivered

theorem Turn.delivered (turn : Turn sid stray peer s s') (sane : s.Sane)
    (delivered : s.Delivered sid) : s'.Delivered sid := by
  have same {st' : OutStream} (found : s.response = some st') : ∃ st, s.response = some st ∧
      st'.pending = st.pending ∧ st'.eof = st.eof ∧ (0 < s.pulls → st'.pulling = st.pulling) :=
    ⟨_, found, rfl, rfl, fun _ => rfl⟩
  have drawn {pulls : Nat} (counted : pulls = s.pulls - 1) : pulls = 0 :=
    counted.trans (Nat.sub_eq_zero_of_le delivered.single)
  cases turn with
  | rests rests =>
    obtain ⟨segs, out, writes, apart⟩ := rests.out
    obtain ⟨taken, notes, foreign⟩ := rests.notes
    refine delivered.move rests.past
      (fun waits => (rests.waits waits).imp_right And.left) out writes
      (fun seg member carries => apart seg member carries.speaks.on) (notes ▸ .of_foreign foreign)
      (fun found => ?_) rests.pulls.le
    rw [rests.pulls]
    exact same (rests.response.symm.trans found)
  | hints segs waits interim =>
    refine delivered.move id .inl rfl (.bare fun seg member => ?_) (fun seg member => ?_) .refl same
      le_rfl
    all_goals obtain ⟨_, _, rfl⟩ := interim seg member
    · trivial
    · exact id
  | answers _ _ _ left silent =>
    exact delivered.move id (absurd · left) rfl (.bare (forall_mem_singleton.mpr trivial))
      (forall_mem_singleton.mpr id) .refl (fun found => nomatch silent.symm.trans found) le_rfl
  | resets _ _ left gone =>
    refine delivered.move id (absurd · left) rfl (.bare (forall_mem_singleton.mpr trivial))
      (forall_mem_singleton.mpr id) .refl (fun found => ?_) le_rfl
    rcases gone with rfl | ⟨st, before, rfl⟩
    · nomatch found
    · cases found
      exact ⟨st, before, rfl, rfl, fun _ => rfl⟩
  | gives _ left gone =>
    exact delivered.move id (absurd · left) (append_nil _).symm (.bare (forall_mem_nil _))
      (forall_mem_nil _) .refl (fun found => nomatch gone.symm.trans found) le_rfl
  | begins isHead answer shape opens hints interim first rest waited left registered =>
    have waits := delivered.waiting (.inr waited)
    obtain ⟨_, none, empty⟩ := delivered.clear waits
    obtain ⟨body, known⟩ := delivered.blank waits
    have unsent : payloads sid
        (s.out ++ (hints ++ [.fields sid false shape.ended first rest])) = [] := by
      have bare : ∀ seg ∈ hints ++ [.fields sid false shape.ended first rest], seg.Bare :=
        Link.forall_heads interim (fun _ _ => trivial) trivial
      rw [(Writes.bare bare).payloads_eq _ (Link.forall_heads interim (fun _ _ => id) id),
        payloads_of_empty empty]
    refine .of_begun (begun_append.mpr (.inr ⟨_, mem_singleton_self _, beq_self_eq_true _⟩))
      (sane.waiting waited).1 left (unsent ▸ nil_prefix) (none ▸ Nat.zero_le 1) fun {st} found => ?_
    refine ⟨?_, fun positive => absurd (none ▸ positive) (Nat.lt_irrefl 0)⟩
    rw [unsent, bodyOf_concat, body, complete_concat, known, Note.bytes, if_pos rfl, Note.completes,
      beq_self_eq_true, Bool.true_and, Bool.false_or]
    cases shape with
    | headersOnly => nomatch registered.symm.trans found
    | register =>
      obtain ⟨entity, pulled⟩ := Response.of_register opens
      cases registered.symm.trans found
      rw [entity, pulled]
      exact ⟨rfl, rfl⟩
  | sends st n found live written sent =>
    obtain ⟨past, left⟩ := sane.sending found
    obtain ⟨whole, known⟩ := delivered.sending found
    refine .of_sending (delivered.begun found) past left sent ?_ known delivered.single
      (delivered.pulling found :)
    rw [written, payloads_append (Writes.data ..).leadingBody, payloads_dataFrame, append_assoc,
      take_append_drop]
    exact whole
  | pulls st found idle more asked counted =>
    obtain ⟨past, left⟩ := sane.sending found
    obtain ⟨whole, known⟩ := delivered.sending found
    have absent : s.pulls ≤ 0 := Nat.not_lt.mp fun positive =>
      Bool.false_ne_true (idle.symm.trans (delivered.pulling found positive).1)
    subst counted
    exact .of_sending (delivered.begun found) past left asked whole known (Nat.succ_le_succ absent)
      fun _ => ⟨rfl, more⟩
  | delivers st data found waiting filled counted =>
    obtain ⟨past, left⟩ := sane.sending found
    obtain ⟨whole, known⟩ := delivered.sending found
    refine .of_sending (begun_append.mpr (.inl (delivered.begun found))) past left filled ?_ ?_
      ((drawn counted).le.trans (Nat.zero_le 1)) (absurd (drawn counted) ·.ne')
    · rw [bodyOf_concat, Note.bytes, if_pos rfl, ← append_assoc, whole]
    · rw [complete_concat (n := .chunk sid data)]
      exact known.trans (Bool.or_false _).symm
  | finishes st found waiting filled counted =>
    obtain ⟨past, left⟩ := sane.sending found
    obtain ⟨whole, known⟩ := delivered.sending found
    refine .of_sending (begun_append.mpr (.inl (delivered.begun found))) past left filled ?_ ?_
      ((drawn counted).le.trans (Nat.zero_le 1)) (absurd (drawn counted) ·.ne')
    · rw [bodyOf_concat (n := .finished sid)]
      exact whole.trans (append_nil _).symm
    · rw [complete_concat, Note.completes, beq_self_eq_true, Bool.or_true]
  | returns back counted =>
    refine delivered.change .refl (fun found => ?_) (counted.le.trans (Nat.sub_le ..))
    obtain ⟨st, before, rfl⟩ := Option.map_eq_some_iff.mp (back.symm.trans found)
    exact ⟨st, before, rfl, rfl, (absurd (drawn counted) ·.ne')⟩
  | credits st increment found granted =>
    refine delivered.change (.of_quiet (forall_mem_singleton.mpr ⟨rfl, rfl, rfl⟩))
      (fun found' => ?_)
      le_rfl
    cases granted.symm.trans found'
    exact ⟨st, found, rfl, rfl, fun _ => rfl⟩
  | parks | unsettles =>
    exact delivered.change (.of_quiet (forall_mem_singleton.mpr ⟨rfl, rfl, rfl⟩)) same le_rfl
  | shifts _ shifted =>
    refine delivered.change .refl (fun found => ?_) le_rfl
    obtain ⟨st, before, rfl⟩ := Option.map_eq_some_iff.mp (shifted.symm.trans found)
    exact ⟨st, before, rfl, rfl, fun _ => rfl⟩

end Strand

end HttpJet.H2
