import HttpJet.H3.FrameParse

/-!
# What a request stream says

The counter holds the payloads of the first two HEADERS frames and of the DATA frames before the
first frame out of place.
-/

namespace HttpJet.H3

open List Option

open Hpack.Integer (Octets)
open Library

/-! ## Frames in their place -/

/-- The payloads of the HEADERS frames. -/
def sections (fs : List Frame) : List Octets := (fs.filter fun f => f.type == 1).map Frame.payload

/-- The payloads of the DATA frames. -/
def data (fs : List Frame) : Octets := ((fs.filter fun f => f.type == 0).map Frame.payload).flatten

/-- The lengths that the DATA frames announce. -/
def dataLength (fs : List Frame) : Nat := ((fs.filter fun f => f.type == 0).map Frame.length).sum

/-- A frame that may not follow those before it. -/
def Misplaced (before : List Frame) (f : Frame) : Prop :=
  f.type = 0 ∧ (sections before).length ≠ 1 ∨ f.type = 1 ∧ 2 ≤ (sections before).length

instance (before : List Frame) (f : Frame) : Decidable (Misplaced before f) :=
  inferInstanceAs (Decidable (_ ∨ _))

/-- The frames before the first one out of place. -/
def orderly (before : List Frame) : List Frame → List Frame
  | [] => []
  | f :: fs => if Misplaced before f then [] else f :: orderly (before ++ [f]) fs

/-- At most two HEADERS frames, and DATA frames only after the first and before the second. -/
structure Orderly (fs : List Frame) : Prop where
  sections : (sections fs).length ≤ 2
  data : ∀ before f after, fs = before ++ f :: after → f.type = 0 → (H3.sections before).length = 1

variable (fs : List Frame) (f : Frame)

theorem sections_concat :
    sections (fs ++ [f]) = sections fs ++ if f.type = 1 then [f.payload] else [] := by
  rw [sections, filter_append, map_append]
  simp only [filter_cons, filter_nil, beq_iff_eq]
  split_ifs <;> rfl

theorem data_concat : data (fs ++ [f]) = data fs ++ if f.type = 0 then f.payload else [] := by
  rw [data, filter_append, map_append, flatten_append]
  simp only [filter_cons, filter_nil, beq_iff_eq]
  split_ifs
  · rw [map_singleton, flatten_singleton]
    rfl
  · rfl

theorem dataLength_concat :
    dataLength (fs ++ [f]) = dataLength fs + if f.type = 0 then f.length else 0 := by
  rw [dataLength, filter_append, map_append, sum_append]
  simp only [filter_cons, filter_nil, beq_iff_eq]
  split_ifs
  · rfl
  · rfl

theorem orderly_concat (before fs : List Frame) (f : Frame) : orderly before (fs ++ [f]) =
      if orderly before fs = fs ∧
        ¬Misplaced (before ++ fs) f then fs ++ [f] else orderly before fs := by
  induction fs generalizing before with
  | nil =>
    rw [nil_append, orderly, orderly, orderly, append_nil]
    split
    · rename_i misplaced
      rw [if_neg fun both => both.2 misplaced]
    · rename_i misplaced
      rw [if_pos ⟨rfl, misplaced⟩]
  | cons first _ ih =>
    rw [cons_append, orderly, orderly]
    by_cases misplaced : Misplaced before first
    · rw [if_pos misplaced, if_pos misplaced, if_neg fun both => nomatch both.1]
    · rw [if_neg misplaced, if_neg misplaced, ih, append_assoc, singleton_append]
      simp only [cons.injEq, true_and]
      split_ifs <;> rfl

theorem orderly_length (before fs : List Frame) : (orderly before fs).length ≤ fs.length := by
  induction fs generalizing before with
  | nil => exact Nat.le_refl _
  | cons _ _ ih =>
    rw [orderly]
    split_ifs
    · exact Nat.zero_le _
    · exact Nat.succ_le_succ (ih _)

theorem orderly_concat_iff : Orderly (fs ++ [f]) ↔ Orderly fs ∧ ¬Misplaced fs f := by
  constructor
  · intro ordered
    have few := ordered.sections
    rw [sections_concat, length_append] at few
    refine ⟨⟨by omega, fun before g after same => ?_⟩, ?_⟩
    · refine ordered.data before g (after ++ [f]) ?_
      rw [same, append_assoc, cons_append]
    · rintro (⟨isData, wrong⟩ | ⟨isHeaders, many⟩)
      · exact wrong (ordered.data fs f [] rfl isData)
      · rw [if_pos isHeaders, length_singleton] at few
        omega
  · rintro ⟨ordered, placed⟩
    constructor
    · rw [sections_concat, length_append]
      split_ifs with isHeaders
      · have few : ¬2 ≤ (sections fs).length := fun many => placed (.inr ⟨isHeaders, many⟩)
        rw [length_singleton]
        omega
      · exact ordered.sections
    · intro before g after same isData
      rcases eq_nil_or_concat after with rfl | ⟨others, last, rfl⟩
      · obtain ⟨rfl, last⟩ := append_inj' same rfl
        obtain rfl := singleton_inj.mp last
        exact not_not.mp fun wrong => placed (.inl ⟨isData, wrong⟩)
      · rw [concat_eq_append, ← cons_append, ← append_assoc] at same
        exact ordered.data before g others (append_inj_left' same rfl) isData

theorem orderly_eq_iff : orderly [] fs = fs ↔ Orderly fs := by
  induction fs using reverseRecOn with
  | nil =>
    refine ⟨fun _ => ⟨Nat.zero_le _, fun before f after same => ?_⟩, fun _ => rfl⟩
    exact absurd same.symm (append_ne_nil_of_right_ne_nil _ (cons_ne_nil _ _))
  | append_singleton fs _ ih =>
    rw [orderly_concat_iff, ← ih, orderly_concat, nil_append]
    split_ifs with both
    · exact ⟨fun _ => both, fun _ => rfl⟩
    · refine ⟨fun same => ?_, fun kept => absurd kept both⟩
      have shorter := orderly_length [] fs
      rw [same, length_append, length_singleton] at shorter
      omega

/-! ## What a frame changes -/

/-- What the counter keeps of the frames. -/
structure View where
  field : Option Octets
  trailers : Option Octets
  malformed : Bool
  bodyBytes : Nat
  head : RequestHead
  body : Octets

def Receiving.view (s : Receiving) : View :=
  ⟨s.1.field, s.1.trailers, s.1.malformed, s.1.bodyBytes, s.1.head, s.2⟩

def View.declared (v : View) : Option (Option Nat) :=
  match v.head with
  | .decoded _ contentLength => some contentLength
  | _ => none

section frames

variable (qpack : Qpack) (limits : RequestLimits)
variable {s : Receiving} {stream : Octets}

/-- What a frame that is accepted changes. -/
inductive Changes (f : Frame) (v : View) : View → Prop
  | field : f.type = 1 → v.field = none → Changes f v { v with field := some f.payload }
  | trailers : f.type = 1 → v.field ≠ none → v.trailers = none →
      Changes f v { v with trailers := some f.payload }
  | section :
      f.type = 1 → v.field ≠ none → v.trailers ≠ none → Changes f v { v with malformed := true }
  | data (head : RequestHead) : f.type = 0 → v.bodyBytes + f.length ≤ limits.maxBodyBytes →
      (∀ contentLength, { v with head := head }.declared = some (some contentLength) →
        v.bodyBytes + f.length ≤ contentLength) →
      ((∃ field,
        v.field = some field ∧ head = decodeRequestHead qpack field limits.maxHeaderBytes) ∨
        head = v.head ∧ (v.field = none ∨ v.head ≠ .pending)) →
      Changes f v { v with
        head := head
        bodyBytes := v.bodyBytes + f.length
        malformed := v.malformed || v.field.isNone || v.trailers.isSome
        body := if v.malformed || v.field.isNone || v.trailers.isSome then v.body
        else v.body ++ f.payload }
  | other : f.type ≠ 0 → f.type ≠ 1 → Changes f v v

variable {qpack limits} {counter : FrameCounter} {body : Octets}

/-- An empty payload changes nothing where a payload has begun. -/
theorem deposit_nil {sink : PayloadSink} (hasField : sink = .field → counter.field ≠ none)
    (hasTrailers : sink = .trailers → counter.trailers ≠ none) :
    counter.deposit body sink [] = (counter, body) := by
  cases sink with
  | field =>
    obtain ⟨octets, same⟩ := ne_none_iff_exists'.mp (hasField rfl)
    rw [FrameCounter.deposit, append_nil, same, getD_some, ← same]
  | trailers =>
    obtain ⟨_, same⟩ := ne_none_iff_exists'.mp (hasTrailers rfl)
    rw [FrameCounter.deposit, append_nil, same, getD_some, ← same]
  | body => rw [FrameCounter.deposit, append_nil]
  | discard => rfl

theorem view_receive {length : Nat} {sink : PayloadSink} {payload : Octets}
    (phase : counter.phase = if length = 0 then .type else .payload length sink)
    (fits : payload.length ≤ length) (hasField : sink = .field → counter.field ≠ none)
    (hasTrailers : sink = .trailers → counter.trailers ≠ none) :
    Receiving.view (counter.receive body payload) =
      Receiving.view (counter.deposit body sink payload) := by
  by_cases empty : payload = []
  · rw [empty, deposit_nil hasField hasTrailers, FrameCounter.receive]
    split <;> rfl
  · have some : length ≠ 0 := by
      have positive := length_pos_of_ne_nil empty
      omega
    rw [if_neg some] at phase
    rw [FrameCounter.receive, phase]
    dsimp only
    rw [if_neg (by rw [List.isEmpty_iff]; exact empty)]
    rfl

/-- What an accepted frame does. -/
theorem frame_ok {next : Receiving} {f : Frame} (accepted : frame qpack limits s f = .ok next)
    (fits : f.payload.length ≤ f.length) (clear : s.1.Clear) :
    requestFrameForbidden f.type = false ∧ next.1.Clear ∧ (next.1.phase = .type ↔ f.Complete) ∧
      Changes qpack limits f s.view next.view := by
  rw [frame] at accepted
  rcases admitted : { s.1 with frameType := f.type, phase := .length }.frameLength qpack
    limits f.length
    with ⟨counter, e | u⟩
  · rw [admitted] at accepted
    cases accepted
  rw [admitted] at accepted
  obtain rfl := Except.ok.inj accepted
  have clears := FrameCounter.frameLength_clear admitted ⟨clear.varint, clear.varintNeed⟩
  obtain ⟨allowed, placed, sink, places, same⟩ := frameLength_ok admitted
  have phase : counter.phase = if f.length = 0 then .type
  else .payload f.length sink := by rw [same]
  refine ⟨allowed, receive_clear clears .., receive_phase phase fits, ?_⟩
  have deposits : (sink = .field → placed.field ≠ none) →
      (sink = .trailers → placed.trailers ≠ none) →
      Receiving.view (counter.receive s.2 f.payload) =
        Receiving.view (placed.deposit s.2 sink f.payload) := by
    intro hasField hasTrailers
    rw [view_receive phase fits (by rw [same]; exact hasField)
      (by rw [same]; exact hasTrailers), same]
    cases sink <;> rfl
  obtain ⟨count, counted⟩ := FrameCounter.countIdle_eq
    { s.1 with frameType := f.type, phase := .length } f.length
  rw [counted, FrameCounter.placePayload] at places
  split at places
  · rename_i isHeaders
    rcases FrameCounter.headersFrame_ok places with ⟨first, rfl, rfl⟩ | ⟨given, second, rfl, rfl⟩ |
      ⟨given, third, rfl, rfl⟩
    · rw [deposits (by simp) (by simp)]
      exact .field isHeaders first
    · rw [deposits (by simp) (by simp)]
      exact .trailers isHeaders given second
    · rw [deposits (by simp) (by simp)]
      exact .section isHeaders given third
  rename_i notHeaders
  split at places
  · rename_i isData
    obtain ⟨total, counts, rfl, rfl⟩ := FrameCounter.bodyFrame_ok places
    obtain ⟨rfl, within, declared⟩ := FrameCounter.dataFrame_ok counts
    have head := FrameCounter.decodeHead_head qpack limits
      { s.1 with frameType := f.type, phase := .length, noProgressFrames := count }
    obtain ⟨decoded, footprint, decodes⟩ := FrameCounter.decodeHead_eq qpack limits
      { s.1 with frameType := f.type, phase := .length, noProgressFrames := count }
    rw [decodes] at head declared
    have change := Changes.data (v := Receiving.view s) decoded isData within declared head
    rw [decodes] at deposits
    revert deposits change
    cases wrong : s.1.malformed || s.1.field.isNone || s.1.trailers.isSome with
    | false | true =>
      intro deposits change
      rw [deposits (by simp) (by simp)]
      simp only [Receiving.view, wrong] at change
      exact change
  · rename_i notData
    obtain ⟨rfl, discards⟩ := Prod.mk.inj places
    obtain rfl := Except.ok.inj discards
    rw [deposits (by simp) (by simp)]
    exact .other notData notHeaders

variable (qpack limits) in
/-- What the counter holds after the frames. -/
structure Digest (fs : List Frame) (v : View) : Prop where
  field : v.field = (sections fs)[0]?
  trailers : v.trailers = (sections fs)[1]?
  malformed : v.malformed = false ↔ Orderly fs
  body : v.body = data (orderly [] fs)
  bodyBytes : v.bodyBytes = dataLength fs
  bounded : v.bodyBytes ≤ limits.maxBodyBytes
  declared : ∀ contentLength, v.declared = some (some contentLength) → v.bodyBytes ≤ contentLength
  head : v.head = .pending ∧ (Orderly fs → dataLength fs = 0) ∨
    ∃ field, v.field = some field ∧ v.head = decodeRequestHead qpack field limits.maxHeaderBytes

variable {fs : List Frame} {f : Frame} {v w : View}

theorem Digest.field_none (digest : Digest qpack limits fs v) :
    v.field = none ↔ (sections fs).length = 0 := by
  rw [digest.field, getElem?_eq_none_iff, Nat.le_zero]

theorem Digest.trailers_none (digest : Digest qpack limits fs v) :
    v.trailers = none ↔ (sections fs).length ≤ 1 := by
  rw [digest.trailers, getElem?_eq_none_iff]

/-- A frame that is not DATA leaves the body alone. -/
theorem data_orderly_concat (other : f.type ≠ 0) :
    data (orderly [] (fs ++ [f])) = data (orderly [] fs) := by
  rw [orderly_concat]
  split_ifs with both
  · rw [data_concat, if_neg other, append_nil, both.1]
  · rfl

theorem dataLength_concat_other (other : f.type ≠ 0) : dataLength (fs ++ [f]) = dataLength fs := by
  rw [dataLength_concat, if_neg other, Nat.add_zero]

theorem sections_concat_other (other : f.type ≠ 1) : sections (fs ++ [f]) = sections fs := by
  rw [sections_concat, if_neg other, append_nil]

theorem Digest.not_data (digest : Digest qpack limits fs v) (other : f.type ≠ 0)
    (field : w.field = (sections (fs ++ [f]))[0]?)
    (trailers : w.trailers = (sections (fs ++ [f]))[1]?)
    (malformed : w.malformed = false ↔ Orderly (fs ++ [f])) (body : w.body = v.body)
    (bodyBytes : w.bodyBytes = v.bodyBytes) (head : w.head = v.head)
    (kept : v.field = none ∨ w.field = v.field) : Digest qpack limits (fs ++ [f]) w := by
  have same : w.declared = v.declared := by rw [View.declared, head, View.declared]
  refine ⟨field, trailers, malformed, ?_, ?_, ?_, ?_, ?_⟩
  · rw [body, digest.body, data_orderly_concat other]
  · rw [bodyBytes, digest.bodyBytes, dataLength_concat_other other]
  · rw [bodyBytes]
    exact digest.bounded
  · rw [same, bodyBytes]
    exact digest.declared
  · rw [head, dataLength_concat_other other]
    rcases digest.head with ⟨pending, none⟩ | ⟨octets, given, decoded⟩
    · exact .inl ⟨pending, fun ordered => none ((orderly_concat_iff fs f).mp ordered).1⟩
    · rcases kept with none | same
      · rw [none] at given
        nomatch given
      · exact .inr ⟨octets, same.trans given, decoded⟩

/-- A DATA frame in its place, and one that is not. -/
theorem Digest.misplaced_data (digest : Digest qpack limits fs v) (isData : f.type = 0) :
    (v.malformed || v.field.isNone || v.trailers.isSome) = false ↔ Orderly (fs ++ [f]) := by
  rw [orderly_concat_iff, Bool.or_eq_false_iff, Bool.or_eq_false_iff, digest.malformed, and_assoc]
  refine and_congr_right fun _ => ?_
  have field := digest.field_none
  have trailers := digest.trailers_none
  rw [Misplaced, ← Bool.not_eq_true, isNone_iff_eq_none, field,
    ← Bool.not_eq_true, ← ne_none_iff_isSome, not_ne_iff, trailers]
  constructor
  · rintro ⟨_, _⟩ (⟨-, wrong⟩ | ⟨_, -⟩)
    · omega
    · omega
  · intro placed
    have one : (sections fs).length = 1 := not_not.mp fun wrong => placed (.inl ⟨isData, wrong⟩)
    omega

/-- A frame takes the digest of those before it to the digest with it. -/
theorem Digest.change (digest : Digest qpack limits fs v) (changes : Changes qpack limits f v w) :
    Digest qpack limits (fs ++ [f]) w := by
  have fieldNone := digest.field_none
  have trailersNone := digest.trailers_none
  cases changes with
  | field isHeaders none =>
    have empty : sections fs = [] := length_eq_zero_iff.mp (fieldNone.mp none)
    have placed : ¬Misplaced fs f := by
      rintro (⟨isData, -⟩ | ⟨-, many⟩)
      · omega
      · rw [empty] at many
        nomatch many
    refine digest.not_data (by omega) ?_ ?_ ?_ rfl rfl rfl (.inl none)
    · rw [sections_concat, if_pos isHeaders, empty]
      rfl
    · rw [sections_concat, if_pos isHeaders, digest.trailers, empty]
      rfl
    · rw [orderly_concat_iff, digest.malformed, and_iff_left placed]
  | trailers isHeaders given none =>
    have one : (sections fs).length = 1 := by
      have few := trailersNone.mp none
      have some : ¬(sections fs).length = 0 := fun empty => given (fieldNone.mpr empty)
      omega
    obtain ⟨octets, same⟩ := length_eq_one_iff.mp one
    have placed : ¬Misplaced fs f := by
      rintro (⟨isData, -⟩ | ⟨-, many⟩)
      · omega
      · omega
    refine digest.not_data (by omega) ?_ ?_ ?_ rfl rfl rfl (.inr rfl)
    · rw [sections_concat, if_pos isHeaders, digest.field, same]
      rfl
    · rw [sections_concat, if_pos isHeaders, same]
      rfl
    · rw [orderly_concat_iff, digest.malformed, and_iff_left placed]
  | «section» isHeaders given second =>
    have many : 2 ≤ (sections fs).length := by
      have some : ¬(sections fs).length ≤ 1 := fun few => second (trailersNone.mpr few)
      omega
    refine digest.not_data (by omega) ?_ ?_ ?_ rfl rfl rfl (.inr rfl)
    · rw [sections_concat, getElem?_append_left (by omega)]
      exact digest.field
    · rw [sections_concat, getElem?_append_left (by omega)]
      exact digest.trailers
    · rw [orderly_concat_iff]
      exact ⟨nofun, fun both => absurd (.inr ⟨isHeaders, many⟩) both.2⟩
  | data head isData within declared decoded =>
    have placed := digest.misplaced_data isData
    have other : f.type ≠ 1 := by omega
    refine ⟨?_, ?_, placed, ?_, ?_, within, declared, ?_⟩
    · rw [sections_concat_other other]
      exact digest.field
    · rw [sections_concat_other other]
      exact digest.trailers
    · by_cases ordered : Orderly (fs ++ [f])
      · rw [placed.mpr ordered, (orderly_eq_iff _).mpr ordered, data_concat, if_pos isData,
          digest.body,
          (orderly_eq_iff _).mpr ((orderly_concat_iff fs f).mp ordered).1]
        rfl
      · have wrong := (Bool.not_eq_false _).mp fun same => ordered (placed.mp same)
        have shorter : ¬(orderly [] fs = fs ∧ ¬Misplaced ([] ++ fs) f) := by
          rintro ⟨same, inPlace⟩
          exact ordered ((orderly_concat_iff fs f).mpr ⟨(orderly_eq_iff fs).mp same, inPlace⟩)
        rw [wrong, if_pos rfl, orderly_concat, if_neg shorter, digest.body]
    · rw [dataLength_concat, if_pos isData, ← digest.bodyBytes]
    · rcases decoded with ⟨octets, given, fresh⟩ | ⟨same, reason⟩
      · exact .inr ⟨octets, given, fresh⟩
      rcases digest.head with ⟨pending, -⟩ | ⟨octets, given, old⟩
      · have none := reason.resolve_right (not_not.mpr pending)
        refine .inl ⟨same.trans pending, fun ordered => ?_⟩
        have one := ordered.data fs f [] rfl isData
        rw [fieldNone.mp none] at one
        nomatch one
      · exact .inr ⟨octets, given, same.trans old⟩
  | other notData notHeaders =>
    have placed : ¬Misplaced fs f := by
      rintro (⟨isData, -⟩ | ⟨isHeaders, -⟩)
      · exact notData isData
      · exact notHeaders isHeaders
    refine digest.not_data notData ?_ ?_ ?_ rfl rfl rfl (.inr rfl)
    · rw [sections_concat_other notHeaders]
      exact digest.field
    · rw [sections_concat_other notHeaders]
      exact digest.trailers
    · rw [orderly_concat_iff, digest.malformed, and_iff_left placed]

/-- The state after frames of which only the last may be cut. -/
structure Settled (qpack : Qpack) (limits : RequestLimits) (fs : List Frame)
    (s : Receiving) : Prop where
  digest : Digest qpack limits fs s.view
  allowed : ∀ f ∈ fs, requestFrameForbidden f.type = false
  clear : s.1.Clear
  phase : s.1.phase = .type ↔ ∀ f ∈ fs.getLast?, f.Complete

theorem settled_fresh : Settled qpack limits [] ({}, []) where
  digest :=
    { field := rfl
      trailers := rfl
      malformed := ⟨fun _ => (orderly_eq_iff []).mp rfl, fun _ => rfl⟩
      body := rfl
      bodyBytes := rfl
      bounded := Nat.zero_le _
      declared := fun _ same => nomatch same
      head := .inl ⟨rfl, fun _ => rfl⟩ }
  allowed := fun _ listed => nomatch listed
  clear := ⟨rfl, rfl⟩
  phase := ⟨fun _ _ listed => (nomatch listed), fun _ => rfl⟩

theorem Settled.frame {next : Receiving} (settled : Settled qpack limits fs s)
    (fits : f.payload.length ≤ f.length) (accepted : H3.frame qpack limits s f = .ok next) :
    Settled qpack limits (fs ++ [f]) next := by
  obtain ⟨allowed, clear, phase, changes⟩ := frame_ok accepted fits settled.clear
  refine ⟨settled.digest.change changes, ?_, clear, ?_⟩
  · intro g listed
    rcases mem_append.mp listed with before | last
    · exact settled.allowed g before
    · rw [mem_singleton.mp last]
      exact allowed
  · rw [phase, getLast?_concat]
    exact ⟨fun complete g same => some.inj same ▸ complete, fun all => all f rfl⟩

/-! ## The end of the stream -/

theorem view_cut (counter : FrameCounter) (rest body : Octets) :
    Receiving.view (counter.cut rest, body) = Receiving.view (counter, body) := by
  rw [FrameCounter.cut]
  split
  · cases rest <;> rfl
  · rename_i type rest same
    cases rest <;> rfl

/-- A stream that is cut in a header does not end between two frames. -/
theorem cut_boundary (counter : FrameCounter) (rest : Octets) :
    (counter.cut rest).atFrameBoundary = true ↔ rest = [] ∧ counter.atFrameBoundary = true := by
  cases rest with
  | nil => exact ⟨fun boundary => ⟨rfl, boundary⟩, fun both => both.2⟩
  | cons first rest =>
    refine iff_of_false ?_ fun both => nomatch both.1
    rw [FrameCounter.cut]
    split
    · rw [FrameCounter.holding, FrameCounter.atFrameBoundary, isEmpty_cons, Bool.and_false]
      exact Bool.false_ne_true
    · rename_i type others same
      cases others <;> exact Bool.false_ne_true

/-- The stream ends between two frames. -/
structure Ends (stream : Octets) : Prop where
  rest : (frames stream).2 = []
  complete : ∀ f ∈ (frames stream).1, f.Complete

theorem Settled.boundary (settled : Settled qpack limits (frames stream).1 s) :
    (s.1.cut (frames stream).2).atFrameBoundary = true ↔ Ends stream := by
  have boundary : s.1.atFrameBoundary = true ↔ s.1.phase = .type := by
    rw [FrameCounter.atFrameBoundary, settled.clear.varint, isEmpty_nil, Bool.and_true, beq_iff_eq]
  rw [cut_boundary, boundary, settled.phase]
  constructor
  · rintro ⟨rest, last⟩
    refine ⟨rest, fun f listed => ?_⟩
    obtain ⟨_, after, same⟩ := append_of_mem listed
    cases after with
    | nil =>
      refine last f ?_
      rw [same, getLast?_concat]
      rfl
    | cons => exact framesFrom_complete _ _ same (.inl (cons_ne_nil _ _))
  · intro ends
    exact ⟨ends.rest, fun f last => ends.complete f (mem_of_getLast? last)⟩

theorem data_length (complete : ∀ f ∈ fs, f.Complete) : (data fs).length = dataLength fs := by
  induction fs using reverseRecOn with
  | nil => rfl
  | append_singleton _ f ih =>
    have last : f.payload.length = f.length := complete f (mem_append_right _ mem_cons_self)
    rw [data_concat, dataLength_concat, length_append,
      ih fun g listed => complete g (mem_append_left _ listed)]
    split_ifs
    · rw [last]
    · rfl

/-- The length that the field section declares. -/
def declaredLength (qpack : Qpack) (limits : RequestLimits) (field : Octets) : Option Nat :=
  match decodeRequestHead qpack field limits.maxHeaderBytes with
  | .decoded _ contentLength => contentLength
  | _ => none

variable (qpack limits) in
/-- What a stream that is accepted leaves in the counter and the buffer. -/
structure Parsed (stream : Octets) (counter : FrameCounter) (buffer : Octets) : Prop where
  field : counter.field = (sections (frames stream).1)[0]?
  trailers : counter.trailers = (sections (frames stream).1)[1]?
  malformed : counter.malformed = false ↔ Orderly (frames stream).1
  body : buffer = H3.data (orderly [] (frames stream).1)
  data : counter.malformed = false → buffer = H3.data (frames stream).1
  boundary : counter.atFrameBoundary = true ↔ Ends stream
  allowed : ∀ f ∈ (frames stream).1, requestFrameForbidden f.type = false
  finish : ∀ lease, (counter.finish buffer lease).isSome ↔
    Ends stream ∧ sections (frames stream).1 ≠ [] ∧ Orderly (frames stream).1
  finished : ∀ lease request head, counter.finish buffer lease = some (request, head) →
    (sections (frames stream).1)[0]? = some request.field ∧
      (sections (frames stream).1)[1]? = request.trailers ∧
      request.body = H3.data (frames stream).1 ∧ request.body.length = counter.bodyBytes ∧
      request.body.length ≤ limits.maxBodyBytes ∧
      ∀ contentLength, declaredLength qpack limits request.field = some contentLength →
        request.body.length ≤ contentLength

theorem finish_eq_some {lease : Option Nat} {request : ParsedRequest}
    {head : Option (List Hpack.StaticTable.Field × Nat)} :
    counter.finish body lease = some (request, head) →
      counter.malformed = false ∧ counter.atFrameBoundary = true ∧
        counter.field = some request.field ∧
        counter.trailers = request.trailers ∧ request.body = body := by
  intro finishes
  rw [FrameCounter.finish] at finishes
  split at finishes
  · nomatch finishes
  rename_i sound
  rw [Bool.or_eq_true, not_or, Bool.not_eq_true, Bool.not_eq_true, Bool.not_eq_false'] at sound
  obtain ⟨_, field, same⟩ := map_eq_some_iff.mp finishes
  obtain ⟨rfl, -⟩ := Prod.mk.inj same
  exact ⟨sound.1, sound.2, field, rfl, rfl⟩

theorem finish_isSome (lease : Option Nat) : (counter.finish body lease).isSome ↔
      counter.atFrameBoundary = true ∧ counter.field ≠ none ∧ counter.malformed = false := by
  rw [FrameCounter.finish]
  cases counter.malformed with
  | true => exact ⟨nofun, fun all => nomatch all.2.2⟩
  | false =>
    cases counter.atFrameBoundary with
    | false => exact ⟨nofun, fun all => nomatch all.1⟩
    | true =>
      rw [Bool.not_true, Bool.or_false, if_neg Bool.false_ne_true, isSome_map, ← ne_none_iff_isSome]
      exact ⟨fun given => ⟨rfl, given, rfl⟩, fun all => all.2.1⟩

/-- A finished body is as long as the frames announce, within every bound. -/
theorem Settled.finished (settled : Settled qpack limits (frames stream).1 s) (ends : Ends stream)
    {field : Octets} (given : s.1.field = some field) (ordered : Orderly (frames stream).1) :
    s.2.length = s.1.bodyBytes ∧ ∀ contentLength,
      declaredLength qpack limits field = some contentLength → s.2.length ≤ contentLength := by
  have body : s.2 = _ := settled.digest.body
  have bytes : s.1.bodyBytes = _ := settled.digest.bodyBytes
  have same : s.2.length = s.1.bodyBytes := by
    rw [body, (orderly_eq_iff _).mpr ordered, data_length ends.complete, bytes]
  refine ⟨same, fun contentLength declares => ?_⟩
  rw [same]
  rcases settled.digest.head with ⟨-, none⟩ | ⟨octets, other, decoded⟩
  · rw [bytes, none ordered]
    exact Nat.zero_le _
  · have equal : field = octets := some.inj (given.symm.trans other)
    refine settled.digest.declared contentLength ?_
    rw [declaredLength, equal, ← decoded] at declares
    rw [View.declared]
    revert declares
    cases s.view.head with
    | pending | undecodable => exact nofun
    | decoded => exact fun declares => congrArg some declares

theorem Settled.parsed (settled : Settled qpack limits (frames stream).1 s) :
    Parsed qpack limits stream (s.1.cut (frames stream).2) s.2 := by
  have boundary := settled.boundary
  have view := view_cut s.1 (frames stream).2 s.2
  have fields : (s.1.cut (frames stream).2).field = s.1.field := congrArg View.field view
  have trailing : (s.1.cut (frames stream).2).trailers = s.1.trailers := congrArg View.trailers view
  have flags : (s.1.cut (frames stream).2).malformed = s.1.malformed := congrArg View.malformed view
  have bytes : (s.1.cut (frames stream).2).bodyBytes = s.1.bodyBytes := congrArg View.bodyBytes view
  have field : s.1.field = _ := settled.digest.field
  have trailers : s.1.trailers = _ := settled.digest.trailers
  have malformed : s.1.malformed = false ↔ _ := settled.digest.malformed
  have body : s.2 = _ := settled.digest.body
  have allData : s.1.malformed = false → s.2 = data (frames stream).1 := by
    intro sound
    rw [body, (orderly_eq_iff _).mpr (malformed.mp sound)]
  refine ⟨fields.trans field, trailing.trans trailers, flags ▸ malformed, body,
    flags ▸ allData, boundary,
    settled.allowed, fun lease => ?_, fun lease request head finishes => ?_⟩
  · rw [finish_isSome, boundary, fields, flags, malformed, field, Ne, getElem?_eq_none_iff,
      Nat.le_zero,
      length_eq_zero_iff]
  · obtain ⟨sound, ended, given, second, same⟩ := finish_eq_some finishes
    rw [fields] at given
    rw [trailing] at second
    rw [flags] at sound
    have lengths := settled.finished (boundary.mp ended) given (malformed.mp sound)
    rw [bytes, same, ← field, ← trailers]
    refine ⟨given, second, allData sound, lengths.1, ?_, lengths.2⟩
    rw [lengths.1]
    exact settled.digest.bounded

/-- The parser is a function of the octets of the stream, and what it says of them is what
the frames of the stream say. -/
theorem consumeAll_parsed (qpack : Qpack) (limits : RequestLimits) (segments : List Octets) :
    consumeAll qpack limits segments =
        outcome (({} : FrameCounter).consume qpack limits [] segments.flatten) ∧
      ∀ counter buffer, consumeAll qpack limits segments = .ok (counter, buffer) →
        Parsed qpack limits segments.flatten counter buffer := by
  refine ⟨(consumeAll_eq segments).trans (consume_eq awaits_fresh _).symm,
    fun counter buffer ran => ?_⟩
  rw [consumeAll_eq, foldlM_frames] at ran
  cases folded : (frames segments.flatten).1.foldlM (H3.frame qpack limits) ({}, []) with
  | error =>
    rw [folded] at ran
    nomatch ran
  | ok =>
    rw [folded] at ran
    obtain ⟨rfl, rfl⟩ := Prod.mk.inj (Except.ok.inj ran)
    have settled :=
      Runs.foldlM_invariant (Settled qpack limits) (fun _ f listed _ _ settled accepted =>
      settled.frame (framesFrom_fits segments.flatten.length segments.flatten f listed) accepted)
      [] settled_fresh folded
    exact settled.parsed

end frames

/-- A request with an empty field section and one octet of body, in three segments. -/
theorem segmentedRequest_parsed :
    ∃ counter buffer, consumeAll refusingQpack (.new 100 100) [[0x01], [0x00, 0x00], [0x01, 0x78]] =
        .ok (counter, buffer) ∧
      Parsed refusingQpack (.new 100 100) [0x01, 0x00, 0x00, 0x01, 0x78] counter buffer :=
  ⟨_, _, rfl,
    (consumeAll_parsed refusingQpack (.new 100 100) [[0x01], [0x00, 0x00], [0x01, 0x78]]).2 _ _ rfl⟩

/-- The payload of a DATA frame before the field section is accepted and not kept. -/
theorem earlyData_discarded :
    ∃ counter, consumeAll refusingQpack (.new 100 100) [[0x00, 0x01, 0x78]] = .ok (counter, []) ∧
      data (frames [0x00, 0x01, 0x78]).1 = [0x78] ∧ counter.malformed = true :=
  ⟨_, rfl, by decide, rfl⟩

end HttpJet.H3
