import HttpJet.Library.Runs
import HttpJet.H3.Requests

/-!
# A request stream as frames

`octet` is what one octet of the stream does.  `consume` does what the octets of its input do one
after the other, so how a stream is cut makes no difference.  `frames` parses a whole stream into
frames: a type, a length and the payload, which the end of the stream may cut short.  The counter
that has read the stream octet by octet is in the state that these frames lead to.
-/

namespace HttpJet.H3

open List
open Hpack.Integer (Octets)
open Library

/-- A counter with the body that has been received. -/
abbrev Receiving := FrameCounter × Octets

namespace FrameCounter

variable (counter : FrameCounter)

/-- One octet of a number. -/
def pushVarint (octet : UInt8) : FrameCounter × Option Nat :=
  let need := if counter.varint.isEmpty then 1 <<< (octet.toNat >>> 6) else counter.varintNeed
  let varint := counter.varint ++ [octet]
  if varint.length = need then
    ({ counter with varint := [], varintNeed := 0 }, some (VarInt.value varint))
  else ({ counter with varint := varint, varintNeed := need }, none)

theorem consumeVarint_cons (octet : UInt8) (rest : Octets) : counter.consumeVarint (octet :: rest) =
      match counter.pushVarint octet with
      | (counter, some value) => (counter, rest, some value)
      | (counter, none) => counter.consumeVarint rest := by
  rw [consumeVarint, pushVarint]
  split_ifs <;> rfl

theorem pushVarint_phase (octet : UInt8) : (counter.pushVarint octet).1.phase = counter.phase := by
  rw [pushVarint]
  split_ifs <;> rfl

theorem consumeVarint_rest (input : Octets) :
    (counter.consumeVarint input).2.1.length + 1 ≤ input.length ∨
      (counter.consumeVarint input).2.2 = none := by
  induction input generalizing counter with
  | nil => exact .inr rfl
  | cons octet _ ih =>
    rw [consumeVarint_cons]
    rcases pushed : counter.pushVarint octet with ⟨next, value | _⟩
    · rcases ih next with short | none
      · exact .inl (short.trans (Nat.le_succ _))
      · exact .inr none
    · exact .inl (Nat.le_refl _)

end FrameCounter

variable {s : Receiving}

section octets

variable (qpack : Qpack) (limits : RequestLimits)
variable {input : Octets}

/-- What one octet of the stream does. -/
def octet (s : Receiving) (b : UInt8) : Except RequestFrameError Receiving :=
  match s.1.phase with
  | .type =>
    match s.1.pushVarint b with
    | (counter, none) => .ok (counter, s.2)
    | (counter, some frameType) =>
      .ok ({ counter with frameType := frameType, phase := .length }, s.2)
  | .length =>
    match s.1.pushVarint b with
    | (counter, none) => .ok (counter, s.2)
    | (counter, some length) =>
      match counter.frameLength qpack limits length with
      | (_, .error e) => .error e
      | (counter, .ok ()) => .ok (counter, s.2)
  | .payload remaining sink =>
    .ok ({ (s.1.deposit s.2 sink [b]).1 with
      phase := if 1 = remaining then .type else .payload (remaining - 1) sink },
      (s.1.deposit s.2 sink [b]).2)

/-- The state of a run that has not failed. -/
def outcome :
    FrameCounter × Octets × Except RequestFrameError Unit → Except RequestFrameError Receiving
  | (counter, body, .ok ()) => .ok (counter, body)
  | (_, _, .error e) => .error e

variable {qpack limits} {counter : FrameCounter} {body : Octets}

variable {next : Receiving}

theorem foldlM_cons_ok {b : UInt8} (stepped : octet qpack limits s b = .ok next) (input : Octets) :
    (b :: input).foldlM (octet qpack limits) s = input.foldlM (octet qpack limits) next := by
  rw [foldlM_cons, stepped]
  rfl

theorem foldlM_type (phase : counter.phase = .type) (input : Octets) :
    input.foldlM (octet qpack limits) (counter, body) = match counter.consumeVarint input with
      | (counter, _, none) => .ok (counter, body)
      | (counter, rest, some frameType) =>
        rest.foldlM (octet qpack limits)
          ({ counter with frameType := frameType, phase := .length }, body) := by
  induction input generalizing counter with
  | nil => rfl
  | cons b input ih =>
    rw [FrameCounter.consumeVarint_cons]
    have kept := counter.pushVarint_phase b
    rcases pushed : counter.pushVarint b with ⟨next, value | _⟩
    · rw [pushed] at kept
      rw [foldlM_cons_ok (show octet qpack limits (counter, body) b = .ok (next, body) by
        rw [octet, phase]
        simp only [pushed])]
      exact ih (kept.trans phase)
    · exact foldlM_cons_ok (by
        rw [octet, phase]
        simp only [pushed]) input

theorem foldlM_length (phase : counter.phase = .length) (input : Octets) :
    input.foldlM (octet qpack limits) (counter, body) = match counter.consumeVarint input with
      | (counter, _, none) => .ok (counter, body)
      | (counter, rest, some length) =>
        match counter.frameLength qpack limits length with
        | (_, .error e) => .error e
        | (counter, .ok ()) => rest.foldlM (octet qpack limits) (counter, body) := by
  induction input generalizing counter with
  | nil => rfl
  | cons b _ ih =>
    rw [FrameCounter.consumeVarint_cons]
    have kept := counter.pushVarint_phase b
    rcases pushed : counter.pushVarint b with ⟨next, value | value⟩
    · rw [pushed] at kept
      rw [foldlM_cons_ok (show octet qpack limits (counter, body) b = .ok (next, body) by
        rw [octet, phase]
        simp only [pushed])]
      exact ih (kept.trans phase)
    · rw [foldlM_cons, octet, phase]
      simp only [pushed]
      rcases next.frameLength qpack limits value with ⟨_, e | u⟩
      · rfl
      · rfl

theorem deposit_deposit (counter : FrameCounter) (body : Octets) (sink : PayloadSink)
    (phase : FramePhase) (first rest : Octets) :
    { (counter.deposit body sink first).1 with phase := phase }.deposit
        (counter.deposit body sink first).2 sink rest =
      ({ (counter.deposit body sink (first ++ rest)).1 with phase := phase },
        (counter.deposit body sink (first ++ rest)).2) := by
  cases sink with
  | field | trailers => simp [FrameCounter.deposit]
  | body => simp [FrameCounter.deposit]
  | discard => rfl

theorem foldlM_payload {remaining : Nat} {sink : PayloadSink}
    (phase : counter.phase = .payload remaining sink) {payload : Octets} (some : payload ≠ [])
    (fits : payload.length ≤ remaining) : payload.foldlM (octet qpack limits) (counter, body) =
      .ok ({ (counter.deposit body sink payload).1 with
        phase :=
        if payload.length = remaining then .type else .payload (remaining - payload.length) sink },
        (counter.deposit body sink payload).2) := by
  induction payload generalizing counter body remaining with
  | nil => exact absurd rfl some
  | cons b payload ih =>
    have stepped :
        octet qpack limits (counter, body) b = .ok ({ (counter.deposit body sink [b]).1 with
          phase := if 1 = remaining then .type else .payload (remaining - 1) sink },
          (counter.deposit body sink [b]).2) := by
      rw [octet, phase]
    rw [foldlM_cons_ok stepped]
    cases payload with
    | nil => rfl
    | cons c payload =>
      have longer : (b :: c :: payload).length = (c :: payload).length + 1 := rfl
      have positive : 0 < (c :: payload).length := Nat.succ_pos _
      have more : ¬1 = remaining := by omega
      rw [if_neg more, ih rfl (cons_ne_nil _ _) (by omega), deposit_deposit]
      have lengths : (c :: payload).length = remaining - 1 ↔
          (b :: c :: payload).length = remaining := by
        omega
      have rests :
          remaining - 1 - (c :: payload).length = remaining - (b :: c :: payload).length := by
        omega
      simp only [lengths, rests, singleton_append]

/-- A payload that is awaited is not empty. -/
def Awaits (counter : FrameCounter) : Prop :=
  ∀ remaining sink, counter.phase = .payload remaining sink → 0 < remaining

/-- A frame that is admitted, and where its payload goes. -/
theorem frameLength_ok {length : Nat} {next : FrameCounter}
    (admitted : counter.frameLength qpack limits length = (next, .ok ())) :
    requestFrameForbidden counter.frameType = false ∧ ∃ placed sink,
      (counter.countIdle length).placePayload qpack limits length = (placed, .ok sink) ∧
      next = { placed with phase := if length = 0 then .type else .payload length sink } := by
  rw [FrameCounter.frameLength] at admitted
  split at admitted
  · nomatch congrArg Prod.snd admitted
  rename_i allowed
  split at admitted
  · nomatch congrArg Prod.snd admitted
  refine ⟨Bool.not_eq_true _ ▸ allowed, ?_⟩
  revert admitted
  rcases (counter.countIdle length).placePayload qpack limits length with ⟨placed, e | sink⟩
  · exact fun admitted => nomatch congrArg Prod.snd admitted
  · intro admitted
    exact ⟨placed, sink, rfl, (congrArg Prod.fst admitted).symm⟩

theorem frameLength_awaits {length : Nat} {next : FrameCounter}
    (admitted : counter.frameLength qpack limits length = (next, .ok ())) : Awaits next := by
  obtain ⟨-, _, _, -, rfl⟩ := frameLength_ok admitted
  intro remaining other phase
  split_ifs at phase with empty
  obtain ⟨rfl, -⟩ := FramePhase.payload.inj phase
  exact Nat.pos_of_ne_zero empty

theorem take_ne_nil {count : Nat} (positive : 0 < count) (some : input ≠ []) :
    input.take count ≠ [] := by
  rw [Ne, take_eq_nil_iff, not_or]
  exact ⟨Nat.pos_iff_ne_zero.mp positive, some⟩

theorem consumeLoop_eq (fuel : Nat) (awaits : Awaits counter) (enough : input.length ≤ fuel) :
    outcome (FrameCounter.consumeLoop qpack limits fuel counter body input) =
      input.foldlM (octet qpack limits) (counter, body) := by
  induction fuel generalizing counter body input with
  | zero =>
    rw [length_eq_zero_iff.mp (Nat.le_zero.mp enough)]
    rfl
  | succ _ ih =>
    by_cases empty : input = []
    · rw [empty]
      rfl
    rw [FrameCounter.consumeLoop, if_neg (by rw [List.isEmpty_iff]; exact empty)]
    have shorter := counter.consumeVarint_rest input
    cases phase : counter.phase with
    | type =>
      rw [foldlM_type phase]
      revert shorter
      rcases counter.consumeVarint input with ⟨next, rest, value | value⟩
      · exact fun _ => rfl
      · intro shorter
        have short : rest.length + 1 ≤ input.length :=
          shorter.resolve_right (Option.some_ne_none value)
        exact ih (fun _ _ same => nomatch same) (by omega)
    | length =>
      rw [foldlM_length phase]
      revert shorter
      rcases counter.consumeVarint input with ⟨next, rest, value | value⟩
      · exact fun _ => rfl
      · intro shorter
        have short : rest.length + 1 ≤ input.length :=
          shorter.resolve_right (Option.some_ne_none value)
        dsimp only
        rcases admitted : next.frameLength qpack limits value with ⟨_, e | u⟩
        · rfl
        · exact ih (frameLength_awaits admitted) (by omega)
    | payload remaining sink =>
      have positive := awaits remaining sink phase
      have taken :
          (input.take (min remaining input.length)).length = min remaining input.length := by
        rw [length_take, Nat.min_eq_left (Nat.min_le_right ..)]
      have some : 0 < input.length := length_pos_of_ne_nil empty
      have first : (input.take (min remaining input.length)).foldlM (octet qpack limits)
          (counter, body) = _ :=
        foldlM_payload phase (take_ne_nil (by omega) empty)
          (by rw [taken]; exact Nat.min_le_left ..)
      rw [taken] at first
      rw [← take_append_drop (min remaining input.length) input, foldlM_append, first,
        take_append_drop]
      refine ih (fun left other waiting => ?_) (by rw [length_drop]; omega)
      split_ifs at waiting with all
      obtain ⟨rfl, -⟩ := FramePhase.payload.inj waiting
      omega

/-- An octet keeps a payload awaited only while it is not complete. -/
theorem octet_awaits {b : UInt8} (awaits : Awaits s.1)
    (stepped : octet qpack limits s b = .ok next) :
    Awaits next.1 := by
  rw [octet] at stepped
  have kept := s.1.pushVarint_phase b
  rcases pushed : s.1.pushVarint b with ⟨later, value⟩
  rw [pushed] at stepped kept
  have waits (remaining : Nat) (sink : PayloadSink)
      (waiting : later.phase = .payload remaining sink) :
      0 < remaining := awaits remaining sink (kept.symm.trans waiting)
  cases phase : s.1.phase with
  | type =>
    rw [phase] at stepped
    cases value with
    | none =>
      obtain rfl := Except.ok.inj stepped
      exact waits
    | some =>
      obtain rfl := Except.ok.inj stepped
      exact fun _ _ same => nomatch same
  | length =>
    rw [phase] at stepped
    cases value with
    | none =>
      obtain rfl := Except.ok.inj stepped
      exact waits
    | some value =>
      dsimp only at stepped
      rcases admitted : later.frameLength qpack limits value with ⟨last, e | u⟩
      · rw [admitted] at stepped
        nomatch stepped
      · rw [admitted] at stepped
        obtain rfl := Except.ok.inj stepped
        exact frameLength_awaits admitted
  | payload remaining sink =>
    have positive := awaits remaining sink phase
    rw [phase] at stepped
    obtain rfl := Except.ok.inj stepped
    intro left other waiting
    split_ifs at waiting with last
    obtain ⟨rfl, -⟩ := FramePhase.payload.inj waiting
    omega

end octets

/-! ## Segments -/

section segments

variable (qpack : Qpack) (limits : RequestLimits)

/-- A stream received in segments, until one fails. -/
def consumeAll (segments : List Octets) : Except RequestFrameError Receiving :=
  segments.foldlM (fun s segment => outcome (s.1.consume qpack limits s.2 segment)) ({}, [])

variable {qpack limits}

theorem consume_eq (awaits : Awaits s.1) (input : Octets) :
    outcome (s.1.consume qpack limits s.2 input) = input.foldlM (octet qpack limits) s :=
  consumeLoop_eq input.length awaits (Nat.le_refl _)

theorem foldlM_segments (awaits : Awaits s.1) (segments : List Octets) :
    segments.foldlM (fun s segment => outcome (s.1.consume qpack limits s.2 segment)) s =
      segments.flatten.foldlM (octet qpack limits) s := by
  induction segments generalizing s with
  | nil => rfl
  | cons segment _ ih =>
    rw [foldlM_cons, flatten_cons, foldlM_append, consume_eq awaits]
    cases ran : segment.foldlM (octet qpack limits) s with
    | error => rfl
    | ok =>
      exact ih (Runs.foldlM_invariant (fun _ s => Awaits s.1)
        (fun _ _ _ _ _ awaits stepped => octet_awaits awaits stepped) [] awaits ran)

theorem awaits_fresh : Awaits {} := fun _ _ same => nomatch same

/-- Only the octets of the stream matter. -/
theorem consumeAll_eq (segments : List Octets) :
    consumeAll qpack limits segments = segments.flatten.foldlM (octet qpack limits) ({}, []) :=
  foldlM_segments awaits_fresh segments

end segments

/-! ## Frames -/

open Option Bool

variable {stream : Octets}

structure Frame where
  type : Nat
  length : Nat
  payload : Octets
  deriving DecidableEq

/-- The type and the length of a frame. -/
def readHeader (stream : Octets) : Option (Nat × Nat × Octets) := do
  let (type, rest) ← VarInt.read stream
  let (length, rest) ← VarInt.read rest
  return (type, length, rest)

/-- The frames of a stream and what is left, less than the header of another. -/
def framesFrom : Nat → Octets → List Frame × Octets
  | 0, stream => ([], stream)
  | fuel + 1, stream =>
    match readHeader stream with
    | none => ([], stream)
    | some (type, length, rest) =>
      let later := framesFrom fuel (rest.drop length)
      (⟨type, length, rest.take length⟩ :: later.1, later.2)

def frames (stream : Octets) : List Frame × Octets := framesFrom stream.length stream

/-! ## Numbers, octet by octet -/

namespace FrameCounter

/-- The counter that holds the beginning of a number. -/
def holding (counter : FrameCounter) : Octets → FrameCounter
  | [] => counter
  | first :: rest => { counter with varint := first :: rest, varintNeed := VarInt.size first }

/-- No part of a number is held. -/
structure Clear (counter : FrameCounter) : Prop where
  varint : counter.varint = []
  varintNeed : counter.varintNeed = 0

variable {counter : FrameCounter}

theorem size_eq (octet : UInt8) : 1 <<< (octet.toNat >>> 6) = VarInt.size octet := by
  rw [Nat.one_shiftLeft, Nat.shiftRight_eq_div_pow]
  rfl

section

variable (clear : counter.Clear)
include clear

theorem pushVarint_holding {held : Octets} (isHeld : VarInt.Held held) (octet : UInt8) :
    (VarInt.Whole (held ++ [octet]) →
      (counter.holding held).pushVarint octet = (counter, some (VarInt.value (held ++ [octet])))) ∧
    (VarInt.Held (held ++ [octet]) →
      (counter.holding held).pushVarint octet = (counter.holding (held ++ [octet]), none)) := by
  cases held with
  | nil =>
    constructor
    · intro whole
      have sized : 1 = VarInt.size octet := whole
      rw [holding, pushVarint, clear.varint]
      simp only [isEmpty_nil, if_true, size_eq, ← sized, nil_append, length_singleton]
      rw [← clear.varint, ← clear.varintNeed]
    · intro short
      have sized : ¬1 = VarInt.size octet := Nat.ne_of_lt short
      rw [holding, pushVarint, clear.varint]
      simp only [isEmpty_nil, if_true, size_eq, nil_append, length_singleton, if_neg sized]
      rfl
  | cons first rest =>
    constructor
    · intro whole
      have sized : (first :: rest ++ [octet]).length = VarInt.size first := whole
      rw [holding, pushVarint]
      simp only [isEmpty_cons, false_eq_true, if_false, sized, if_true]
      rw [← clear.varint, ← clear.varintNeed]
    · intro short
      have sized : ¬(first :: rest ++ [octet]).length = VarInt.size first := Nat.ne_of_lt short
      rw [holding, pushVarint]
      simp only [isEmpty_cons, false_eq_true, if_false, if_neg sized]
      rfl

theorem consumeVarint_whole (held : Octets) {back : Octets} (isHeld : VarInt.Held held)
    (whole : VarInt.Whole (held ++ back)) (some : back ≠ []) (rest : Octets) :
    (counter.holding held).consumeVarint (back ++ rest) =
      (counter, rest, .some (VarInt.value (held ++ back))) := by
  induction back generalizing held with
  | nil => exact absurd rfl some
  | cons octet back ih =>
    rw [cons_append, consumeVarint_cons]
    cases back with
    | nil => rw [(pushVarint_holding clear isHeld octet).1 whole, nil_append]
    | cons next back =>
      have later : held ++ octet :: next :: back = held ++ [octet] ++ next :: back := by
        rw [append_assoc, singleton_append]
      rw [later] at whole ⊢
      rw [(pushVarint_holding clear isHeld octet).2 whole.held]
      exact ih _ whole.held whole (cons_ne_nil _ _)

theorem consumeVarint_held (held : Octets) {back : Octets} (isHeld : VarInt.Held (held ++ back)) :
    (counter.holding held).consumeVarint back = (counter.holding (held ++ back), [], none) := by
  induction back generalizing held with
  | nil => rw [append_nil, consumeVarint]
  | cons octet back ih =>
    have later : held ++ octet :: back = held ++ [octet] ++ back := by
      rw [append_assoc, singleton_append]
    rw [later] at isHeld ⊢
    rw [consumeVarint_cons,
      (pushVarint_holding clear isHeld.of_append.of_append octet).2 isHeld.of_append]
    exact ih _ isHeld

theorem consumeVarint_number {number : Octets} (whole : VarInt.Whole number) (rest : Octets) :
    counter.consumeVarint (number ++ rest) = (counter, rest, some (VarInt.value number)) :=
  consumeVarint_whole clear [] trivial whole whole.ne_nil rest

theorem consumeVarint_beginning (held : VarInt.Held stream) :
    counter.consumeVarint stream = (counter.holding stream, [], none) :=
  consumeVarint_held clear [] held

end

/-! ## What an admitted frame does -/

section admission

variable {qpack : Qpack} {limits : RequestLimits} {counter next : FrameCounter} {length : Nat}
  {sink : PayloadSink}

theorem decodeHead_eq (qpack : Qpack) (limits : RequestLimits) (counter : FrameCounter) :
    ∃ head footprint, counter.decodeHead qpack limits =
      { counter with head := head, headFootprint := footprint } := by
  rw [FrameCounter.decodeHead]
  split
  · exact ⟨_, _, rfl⟩
  · exact ⟨counter.head, counter.headFootprint, rfl⟩

/-- A head that is decoded is that of the field section. -/
theorem decodeHead_head (qpack : Qpack) (limits : RequestLimits) (counter : FrameCounter) :
    (∃ field, counter.field = some field ∧ (counter.decodeHead qpack limits).head =
        decodeRequestHead qpack field limits.maxHeaderBytes) ∨
      (counter.decodeHead qpack limits).head = counter.head ∧
        (counter.field = none ∨ counter.head ≠ .pending) := by
  rw [FrameCounter.decodeHead]
  split
  · rename_i octets head field
    exact .inl ⟨octets, field, rfl⟩
  · rename_i other
    refine .inr ⟨rfl, ?_⟩
    cases field : counter.field with
    | none => exact .inl rfl
    | some octets => exact .inr fun head => other octets head field

theorem dataFrame_ok (admitted : counter.dataFrame qpack limits length = (next, .ok ())) :
    next = { counter.decodeHead qpack limits with bodyBytes := counter.bodyBytes + length } ∧
      counter.bodyBytes + length ≤ limits.maxBodyBytes ∧
      ∀ contentLength, next.declared = some (some contentLength) →
        counter.bodyBytes + length ≤ contentLength := by
  have bytes : (counter.decodeHead qpack limits).bodyBytes = counter.bodyBytes := by
    obtain ⟨head, footprint, same⟩ := decodeHead_eq qpack limits counter
    rw [same]
  have declares : ∀ total, { counter.decodeHead qpack limits with bodyBytes := total }.declared =
      (counter.decodeHead qpack limits).declared := fun _ => rfl
  rw [FrameCounter.dataFrame] at admitted
  simp only [bytes] at admitted
  split at admitted
  · nomatch congrArg Prod.snd admitted
  split at admitted
  · rename_i contentLength declared
    split at admitted
    · nomatch congrArg Prod.snd admitted
    split at admitted
    · nomatch congrArg Prod.snd admitted
    split at admitted
    · nomatch congrArg Prod.snd admitted
    · obtain rfl : _ = next := congrArg Prod.fst admitted
      refine ⟨rfl, by omega, fun other same => ?_⟩
      rw [declares, declared] at same
      obtain rfl := some.inj (some.inj same)
      omega
  all_goals
    rename_i declared
    split at admitted
    · nomatch congrArg Prod.snd admitted
    · obtain rfl : _ = next := congrArg Prod.fst admitted
      refine ⟨rfl, by omega, fun other same => ?_⟩
      rw [declares, declared] at same
      nomatch same

theorem bodyFrame_ok (admitted : counter.bodyFrame qpack limits length = (next, .ok sink)) :
    ∃ counted, counter.dataFrame qpack limits length = (counted, .ok ()) ∧ next = { counted with
        malformed := counted.malformed || counted.field.isNone || counted.trailers.isSome } ∧
      sink = if next.malformed then .discard else .body := by
  rw [FrameCounter.bodyFrame] at admitted
  revert admitted
  rcases counter.dataFrame qpack limits length with ⟨counted, e | u⟩
  · exact fun admitted => nomatch congrArg Prod.snd admitted
  · intro admitted
    refine ⟨counted, rfl, ?_⟩
    dsimp only at admitted
    split at admitted
    · rename_i misplaced
      obtain ⟨rfl, same⟩ := Prod.mk.inj admitted
      rw [Bool.or_assoc, misplaced, Bool.or_true]
      exact ⟨rfl, (Except.ok.inj same).symm⟩
    · rename_i placed
      obtain ⟨rfl, same⟩ := Prod.mk.inj admitted
      rw [Bool.or_assoc, (Bool.not_eq_true _).mp placed, Bool.or_false]
      exact ⟨rfl, (Except.ok.inj same).symm⟩

/-- The first section is the field section, the second the trailers; a third is misplaced. -/
theorem headersFrame_ok (admitted : counter.headersFrame limits length = (next, .ok sink)) :
    (counter.field = none ∧ sink = .field ∧
        next = { counter with headerBytes := counter.headerBytes + length, field := some [] }) ∨
      (counter.field ≠ none ∧ counter.trailers = none ∧ sink = .trailers ∧
        next = { counter with headerBytes := counter.headerBytes + length, trailers := some [] }) ∨
      (counter.field ≠ none ∧ counter.trailers ≠ none ∧ sink = .discard ∧
        next =
          { counter with headerBytes := counter.headerBytes + length, malformed := true }) := by
  rw [FrameCounter.headersFrame] at admitted
  split at admitted
  · nomatch congrArg Prod.snd admitted
  dsimp only at admitted
  split at admitted
  · rename_i first
    obtain ⟨rfl, same⟩ := Prod.mk.inj admitted
    exact .inl ⟨isNone_iff_eq_none.mp first, (Except.ok.inj same).symm, rfl⟩
  rename_i given
  rw [isNone_iff_eq_none] at given
  split at admitted
  · rename_i second
    obtain ⟨rfl, same⟩ := Prod.mk.inj admitted
    exact .inr (.inl ⟨given, isNone_iff_eq_none.mp second, (Except.ok.inj same).symm, rfl⟩)
  · rename_i third
    rw [isNone_iff_eq_none] at third
    obtain ⟨rfl, same⟩ := Prod.mk.inj admitted
    exact .inr (.inr ⟨given, third, (Except.ok.inj same).symm, rfl⟩)

theorem placePayload_varint (placed : counter.placePayload qpack limits length = (next, .ok sink)) :
    next.varint = counter.varint ∧ next.varintNeed = counter.varintNeed := by
  rw [FrameCounter.placePayload] at placed
  split at placed
  · rcases headersFrame_ok placed with ⟨-, -, rfl⟩ | ⟨-, -, -, rfl⟩ | ⟨-, -, -, rfl⟩ <;>
      exact ⟨rfl, rfl⟩
  split at placed
  · obtain ⟨counted, counts, rfl, -⟩ := bodyFrame_ok placed
    obtain ⟨rfl, -⟩ := dataFrame_ok counts
    obtain ⟨head, footprint, same⟩ := decodeHead_eq qpack limits counter
    rw [same]
    exact ⟨rfl, rfl⟩
  · obtain ⟨rfl, -⟩ := Prod.mk.inj placed
    exact ⟨rfl, rfl⟩

theorem countIdle_eq (counter : FrameCounter) (length : Nat) :
    ∃ count, counter.countIdle length = { counter with noProgressFrames := count } := by
  rw [FrameCounter.countIdle]
  split
  · exact ⟨_, rfl⟩
  · exact ⟨counter.noProgressFrames, rfl⟩

theorem frameLength_clear (admitted : counter.frameLength qpack limits length = (next, .ok ()))
    (clear : counter.Clear) : next.Clear := by
  obtain ⟨-, placed, sink, places, rfl⟩ := frameLength_ok admitted
  obtain ⟨varint, need⟩ := placePayload_varint places
  obtain ⟨count, same⟩ := countIdle_eq counter length
  rw [same] at varint need
  exact ⟨varint.trans clear.varint, need.trans clear.varintNeed⟩

end admission

/-- The payload of a frame, as much of it as there is. -/
def receive (counter : FrameCounter) (body payload : Octets) : Receiving :=
  match counter.phase with
  | .payload remaining sink =>
    if payload.isEmpty then (counter, body)
    else
      ({ (counter.deposit body sink payload).1 with
        phase := if payload.length = remaining then .type
        else .payload (remaining - payload.length) sink },
        (counter.deposit body sink payload).2)
  | _ => (counter, body)

/-- The stream ends after octets that are less than a header. -/
def cut (counter : FrameCounter) (rest : Octets) : FrameCounter :=
  match VarInt.read rest with
  | none => counter.holding rest
  | some (type, rest) => { counter with frameType := type, phase := .length }.holding rest

end FrameCounter

/-! ## The stream, frame by frame -/

section parse

variable (qpack : Qpack) (limits : RequestLimits)

/-- What one frame of the stream does. -/
def frame (s : Receiving) (f : Frame) : Except RequestFrameError Receiving :=
  match { s.1 with frameType := f.type, phase := .length }.frameLength qpack limits f.length with
  | (_, .error e) => .error e
  | (counter, .ok ()) => .ok (counter.receive s.2 f.payload)

variable {qpack limits} {counter : FrameCounter} {body : Octets} (fuel : Nat)

theorem framesFrom_nil : framesFrom fuel [] = ([], []) := by
  cases fuel with
  | zero => rfl
  | succ => rfl

theorem readHeader_append {first : Octets} (whole : VarInt.Whole first) (rest : Octets) :
    readHeader (first ++ rest) = (VarInt.read rest).bind fun (length, rest) =>
      some (VarInt.value first, length, rest) := by
  rw [readHeader, VarInt.read_append whole]
  rfl

theorem readHeader_held (held : VarInt.Held stream) : readHeader stream = none := by
  rw [readHeader, VarInt.read_held held]
  rfl

theorem readHeader_shorter {type length : Nat} {rest : Octets}
    (header : readHeader stream = some (type, length, rest)) : rest.length < stream.length := by
  rcases VarInt.whole_or_held stream with ⟨first, behind, rfl, whole⟩ | held
  · have positive := length_pos_of_ne_nil whole.ne_nil
    rw [readHeader_append whole] at header
    rcases VarInt.whole_or_held behind with ⟨second, payload, rfl, complete⟩ | held
    · rw [VarInt.read_append complete] at header
      obtain ⟨-, same⟩ := Prod.mk.inj (some.inj header)
      obtain ⟨-, rfl⟩ := Prod.mk.inj same
      simp only [length_append]
      omega
    · rw [VarInt.read_held held] at header
      nomatch header
  · rw [readHeader_held held] at header
    nomatch header

theorem foldlM_header (phase : counter.phase = .type) (clear : counter.Clear) :
    stream.foldlM (octet qpack limits) (counter, body) = match readHeader stream with
      | none => .ok (counter.cut stream, body)
      | some (type, length, rest) =>
        match { counter with frameType := type, phase := .length }.frameLength qpack
          limits length with
        | (_, .error e) => .error e
        | (counter, .ok ()) => rest.foldlM (octet qpack limits) (counter, body) := by
  rw [foldlM_type phase]
  rcases VarInt.whole_or_held stream with ⟨first, rest, rfl, whole⟩ | held
  · rw [FrameCounter.consumeVarint_number clear whole, readHeader_append whole, FrameCounter.cut,
      VarInt.read_append whole]
    dsimp only
    rw [foldlM_length rfl]
    have clears : { counter with frameType := VarInt.value first, phase := .length }.Clear :=
      ⟨clear.varint, clear.varintNeed⟩
    rcases VarInt.whole_or_held rest with ⟨second, payload, rfl, complete⟩ | held
    · rw [FrameCounter.consumeVarint_number clears complete, VarInt.read_append complete]
      rfl
    · rw [FrameCounter.consumeVarint_beginning clears held, VarInt.read_held held]
      rfl
  · rw [FrameCounter.consumeVarint_beginning clear held, readHeader_held held, FrameCounter.cut,
      VarInt.read_held held]

theorem foldlM_receive {length : Nat} {sink : PayloadSink}
    (phase : counter.phase = if length = 0 then .type else .payload length sink) (rest : Octets) :
    (rest.take length).foldlM (octet qpack limits) (counter, body) =
      .ok (counter.receive body (rest.take length)) := by
  split_ifs at phase with empty
  · rw [FrameCounter.receive, phase, empty, take_zero]
    rfl
  · rw [FrameCounter.receive, phase]
    dsimp only
    split
    · rename_i none
      rw [List.isEmpty_iff.mp none]
      rfl
    · rename_i some
      rw [List.isEmpty_iff] at some
      exact foldlM_payload phase some (length_take_le ..)

theorem receive_phase {length : Nat} {sink : PayloadSink}
    (phase : counter.phase = if length = 0 then .type else .payload length sink) {payload : Octets}
    (fits : payload.length ≤ length) :
    (counter.receive body payload).1.phase = .type ↔ payload.length = length := by
  split_ifs at phase with empty
  · rw [FrameCounter.receive, phase]
    exact ⟨fun _ => by omega, fun _ => phase⟩
  · rw [FrameCounter.receive, phase]
    dsimp only
    split
    · rename_i none
      rw [isEmpty_iff.mp none, phase]
      exact ⟨nofun, fun same => absurd same.symm empty⟩
    · split_ifs with whole
      · exact ⟨fun _ => whole, fun _ => rfl⟩
      · exact ⟨nofun, fun same => absurd same whole⟩

theorem receive_clear (clear : counter.Clear) (body payload : Octets) :
    (counter.receive body payload).1.Clear := by
  rw [FrameCounter.receive]
  split
  · rename_i remaining sink phase
    split
    · exact clear
    · cases sink <;> exact ⟨clear.varint, clear.varintNeed⟩
  · exact clear

theorem foldlM_framesFrom (enough : stream.length ≤ fuel) (phase : counter.phase = .type)
    (clear : counter.Clear) : stream.foldlM (octet qpack limits) (counter, body) =
      ((framesFrom fuel stream).1.foldlM (frame qpack limits) (counter, body)).map fun s =>
        (s.1.cut (framesFrom fuel stream).2, s.2) := by
  induction fuel generalizing counter body stream with
  | zero =>
    rw [length_eq_zero_iff.mp (Nat.le_zero.mp enough)]
    rfl
  | succ _ ih =>
    rw [foldlM_header phase clear]
    cases header : readHeader stream with
    | none =>
      rw [framesFrom, header]
      rfl
    | some read =>
      obtain ⟨type, length, rest⟩ := read
      have shorter := readHeader_shorter header
      rw [framesFrom, header]
      rw [foldlM_cons, frame]
      dsimp only
      rcases admitted : { counter with frameType := type, phase := .length }.frameLength qpack
        limits length
        with ⟨next, e | u⟩
      · rw [admitted]
        rfl
      · rw [admitted]
        obtain ⟨-, placed, sink, -, same⟩ := frameLength_ok admitted
        have waits : next.phase = if length = 0 then .type else .payload length sink := by rw [same]
        have clears : next.Clear :=
          FrameCounter.frameLength_clear admitted ⟨clear.varint, clear.varintNeed⟩
        have first : (rest.take length).foldlM (octet qpack limits) (next, body) = _ :=
          foldlM_receive waits rest
        have parted : rest.foldlM (octet qpack limits) (next, body) =
            (rest.drop length).foldlM (octet qpack limits)
              (next.receive body (rest.take length)) := by
          conv_lhs => rw [← take_append_drop length rest, foldlM_append, first]
          rfl
        dsimp only
        rw [parted]
        -- A payload that is cut ends the stream.
        by_cases whole : (rest.take length).length = length
        · exact ih (by rw [length_drop]; omega)
            ((receive_phase waits (length_take_le ..)).mpr whole) (receive_clear clears ..)
        · rw [length_take] at whole
          have beyond : rest.drop length = [] := drop_eq_nil_of_le (by omega)
          rw [beyond, framesFrom_nil]
          rfl

theorem foldlM_frames (stream : Octets) : stream.foldlM (octet qpack limits) ({}, []) =
      ((frames stream).1.foldlM (frame qpack limits) ({}, [])).map fun s =>
        (s.1.cut (frames stream).2, s.2) :=
  foldlM_framesFrom stream.length (Nat.le_refl _) rfl ⟨rfl, rfl⟩

/-- The payload of a frame is all there. -/
def Frame.Complete (f : Frame) : Prop := f.payload.length = f.length

theorem framesFrom_fits (stream : Octets) :
    ∀ f ∈ (framesFrom fuel stream).1, f.payload.length ≤ f.length := by
  induction fuel generalizing stream with
  | zero => exact fun f listed => nomatch listed
  | succ fuel ih =>
    rw [framesFrom]
    split
    · exact fun f listed => nomatch listed
    · rintro f (_ | ⟨-, later⟩)
      · exact length_take_le ..
      · exact ih _ f later

/-- Only the end of the stream cuts a payload. -/
theorem framesFrom_complete (stream : Octets) {before : List Frame} {f : Frame}
    {after : List Frame} (listed : (framesFrom fuel stream).1 = before ++ f :: after)
    (behind : after ≠ [] ∨ (framesFrom fuel stream).2 ≠ []) : f.Complete := by
  induction fuel generalizing stream before with
  | zero => exact absurd listed.symm (append_ne_nil_of_right_ne_nil _ (cons_ne_nil _ _))
  | succ fuel ih =>
    rw [framesFrom] at listed behind
    split at listed
    · exact absurd listed.symm (append_ne_nil_of_right_ne_nil _ (cons_ne_nil _ _))
    · rename_i type length rest header
      rw [header] at behind
      dsimp only at listed behind
      cases before with
      | nil =>
        obtain ⟨rfl, rfl⟩ := cons.inj listed
        by_cases short : rest.length ≤ length
        · have beyond : rest.drop length = [] := drop_eq_nil_of_le short
          rw [beyond, framesFrom_nil] at behind
          rcases behind with more | more <;> exact absurd rfl more
        · exact length_take_of_le (by omega)
      | cons => exact ih _ (cons.inj listed).2 behind

end parse

end HttpJet.H3
