import HttpJet.Library.Text
import HttpJet.Library.Runs
import HttpJet.H2.Message

/-!
# Chunked request bodies

The decoder is a cursor over a buffer that only grows.  Between calls it keeps where the
search for the end of the line resumes, a chunk whose data is not there yet, and whether the
trailers have begun.  A turn on a part of the wire is the turn on
the whole, up to the place where the search resumes, or the part lacks octets.
-/

namespace HttpJet.H1

open Library List Option Bool
open Hpack.Integer (Octets)
open Hpack.StaticTable (ascii)
open H2 (isAlphanumeric isBlank isHexDigit)

def maxChunkLine : Nat := 8 * 1024

def cr : UInt8 := 13

def lf : UInt8 := 10

def crlf : Octets := [cr, lf]

/-- `usize::saturating_add` -/
def saturatingAdd (a b : Nat) : Nat := min (a + b) (2 ^ 64 - 1)

theorem saturatingAdd_eq {a b : Nat} (small : a + b < 2 ^ 64) : saturatingAdd a b = a + b :=
  Nat.min_eq_left (Nat.le_pred_of_lt small)

/-- The offset of the first CRLF. -/
def findCrlf : Octets → Option Nat
  | [] => none
  | b :: rest =>
    if b = cr ∧ rest.head? = some lf then some 0 else (findCrlf rest).map (· + 1)

/-- `find_crlf_from`: the absolute offset of the first CRLF at or after `from`. -/
def findCrlfFrom (buf : Octets) (start : Nat) : Option Nat :=
  (findCrlf (buf.drop start)).map (start + ·)

/-- No control octets other than a tab. -/
def framingLineClean (line : Octets) : Bool := line.all fun b => b == 9 || (0x20 ≤ b && b != 0x7f)

def isTokenOctet (b : UInt8) : Bool := isAlphanumeric b || (ascii "!#$%&'*+-.^_`|~").contains b

def trailerLineValid (line : Octets) : Bool :=
  match line.findIdx? (· == 58) with
  | none => false
  | some colon =>
    let name := line.take colon
    !name.isEmpty && name.all isTokenOctet && framingLineClean line

/-- `parse_chunk_size`: the size before an extension, or nothing for garbage. -/
def parseChunkSize (line : Octets) : Option Nat :=
  if framingLineClean line then
    let trimmed := H2.trim (line.takeWhile (· != 59))
    if trimmed.isEmpty || !trimmed.all isHexDigit then none
    else (fromHex trimmed).filter (· < 2 ^ 64)
  else none

inductive ChunkStep where
  /-- The body is decoded; the offset is one past its last CRLF. -/
  | done (after : Nat)
  | needMore
  | bad
  deriving DecidableEq

structure ChunkedDecoder where
  body : Octets
  pos : Nat
  /-- No CRLF begins between `pos` and here. -/
  scan : Nat
  /-- Where the data of the current chunk begins, and its size. -/
  pending : Option (Nat × Nat)
  inTrailers : Bool
  start : Nat
  maxBody : UInt64
  maxRaw : UInt64
  tooLarge : Bool
  deriving DecidableEq

namespace ChunkedDecoder

/-- A new decoder with the budgets its caller sets. -/
def new (start : Nat) (maxBody maxRaw : UInt64) : ChunkedDecoder where
  body := []
  pos := start
  scan := start
  pending := none
  inTrailers := false
  start
  maxBody
  maxRaw
  tooLarge := false

variable (dec : ChunkedDecoder)

/-- `next_line_end`: the end of the line at `pos`, or the length of its part so far. -/
def nextLineEnd (buf : Octets) : ChunkedDecoder × Except Nat Nat :=
  match findCrlfFrom buf (max dec.scan dec.pos) with
  | some lineEnd => (dec, .ok lineEnd)
  | none => ({ dec with scan := max (buf.length - 1) dec.pos }, .error (buf.length - dec.pos))

def unterminated (buf : Octets) (lineLen : Nat) : ChunkStep :=
  if maxChunkLine < lineLen ∨ dec.maxRaw.toNat < buf.length - dec.start then .bad else .needMore

def slice (buf : Octets) (start stop : Nat) : Octets := (buf.drop start).take (stop - start)

/-- A turn at a chunk whose size is known. -/
def takeData (buf : Octets) (dataStart size : Nat) :
    Turn ChunkedDecoder (ChunkedDecoder × ChunkStep) :=
  let need := saturatingAdd (saturatingAdd dataStart size) 2
  if buf.length < need then .stop (dec, .needMore)
  else if slice buf (dataStart + size) need ≠ crlf then .stop (dec, .bad)
  else .again {
    dec with
    body := dec.body ++ slice buf dataStart (dataStart + size)
    pending := none
    pos := need }

/-- A turn at a trailer line, or at the empty line that ends the body. -/
def takeTrailer (lineEnd : Nat) (line : Octets) :
    Turn ChunkedDecoder (ChunkedDecoder × ChunkStep) :=
  if dec.maxRaw.toNat < lineEnd + 2 - dec.start then .stop (dec, .bad)
  else if lineEnd = dec.pos then .stop (dec, .done (lineEnd + 2))
  else if ¬trailerLineValid line then .stop (dec, .bad)
  else .again { dec with pos := lineEnd + 2 }

/-- A turn at a size line. -/
def takeSize (lineEnd : Nat) (line : Octets) : Turn ChunkedDecoder (ChunkedDecoder × ChunkStep) :=
  if dec.maxRaw.toNat < lineEnd + 2 - dec.start then .stop (dec, .bad)
  else
    match parseChunkSize line with
    | none => .stop (dec, .bad)
    | some size =>
      if size = 0 then .again { dec with pos := lineEnd + 2, inTrailers := true }
      else if dec.maxBody.toNat < saturatingAdd dec.body.length size then
        .stop ({ dec with tooLarge := true }, .bad)
      else if dec.maxRaw.toNat <
          saturatingAdd (saturatingAdd (lineEnd + 2) size) 2 - dec.start then .stop (dec, .bad)
      else .again { dec with pending := some (lineEnd + 2, size) }

/-- A turn of the loop of `advance`: data, a trailer line or a size line. -/
def turn (buf : Octets) (dec : ChunkedDecoder) : Turn ChunkedDecoder (ChunkedDecoder × ChunkStep) :=
  match dec.pending with
  | some (dataStart, size) => dec.takeData buf dataStart size
  | none =>
    match dec.nextLineEnd buf with
    | (dec, .error lineLen) => .stop (dec, dec.unterminated buf lineLen)
    | (dec, .ok lineEnd) =>
      if dec.inTrailers then dec.takeTrailer lineEnd (slice buf dec.pos lineEnd)
      else dec.takeSize lineEnd (slice buf dec.pos lineEnd)

/-- Every turn that goes on takes octets of the buffer, so its length is enough fuel. -/
def advance (buf : Octets) : ChunkedDecoder × ChunkStep :=
  (Loop.run (turn buf) (buf.length + 1) dec).getD (dec, .needMore)

end ChunkedDecoder

variable {buf : Octets} {i start cut n : Nat}

/-! ## Line ends -/

def CrlfAt (buf : Octets) (i : Nat) : Prop := buf[i]? = some cr ∧ buf[i + 1]? = some lf

theorem CrlfAt.lt (ends : CrlfAt buf i) : i + 2 ≤ buf.length :=
  (List.getElem?_eq_some_iff.mp ends.2).choose

theorem crlfAt_zero {b : UInt8} {rest : Octets} :
    CrlfAt (b :: rest) 0 ↔ b = cr ∧ rest.head? = some lf := by
  rw [CrlfAt, getElem?_cons_zero, getElem?_cons_succ, some.injEq, head?_eq_getElem?]

theorem crlfAt_drop : CrlfAt (buf.drop start) i ↔ CrlfAt buf (start + i) := by
  rw [CrlfAt, CrlfAt, getElem?_drop, getElem?_drop, Nat.add_assoc]

theorem crlfAt_take : CrlfAt (buf.take cut) i ↔ CrlfAt buf i ∧ i + 2 ≤ cut := by
  constructor
  · intro ends
    have within := ends.lt
    rw [length_take] at within
    have inside : i + 2 ≤ cut := Nat.le_trans within (Nat.min_le_left ..)
    rw [CrlfAt, getElem?_take_of_lt (by omega), getElem?_take_of_lt (by omega)] at ends
    exact ⟨ends, inside⟩
  · rintro ⟨ends, _⟩
    rw [CrlfAt, getElem?_take_of_lt (by omega), getElem?_take_of_lt (by omega)]
    exact ends

theorem findCrlf_eq_none (none_ : findCrlf buf = none) (i : Nat) : ¬CrlfAt buf i := by
  induction buf generalizing i with
  | nil => exact fun ends => absurd ends.lt (Nat.not_succ_le_zero _)
  | cons _ _ ih =>
    rw [findCrlf] at none_
    split at none_
    case isTrue => contradiction
    case isFalse other =>
      rw [map_eq_none_iff] at none_
      cases i with
      | zero => rwa [crlfAt_zero]
      | succ i => exact ih none_ i

theorem findCrlf_eq_some (found : findCrlf buf = some n) :
    CrlfAt buf n ∧ ∀ i < n, ¬CrlfAt buf i := by
  induction buf generalizing n with
  | nil => contradiction
  | cons _ _ ih =>
    rw [findCrlf] at found
    split at found
    case isTrue here =>
      rw [← some.inj found]
      exact ⟨crlfAt_zero.mpr here, fun i small => absurd small (Nat.not_lt_zero i)⟩
    case isFalse other =>
      obtain ⟨m, later, same⟩ := map_eq_some_iff.mp found
      obtain ⟨ends, first⟩ := ih later
      rw [← same]
      refine ⟨ends, fun i small => ?_⟩
      cases i with
      | zero => rwa [crlfAt_zero]
      | succ i => exact first i (by omega)

theorem findCrlfFrom_eq_none (none_ : findCrlfFrom buf start = none) (after : start ≤ i) :
    ¬CrlfAt buf i := by
  rw [findCrlfFrom, map_eq_none_iff] at none_
  have absent := findCrlf_eq_none none_ (i - start)
  rwa [crlfAt_drop, Nat.add_sub_cancel' after] at absent

theorem findCrlfFrom_eq_some (found : findCrlfFrom buf start = some n) :
    start ≤ n ∧ CrlfAt buf n ∧ ∀ i, start ≤ i → i < n → ¬CrlfAt buf i := by
  obtain ⟨m, later, same⟩ := map_eq_some_iff.mp found
  obtain ⟨ends, first⟩ := findCrlf_eq_some later
  rw [← same]
  refine ⟨Nat.le_add_right .., crlfAt_drop.mp ends, fun i after small => ?_⟩
  have absent := first (i - start) (by omega)
  rwa [crlfAt_drop, Nat.add_sub_cancel' after] at absent

theorem findCrlfFrom_of_first (after : start ≤ n) (ends : CrlfAt buf n)
    (first : ∀ i, start ≤ i → i < n → ¬CrlfAt buf i) : findCrlfFrom buf start = some n := by
  cases found : findCrlfFrom buf start with
  | none => exact absurd ends (findCrlfFrom_eq_none found after)
  | some m =>
    obtain ⟨after', ends', first'⟩ := findCrlfFrom_eq_some found
    congr 1
    rcases Nat.lt_trichotomy m n with less | same | more
    · exact absurd ends' (first m after' less)
    · exact same
    · exact absurd ends (first' n after more)

theorem findCrlfFrom_of_none (absent : ∀ i, start ≤ i → ¬CrlfAt buf i) :
    findCrlfFrom buf start = none := by
  cases found : findCrlfFrom buf start with
  | none => rfl
  | some m =>
    obtain ⟨after, ends, _⟩ := findCrlfFrom_eq_some found
    exact absurd ends (absent m after)

/-! ## Turns -/

namespace ChunkedDecoder

variable {dataStart size lineEnd : Nat} {next : ChunkedDecoder} {line : Octets}
  (dec : ChunkedDecoder)

/-- The decoder without what it remembers of the search for a line end. -/
def fresh : ChunkedDecoder := { dec with scan := dec.start }

/-- How far the decoder has read. -/
def extent : Nat :=
  match dec.pending with
  | some (dataStart, _) => dataStart
  | none => dec.pos

/-- The turn at a complete line. -/
def atLine (lineEnd : Nat) (line : Octets) : Turn ChunkedDecoder (ChunkedDecoder × ChunkStep) :=
  if dec.inTrailers then dec.takeTrailer lineEnd line else dec.takeSize lineEnd line

/-- The decoder after it has found no line end. -/
def missed (buf : Octets) : ChunkedDecoder :=
  { dec with scan := max (buf.length - 1) dec.pos }

def freshTurn : Turn ChunkedDecoder (ChunkedDecoder × ChunkStep) →
    Turn ChunkedDecoder (ChunkedDecoder × ChunkStep)
  | .again dec => .again dec.fresh
  | .stop (dec, step) => .stop (dec.fresh, step)

@[simp]
theorem extent_fresh : dec.fresh.extent = dec.extent := rfl

section

variable {dec : ChunkedDecoder}

@[simp]
theorem extent_of_none (idle : dec.pending = none) : dec.extent = dec.pos := by
  rw [extent, idle]

theorem extent_of_some (waiting : dec.pending = some (dataStart, size)) :
    dec.extent = dataStart := by
  rw [extent, waiting]

theorem atLine_again (again : dec.atLine lineEnd line = .again next) :
    (dec.inTrailers = true ∧ trailerLineValid line = true ∧
      next = { dec with pos := lineEnd + 2 }) ∨
    (dec.inTrailers = false ∧ parseChunkSize line = some 0 ∧
      next = { dec with pos := lineEnd + 2, inTrailers := true }) ∨
    ∃ size, (dec.inTrailers = false ∧ parseChunkSize line = some size ∧ size ≠ 0 ∧
      saturatingAdd dec.body.length size ≤ dec.maxBody.toNat ∧
      saturatingAdd (saturatingAdd (lineEnd + 2) size) 2 - dec.start ≤ dec.maxRaw.toNat) ∧
      next = { dec with pending := some (lineEnd + 2, size) } := by
  rw [atLine] at again
  split at again
  case isTrue trailing =>
    rw [takeTrailer] at again
    split_ifs at again with _ _ valid
    exact .inl ⟨trailing, valid, (Turn.again.inj again).symm⟩
  case isFalse sizes =>
    rw [takeSize] at again
    rw [not_eq_true] at sizes
    split at again
    case isTrue => contradiction
    case isFalse =>
      split at again
      · contradiction
      · rename_i size parsed
        split_ifs at again with zero large raw
        · rw [zero] at parsed
          exact .inr (.inl ⟨sizes, parsed, (Turn.again.inj again).symm⟩)
        · exact .inr (.inr ⟨size, ⟨sizes, parsed, zero, Nat.not_lt.mp large, Nat.not_lt.mp raw⟩,
            (Turn.again.inj again).symm⟩)

theorem atLine_stop {step : ChunkStep} (stops : dec.atLine lineEnd line = .stop (next, step)) :
    (step = .bad ∧ (next = dec ∨ next = { dec with tooLarge := true })) ∨
    (step = .done (lineEnd + 2) ∧ next = dec ∧ dec.inTrailers = true ∧ lineEnd = dec.pos ∧
      lineEnd + 2 - dec.start ≤ dec.maxRaw.toNat) := by
  rw [atLine] at stops
  split at stops
  case isTrue trailing =>
    rw [takeTrailer] at stops
    split_ifs at stops with raw empty
    all_goals obtain ⟨rfl, rfl⟩ := Prod.mk.inj (Turn.stop.inj stops)
    · exact .inl ⟨rfl, .inl rfl⟩
    · exact .inr ⟨rfl, rfl, trailing, empty, Nat.not_lt.mp raw⟩
    · exact .inl ⟨rfl, .inl rfl⟩
  case isFalse =>
    rw [takeSize] at stops
    split at stops
    · obtain ⟨rfl, rfl⟩ := Prod.mk.inj (Turn.stop.inj stops)
      exact .inl ⟨rfl, .inl rfl⟩
    · split at stops
      · obtain ⟨rfl, rfl⟩ := Prod.mk.inj (Turn.stop.inj stops)
        exact .inl ⟨rfl, .inl rfl⟩
      · split_ifs at stops
        all_goals obtain ⟨rfl, rfl⟩ := Prod.mk.inj (Turn.stop.inj stops)
        · exact .inl ⟨rfl, .inr rfl⟩
        · exact .inl ⟨rfl, .inl rfl⟩

theorem extent_of_atLine (again : dec.atLine lineEnd line = .again next)
    (idle : dec.pending = none) :
    next.extent = lineEnd + 2 := by
  rcases atLine_again again with ⟨_, _, rfl⟩ | ⟨_, _, rfl⟩ | ⟨_, _, rfl⟩
  · exact extent_of_none idle
  · exact extent_of_none idle
  · exact extent_of_some rfl

end

/-- A complete line is read alike whatever is remembered of the search. -/
theorem atLine_fresh (lineEnd : Nat) (line : Octets) :
    dec.fresh.atLine lineEnd line = freshTurn (dec.atLine lineEnd line) := by
  rw [atLine, atLine]
  change (if dec.inTrailers then _ else _) = _
  split
  case isTrue =>
    rw [takeTrailer, takeTrailer]
    change (if dec.maxRaw.toNat < lineEnd + 2 - dec.start then _ else
      if lineEnd = dec.pos then _ else _) = _
    split_ifs <;> rfl
  case isFalse =>
    rw [takeSize, takeSize]
    change (if dec.maxRaw.toNat < lineEnd + 2 - dec.start then _ else _) = _
    split
    case isTrue => rfl
    case isFalse =>
      split
      · rfl
      · change (if _ then _ else if dec.maxBody.toNat < saturatingAdd dec.body.length _ then _ else
          if dec.maxRaw.toNat < _ - dec.start then _ else _) = _
        split_ifs <;> rfl

/-- What the decoder may rely on in a buffer: the search resumes before the next line end. -/
structure Sound (wire : Octets) (dec : ChunkedDecoder) : Prop where
  start_le : dec.start ≤ dec.pos
  unscanned : ∀ i, dec.pos ≤ i → i < dec.scan → ¬CrlfAt wire i
  waiting : ∀ dataStart size, dec.pending = some (dataStart, size) →
    dec.pos ≤ dataStart ∧ dec.scan ≤ dataStart

theorem Sound.new (wire : Octets) (start : Nat) (maxBody maxRaw : UInt64) :
    Sound wire (new start maxBody maxRaw) where
  start_le := Nat.le_refl _
  unscanned := fun _ after before => absurd before (Nat.not_lt.mpr after)
  waiting := fun _ _ waits => nomatch waits

variable {wire : Octets}

/-- The next line end in a part of the wire is that of the wire, if the part holds it. -/
theorem Sound.findCrlfFrom_take {dec : ChunkedDecoder} (sound : Sound wire dec)
    (cut : Nat) : findCrlfFrom (wire.take cut) (max dec.scan dec.pos) =
      (findCrlfFrom wire dec.pos).filter fun lineEnd => lineEnd + 2 ≤ cut := by
  cases found : findCrlfFrom wire dec.pos with
  | none =>
    refine findCrlfFrom_of_none fun i after ends => ?_
    exact findCrlfFrom_eq_none found (by omega) (crlfAt_take.mp ends).1
  | some lineEnd =>
    obtain ⟨after, ends, first⟩ := findCrlfFrom_eq_some found
    have resumed : dec.scan ≤ lineEnd := by
      by_contra late
      exact sound.unscanned lineEnd after (by omega) ends
    by_cases held : lineEnd + 2 ≤ cut
    · rw [filter_some, if_pos (by simpa using held)]
      refine findCrlfFrom_of_first (by omega) (crlfAt_take.mpr ⟨ends, held⟩) fun i later small => ?_
      exact fun other => first i (by omega) small (crlfAt_take.mp other).1
    · rw [filter_some, if_neg (by simpa using held)]
      refine findCrlfFrom_of_none fun i later other => ?_
      obtain ⟨other, _⟩ := crlfAt_take.mp other
      exact first i (by omega) (by omega) other

theorem slice_take {first last : Nat} (held : last ≤ cut) :
    slice (wire.take cut) first last = slice wire first last := by
  rw [slice, slice, drop_take, take_take]
  congr 1
  omega

theorem Sound.turn_line {dec : ChunkedDecoder} (sound : Sound wire dec) (idle : dec.pending = none)
    (cut : Nat) : (∃ lineEnd, findCrlfFrom wire dec.pos = some lineEnd ∧ lineEnd + 2 ≤ cut ∧
      turn (wire.take cut) dec = dec.atLine lineEnd (slice wire dec.pos lineEnd)) ∨
    (∀ lineEnd, findCrlfFrom wire dec.pos = some lineEnd → cut < lineEnd + 2) ∧
      turn (wire.take cut) dec = .stop (dec.missed (wire.take cut),
        dec.unterminated (wire.take cut) ((wire.take cut).length - dec.pos)) := by
  have search := sound.findCrlfFrom_take cut
  rw [turn, idle]
  rw [nextLineEnd, search]
  cases found : findCrlfFrom wire dec.pos with
  | none => exact .inr ⟨fun _ found => (nomatch found), rfl⟩
  | some lineEnd =>
    by_cases held : lineEnd + 2 ≤ cut
    · refine .inl ⟨lineEnd, rfl, held, ?_⟩
      rw [filter_some, if_pos (by simpa using held)]
      dsimp only
      rw [slice_take (by omega)]
      rfl
    · refine .inr ⟨fun other found => ?_, ?_⟩
      · rw [← some.inj found]
        omega
      · rw [filter_some, if_neg (by simpa using held)]
        rfl

/-- The turn at a chunk that is there whole. -/
def atData (wire : Octets) (dataStart size : Nat) :
    Turn ChunkedDecoder (ChunkedDecoder × ChunkStep) :=
  if slice wire (dataStart + size) (dataStart + size + 2) ≠ crlf then .stop (dec, .bad)
  else .again {
    dec with
    body := dec.body ++ slice wire dataStart (dataStart + size)
    pending := none
    pos := dataStart + size + 2 }

theorem turn_data (fits : wire.length < 2 ^ 63) {dec : ChunkedDecoder}
    (waits : dec.pending = some (dataStart, size)) (cut : Nat) :
    dataStart + size + 2 ≤ (wire.take cut).length ∧
      turn (wire.take cut) dec = dec.atData wire dataStart size ∨
    (wire.take cut).length < dataStart + size + 2 ∧
      turn (wire.take cut) dec = .stop (dec, .needMore) := by
  have short : (wire.take cut).length < 2 ^ 63 :=
    Nat.lt_of_le_of_lt (length_take_le' ..) fits
  rw [turn, waits]
  dsimp only
  rw [takeData]
  by_cases held : saturatingAdd (saturatingAdd dataStart size) 2 ≤ (wire.take cut).length
  · have exactly : saturatingAdd (saturatingAdd dataStart size) 2 = dataStart + size + 2 := by
      rw [saturatingAdd, saturatingAdd] at held ⊢
      omega
    rw [exactly] at held ⊢
    have inside : dataStart + size + 2 ≤ cut := by
      rw [length_take] at held
      omega
    rw [if_neg (by omega), slice_take inside, slice_take (by omega)]
    exact .inl ⟨held, rfl⟩
  · rw [if_pos (by omega)]
    refine .inr ⟨?_, rfl⟩
    rw [saturatingAdd, saturatingAdd] at held
    omega

theorem Sound.fresh {wire : Octets} {dec : ChunkedDecoder} (sound : Sound wire dec) :
    Sound wire dec.fresh where
  start_le := sound.start_le
  unscanned := fun _ after before => absurd (Nat.lt_of_lt_of_le before sound.start_le)
    (Nat.not_lt.mpr after)
  waiting := fun dataStart size waits =>
    ⟨(sound.waiting dataStart size waits).1,
      Nat.le_trans sound.start_le (sound.waiting dataStart size waits).1⟩

section

variable {wire : Octets} (fits : wire.length < 2 ^ 63) {dec : ChunkedDecoder}
  (sound : Sound wire dec)

include sound in
theorem Sound.turn_whole_line (idle : dec.pending = none)
    (found : findCrlfFrom wire dec.pos = some lineEnd) :
    turn wire dec.fresh = dec.fresh.atLine lineEnd (slice wire dec.pos lineEnd) := by
  have held := (findCrlfFrom_eq_some found).2.1.lt
  have whole := sound.fresh.turn_line idle wire.length
  rw [take_length] at whole
  rcases whole with ⟨_, found', _, same⟩ | ⟨late, _⟩
  · rw [same]
    rw [show findCrlfFrom wire dec.fresh.pos = some lineEnd from found] at found'
    rw [some.inj found']
    rfl
  · exact absurd (late lineEnd found) (by omega)

include fits sound in
/-- A turn on a part of the wire is that of a single call, or it lacks octets. -/
theorem Sound.turn_take (cut : Nat) : freshTurn (turn (wire.take cut) dec) = turn wire dec.fresh ∧
      (∀ lineEnd, dec.pending = none → findCrlfFrom wire dec.pos = some lineEnd →
        lineEnd + 2 ≤ cut) ∧
      (∀ next, turn (wire.take cut) dec ≠ .stop (next, .needMore)) ∨
    (∃ dataStart size, dec.pending = some (dataStart, size) ∧
      (wire.take cut).length < dataStart + size + 2 ∧
      turn (wire.take cut) dec = .stop (dec, .needMore)) ∨
    dec.pending = none ∧ (∀ lineEnd, findCrlfFrom wire dec.pos = some lineEnd → cut < lineEnd + 2) ∧
      turn (wire.take cut) dec = .stop (dec.missed (wire.take cut),
        dec.unterminated (wire.take cut) ((wire.take cut).length - dec.pos)) := by
  cases waits : dec.pending with
  | some chunk =>
    obtain ⟨dataStart, size⟩ := chunk
    rcases turn_data fits waits cut with ⟨held, same⟩ | ⟨short, same⟩
    · refine .inl ⟨?_, fun _ idle => (nomatch idle), fun next stops => ?_⟩
      case refine_2 =>
        rw [same, atData] at stops
        split_ifs at stops
        cases stops
      have whole := turn_data fits (show dec.fresh.pending = _ from waits) wire.length
      rw [take_length] at whole
      rcases whole with ⟨_, same'⟩ | ⟨short, _⟩
      · rw [same, same', atData, atData]
        split_ifs <;> rfl
      · have longer := length_take_le' cut wire
        omega
    · exact .inr (.inl ⟨dataStart, size, rfl, short, same⟩)
  | none =>
    rcases sound.turn_line waits cut with ⟨_, found, _, same⟩ | ⟨late, same⟩
    · refine .inl ⟨?_, fun other _ found' => ?_, fun next stops => ?_⟩
      · rw [same, sound.turn_whole_line waits found, atLine_fresh]
      · rw [found] at found'
        rwa [← some.inj found']
      · rw [same] at stops
        rcases atLine_stop stops with ⟨_, _⟩ | ⟨_, _⟩ <;> contradiction
    · exact .inr (.inr ⟨rfl, late, same⟩)

include fits in
/-- A turn that goes on reads on, within the buffer. -/
theorem extent_lt (again : turn wire dec = .again next) :
    dec.extent < next.extent ∧ next.extent ≤ wire.length := by
  cases waits : dec.pending with
  | some chunk =>
    obtain ⟨_, _⟩ := chunk
    have whole := turn_data fits waits wire.length
    rw [take_length, again] at whole
    rcases whole with ⟨held, same⟩ | ⟨_, same⟩
    · rw [atData] at same
      split_ifs at same
      rw [Turn.again.inj same, extent_of_some waits, extent_of_none rfl]
      dsimp only
      omega
    · contradiction
  | none =>
    rw [turn, waits] at again
    rw [nextLineEnd] at again
    cases found : findCrlfFrom wire (max dec.scan dec.pos) with
    | none =>
      rw [found] at again
      contradiction
    | some =>
      rw [found] at again
      obtain ⟨_, ends, _⟩ := findCrlfFrom_eq_some found
      have held := ends.lt
      rw [extent_of_none waits, extent_of_atLine again waits]
      omega

include sound in
theorem Sound.atLine (idle : dec.pending = none) (found : findCrlfFrom wire dec.pos = some lineEnd)
    (again : dec.atLine lineEnd line = .again next) : Sound wire next := by
  obtain ⟨after, ends, _⟩ := findCrlfFrom_eq_some found
  have resumed : dec.scan ≤ lineEnd := by
    by_contra late
    exact sound.unscanned lineEnd after (by omega) ends
  have start_le := sound.start_le
  have moved (pos : Nat) (beyond : lineEnd < pos) (trailers : Bool) :
      Sound wire { dec with pos := pos, inTrailers := trailers } :=
    ⟨by dsimp only; omega, fun i later before => by dsimp only at later before; omega,
      fun _ _ waits => nomatch idle.symm.trans waits⟩
  rcases atLine_again again with ⟨_, _, rfl⟩ | ⟨_, _, rfl⟩ | ⟨_, _, rfl⟩
  · exact moved (lineEnd + 2) (by omega) dec.inTrailers
  · exact moved (lineEnd + 2) (by omega) true
  · refine ⟨start_le, sound.unscanned, fun dataStart size waits => ?_⟩
    have chunk := congrArg Prod.fst (some.inj waits)
    dsimp only at chunk ⊢
    omega

include fits sound in
/-- A turn on a part of the wire keeps what the decoder relies on in the wire. -/
theorem Sound.again (again : turn (wire.take cut) dec = .again next) : Sound wire next := by
  cases waits : dec.pending with
  | some chunk =>
    obtain ⟨dataStart, size⟩ := chunk
    rcases turn_data fits waits cut with ⟨_, same⟩ | ⟨_, same⟩
    · rw [again, atData] at same
      split_ifs at same
      obtain ⟨_, _⟩ := sound.waiting dataStart size waits
      have start_le := sound.start_le
      rw [Turn.again.inj same]
      exact ⟨by dsimp only; omega, fun i later small => by dsimp only at later small; omega,
        fun _ _ other => nomatch other⟩
    · rw [again] at same
      contradiction
  | none =>
    rcases sound.turn_line waits cut with ⟨_, found, _, same⟩ | ⟨_, same⟩
    · rw [again] at same
      exact sound.atLine waits found same.symm
    · rw [again] at same
      contradiction

include sound in
/-- A search that finds nothing need not be repeated. -/
theorem Sound.missed (idle : dec.pending = none)
    (late : ∀ lineEnd, findCrlfFrom wire dec.pos = some lineEnd → cut < lineEnd + 2) :
    Sound wire (dec.missed (wire.take cut)) where
  start_le := sound.start_le
  unscanned := by
    intro i after before ends
    change i < max ((wire.take cut).length - 1) dec.pos at before
    rw [length_take] at before
    change dec.pos ≤ i at after
    cases found : findCrlfFrom wire dec.pos with
    | none => exact findCrlfFrom_eq_none found after ends
    | some lineEnd =>
      have beyond := late lineEnd found
      exact (findCrlfFrom_eq_some found).2.2 i after (by omega) ends
  waiting := fun _ _ waits => nomatch idle.symm.trans waits

end

end ChunkedDecoder

end HttpJet.H1
