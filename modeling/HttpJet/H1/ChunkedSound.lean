import HttpJet.H1.ChunkedGrammar

/-!
# What the chunked decoder accepts

What the decoder has read of a part of the wire is always pieces of the grammar in order, so a body
it accepts is one element with its exact end; and the turns at the pieces of an element within the
budgets lead to its end.
-/

namespace HttpJet.H1

open Library List
open Hpack.Integer (Octets)
open Hpack.StaticTable (ascii)

variable {buf line : Octets} {place : Nat} {final : Bool}

/-! ## Places in a buffer -/

theorem drop_eq_slice {first last : Nat} (le : first ≤ last) :
    buf.drop first = ChunkedDecoder.slice buf first last ++ buf.drop last := by
  have split := take_append_drop (last - first) (buf.drop first)
  rw [drop_drop, Nat.add_sub_cancel' le] at split
  exact split.symm

theorem length_slice {first last : Nat} (held : last ≤ buf.length) :
    (ChunkedDecoder.slice buf first last).length = last - first := by
  rw [ChunkedDecoder.slice, length_take, length_drop]
  omega

theorem drop_of_drop_eq {text rest : Octets} (reads : buf.drop place = text ++ rest) :
    buf.drop (place + text.length) = rest := by
  rw [← drop_drop, reads, drop_left]

theorem slice_of_drop_eq {text rest : Octets} (reads : buf.drop place = text ++ rest) :
    ChunkedDecoder.slice buf place (place + text.length) = text := by
  rw [ChunkedDecoder.slice, reads, Nat.add_sub_cancel_left, take_left]

theorem CrlfAt.drop_eq {i : Nat} (ends : CrlfAt buf i) : buf.drop i = crlf ++ buf.drop (i + 2) := by
  obtain ⟨inRange, isLf⟩ := List.getElem?_eq_some_iff.mp ends.2
  obtain ⟨before, isCr⟩ := List.getElem?_eq_some_iff.mp ends.1
  rw [drop_eq_getElem_cons before, isCr, drop_eq_getElem_cons inRange, isLf]
  rfl

theorem drop_line {lineEnd : Nat} (found : findCrlfFrom buf place = some lineEnd) :
    buf.drop place = ChunkedDecoder.slice buf place lineEnd ++ crlf ++ buf.drop (lineEnd + 2) := by
  obtain ⟨after, ends, _⟩ := findCrlfFrom_eq_some found
  rw [append_assoc, ← ends.drop_eq, ← drop_eq_slice after]

theorem findCrlfFrom_of_clean {rest : Octets} (clean : ∀ b ∈ line, Clean b)
    (reads : buf.drop place = line ++ (crlf ++ rest)) :
    findCrlfFrom buf place = some (place + line.length) := by
  refine findCrlfFrom_of_first (Nat.le_add_right ..) ?_ fun i after small ends => ?_
  · rw [← crlfAt_drop, reads, CrlfAt, getElem?_append_right (Nat.le_refl _),
      getElem?_append_right (Nat.le_add_right _ 1), Nat.sub_self, Nat.add_sub_cancel_left]
    exact ⟨rfl, rfl⟩
  · obtain ⟨j, rfl⟩ := Nat.exists_eq_add_of_le after
    rw [← crlfAt_drop, reads] at ends
    have inLine : j < line.length := by omega
    have symbol := ends.1
    rw [getElem?_append_left inLine] at symbol
    have member := clean cr (mem_of_getElem? symbol)
    revert member
    decide

/-! ## Reading the pieces of a body -/

def Piece.modeAfter (mode : Bool) : Piece → Bool
  | .chunk _ => mode
  | .last _ _ => true
  | .trailer _ => true

/-- The decoder behind a piece. -/
def Piece.read (dec : ChunkedDecoder) (piece : Piece) : ChunkedDecoder :=
  { dec with
    pos := dec.pos + piece.octets.length
    body := dec.body ++ piece.data
    inTrailers := piece.modeAfter dec.inTrailers }

namespace ChunkedDecoder

variable {wire : Octets} {dec : ChunkedDecoder} {rest : Octets}

theorem turn_of_line (sound : Sound wire dec) (fresh : dec.fresh = dec) (idle : dec.pending = none)
    (clean : ∀ b ∈ line, Clean b) (reads : wire.drop dec.pos = line ++ (crlf ++ rest)) :
    turn wire dec = dec.atLine (dec.pos + line.length) line := by
  have turns := sound.turn_whole_line idle (findCrlfFrom_of_clean clean reads)
  rw [fresh, slice_of_drop_eq reads] at turns
  exact turns

theorem takeSize_eq {lineEnd size : Nat} (valid : SizeLine line size) (small : size < 2 ^ 64)
    (raw : lineEnd + 2 - dec.start ≤ dec.maxRaw.toNat) : dec.takeSize lineEnd line =
      if size = 0 then .again { dec with pos := lineEnd + 2, inTrailers := true }
      else if dec.maxBody.toNat < saturatingAdd dec.body.length size then
        .stop ({ dec with tooLarge := true }, .bad)
      else if dec.maxRaw.toNat <
          saturatingAdd (saturatingAdd (lineEnd + 2) size) 2 - dec.start then .stop (dec, .bad)
      else .again { dec with pending := some (lineEnd + 2, size) } := by
  rw [takeSize, if_neg (Nat.not_lt.mpr raw), parseChunkSize_eq_some.mpr ⟨valid, small⟩]

/-- The budgets leave room for a piece. -/
structure Affords (dec : ChunkedDecoder) (piece : Piece) : Prop where
  body : dec.body.length + piece.data.length ≤ dec.maxBody.toNat
  raw : dec.pos + piece.octets.length - dec.start ≤ dec.maxRaw.toNat

theorem length_crlf : crlf.length = 2 := rfl

theorem turn_last (sound : Sound wire dec) (fresh : dec.fresh = dec) (idle : dec.pending = none)
    (mode : dec.inTrailers = false) (zero : SizeLine line 0)
    (affords : dec.Affords (.last line zero))
    (reads : wire.drop dec.pos = (Piece.last line zero).octets ++ rest) :
    turn wire dec = .again (Piece.read dec (.last line zero)) := by
  have raw := affords.raw
  rw [Piece.octets, length_append, length_crlf] at raw
  rw [Piece.octets, append_assoc] at reads
  rw [turn_of_line sound fresh idle zero.clean reads, atLine, mode, if_neg Bool.false_ne_true,
    takeSize_eq zero (by decide) (by omega), if_pos rfl, Piece.read, Piece.octets, Piece.data,
    Piece.modeAfter, length_append, length_crlf, append_nil, Nat.add_assoc]

theorem turn_trailer (sound : Sound wire dec) (fresh : dec.fresh = dec) (idle : dec.pending = none)
    (mode : dec.inTrailers = true) {t : Trailer} (affords : dec.Affords (.trailer t))
    (reads : wire.drop dec.pos = (Piece.trailer t).octets ++ rest) :
    turn wire dec = .again (Piece.read dec (.trailer t)) := by
  have raw := affords.raw
  have long := length_pos_iff.mpr t.valid.ne_nil
  rw [Piece.octets, length_append, length_crlf] at raw
  rw [Piece.octets, append_assoc] at reads
  rw [turn_of_line sound fresh idle t.valid.clean reads, atLine, mode, if_pos rfl, takeTrailer,
    if_neg (by omega), if_neg (by omega), if_neg (not_not_intro (trailerLineValid_iff.mpr t.valid)),
    Piece.read, Piece.octets, Piece.data, Piece.modeAfter, length_append, length_crlf,
    append_nil, Nat.add_assoc, ← mode]

/-- A chunk takes a turn at its size line and one at its data. -/
theorem turn_chunk (fits : wire.length < 2 ^ 63) (sound : Sound wire dec) (fresh : dec.fresh = dec)
    (idle : dec.pending = none) (mode : dec.inTrailers = false) {c : Chunk}
    (affords : dec.Affords (.chunk c))
    (reads : wire.drop dec.pos = (Piece.chunk c).octets ++ rest) :
    ∃ middle, middle.pending ≠ none ∧ turn wire dec = .again middle ∧
      turn wire middle = .again (Piece.read dec (.chunk c)) := by
  have raw := affords.raw
  have cap := affords.body
  have word := dec.maxBody.toNat_lt
  have long := length_pos_iff.mpr c.nonempty
  rw [Piece.octets, length_append, length_append, length_append, length_crlf] at raw
  rw [Piece.data] at cap
  rw [Piece.octets] at reads
  have lineReads : wire.drop dec.pos = c.line ++ (crlf ++ (c.data ++ crlf ++ rest)) := by
    rw [reads, append_assoc, append_assoc]
  have dataReads : wire.drop (dec.pos + c.line.length + 2) = c.data ++ (crlf ++ rest) := by
    rw [append_assoc] at reads
    have behind := drop_of_drop_eq reads
    rwa [length_append, length_crlf, ← Nat.add_assoc, append_assoc] at behind
  have endReads := drop_of_drop_eq dataReads
  refine ⟨{ dec with pending := some (dec.pos + c.line.length + 2, c.data.length) },
    (nomatch ·), ?_, ?_⟩
  · have bodyCap : ¬dec.maxBody.toNat < saturatingAdd dec.body.length c.data.length := by
      rw [saturatingAdd]
      omega
    have rawCap : ¬dec.maxRaw.toNat < saturatingAdd (saturatingAdd
        (dec.pos + c.line.length + 2) c.data.length) 2 - dec.start := by
      rw [saturatingAdd, saturatingAdd]
      omega
    rw [turn_of_line sound fresh idle c.sizes.clean lineReads, atLine, mode,
      if_neg Bool.false_ne_true, takeSize_eq c.sizes (by omega) (by omega), if_neg (by omega),
      if_neg bodyCap, if_neg rawCap, mode]
  · have whole := turn_data fits (show ({ dec with
      pending := some (dec.pos + c.line.length + 2, c.data.length) } : ChunkedDecoder).pending =
        some (dec.pos + c.line.length + 2, c.data.length) from rfl) wire.length
    have held : dec.pos + c.line.length + 2 + c.data.length + 2 ≤ wire.length := by
      have lengths := congrArg length endReads
      rw [length_drop, length_append, length_crlf] at lengths
      omega
    rw [take_length] at whole
    rcases whole with ⟨_, same⟩ | ⟨_, _⟩
    · have ends := slice_of_drop_eq endReads
      rw [length_crlf] at ends
      rw [same, atData, ends, if_neg (not_not_intro rfl), slice_of_drop_eq dataReads, Piece.read,
        Piece.octets, Piece.data, Piece.modeAfter, length_append, length_append,
        length_append, length_crlf]
      simp [Nat.add_assoc, idle]
    · omega

/-- The turns at a piece lead behind it and stop at no other line. -/
theorem passes_piece (fits : wire.length < 2 ^ 63) (sound : Sound wire dec)
    (fresh : dec.fresh = dec)
    (idle : dec.pending = none) {piece : Piece} {pieces : List Piece}
    (leads : Leads dec.inTrailers (piece :: pieces) final) (affords : dec.Affords piece)
    (reads : wire.drop dec.pos = piece.octets ++ rest) :
    Loop.Passes (turn wire) dec (piece.read dec) ∧
      Leads (piece.read dec).inTrailers pieces final ∧
      ∀ line, Loop.Passes (turn wire) dec line → line.pending = none →
        line = dec ∨ Loop.Passes (turn wire) (piece.read dec) line := by
  cases mode : dec.inTrailers with
  | false =>
    rw [mode] at leads
    cases piece with
    | chunk =>
      obtain ⟨_, waits, first, second⟩ := turn_chunk fits sound fresh idle mode affords reads
      refine ⟨(Loop.Passes.single first).trans (Loop.Passes.single second), ?_, ?_⟩
      · change Leads dec.inTrailers pieces final
        rw [mode]
        exact leads
      · intro line passes lineIdle
        refine (passes.cases_again first).imp_right fun later => ?_
        rcases later.cases_again second with same | behind
        · rw [same] at lineIdle
          exact absurd lineIdle waits
        · exact behind
    | last _ zero =>
      have taken := turn_last sound fresh idle mode zero affords reads
      exact ⟨Loop.Passes.single taken, leads, fun line passes _ => passes.cases_again taken⟩
    | trailer => exact leads.elim
  | true =>
    rw [mode] at leads
    cases piece with
    | chunk | last => exact leads.elim
    | trailer =>
      have taken := turn_trailer sound fresh idle mode affords reads
      exact ⟨Loop.Passes.single taken, leads, fun line passes _ => passes.cases_again taken⟩

end ChunkedDecoder

/-- The decoder behind pieces. -/
theorem foldl_read (pieces : List Piece) (dec : ChunkedDecoder) : pieces.foldl Piece.read dec =
    { dec with
      pos := dec.pos + (pieces.flatMap Piece.octets).length
      body := dec.body ++ pieces.flatMap Piece.data
      inTrailers := pieces.foldl Piece.modeAfter dec.inTrailers } := by
  induction pieces generalizing dec with
  | nil => simp
  | cons piece _ ih =>
    rw [foldl_cons, ih]
    simp [Piece.read, Nat.add_assoc]

theorem pos_read (pieces : List Piece) (dec : ChunkedDecoder) :
    (pieces.foldl Piece.read dec).pos = dec.pos + (pieces.flatMap Piece.octets).length := by
  rw [foldl_read]

theorem read_keeps (pieces : List Piece) (dec : ChunkedDecoder) :
    (pieces.foldl Piece.read dec).pending = dec.pending ∧
      (pieces.foldl Piece.read dec).start = dec.start ∧
      (pieces.foldl Piece.read dec).maxRaw = dec.maxRaw := by
  rw [foldl_read]
  exact ⟨rfl, rfl, rfl⟩

namespace ChunkedDecoder

variable {wire : Octets} {first dec : ChunkedDecoder}

/-- The turns at the pieces of a body lead behind them; the lines on the way are theirs. -/
theorem passes_pieces (fits : wire.length < 2 ^ 63) (opening : Opening wire first)
    {pieces : List Piece} {rest : Octets} (passes : Loop.Passes (turn wire) first dec)
    (idle : dec.pending = none) (leads : Leads dec.inTrailers pieces final)
    (body : dec.body.length + (pieces.flatMap Piece.data).length ≤ dec.maxBody.toNat)
    (raw : dec.pos + (pieces.flatMap Piece.octets).length - dec.start ≤ dec.maxRaw.toNat)
    (reads : wire.drop dec.pos = pieces.flatMap Piece.octets ++ rest) :
    Loop.Passes (turn wire) dec (pieces.foldl Piece.read dec) ∧
      (pieces.foldl Piece.read dec).inTrailers = final ∧
      ∀ line, Loop.Passes (turn wire) dec line → line.pending = none →
        (∃ before piece after, pieces = before ++ piece :: after ∧
          line = before.foldl Piece.read dec) ∨
        Loop.Passes (turn wire) (pieces.foldl Piece.read dec) line := by
  induction pieces generalizing dec with
  | nil => exact ⟨Loop.Passes.refl dec, leads, fun line later _ => .inr later⟩
  | cons piece pieces ih =>
    obtain ⟨reached, fresh⟩ := opening.chain fits passes
    rw [flatMap_cons, length_append] at body raw
    rw [flatMap_cons, append_assoc] at reads
    have affords : dec.Affords piece := ⟨by omega, by omega⟩
    obtain ⟨here, leadsOn, lines⟩ :=
      passes_piece fits reached.sound fresh idle leads affords reads
    have bodyOn : (piece.read dec).body.length + (pieces.flatMap Piece.data).length ≤
        (piece.read dec).maxBody.toNat := by
      change (dec.body ++ piece.data).length + _ ≤ dec.maxBody.toNat
      rw [length_append]
      omega
    have rawOn : (piece.read dec).pos + (pieces.flatMap Piece.octets).length -
        (piece.read dec).start ≤ (piece.read dec).maxRaw.toNat := by
      change dec.pos + piece.octets.length + _ - dec.start ≤ dec.maxRaw.toNat
      omega
    obtain ⟨onward, trailing, others⟩ :=
      ih (passes.trans here) idle leadsOn bodyOn rawOn (drop_of_drop_eq reads)
    refine ⟨here.trans onward, trailing, fun line later lineIdle => ?_⟩
    rcases lines line later lineIdle with same | behind
    · exact .inl ⟨[], piece, pieces, rfl, same⟩
    · refine (others line behind lineIdle).imp_left ?_
      rintro ⟨before, other, after, same, place⟩
      exact ⟨piece :: before, other, after, by rw [same, cons_append], place⟩

end ChunkedDecoder

theorem Piece.octets_eq (piece : Piece) :
    ∃ behind, piece.octets = piece.line ++ (crlf ++ behind) := by
  cases piece with
  | chunk c => exact ⟨c.data ++ crlf, append_assoc ..⟩
  | last | trailer => exact ⟨[], rfl⟩

theorem Leads.split {mode : Bool} {first second : List Piece}
    (leads : Leads mode (first ++ second) final) : ∃ middle, Leads mode first middle := by
  induction first generalizing mode with
  | nil => exact ⟨mode, rfl⟩
  | cons piece _ ih =>
    cases mode <;> cases piece
    · exact ih leads
    · exact ih leads
    · exact leads.elim
    · exact leads.elim
    · exact leads.elim
    · exact ih leads

namespace ChunkedBody

open ChunkedDecoder

variable {wire rest : Octets} {start : Nat} {maxBody maxRaw : UInt64} {body : ChunkedBody}

/-- A body at a place of the wire, within the budgets of a decoder. -/
structure Fits (wire : Octets) (start : Nat) (maxBody maxRaw : UInt64) (body : ChunkedBody)
    (rest : Octets) : Prop where
  reads : wire.drop start = body.octets ++ rest
  body_le : body.data.length ≤ maxBody.toNat
  raw_le : body.octets.length ≤ maxRaw.toNat

theorem length_octets (body : ChunkedBody) :
    body.octets.length = (body.pieces.flatMap Piece.octets).length + 2 := by
  rw [octets, length_append]
  rfl

section

variable (fits : wire.length < 2 ^ 63) (there : Fits wire start maxBody maxRaw body rest)
include fits there

theorem Fits.passes {before after : List Piece} (split : body.pieces = before ++ after)
    (leads : Leads false before final) : Loop.Passes (turn wire) (new start maxBody maxRaw)
        (before.foldl Piece.read (new start maxBody maxRaw)) ∧
      (before.foldl Piece.read (new start maxBody maxRaw)).inTrailers = final ∧
      ∀ line, Loop.Passes (turn wire) (new start maxBody maxRaw) line → line.pending = none →
        (∃ first piece others, before = first ++ piece :: others ∧
          line = first.foldl Piece.read (new start maxBody maxRaw)) ∨
        Loop.Passes (turn wire) (before.foldl Piece.read (new start maxBody maxRaw)) line := by
  have whole := there.reads
  have bodyLe := there.body_le
  have rawLe := there.raw_le
  rw [data, split, flatMap_append, length_append] at bodyLe
  rw [length_octets, split, flatMap_append, length_append] at rawLe
  rw [octets, split, flatMap_append, append_assoc, append_assoc] at whole
  refine passes_pieces fits (Opening.new wire start maxBody maxRaw) (Loop.Passes.refl _)
    rfl leads ?_ ?_
    whole
  · change 0 + _ ≤ maxBody.toNat
    omega
  · change start + _ - start ≤ maxRaw.toNat
    omega

/-- A single call on a wire that begins with a body ends with it. -/
theorem Fits.ends : turn wire (body.pieces.foldl Piece.read (new start maxBody maxRaw)) =
      .stop (body.pieces.foldl Piece.read (new start maxBody maxRaw),
        .done (start + body.octets.length)) := by
  obtain ⟨passes, trailing, _⟩ := there.passes fits (append_nil _).symm body.leads
  obtain ⟨idle, starts, budget⟩ := read_keeps body.pieces (new start maxBody maxRaw)
  obtain ⟨reached, fresh⟩ := (Opening.new wire start maxBody maxRaw).chain fits passes
  have pos := pos_read body.pieces (new start maxBody maxRaw)
  change _ = start + _ at pos
  have raw := there.raw_le
  rw [length_octets] at raw
  have whole := there.reads
  rw [octets, append_assoc] at whole
  have ending := drop_of_drop_eq whole
  rw [← pos] at ending
  have within : ¬(new start maxBody maxRaw).maxRaw.toNat <
      start + (body.pieces.flatMap Piece.octets).length + 2 - (new start maxBody maxRaw).start := by
    change ¬maxRaw.toNat < _ - start
    omega
  rw [turn_of_line reached.sound fresh idle (fun b member => absurd member not_mem_nil)
    (show _ = [] ++ (crlf ++ rest) from ending), length_nil, Nat.add_zero, atLine, trailing,
    if_pos rfl, takeTrailer, pos, starts, budget, if_neg within, if_pos rfl, length_octets,
    Nat.add_assoc]

/-- The lines that the decoder passes are the lines of the body. -/
theorem Fits.severs_iff (cut : Nat) :
    Severs wire (new start maxBody maxRaw) cut ↔ body.Severed (cut - start) := by
  have lineAt : ∀ {before piece after}, body.pieces = before ++ piece :: after →
      (before.foldl Piece.read (new start maxBody maxRaw)).pos =
          start + (before.flatMap Piece.octets).length ∧
        findCrlfFrom wire (before.foldl Piece.read (new start maxBody maxRaw)).pos =
          some (start + (before.flatMap Piece.octets).length + piece.line.length) := by
    intro before piece after split
    have pos : (before.foldl Piece.read (new start maxBody maxRaw)).pos =
        start + (before.flatMap Piece.octets).length := pos_read before (new start maxBody maxRaw)
    obtain ⟨_, octets⟩ := piece.octets_eq
    have whole := there.reads
    rw [ChunkedBody.octets, split, flatMap_append, flatMap_cons, octets] at whole
    simp only [append_assoc] at whole
    refine ⟨pos, ?_⟩
    rw [pos]
    exact findCrlfFrom_of_clean piece.clean (drop_of_drop_eq whole)
  constructor
  · rintro ⟨line, _, isLine, long, inside⟩
    obtain ⟨_, _, lines⟩ := there.passes fits (append_nil _).symm body.leads
    rcases lines line isLine.passes isLine.idle with ⟨before, piece, after, split, same⟩ | last
    · obtain ⟨pos, found⟩ := lineAt split
      have ends := isLine.ends
      rw [same, found] at ends
      rw [same, pos] at long
      rw [← Option.some.inj ends] at inside
      exact ⟨before, piece, after, split, by omega, by omega⟩
    · have same := last.eq_of_stop (there.ends fits)
      have whole := there.reads
      have pos : (body.pieces.foldl Piece.read (new start maxBody maxRaw)).pos =
          start + (body.pieces.flatMap Piece.octets).length := pos_read body.pieces _
      rw [ChunkedBody.octets, append_assoc] at whole
      have ending := findCrlfFrom_of_clean (fun b member => absurd member not_mem_nil)
        (show _ = [] ++ (crlf ++ rest) from drop_of_drop_eq whole)
      have ends := isLine.ends
      have bound : maxChunkLine = 8192 := rfl
      rw [same, pos] at ends long
      rw [ending] at ends
      rw [← Option.some.inj ends, length_nil] at inside
      omega
  · rintro ⟨before, _, _, split, _, _⟩
    obtain ⟨pos, found⟩ := lineAt split
    have leads := body.leads
    rw [split] at leads
    obtain ⟨_, leads⟩ := leads.split
    have passes := (there.passes fits split leads).1
    refine ⟨_, _, ⟨passes, (read_keeps before _).1, found⟩, ?_, ?_⟩
    · rw [pos]
      omega
    · omega

end

end ChunkedBody

/-! ## Accepted bodies -/

theorem length_data_le (pieces : List Piece) :
    (pieces.flatMap Piece.data).length ≤ (pieces.flatMap Piece.octets).length := by
  induction pieces with
  | nil => exact Nat.le_refl _
  | cons piece _ ih =>
    have here : piece.data.length ≤ piece.octets.length := by
      cases piece with
      | chunk =>
        rw [Piece.data, Piece.octets, length_append, length_append, length_append]
        omega
      | last | trailer => exact Nat.zero_le _
    rw [flatMap_cons, flatMap_cons, length_append, length_append]
    exact Nat.add_le_add here ih

/-- Pieces at the start of a body, up to a place of the wire and within the budgets. -/
structure Front (wire : Octets) (start : Nat) (maxBody maxRaw : UInt64) (pieces : List Piece)
    (trailing : Bool) (place : Nat) : Prop where
  leads : Leads false pieces trailing
  place_eq : place = start + (pieces.flatMap Piece.octets).length
  reads : wire.drop start = pieces.flatMap Piece.octets ++ wire.drop place
  body_le : (pieces.flatMap Piece.data).length ≤ maxBody.toNat
  raw_le : (pieces.flatMap Piece.octets).length ≤ maxRaw.toNat

namespace ChunkedDecoder

variable {wire : Octets} {dec next : ChunkedDecoder} {pieces : List Piece} {cut : Nat}

/-- The pieces that a decoder has read. -/
structure Has (wire : Octets) (dec : ChunkedDecoder) (pieces : List Piece) : Prop where
  front : Front wire dec.start dec.maxBody dec.maxRaw pieces dec.inTrailers dec.pos
  body_eq : dec.body = pieces.flatMap Piece.data
  waits : ∀ dataStart size, dec.pending = some (dataStart, size) →
    dec.inTrailers = false ∧ saturatingAdd dec.body.length size ≤ dec.maxBody.toNat ∧ size ≠ 0 ∧
      saturatingAdd (saturatingAdd dataStart size) 2 - dec.start ≤ dec.maxRaw.toNat ∧
      ∃ lineEnd, findCrlfFrom wire dec.pos = some lineEnd ∧
        parseChunkSize (slice wire dec.pos lineEnd) = some size ∧ dataStart = lineEnd + 2

/-- What the decoder relies on, and the pieces it has read. -/
def Parsed (wire : Octets) (dec : ChunkedDecoder) : Prop :=
  Sound wire dec ∧ ∃ pieces, Has wire dec pieces

theorem Has.new (wire : Octets) (start : Nat) (maxBody maxRaw : UInt64) :
    Has wire (new start maxBody maxRaw) [] where
  front := ⟨rfl, rfl, rfl, Nat.zero_le _, Nat.zero_le _⟩
  body_eq := rfl
  waits := fun _ _ waits => nomatch waits

theorem Has.piece (has : Has wire dec pieces) (piece : Piece)
    (leads : Leads dec.inTrailers [piece] next.inTrailers) (start : next.start = dec.start)
    (pos : next.pos = dec.pos + piece.octets.length)
    (reads : wire.drop dec.pos = piece.octets ++ wire.drop next.pos)
    (body : next.body = dec.body ++ piece.data) (bodyLe : next.body.length ≤ next.maxBody.toNat)
    (rawLe : next.pos - next.start ≤ next.maxRaw.toNat)
    (idle : next.pending = none) : Has wire next (pieces ++ [piece]) := by
  have place : next.pos = next.start + ((pieces ++ [piece]).flatMap Piece.octets).length := by
    rw [pos, has.front.place_eq, start, flatMap_append, length_append, flatMap_singleton,
      Nat.add_assoc]
  have whole : next.body = (pieces ++ [piece]).flatMap Piece.data := by
    rw [body, has.body_eq, flatMap_append, flatMap_singleton]
  refine ⟨⟨has.front.leads.append leads, place, ?_, whole ▸ bodyLe, by omega⟩, whole,
    fun _ _ waits => nomatch idle.symm.trans waits⟩
  rw [start, has.front.reads, reads, flatMap_append, flatMap_singleton, append_assoc]

theorem Has.atLine (has : Has wire dec pieces) (idle : dec.pending = none) {lineEnd : Nat}
    (found : findCrlfFrom wire dec.pos = some lineEnd)
    (again : dec.atLine lineEnd (slice wire dec.pos lineEnd) = .again next) :
    ∃ pieces, Has wire next pieces := by
  obtain ⟨_, ends, _⟩ := findCrlfFrom_eq_some found
  have held := ends.lt
  have line := drop_line found
  have raw := raw_of_atLine again
  have bodyLe := has.body_eq ▸ has.front.body_le
  have octets : (slice wire dec.pos lineEnd ++ crlf).length = lineEnd + 2 - dec.pos := by
    rw [length_append, length_slice (by omega), length_crlf]
    omega
  rcases atLine_again again with
    ⟨trailing, valid, rfl⟩ | ⟨sizes, parsed, rfl⟩
      | ⟨size, ⟨sizes, parsed, nonzero, small, room⟩, rfl⟩
  · refine ⟨_, has.piece (.trailer ⟨_, trailerLineValid_iff.mp valid⟩) ?_ rfl ?_ line
      (append_nil _).symm bodyLe raw idle⟩
    · rw [trailing]
      rfl
    · rw [Piece.octets, octets]
      dsimp only
      omega
  · obtain ⟨zero, _⟩ := parseChunkSize_eq_some.mp parsed
    refine ⟨_, has.piece (.last _ zero) ?_ rfl ?_ line (append_nil _).symm bodyLe raw idle⟩
    · rw [sizes]
      rfl
    · rw [Piece.octets, octets]
      dsimp only
      omega
  · refine ⟨pieces, { has with waits := ?_ }⟩
    intro dataStart other waits
    obtain ⟨rfl, rfl⟩ := Prod.mk.inj (Option.some.inj waits)
    exact ⟨sizes, small, nonzero, room, lineEnd, found, parsed, rfl⟩

theorem Has.atData (fits : wire.length < 2 ^ 63) (has : Has wire dec pieces) {dataStart size : Nat}
    (waits : dec.pending = some (dataStart, size)) (held : dataStart + size + 2 ≤ wire.length)
    (again : dec.atData wire dataStart size = .again next) : ∃ pieces, Has wire next pieces := by
  rw [ChunkedDecoder.atData] at again
  split_ifs at again with ends
  rw [not_not] at ends
  obtain ⟨mode, small, _, room, lineEnd, found, parsed, rfl⟩ := has.waits dataStart size waits
  obtain ⟨after, crlfAt, _⟩ := findCrlfFrom_eq_some found
  have within := crlfAt.lt
  have length : (slice wire (lineEnd + 2) (lineEnd + 2 + size)).length = size := by
    rw [length_slice (by omega), Nat.add_sub_cancel_left]
  have nonempty : slice wire (lineEnd + 2) (lineEnd + 2 + size) ≠ [] := by
    rw [← length_pos_iff, length]
    omega
  have data : wire.drop (lineEnd + 2) =
      slice wire (lineEnd + 2) (lineEnd + 2 + size) ++ crlf ++
        wire.drop (lineEnd + 2 + size + 2) := by
    rw [append_assoc, ← ends, ← drop_eq_slice (by omega), ← drop_eq_slice (by omega)]
  have sizes := (parseChunkSize_eq_some.mp parsed).1
  -- The data is part of the wire, so the sums have not saturated.
  have before := length_data_le pieces
  have place := has.front.place_eq
  rw [← has.body_eq] at before
  have bodyLe : dec.body.length + size ≤ dec.maxBody.toNat := by
    rw [saturatingAdd] at small
    omega
  have word : lineEnd + 2 + size + 2 < 2 ^ 64 := by omega
  rw [saturatingAdd_eq (a := lineEnd + 2) (by omega), saturatingAdd_eq word] at room
  have lineLength : (slice wire dec.pos lineEnd).length = lineEnd - dec.pos :=
    length_slice (by omega)
  rw [← length] at sizes
  rw [← Turn.again.inj again]
  refine ⟨_, has.piece (.chunk ⟨_, _, sizes, nonempty⟩) ?_ rfl ?_ ?_ rfl ?_ ?_ rfl⟩
  · rw [mode]
    rfl
  · simp only [Piece.octets, length_append, length, lineLength, length_crlf]
    omega
  · rw [drop_line found, data]
    simp [Piece.octets]
  · rw [length_append, length]
    exact bodyLe
  · exact room

theorem Parsed.again (fits : wire.length < 2 ^ 63) (parsed : Parsed wire dec)
    (again : turn (wire.take cut) dec = .again next) : Parsed wire next := by
  obtain ⟨sound, _, has⟩ := parsed
  refine ⟨sound.again fits again, ?_⟩
  cases waits : dec.pending with
  | some chunk =>
    rcases turn_data fits waits cut with ⟨held, same⟩ | ⟨_, same⟩
    · rw [again] at same
      exact has.atData fits waits (Nat.le_trans held (length_take_le' ..)) same.symm
    · rw [again] at same
      contradiction
  | none =>
    rcases sound.turn_line waits cut with ⟨_, found, _, same⟩ | ⟨_, same⟩
    · rw [again] at same
      exact has.atLine waits found same.symm
    · rw [again] at same
      contradiction

/-- What a call leaves behind, and what it means that the call accepts the body. -/
theorem Parsed.stop (fits : wire.length < 2 ^ 63) (parsed : Parsed wire dec) {step : ChunkStep}
    (stops : turn (wire.take cut) dec = .stop (next, step)) :
    Parsed wire next ∧ next.start = dec.start ∧ next.maxBody = dec.maxBody ∧
      next.maxRaw = dec.maxRaw ∧
      ∀ after, step = .done after → ∃ body : ChunkedBody, after = dec.start + body.octets.length ∧
        slice wire dec.start after = body.octets ∧ next.body = body.data ∧
        next.body.length ≤ dec.maxBody.toNat ∧ after - dec.start ≤ dec.maxRaw.toNat := by
  obtain ⟨sound, pieces, has⟩ := parsed
  cases waits : dec.pending with
  | some chunk =>
    rcases turn_data fits waits cut with ⟨_, same⟩ | ⟨_, same⟩
    · rw [stops, ChunkedDecoder.atData] at same
      split_ifs at same
      obtain ⟨rfl, rfl⟩ := Prod.mk.inj (Turn.stop.inj same)
      exact ⟨⟨sound, pieces, has⟩, rfl, rfl, rfl, fun _ done => by cases done⟩
    · rw [stops] at same
      obtain ⟨rfl, rfl⟩ := Prod.mk.inj (Turn.stop.inj same)
      exact ⟨⟨sound, pieces, has⟩, rfl, rfl, rfl, fun _ done => by cases done⟩
  | none =>
    rcases sound.turn_line waits cut with ⟨lineEnd, found, _, same⟩ | ⟨late, same⟩
    · rw [stops] at same
      rcases atLine_stop same.symm with ⟨rfl, rfl | rfl⟩ | ⟨rfl, rfl, trailing, empty, raw⟩
      · exact ⟨⟨sound, pieces, has⟩, rfl, rfl, rfl, fun _ done => by cases done⟩
      · refine ⟨⟨{ sound with }, pieces, { has with }⟩, rfl, rfl, rfl, fun _ done => by cases done⟩
      · refine ⟨⟨sound, pieces, has⟩, rfl, rfl, rfl, fun after done => ?_⟩
        have leads := has.front.leads
        rw [trailing] at leads
        obtain ⟨body, rfl⟩ := exists_body leads
        have ending := (findCrlfFrom_eq_some found).2.1.drop_eq
        have whole := has.front.reads
        rw [empty] at ending
        rw [ending, ← append_assoc] at whole
        have length : lineEnd + 2 = next.start + body.octets.length := by
          rw [body.length_octets, empty, has.front.place_eq, Nat.add_assoc]
        rw [← ChunkStep.done.inj done]
        refine ⟨body, length, ?_, has.body_eq, has.body_eq ▸ has.front.body_le, raw⟩
        rw [length]
        exact slice_of_drop_eq whole
    · rw [stops] at same
      obtain ⟨rfl, rfl⟩ := Prod.mk.inj (Turn.stop.inj same)
      refine ⟨⟨sound.missed waits late, pieces, { has with }⟩, rfl, rfl, rfl, fun after done => ?_⟩
      rw [unterminated] at done
      split_ifs at done

/-! ## Verdicts by the octets -/

/-- The decoder behind the pieces of a front. -/
def behind (start : Nat) (maxBody maxRaw : UInt64) (pieces : List Piece) (trailing : Bool)
    (place : Nat) : ChunkedDecoder :=
  { new start maxBody maxRaw with
    body := pieces.flatMap Piece.data
    pos := place
    inTrailers := trailing }

/-- A cut inside a line of the body, more than the bound of an unterminated line behind its
start. -/
def CutsLine (wire : Octets) (start : Nat) (maxBody maxRaw : UInt64) (cut : Nat) : Prop :=
  ∃ pieces trailing place lineEnd, Front wire start maxBody maxRaw pieces trailing place ∧
    findCrlfFrom wire place = some lineEnd ∧ place + maxChunkLine < cut ∧ cut < lineEnd + 2

/-- After pieces of a body the wire has octets that no body has there, or more than the raw budget:
a line that does not end, or is of neither kind, or a chunk without a line end behind its data. -/
inductive Malformed (wire : Octets) (start : Nat) (maxBody maxRaw : UInt64) : Prop where
  | unended {pieces : List Piece} {trailing : Bool} {place : Nat}
      (front : Front wire start maxBody maxRaw pieces trailing place)
      (absent : findCrlfFrom wire place = none)
      (long : maxChunkLine < wire.length - place ∨ maxRaw.toNat < wire.length - start)
  | beyond {pieces : List Piece} {trailing : Bool} {place lineEnd : Nat}
      (front : Front wire start maxBody maxRaw pieces trailing place)
      (ends : findCrlfFrom wire place = some lineEnd) (raw : maxRaw.toNat < lineEnd + 2 - start)
  | noTrailer {pieces : List Piece} {place lineEnd : Nat}
      (front : Front wire start maxBody maxRaw pieces true place)
      (ends : findCrlfFrom wire place = some lineEnd) (more : lineEnd ≠ place)
      (garbage : ¬TrailerLine (slice wire place lineEnd))
  | noSize {pieces : List Piece} {place lineEnd : Nat}
      (front : Front wire start maxBody maxRaw pieces false place)
      (ends : findCrlfFrom wire place = some lineEnd)
      (garbage : ∀ size < 2 ^ 64, ¬SizeLine (slice wire place lineEnd) size)
  | noRoom {pieces : List Piece} {place lineEnd size : Nat}
      (front : Front wire start maxBody maxRaw pieces false place)
      (ends : findCrlfFrom wire place = some lineEnd)
      (sizes : SizeLine (slice wire place lineEnd) size) (word : size < 2 ^ 64) (nonzero : size ≠ 0)
      (body : saturatingAdd (pieces.flatMap Piece.data).length size ≤ maxBody.toNat)
      (raw : maxRaw.toNat < saturatingAdd (saturatingAdd (lineEnd + 2) size) 2 - start)
  | noEnd {pieces : List Piece} {place lineEnd size : Nat}
      (front : Front wire start maxBody maxRaw pieces false place)
      (ends : findCrlfFrom wire place = some lineEnd)
      (sizes : SizeLine (slice wire place lineEnd) size) (nonzero : size ≠ 0)
      (body : saturatingAdd (pieces.flatMap Piece.data).length size ≤ maxBody.toNat)
      (raw : saturatingAdd (saturatingAdd (lineEnd + 2) size) 2 - start ≤ maxRaw.toNat)
      (held : lineEnd + 2 + size + 2 ≤ wire.length)
      (garbage : slice wire (lineEnd + 2 + size) (lineEnd + 2 + size + 2) ≠ crlf)

section

variable {start : Nat} {maxBody maxRaw : UInt64} (fits : wire.length < 2 ^ 63)
include fits

theorem passes_front {trailing : Bool} {place : Nat}
    (front : Front wire start maxBody maxRaw pieces trailing place) :
    Loop.Passes (turn wire) (new start maxBody maxRaw)
      (behind start maxBody maxRaw pieces trailing place) := by
  obtain ⟨passes, mode, -⟩ := passes_pieces fits (Opening.new wire start maxBody maxRaw)
    (Loop.Passes.refl _) rfl front.leads (by simpa [new] using front.body_le)
    (by simpa [new] using front.raw_le) front.reads
  rw [foldl_read] at passes mode
  rw [behind, front.place_eq, ← mode]
  exact passes

theorem has_of_passes (passes : Loop.Passes (turn wire) (new start maxBody maxRaw) dec) :
    ∃ pieces, Has wire dec pieces ∧ dec.start = start ∧ dec.maxBody = maxBody ∧
      dec.maxRaw = maxRaw := by
  have kept :=
    passes.invariant (P := fun d => Parsed wire d ∧ d.start = start ∧ d.maxBody = maxBody ∧
      d.maxRaw = maxRaw) (fun s next again holds => by
    obtain ⟨start, maxBody, maxRaw, _⟩ := again_keeps again
    obtain ⟨parsed, starts, bodies, raws⟩ := holds
    rw [← take_length (l := wire)] at again
    exact ⟨parsed.again fits again, start.trans starts, maxBody.trans bodies, maxRaw.trans raws⟩)
    ⟨⟨Sound.new .., [], Has.new ..⟩, rfl, rfl, rfl⟩
  obtain ⟨⟨-, pieces, has⟩, same⟩ := kept
  exact ⟨pieces, has, same⟩

theorem severs_iff_cutsLine : Severs wire (new start maxBody maxRaw) cut ↔
    CutsLine wire start maxBody maxRaw cut := by
  constructor
  · rintro ⟨dec, lineEnd, line, long, inside⟩
    obtain ⟨pieces, has, rfl, rfl, rfl⟩ := has_of_passes fits line.passes
    exact ⟨pieces, _, _, lineEnd, has.front, line.ends, long, inside⟩
  · rintro ⟨pieces, trailing, place, lineEnd, front, ends, long, inside⟩
    exact ⟨_, lineEnd, ⟨passes_front fits front, rfl, ends⟩, long, inside⟩

/-- A body is rejected for other reasons than its size just when the wire is malformed. -/
theorem malformed_iff : (∃ result, Loop.Ends (turn wire) (new start maxBody maxRaw) (result, .bad) ∧
    result.tooLarge = false) ↔ Malformed wire start maxBody maxRaw := by
  have opening := Opening.new wire start maxBody maxRaw
  constructor
  · rintro ⟨result, ⟨last, passes, stops⟩, small⟩
    obtain ⟨reached, fresh⟩ := opening.chain fits passes
    obtain ⟨pieces, has, rfl, rfl, rfl⟩ := has_of_passes fits passes
    cases waits : last.pending with
    | some chunk =>
      obtain ⟨dataStart, size⟩ := chunk
      have whole := turn_data fits waits wire.length
      rw [take_length, stops] at whole
      obtain ⟨held, same⟩ | ⟨-, same⟩ := whole
      · rw [ChunkedDecoder.atData] at same
        split_ifs at same with garbage
        obtain ⟨mode, body, nonzero, raw, lineEnd, ends, parsed, rfl⟩ :=
          has.waits dataStart size waits
        rw [has.body_eq] at body
        exact .noEnd (mode ▸ has.front) ends (parseChunkSize_eq_some.mp parsed).1 nonzero
          body raw held
          garbage
      · cases same
    | none =>
      cases ends : findCrlfFrom wire last.pos with
      | none =>
        have whole := reached.sound.turn_whole_missed waits ends
        rw [fresh, stops] at whole
        exact .unended has.front ends
          (unterminated_eq_bad.mp (congrArg Prod.snd (Turn.stop.inj whole)).symm)
      | some lineEnd =>
        have whole := reached.sound.turn_whole_line waits ends
        rw [fresh, stops, atLine] at whole
        split at whole
        case isTrue trailing =>
          rw [takeTrailer] at whole
          split_ifs at whole with raw empty valid
          · exact .beyond has.front ends raw
          · cases whole
          · exact .noTrailer (trailing ▸ has.front) ends empty fun line =>
              valid (trailerLineValid_iff.mpr line)
        case isFalse sizes =>
          rw [Bool.not_eq_true] at sizes
          rw [takeSize] at whole
          split at whole
          case isTrue raw => exact .beyond has.front ends raw
          split at whole
          · rename_i garbage
            exact .noSize (sizes ▸ has.front) ends fun size word valid =>
              Option.some_ne_none size
                ((parseChunkSize_eq_some.mpr ⟨valid, word⟩).symm.trans garbage)
          · rename_i size parsed
            obtain ⟨valid, word⟩ := parseChunkSize_eq_some.mp parsed
            split_ifs at whole with zero large raw
            · obtain ⟨rfl, -⟩ := Prod.mk.inj (Turn.stop.inj whole)
              cases small
            · rw [has.body_eq] at large
              exact .noRoom (sizes ▸ has.front) ends valid word zero (Nat.not_lt.mp large) raw
  · intro malformed
    have rejects {pieces trailing place}
        (front : Front wire start maxBody maxRaw pieces trailing place)
        {lineEnd : Nat} (ends : findCrlfFrom wire place = some lineEnd)
        (bad : (behind start maxBody maxRaw pieces trailing place).atLine lineEnd
          (slice wire place lineEnd) =
            .stop (behind start maxBody maxRaw pieces trailing place, .bad)) :
        ∃ result, Loop.Ends (turn wire) (new start maxBody maxRaw) (result, .bad) ∧
          result.tooLarge = false := by
      have passes := passes_front fits front
      have whole := (opening.chain fits passes).1.sound.turn_whole_line rfl ends
      exact ⟨_, ⟨_, passes, whole.trans bad⟩, rfl⟩
    cases malformed with
    | unended front absent long =>
      have passes := passes_front fits front
      have whole := (opening.chain fits passes).1.sound.turn_whole_missed rfl absent
      rw [unterminated_eq_bad.mpr long] at whole
      exact ⟨_, ⟨_, passes, whole⟩, rfl⟩
    | beyond front ends raw => exact rejects front ends (atLine_of_raw raw)
    | noTrailer front ends more garbage =>
      refine rejects front ends ?_
      change takeTrailer _ _ _ = _
      rw [takeTrailer]
      split_ifs with _ empty valid
      · rfl
      · exact absurd empty more
      · exact absurd (trailerLineValid_iff.mp valid) garbage
      · rfl
    | @noSize _ place lineEnd front ends garbage =>
      refine rejects front ends ?_
      have unread : parseChunkSize (slice wire place lineEnd) = none := by
        refine Option.eq_none_iff_forall_ne_some.mpr fun size parsed => ?_
        obtain ⟨valid, word⟩ := parseChunkSize_eq_some.mp parsed
        exact garbage size word valid
      change takeSize _ _ _ = _
      rw [takeSize, unread, ite_self]
    | noRoom front ends sizes word nonzero body raw =>
      refine rejects front ends ?_
      change takeSize _ _ _ = _
      rw [takeSize, parseChunkSize_eq_some.mpr ⟨sizes, word⟩]
      split
      · rfl
      · exact (if_neg nonzero).trans ((if_neg (Nat.not_lt.mpr body)).trans (if_pos raw))
    | @noEnd pieces place lineEnd size front ends sizes nonzero body raw held garbage =>
      have passes := passes_front fits front
      have whole := (opening.chain fits passes).1.sound.turn_whole_line rfl ends
      have word : lineEnd + 2 + size + 2 < 2 ^ 64 := by omega
      have room : lineEnd + 2 - start ≤ maxRaw.toNat := by
        rw [saturatingAdd_eq (a := lineEnd + 2) (by omega), saturatingAdd_eq word] at raw
        omega
      let waiting : ChunkedDecoder :=
        { behind start maxBody maxRaw pieces false place with pending := some (lineEnd + 2, size) }
      have again : turn wire (behind start maxBody maxRaw pieces false place) = .again waiting := by
        refine whole.trans ((takeSize_eq sizes (by omega) room).trans ?_)
        exact (if_neg nonzero).trans
          ((if_neg (Nat.not_lt.mpr body)).trans (if_neg (Nat.not_lt.mpr raw)))
      have data :=
        turn_data fits (show waiting.pending = some (lineEnd + 2, size) from rfl) wire.length
      rw [take_length] at data
      obtain ⟨-, stops⟩ | ⟨short, -⟩ := data
      · rw [atData, if_pos garbage] at stops
        exact ⟨_, ⟨_, passes.trans (.single again), stops⟩, rfl⟩
      · omega

end

/-- Two segmentations of a body give one verdict exactly when both or neither cut a long line, or
the wire is malformed anyway. -/
theorem decode_eq_iff (wire : Wire) (start : Nat) (maxBody maxRaw : UInt64)
    (first second : List Nat)
    (firstGrows : first.Pairwise (· ≤ ·)) (secondGrows : second.Pairwise (· ≤ ·)) :
    decode wire.octets (new start maxBody maxRaw) (first ++ [wire.octets.length]) =
        decode wire.octets (new start maxBody maxRaw) (second ++ [wire.octets.length]) ↔
      Malformed wire.octets start maxBody maxRaw ∨
        ((∃ cut ∈ first, CutsLine wire.octets start maxBody maxRaw cut) ↔
          ∃ cut ∈ second, CutsLine wire.octets start maxBody maxRaw cut) := by
  have opening := Opening.new wire.octets start maxBody maxRaw
  have ends := ends_advance wire.fits (new start maxBody maxRaw)
  have rejected : verdictOf ((new start maxBody maxRaw).advance wire.octets) = .bad false ↔
      Malformed wire.octets start maxBody maxRaw := by
    rw [← malformed_iff wire.fits]
    constructor
    · intro bad
      cases single : (new start maxBody maxRaw).advance wire.octets with
      | mk result step =>
        rw [single] at bad ends
        cases step with
        | bad => exact ⟨result, ends, Verdict.bad.inj bad⟩
        | _ => cases bad
    · rintro ⟨result, whole, small⟩
      rw [ends.unique whole, verdictOf, small]
  simp only [← severs_iff_cutsLine wire.fits, ← rejected]
  have fromStart (cuts : List Nat) (grows : cuts.Pairwise (· ≤ ·)) : (0 :: cuts).Pairwise (· ≤ ·) :=
    pairwise_cons.mpr ⟨fun cut _ => Nat.zero_le cut, grows⟩
  obtain ⟨severed, whole⟩ :=
    opening.reached.decode_eq wire.fits opening ends (fromStart first firstGrows)
  obtain ⟨severed', whole'⟩ :=
    opening.reached.decode_eq wire.fits opening ends (fromStart second secondGrows)
  by_cases one : ∃ cut ∈ first, Severs wire.octets (new start maxBody maxRaw) cut
  · by_cases two : ∃ cut ∈ second, Severs wire.octets (new start maxBody maxRaw) cut
    · rw [severed one, severed' two]
      exact iff_of_true rfl (.inr (iff_of_true one two))
    · rw [severed one, whole' two, eq_comm, or_iff_left fun both => two (both.mp one)]
  · by_cases two : ∃ cut ∈ second, Severs wire.octets (new start maxBody maxRaw) cut
    · rw [whole one, severed' two, or_iff_left fun both => one (both.mpr two)]
    · rw [whole one, whole' two]
      exact iff_of_true rfl (.inr (iff_of_false one two))

theorem decode_terminator :
    decode (ascii "0\r\n\r\n") (new 0 10 10) ([2] ++ [5]) =
      decode (ascii "0\r\n\r\n") (new 0 10 10) ([1, 4] ++ [5]) := by
  have short (cuts : List Nat) (small : ∀ cut ∈ cuts, cut ≤ 5) :
      ¬∃ cut ∈ cuts, CutsLine (ascii "0\r\n\r\n") 0 10 10 cut := by
    rintro ⟨cut, member, _, _, _, _, _, _, long, _⟩
    have bound : maxChunkLine = 8192 := rfl
    have within := small cut member
    omega
  refine (decode_eq_iff ⟨ascii "0\r\n\r\n", by decide⟩ 0 10 10 [2] [1, 4] (by decide)
    (by decide)).mpr
    (.inr (iff_of_false (short [2] (by decide)) (short [1, 4] (by decide))))

/-! ## Sequences of calls -/

/-- The results of calls on parts of the wire, one after the other. -/
def calls (wire : Octets) : ChunkedDecoder → List Nat → List (ChunkedDecoder × ChunkStep)
  | _, [] => []
  | dec, cut :: cuts =>
    dec.advance (wire.take cut) :: calls wire (dec.advance (wire.take cut)).1 cuts

theorem Parsed.call (fits : wire.length < 2 ^ 63) (parsed : Parsed wire dec) (cut : Nat) :
    ∃ last, Parsed wire last ∧ last.start = dec.start ∧ last.maxBody = dec.maxBody ∧
      last.maxRaw = dec.maxRaw ∧
        turn (wire.take cut) last = .stop (dec.advance (wire.take cut)) := by
  have short : (wire.take cut).length < 2 ^ 63 :=
    Nat.lt_of_le_of_lt (length_take_le' ..) fits
  obtain ⟨last, passes, stops⟩ := ends_advance short dec
  have kept := passes.invariant (P := fun d => Parsed wire d ∧ d.start = dec.start ∧
      d.maxBody = dec.maxBody ∧ d.maxRaw = dec.maxRaw) (fun s next again holds => by
    obtain ⟨start, maxBody, maxRaw, _⟩ := again_keeps again
    obtain ⟨parsed, starts, bodies, raws⟩ := holds
    exact ⟨parsed.again fits again, start.trans starts, maxBody.trans bodies, maxRaw.trans raws⟩)
    ⟨parsed, rfl, rfl, rfl⟩
  exact ⟨last, kept.1, kept.2.1, kept.2.2.1, kept.2.2.2, stops⟩

/-- An accepted body is one element of the grammar, within the budgets. -/
theorem Parsed.accepted (fits : wire.length < 2 ^ 63) (parsed : Parsed wire dec) {cuts : List Nat}
    {result : ChunkedDecoder} {after : Nat} (member : (result, .done after) ∈ calls wire dec cuts) :
    ∃ body : ChunkedBody, after = dec.start + body.octets.length ∧
      slice wire dec.start after = body.octets ∧ result.body = body.data ∧
      result.body.length ≤ dec.maxBody.toNat ∧ after - dec.start ≤ dec.maxRaw.toNat := by
  induction cuts generalizing dec with
  | nil => nomatch member
  | cons cut _ ih =>
    obtain ⟨_, lastParsed, start, maxBody, maxRaw, stops⟩ := parsed.call fits cut
    rw [calls] at member
    cases advanced : dec.advance (wire.take cut) with
    | mk =>
      rw [advanced] at member stops
      obtain ⟨nextParsed, nextStart, nextBody, nextRaw, accepts⟩ := lastParsed.stop fits stops
      rw [start, maxBody, maxRaw] at accepts
      rcases mem_cons.mp member with same | later
      · obtain ⟨rfl, rfl⟩ := Prod.mk.inj same
        exact accepts after rfl
      · have rest := ih nextParsed later
        rwa [nextStart, nextBody, nextRaw, start, maxBody, maxRaw] at rest

/-- Calls on parts that hold no whole body and sever no line ask for more. -/
theorem Reached.calls_eq {first : ChunkedDecoder} (fits : wire.length < 2 ^ 63)
    (opening : Opening wire first) {after last : Nat} {result : ChunkedDecoder}
    (ends : Loop.Ends (turn wire) first (result, .done after)) {cuts : List Nat}
    (reached : Reached wire first cut dec) (grows : (cut :: cuts).Pairwise (· ≤ ·))
    (before : ∀ cut ∈ cuts, cut < after) (behind : after ≤ last) (ahead : cut ≤ last) :
    (calls wire dec (cuts ++ [last])).map Prod.snd = replicate cuts.length .needMore ++
      [.done after] ↔
      ∀ cut ∈ cuts, ¬Severs wire first cut := by
  induction cuts generalizing cut dec with
  | nil =>
    obtain ⟨next, advanced⟩ := (reached.mono ahead).accepts fits opening ends behind
    rw [nil_append, calls, calls, advanced]
    exact ⟨fun _ cut member => (nomatch member), fun _ => rfl⟩
  | cons later _ ih =>
    obtain ⟨le, rest⟩ := pairwise_cons.mp grows
    obtain ⟨_, others⟩ := forall_mem_cons.mp before
    have here := reached.mono (le later mem_cons_self)
    rw [cons_append, calls, map_cons, length_cons, replicate_succ,
      cons_append, cons.injEq, forall_mem_cons]
    by_cases severs : Severs wire first later
    · obtain ⟨next, advanced, _⟩ := here.severed fits opening severs
      rw [advanced]
      exact ⟨fun both => (nomatch both.1), fun both => absurd severs both.1⟩
    · rcases here.unsevered fits opening severs with
        ⟨next, advanced, reachedNext⟩ | ⟨next, other, advanced, whole, settled⟩ |
        ⟨next, other, advanced, whole, _⟩
      · rw [advanced]
        have onward := ih reachedNext rest others (by omega)
        exact ⟨fun both => ⟨severs, onward.mp both.2⟩, fun both => ⟨rfl, onward.mpr both.2⟩⟩
      · obtain ⟨line, isLine, _, _⟩ := opening.done fits ends
        have held := settled line line.pos isLine
        omega
      · have same := ends.unique whole
        cases same

/-- An accepted body is one element of the grammar with its exact end.  A body within the budgets
is accepted by the first call that holds it, after calls that asked for more, exactly when no
earlier call ended inside a line at the bound of an unterminated line. -/
theorem advance_exact (wire : Wire) (start : Nat) (maxBody maxRaw : UInt64) (cuts : List Nat)
    (grows : cuts.Pairwise (· ≤ ·)) :
    (∀ dec after, (dec, .done after) ∈ calls wire.octets (new start maxBody maxRaw) cuts →
      ∃ body : ChunkedBody, after = start + body.octets.length ∧
        slice wire.octets start after = body.octets ∧ dec.body = body.data ∧
        dec.body.length ≤ maxBody.toNat ∧ after - start ≤ maxRaw.toNat) ∧
    ∀ (body : ChunkedBody) (rest : Octets), wire.octets.drop start = body.octets ++ rest →
      body.data.length ≤ maxBody.toNat → body.octets.length ≤ maxRaw.toNat →
      (∀ cut ∈ cuts, cut < start + body.octets.length) →
      ∀ last, start + body.octets.length ≤ last →
        ((calls wire.octets (new start maxBody maxRaw) (cuts ++ [last])).map Prod.snd =
            List.replicate cuts.length .needMore ++ [.done (start + body.octets.length)] ↔
          ∀ cut ∈ cuts, ¬body.Severed (cut - start)) := by
  have opening := Opening.new wire.octets start maxBody maxRaw
  constructor
  · intro dec after member
    exact Parsed.accepted wire.fits ⟨opening.reached.sound, [], Has.new ..⟩ member
  · intro body rest reads bodyLe rawLe before last behind
    have there : body.Fits wire.octets start maxBody maxRaw rest := ⟨reads, bodyLe, rawLe⟩
    have ends : Loop.Ends (turn wire.octets) (new start maxBody maxRaw) (_, .done _) :=
      ⟨_, (there.passes wire.fits (append_nil _).symm body.leads).1, there.ends wire.fits⟩
    have fromStart : (0 :: cuts).Pairwise (· ≤ ·) :=
      pairwise_cons.mpr ⟨fun cut _ => Nat.zero_le cut, grows⟩
    rw [opening.reached.calls_eq wire.fits opening ends fromStart before behind (Nat.zero_le _)]
    refine forall₂_congr fun cut _ => ?_
    rw [there.severs_iff wire.fits]

end ChunkedDecoder

theorem sizeLine_zero : SizeLine [48] 0 := (parseChunkSize_eq_some.mp (by decide)).1

/-- A body with a chunk and a trailer. -/
def smallBody : ChunkedBody where
  chunks := [⟨ascii "3;x", ascii "abc", (parseChunkSize_eq_some.mp (by decide)).1, by decide⟩]
  last := [48]
  zero := sizeLine_zero
  trailers := [⟨ascii "a: b", trailerLineValid_iff.mp (by decide)⟩]

theorem smallBody_accepted :
    (ChunkedDecoder.calls smallBody.octets (.new 0 10 30) ([2, 7, 18] ++ [21])).map Prod.snd =
      [.needMore, .needMore, .needMore, .done 21] := by
  refine ((ChunkedDecoder.advance_exact ⟨smallBody.octets, by decide⟩ 0 10 30 [2, 7, 18]
    (by decide)).2 smallBody [] (by decide) (by decide) (by decide) (by decide) 21 (by decide)).mpr
      ?_
  rintro cut member ⟨_, _, _, _, long, _⟩
  have bound : maxChunkLine = 8192 := rfl
  have early := (show ∀ cut ∈ [2, 7, 18], cut ≤ 18 by decide) cut member
  omega

/-! ## A line of the greatest length -/

/-- A size line of exactly `MAX_CHUNK_LINE` octets. -/
def longLine : Octets := 49 :: 59 :: List.replicate 8190 97

theorem length_longLine : longLine.length = maxChunkLine := by
  rw [longLine, length_cons, length_cons, length_replicate]
  rfl

theorem sizeLine_longLine : SizeLine longLine 1 := by
  refine ⟨[], [49], [], 59 :: replicate 8190 97, rfl, fun _ member => (nomatch member),
    by decide, rfl, fun _ member => (nomatch member), .inr ⟨_, rfl, ?_⟩⟩
  rw [framingLineClean_iff]
  intro b member
  rw [eq_of_mem_replicate member]
  decide

def longBody : ChunkedBody :=
  ⟨[⟨longLine, [120], sizeLine_longLine, by decide⟩], [48], sizeLine_zero, []⟩

theorem length_longBody : longBody.octets.length = 8202 := by
  have octets : longBody.octets = longLine ++ crlf ++ [120, 13, 10, 48, 13, 10, 13, 10] := by
    simp [longBody, ChunkedBody.octets, ChunkedBody.pieces, Piece.octets, crlf, cr, lf]
  rw [octets, length_append, length_append, length_longLine]
  rfl

def longWire : Wire := ⟨longBody.octets, by rw [length_longBody]; decide⟩

theorem longBody_fits : longBody.Fits longWire.octets 0 10000 10000 [] where
  reads := (append_nil _).symm
  body_le := by decide
  raw_le := by
    rw [length_longBody]
    decide

/-- A read that ends between the carriage return and the line feed of such a line. -/
theorem longBody_severed : longBody.Severed 8193 :=
  ⟨[], .chunk ⟨longLine, [120], sizeLine_longLine, by decide⟩, [.last [48] sizeLine_zero], rfl,
    by decide, by rw [Piece.line, length_longLine]; decide⟩

/-- All lines are within the bound and the budgets are kept, yet the body is rejected. -/
theorem longBody_rejected :
    (∀ piece ∈ longBody.pieces, piece.line.length ≤ maxChunkLine) ∧
      longWire.octets.drop 0 = longBody.octets ++ [] ∧ longBody.data.length ≤ 10000 ∧
      longBody.octets.length ≤ 10000 ∧ 8193 < longBody.octets.length ∧
      (ChunkedDecoder.calls longWire.octets (.new 0 10000 10000) [8193]).map Prod.snd = [.bad] := by
  refine ⟨?_, longBody_fits.reads, by decide, by rw [length_longBody]; decide,
    by rw [length_longBody]; decide, ?_⟩
  · intro piece member
    rcases mem_cons.mp member with rfl | member
    · exact Nat.le_of_eq length_longLine
    · rw [mem_singleton.mp member]
      decide
  · have opening := ChunkedDecoder.Opening.new longWire.octets 0 10000 10000
    have severs := (longBody_fits.severs_iff longWire.fits 8193).mpr longBody_severed
    obtain ⟨_, advanced, _⟩ :=
      (opening.reached.mono (Nat.zero_le 8193)).severed longWire.fits opening severs
    rw [ChunkedDecoder.calls, ChunkedDecoder.calls, advanced]
    rfl

/-- One read gives the body, two reads reject it. -/
theorem longBody_verdicts :
    ChunkedDecoder.decode longWire.octets (.new 0 10000 10000) ([] ++ [longWire.octets.length]) =
        .done 8202 [120] ∧
      ChunkedDecoder.decode longWire.octets (.new 0 10000 10000)
        ([8193] ++ [longWire.octets.length]) =
        .bad false := by
  have opening := ChunkedDecoder.Opening.new longWire.octets 0 10000 10000
  have ends : Loop.Ends (ChunkedDecoder.turn longWire.octets) (.new 0 10000 10000) (_, .done _) :=
    ⟨_, (longBody_fits.passes longWire.fits (append_nil _).symm longBody.leads).1,
      longBody_fits.ends longWire.fits⟩
  constructor
  · rw [(opening.reached.decode_eq longWire.fits opening ends (by decide)).2
      fun ⟨_, member, _⟩ => (nomatch member), ChunkedDecoder.verdictOf, foldl_read,
      length_longBody]
    rfl
  · refine (opening.reached.decode_eq longWire.fits opening ends (by decide)).1
      ⟨8193, mem_singleton_self _, ?_⟩
    exact (longBody_fits.severs_iff longWire.fits 8193).mpr longBody_severed

end HttpJet.H1
