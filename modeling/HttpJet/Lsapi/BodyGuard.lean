import HttpJet.Lsapi.BeginVerdicts

/-!
# The scanned body writer

A request body is passed on chunk by chunk, and octets that could open a request are held back until
the whole fixed header can be written with them.  The results are for a sink that takes every write
whole.
-/

namespace HttpJet.Lsapi

open Library List

def maxWrite : Nat := 16 * 1024

def carryLen : Nat := reqHeaderLen - 1

/-! ## Sinks -/

/-- A writer to write to: it takes some octets of those offered, or fails. -/
structure Sink (σ : Type) where
  write : σ → Octets → Option Nat × σ

/-- A sink that takes every write whole. -/
def recorder : Sink (List Octets) where
  write writes octets := (some octets.length, writes ++ [octets])

inductive BodyWriteError where
  | embeddedBegin
  | io
  deriving DecidableEq

/-- The octets split, or whole when the place is past their end. -/
def split (octets : Octets) (place : Nat) : Octets × Octets :=
  if place ≤ octets.length then (octets.take place, octets.drop place) else (octets, [])

section sink

variable {σ : Type} (sink : Sink σ)

/-- `write_whole`: every turn writes an octet at least, so the octets bound the turns. -/
def writeWholeLoop (out : σ) (head tail : Octets) : Nat → Except BodyWriteError Unit × σ
  | 0 => (.ok (), out)
  | fuel + 1 =>
    if head.isEmpty && tail.isEmpty then (.ok (), out)
    else
      match sink.write out (head ++ tail) with
      | (none, out) => (.error .io, out)
      | (some 0, out) => (.error .io, out)
      | (some n, out) =>
        let fromHead := min n head.length
        writeWholeLoop out (split head fromHead).2 (split tail (n - fromHead)).2 fuel

def writeWhole (out : σ) (head tail : Octets) : Except BodyWriteError Unit × σ :=
  writeWholeLoop sink out head tail (head.length + tail.length)

/-- The length of the next write: a remainder shorter than a header is folded into it. -/
def pieceLen (total : Nat) : Nat :=
  let piece := min total maxWrite
  if total - piece < reqHeaderLen then total else piece

def writeSplitLoop (out : σ) (head tail : Octets) : Nat → Except BodyWriteError Unit × σ
  | 0 => (.ok (), out)
  | fuel + 1 =>
    if head.isEmpty && tail.isEmpty then (.ok (), out)
    else
      let piece := pieceLen (head.length + tail.length)
      let heads := split head piece
      let tails := split tail (piece - heads.1.length)
      match writeWhole sink out heads.1 tails.1 with
      | (.error e, out) => (.error e, out)
      | (.ok (), out) => writeSplitLoop out heads.2 tails.2 fuel

def writeSplit (out : σ) (head tail : Octets) : Except BodyWriteError Unit × σ :=
  writeSplitLoop sink out head tail (head.length + tail.length)

end sink

/-! ## The writer -/

structure ScannedBodyWriter where
  bodyLen : Nat
  received : Nat
  written : Nat
  held : Octets
  carry : Octets

def ScannedBodyWriter.new (bodyLen : Nat) : ScannedBodyWriter where
  bodyLen := bodyLen
  received := 0
  written := 0
  held := []
  carry := []

/-- Octets copied into a buffer, as many as fit. -/
def gather (capacity : Nat) (octets : Octets) : Octets := octets.take capacity

def frameAt (octets : Octets) (offset : Nat) : Bool :=
  decide (classifyBeginRequest (octets.drop offset) = .frame)

variable (writer : ScannedBodyWriter)

/-- Whether the chunk completes a request, and the writer with the last octets of it. -/
def ScannedBodyWriter.scan (chunk : Octets) : Bool × ScannedBodyWriter :=
  let seam := gather (carryLen + reqHeaderLen) (writer.carry ++ chunk.take reqHeaderLen)
  let found :=
    (List.range writer.carry.length).any (frameAt seam) || (magicOffsets chunk).any (frameAt chunk)
  let tail := if carryLen ≤ chunk.length then chunk else seam
  (found, { writer with carry := gather carryLen (tail.drop (tail.length - carryLen)) })

def ScannedBodyWriter.opensRequest (chunk : Octets) (len : Nat) : Bool :=
  classifyBeginRequest (gather reqHeaderLen ((writer.held ++ chunk).take len)) != .clean

/-- How much of the body may have been written after this chunk. -/
def ScannedBodyWriter.limit : Nat :=
  if writer.bodyLen ≤ writer.received then writer.received
  else min writer.received (writer.bodyLen - reqHeaderLen)

/-- The second half of `push`: write what is safe of a chunk that has been received. -/
def ScannedBodyWriter.pass {σ : Type} (sink : Sink σ) (writer : ScannedBodyWriter) (out : σ)
    (chunk : Octets) : Except BodyWriteError Unit × ScannedBodyWriter × σ :=
  let len := writer.limit - writer.written
  if len = 0 ∨ ¬writer.bodyLen ≤ writer.received ∧ len < reqHeaderLen ∧
      writer.opensRequest chunk len = true then
    (.ok (), { writer with held := writer.held ++ chunk }, out)
  else
    let helds := split writer.held len
    let chunks := split chunk (len - helds.1.length)
    match writeSplit sink out helds.1 chunks.1 with
    | (.error e, out) => (.error e, writer, out)
    | (.ok (), out) =>
      (.ok (), { writer with
        written := writer.limit
        held := writer.held.drop helds.1.length ++ chunks.2 }, out)

def ScannedBodyWriter.push {σ : Type} (sink : Sink σ) (writer : ScannedBodyWriter) (out : σ)
    (chunk : Octets) : Except BodyWriteError Unit × ScannedBodyWriter × σ :=
  let scanned := writer.scan chunk
  if scanned.1 then (.error .embeddedBegin, scanned.2, out)
  else { scanned.2 with received := writer.received + chunk.length }.pass sink out chunk

/-- Chunks pushed in order, until a push fails. -/
def ScannedBodyWriter.pushes {σ : Type} (sink : Sink σ) (writer : ScannedBodyWriter) (out : σ) :
    List Octets → Except BodyWriteError Unit × ScannedBodyWriter × σ
  | [] => (.ok (), writer, out)
  | chunk :: chunks =>
    match writer.push sink out chunk with
    | (.error e, writer, out) => (.error e, writer, out)
    | (.ok (), writer, out) => writer.pushes sink out chunks

/-! ## Writes -/

@[simp]
theorem split_eq (octets : Octets) (place : Nat) :
    split octets place = (octets.take place, octets.drop place) := by
  rw [split]
  split_ifs with inside
  · rfl
  · rw [take_of_length_le (by omega), drop_of_length_le (by omega)]

theorem not_isEmpty {head tail : Octets} (some : head ++ tail ≠ []) :
    ¬(head.isEmpty && tail.isEmpty) = true := by
  rw [Bool.and_eq_true, List.isEmpty_iff, List.isEmpty_iff]
  rintro ⟨rfl, rfl⟩
  exact some rfl

/-- A sink that takes writes whole is written to once. -/
theorem writeWhole_recorder (out : List Octets) {head tail : Octets} (some : head ++ tail ≠ []) :
    writeWhole recorder out head tail = (.ok (), out ++ [head ++ tail]) := by
  have positive : 0 < head.length + tail.length := by
    rw [← length_append]
    exact length_pos_of_ne_nil some
  rw [writeWhole]
  obtain ⟨fuel, total⟩ := Nat.exists_eq_add_one_of_ne_zero (Nat.pos_iff_ne_zero.mp positive)
  rw [total, writeWholeLoop, if_neg (not_isEmpty some), recorder]
  simp only [length_append, total, split_eq, Nat.min_eq_right (by omega : head.length ≤ fuel + 1),
    drop_length, drop_of_length_le (by omega : tail.length ≤ fuel + 1 - head.length)]
  cases fuel <;> rfl

/-- Octets cut into writes: each is a header long at least, or all there is. -/
structure Pieces (text : Octets) (writes : List Octets) : Prop where
  flatten : writes.flatten = text
  long : ∀ write ∈ writes, reqHeaderLen ≤ write.length ∨ write = text ∧ writes = [text]
  short : ∀ write ∈ writes, write.length ≤ maxWrite + reqHeaderLen

theorem pieceLen_bounds {total : Nat} (positive : 0 < total) :
    0 < pieceLen total ∧ pieceLen total ≤ total ∧ pieceLen total ≤ maxWrite + reqHeaderLen ∧
      (pieceLen total = total ∨ reqHeaderLen ≤ pieceLen total ∧
        reqHeaderLen ≤ total - pieceLen total) := by
  rw [pieceLen, maxWrite, reqHeaderLen]
  split_ifs <;> omega

theorem Pieces.single {text : Octets} (bound : text.length ≤ maxWrite + reqHeaderLen) :
    Pieces text [text] where
  flatten := by rw [flatten_singleton]
  long write member := .inr ⟨mem_singleton.mp member, rfl⟩
  short write member := by rwa [mem_singleton.mp member]

theorem Pieces.cons {text : Octets} {piece : Nat} {writes : List Octets}
    (bound : piece ≤ maxWrite + reqHeaderLen) (long : reqHeaderLen ≤ piece)
    (more : reqHeaderLen ≤ text.length - piece) (rest : Pieces (text.drop piece) writes) :
    Pieces text (text.take piece :: writes) where
  flatten := by rw [flatten_cons, rest.flatten, take_append_drop]
  long write member := by
    refine .inl ?_
    rcases mem_cons.mp member with rfl | later
    · rw [length_take]
      omega
    · rcases rest.long write later with long | ⟨same, -⟩
      · exact long
      · rwa [same, length_drop]
  short write member := by
    rcases mem_cons.mp member with rfl | later
    · rw [length_take]
      omega
    · exact rest.short write later

theorem take_split (head tail : Octets) (place : Nat) :
    head.take place ++ tail.take (place - (head.take place).length) =
      (head ++ tail).take place := by
  rw [take_append, length_take]
  congr 2
  omega

theorem drop_split (head tail : Octets) (place : Nat) :
    head.drop place ++ tail.drop (place - (head.take place).length) =
      (head ++ tail).drop place := by
  rw [drop_append, length_take]
  congr 2
  omega

theorem drop_length_take (octets : Octets) (place : Nat) :
    octets.drop (octets.take place).length = octets.drop place := by
  rw [length_take]
  rcases Nat.le_total place octets.length with inside | outside
  · rw [Nat.min_eq_left inside]
  · rw [Nat.min_eq_right outside, drop_length, drop_of_length_le outside]

theorem writeSplitLoop_recorder (fuel : Nat) (out : List Octets) (head tail : Octets)
    (some : head ++ tail ≠ []) (enough : (head ++ tail).length ≤ fuel) :
    ∃ writes, writeSplitLoop recorder out head tail fuel = (.ok (), out ++ writes) ∧
      Pieces (head ++ tail) writes := by
  induction fuel generalizing out head tail with
  | zero => exact absurd (length_eq_zero_iff.mp (Nat.le_zero.mp enough)) some
  | succ fuel ih =>
    obtain ⟨positive, small, bound, last⟩ := pieceLen_bounds (length_pos_of_ne_nil some)
    rw [length_append] at positive small bound last
    generalize pieceAt : pieceLen (head.length + tail.length) = piece at positive small bound last
    have front : (head ++ tail).take piece ≠ [] := by
      rw [Ne, take_eq_nil_iff, not_or]
      exact ⟨by omega, some⟩
    rw [writeSplitLoop, if_neg (not_isEmpty some), pieceAt]
    simp only [split_eq]
    rw [writeWhole_recorder out (by rw [take_split]; exact front), take_split]
    dsimp only
    rcases last with whole | ⟨long, more⟩
    · -- the last piece takes the rest
      have done : head.drop piece ++ tail.drop (piece - (head.take piece).length) = [] := by
        rw [drop_split]
        exact drop_of_length_le (by rw [length_append]; omega)
      obtain ⟨noHead, noTail⟩ := append_eq_nil_iff.mp done
      rw [noHead, noTail, whole, ← length_append, take_length]
      refine ⟨[head ++ tail], ?_, Pieces.single (by rw [length_append]; omega)⟩
      cases fuel with
      | zero => rfl
      | succ => rfl
    · obtain ⟨_, ran, pieces⟩ := ih (out ++ [(head ++ tail).take piece]) (head.drop piece)
        (tail.drop (piece - (head.take piece).length))
        (by
          rw [drop_split, Ne, drop_eq_nil_iff, length_append]
          have : 0 < reqHeaderLen := by decide
          omega)
        (by
          rw [drop_split, length_drop, length_append]
          rw [length_append] at enough
          omega)
      rw [drop_split] at pieces
      rw [ran, append_assoc, singleton_append]
      exact ⟨_, rfl, pieces.cons bound long (by rw [length_append]; exact more)⟩

/-! ## Scans -/

section scan

variable {writer : ScannedBodyWriter} {text : Octets}

theorem frameAt_iff {octets : Octets} {offset : Nat} :
    frameAt octets offset = true ↔ IsFrame (octets.drop offset) := by
  rw [frameAt, decide_eq_true_iff, IsFrame]

theorem magicOffsets_any (chunk : Octets) :
    (magicOffsets chunk).any (frameAt chunk) = true ↔ Occurs IsFrame chunk := by
  rw [any_eq_true]
  constructor
  · rintro ⟨offset, -, frame⟩
    exact ⟨offset, frameAt_iff.mp frame⟩
  · rintro ⟨offset, frame⟩
    have listed : 0 + offset ∈ magicOffsets chunk :=
      mem_findIter (by decide) (fun i small => absurd small (Nat.not_lt_zero i)) frame.magic
    rw [Nat.zero_add] at listed
    exact ⟨offset, listed, frameAt_iff.mpr frame⟩

section

variable (carried : writer.carry = text.rtake carryLen)
include carried

theorem gather_seam (chunk : Octets) :
    gather (carryLen + reqHeaderLen) (writer.carry ++ chunk.take reqHeaderLen) =
      text.rtake carryLen ++ chunk.take reqHeaderLen := by
  rw [gather, carried]
  refine take_of_length_le ?_
  rw [length_append, length_take, rtake, length_drop]
  omega

/-- The scan finds the requests that the chunk completes. -/
theorem scan_found (clean : ¬Occurs IsFrame text) (chunk : Octets) :
    (writer.scan chunk).1 = true ↔ Occurs IsFrame (text ++ chunk) := by
  rw [occurs_append isFrame_windowed, or_iff_right clean, ScannedBodyWriter.scan]
  rw [gather_seam carried, Bool.or_eq_true, magicOffsets_any, carried]
  refine or_congr_left ?_
  rw [any_eq_true]
  constructor
  · rintro ⟨offset, member, frame⟩
    exact ⟨offset, mem_range.mp member, frameAt_iff.mp frame⟩
  · rintro ⟨offset, small, frame⟩
    exact ⟨offset, mem_range.mpr small, frameAt_iff.mpr frame⟩

/-- The carry is the end of what was received. -/
theorem scan_carry (chunk : Octets) :
    (writer.scan chunk).2 = { writer with carry := (text ++ chunk).rtake carryLen } := by
  rw [ScannedBodyWriter.scan]
  rw [gather_seam carried]
  have fits (tail : Octets) :
      gather carryLen (tail.drop (tail.length - carryLen)) = tail.rtake carryLen := by
    exact take_of_length_le (by rw [length_drop]; omega)
  rw [fits]
  split_ifs with long
  · rw [rtake_append_of_le_length text long]
  · have short : chunk.length ≤ reqHeaderLen := by
      rw [carryLen] at long
      omega
    rw [take_of_length_le short, rtake_rtake_append]

end

end scan

/-! ## Runs -/

/-- A write that cannot open a request by itself: the header comes with it, it is no
beginning of a request, or nothing follows it. -/
structure Safe (body : Octets) (before : List Octets) (write : Octets) : Prop where
  start : reqHeaderLen ≤ write.length ∨ classifyBeginRequest write = .clean ∨
    before.flatten.length + write.length = body.length
  bound : write.length ≤ maxWrite + reqHeaderLen

/-- What has been written of a body. -/
structure Guarded (body : Octets) (writes : List Octets) : Prop where
  beginning : writes.flatten <+: body
  noFrame : ¬Occurs IsFrame writes.flatten
  safe : ∀ before write after, writes = before ++ write :: after → Safe body before write

/-- The writer after it has received `text` of the body. -/
structure Passed (body text : Octets) (writer : ScannedBodyWriter)
    (writes : List Octets) : Prop where
  bodyLen : writer.bodyLen = body.length
  received : writer.received = text.length
  kept : writes.flatten ++ writer.held = text
  written : writer.written = writes.flatten.length
  carry : writer.carry = text.rtake carryLen
  clean : ¬Occurs IsFrame text
  early : text.length < body.length → writer.written ≤ body.length - reqHeaderLen
  whole : body.length ≤ text.length → writer.held = []
  safe : ∀ before write after, writes = before ++ write :: after → Safe body before write

section run

variable {body text : Octets} {writer : ScannedBodyWriter} {writes : List Octets}

theorem Passed.guarded (passed : Passed body text writer writes) (within : text <+: body) :
    Guarded body writes where
  beginning := List.IsPrefix.trans ⟨writer.held, passed.kept⟩ within
  noFrame occurs := passed.clean (occurs.of_beginning isFrame_windowed ⟨writer.held, passed.kept⟩)
  safe := passed.safe

theorem passed_new (body : Octets) : Passed body [] (ScannedBodyWriter.new body.length) [] where
  bodyLen := rfl
  received := rfl
  kept := rfl
  written := rfl
  carry := rfl
  clean := not_occurs_nil isFrame_windowed
  early _ := Nat.zero_le _
  whole _ := rfl
  safe before _ _ same := absurd same.symm (append_ne_nil_of_right_ne_nil before (cons_ne_nil _ _))

/-- Safe writes followed by the pieces of what is written next. -/
theorem safe_append {next : Octets} {pieces : List Octets}
    (safe : ∀ before write after, writes = before ++ write :: after → Safe body before write)
    (cut : Pieces next pieces)
    (start : reqHeaderLen ≤ next.length ∨ classifyBeginRequest next = .clean ∨
      writes.flatten.length + next.length = body.length) :
    ∀ before write after, writes ++ pieces = before ++ write :: after → Safe body before write := by
  intro before write after same
  have inPieces (more : List Octets) (later : pieces = more ++ write :: after) :
      Safe body (writes ++ more) write := by
    have member : write ∈ pieces := by
      rw [later]
      exact mem_append_right _ (mem_cons_self ..)
    refine ⟨?_, cut.short write member⟩
    rcases cut.long write member with long | ⟨rfl, alone⟩
    · exact .inl long
    · -- the only write: nothing comes before it
      rw [alone] at later
      cases more with
      | nil =>
        rw [append_nil]
        exact start
      | cons => exact absurd (congrArg length later) (by simp)
  rcases append_eq_append_iff.mp same with ⟨more, rfl, later⟩ | ⟨more, rfl, earlier⟩
  · exact inPieces more later
  · cases more with
    | nil =>
      have here := inPieces [] earlier.symm
      rwa [append_nil, append_nil] at here
    | cons _ more =>
      obtain ⟨rfl, -⟩ := cons.inj earlier
      exact safe before write more rfl

/-- The writer that has scanned a chunk without finding a request. -/
def ScannedBodyWriter.after (writer : ScannedBodyWriter) (text : Octets) : ScannedBodyWriter :=
  { writer with carry := text.rtake carryLen, received := text.length }

section

variable (passed : Passed body text writer writes)
include passed

theorem Passed.push_eq {chunk : Octets} (clean : ¬Occurs IsFrame (text ++ chunk)) :
    writer.push recorder writes chunk =
      (writer.after (text ++ chunk)).pass recorder writes chunk := by
  have noScan : ¬(writer.scan chunk).1 = true := by rwa [scan_found passed.carry passed.clean]
  rw [ScannedBodyWriter.push]
  rw [if_neg noScan, scan_carry passed.carry, passed.received, ScannedBodyWriter.after,
    length_append]

theorem Passed.written_le : writer.written ≤ text.length := by
  rw [passed.written, ← passed.kept, length_append]
  exact Nat.le_add_right ..

theorem Passed.limit {more : Octets} (within : more.length ≤ body.length)
    (longer : text.length < more.length) :
    writer.written ≤ (writer.after more).limit ∧ (writer.after more).limit ≤ more.length ∧
      (more.length < body.length → (writer.after more).limit ≤ body.length - reqHeaderLen) ∧
      (more.length = body.length → (writer.after more).limit = more.length) := by
  have early := passed.early (by omega)
  have written := passed.written_le
  rw [ScannedBodyWriter.limit, ScannedBodyWriter.after, passed.bodyLen]
  dsimp only
  split_ifs with complete
  · exact ⟨by omega, le_rfl, by omega, fun _ => rfl⟩
  · exact ⟨by omega, by omega, fun _ => Nat.min_le_right .., by omega⟩

/-- A chunk without a request is passed on or held back. -/
theorem Passed.push {chunk : Octets} (some : chunk ≠ []) (within : text ++ chunk <+: body)
    (clean : ¬Occurs IsFrame (text ++ chunk)) :
    ∃ writer' writes', writer.push recorder writes chunk = (.ok (), writer', writes') ∧
      Passed body (text ++ chunk) writer' writes' := by
  have longer : text.length < (text ++ chunk).length := by
    rw [length_append]
    exact Nat.lt_add_of_pos_right (length_pos_of_ne_nil some)
  have inside : (text ++ chunk).length ≤ body.length := within.length_le
  obtain ⟨above, below, early, whole⟩ := passed.limit inside longer
  have unwritten : writes.flatten ++ (writer.held ++ chunk) = text ++ chunk := by
    rw [← append_assoc, passed.kept]
  have total : writer.written + (writer.held ++ chunk).length = (text ++ chunk).length := by
    rw [passed.written, ← unwritten]
    exact length_append.symm
  have before := passed.written_le
  rw [passed.push_eq clean, ScannedBodyWriter.pass]
  generalize (writer.after (text ++ chunk)).limit = limit at above below early whole
  rw [ScannedBodyWriter.after, passed.bodyLen]
  dsimp only
  split_ifs with hold
  · refine ⟨_, _, rfl, ⟨rfl, rfl, unwritten, passed.written, rfl, clean,
      fun _ => passed.early (by omega), fun complete => ?_, passed.safe⟩⟩
    rw [whole (Nat.le_antisymm inside complete)] at hold
    rcases hold with _ | ⟨partly, -⟩
    · omega
    · exact absurd complete partly
  · rw [not_or, not_and, not_and] at hold
    have len : limit - writer.written ≤ (writer.held ++ chunk).length := by omega
    have limitAt : writer.written + (limit - writer.written) = limit := Nat.add_sub_cancel' above
    generalize limit - writer.written = size at hold len limitAt
    have front : (writer.held ++ chunk).take size ≠ [] := by
      rw [Ne, take_eq_nil_iff, not_or]
      exact ⟨hold.1, append_ne_nil_of_right_ne_nil _ some⟩
    rw [← take_split] at front
    obtain ⟨_, ran, cut⟩ := writeSplitLoop_recorder _ writes _ _ front le_rfl
    rw [take_split] at cut
    have sizeFront : ((writer.held ++ chunk).take size).length = size := by
      rw [length_take, Nat.min_eq_left len]
    have heldLater : writer.held.drop (writer.held.take size).length ++
        chunk.drop (size - (writer.held.take size).length) = (writer.held ++ chunk).drop size := by
      rw [← drop_split, drop_length_take]
    simp only [split_eq]
    rw [writeSplit, ← length_append, ran]
    refine ⟨_, _, rfl, ⟨rfl, rfl, ?_, ?_, rfl, clean, early, fun complete => ?_, ?_⟩⟩
    · rw [heldLater, flatten_append, cut.flatten, append_assoc, take_append_drop, unwritten]
    · have longer : (writes.flatten ++ (writer.held ++ chunk).take size).length =
          writes.flatten.length + ((writer.held ++ chunk).take size).length := length_append
      rw [flatten_append, cut.flatten, longer, sizeFront, ← passed.written, limitAt]
    · rw [heldLater]
      have := whole (Nat.le_antisymm inside complete)
      exact drop_of_length_le (by omega)
    · refine safe_append passed.safe cut ?_
      rw [sizeFront, ← passed.written, limitAt]
      by_cases long : reqHeaderLen ≤ size
      · exact .inl long
      · by_cases complete : body.length ≤ (text ++ chunk).length
        · have same := Nat.le_antisymm inside complete
          exact .inr (.inr ((whole same).trans same))
        · have opens := hold.2 complete (by omega)
          rw [ScannedBodyWriter.opensRequest, gather, take_take,
            Nat.min_eq_right (by omega : size ≤ reqHeaderLen), bne_iff_ne, not_not] at opens
          exact .inr (.inl opens)

end

/-- The outcome of a run that has received `text`, or has found a request in it. -/
structure Outcome (body text : Octets)
    (result : Except BodyWriteError Unit × ScannedBodyWriter × List Octets) : Prop where
  guarded : Guarded body result.2.2
  fails : result.1 = .error .embeddedBegin ↔ Occurs IsFrame text
  total : result.1 = .ok () ∨ result.1 = .error .embeddedBegin
  complete : text = body → result.1 = .ok () → result.2.2.flatten = body

theorem Passed.pushes (passed : Passed body text writer writes) {chunks : List Octets}
    (some : ∀ chunk ∈ chunks, chunk ≠ []) (within : text ++ chunks.flatten <+: body) :
    Outcome body (text ++ chunks.flatten) (writer.pushes recorder writes chunks) := by
  induction chunks generalizing text writer writes with
  | nil =>
    rw [flatten_nil, append_nil] at within ⊢
    rw [ScannedBodyWriter.pushes]
    refine ⟨passed.guarded within, ?_, .inl rfl, fun whole _ => ?_⟩
    · exact ⟨nofun, fun frame => absurd frame passed.clean⟩
    · have empty := passed.whole (by rw [whole])
      rw [← whole, ← passed.kept, empty, append_nil]
  | cons chunk _ ih =>
    rw [flatten_cons, ← append_assoc] at within ⊢
    have here : text ++ chunk <+: body := (prefix_append ..).trans within
    rw [ScannedBodyWriter.pushes]
    by_cases frame : Occurs IsFrame (text ++ chunk)
    · rw [ScannedBodyWriter.push]
      rw [if_pos ((scan_found passed.carry passed.clean chunk).mpr frame)]
      refine ⟨passed.guarded ((prefix_append ..).trans here), ?_, .inr rfl, fun _ ok => nomatch ok⟩
      exact ⟨fun _ => frame.append isFrame_windowed _, fun _ => rfl⟩
    · obtain ⟨_, _, pushed, passed'⟩ := passed.push (some chunk (mem_cons_self ..)) here frame
      rw [pushed]
      exact ih passed' (fun other member => some other (mem_cons_of_mem _ member)) within

end run

/-- A body that is pushed in chunks, at any point of it. -/
theorem pushes_outcome (chunks rest : List Octets) (some : ∀ chunk ∈ chunks ++ rest, chunk ≠ []) :
    Outcome (chunks ++ rest).flatten chunks.flatten
      ((ScannedBodyWriter.new (chunks ++ rest).flatten.length).pushes recorder [] chunks) := by
  have start := passed_new (chunks ++ rest).flatten
  refine start.pushes (fun chunk member => some chunk (mem_append_left _ member)) ?_
  rw [nil_append, flatten_append]
  exact prefix_append ..

/-- A begin request cut across three chunks, after fifty octets of the body and before its
last: what is written ends before the request. -/
theorem cut_request_outcome :
    let chunks := [replicate 50 97 ++ [76, 83], [1, 0, 9, 0], [0, 0, 0, 98]]
    let result := (ScannedBodyWriter.new 61).pushes recorder [] chunks
    Outcome (chunks ++ [[99]]).flatten chunks.flatten result ∧
      result.1 = .error .embeddedBegin ∧ result.2.2.flatten = replicate 17 97 :=
  ⟨pushes_outcome [replicate 50 97 ++ [76, 83], [1, 0, 9, 0], [0, 0, 0, 98]] [[99]] (by decide),
    by decide +kernel, by decide +kernel⟩

end HttpJet.Lsapi
