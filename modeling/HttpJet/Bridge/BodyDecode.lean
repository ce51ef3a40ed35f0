import HttpJet.H2.Message
import HttpJet.Library.Runs

/-!
# Decoding request bodies

A body that is small in its coding is first decoded on the spot, up to a limit.  The decoder is its
sequence of reads; budget and allocator answer both attempts alike.
-/

namespace HttpJet.Bridge

open Library H2 Hpack.Integer Hpack.StaticTable

inductive ContentCoding where
  | gzip
  | brotli
  | zstd
  deriving DecidableEq

def ContentCoding.workspaceCharge : ContentCoding → Nat
  | .gzip => 0
  | .brotli | .zstd => 17 * 1024 * 1024

def usizeMax : Nat := 2 ^ 64 - 1
def expansionFloor : Nat := 2 ^ 20
def maxExpansionRatio : Nat := 64
def inlineMaxEncoded : Nat := 16 * 1024
def inlineMaxDecoded : Nat := 256 * 1024
def maxDecode : Nat := 16 * 1024 * 1024

/-- A body, and what the numbered calls of an attempt to decode it are answered. -/
structure Entity where
  coding : ContentCoding
  encoded : Octets
  maxBody : Nat
  /-- The decoder of `zstd` can be set up. -/
  opens : Bool
  reads : Nat → Option Octets
  /-- The budget's answer to a reservation. -/
  reserve : Nat → Nat → Bool
  allocate : Nat → Bool

inductive DecodeResult where
  | complete
  | malformedOrCodecCap
  | tooLarge
  | noCapacity
  | inlineLimit

/-- The variables of `decode_reader`; `held` is what the lease of the decoded octets holds. -/
structure Decoding where
  count : Nat := 0
  decoded : Octets := []
  held : Nat := 0

inductive DecodeOutcome where
  /-- The octets, and what their lease holds. -/
  | decoded (octets : Octets) (held : Nat)
  | undecoded
  | refused (status : Nat)
  | deferred

/-- How `offload_decode` runs: here or on the blocking pool, unless that fails. -/
inductive Offload where
  | noRuntime
  | slotsClosed
  | ran
  | taskFailed

namespace Entity

variable (e : Entity)

def expansion : Nat := max (min (e.encoded.length * maxExpansionRatio) usizeMax) expansionFloor

/-- The size that a read brings the decoded octets to. -/
def size (octets chunk : Octets) : Nat := min (octets.length + chunk.length) usizeMax

/-- A turn of `decode_reader`. -/
def turn (inline : Nat) (s : Decoding) : Turn Decoding (DecodeResult × Decoding) :=
  match e.reads s.count with
  | none => .stop (.malformedOrCodecCap, s)
  | some chunk =>
    let size := size s.decoded chunk
    if chunk = [] then .stop (.complete, s)
    else if e.maxBody < size then .stop (.tooLarge, s)
    else if maxDecode ≤ size ∨ e.expansion < size then .stop (.malformedOrCodecCap, s)
    else if inline < size then .stop (.inlineLimit, s)
    else if e.reserve (s.count + 1) chunk.length = false then .stop (.noCapacity, s)
    else
      let held := s.held + chunk.length
      if e.allocate s.count = false then .stop (.noCapacity, { s with held := held })
      else .again ⟨s.count + 1, s.decoded ++ chunk, held⟩

/-- Every turn that goes on adds to fewer than `maxDecode` octets. -/
def decodeReader (inline : Nat) : DecodeResult × Decoding :=
  (Loop.run (e.turn inline) (maxDecode + 1) {}).getD (.inlineLimit, {})

def decodeEntity (inline : Nat) : DecodeOutcome :=
  if e.reserve 0 e.coding.workspaceCharge = false then .refused 503
  else if e.coding = .zstd ∧ e.opens = false then .undecoded
  else
    match e.decodeReader inline with
    | (.complete, s) => .decoded s.decoded s.held
    | (.malformedOrCodecCap, _) => .undecoded
    | (.tooLarge, _) => .refused 413
    | (.noCapacity, _) => .refused 503
    | (.inlineLimit, _) => .deferred

def offloadDecode : Offload → DecodeOutcome
  | .noRuntime | .ran => e.decodeEntity usizeMax
  | .slotsClosed | .taskFailed => .refused 503

/-- The headers and the body an outcome leaves. -/
def forward (headers : Headers) : DecodeOutcome → Headers × Except Nat Octets
  | .decoded octets _ =>
    ((headers.insert (ascii "content-length") (ascii (toString octets.length))).remove
      (ascii "content-encoding"), .ok octets)
  | .undecoded | .deferred => (headers, .ok e.encoded)
  | .refused status => (headers, .error status)

def decodeBody (way : Offload) (headers : Headers) : Headers × Except Nat Octets :=
  let inline :=
    if e.encoded.length ≤ inlineMaxEncoded then e.decodeEntity inlineMaxDecoded else .deferred
  e.forward headers <|
    match inline with
    | .deferred => e.offloadDecode way
    | done => done

/-- The first `n` reads give these octets, each within the limits, paid for and stored. -/
inductive Yields : Nat → Octets → Prop where
  | zero : Yields 0 []
  | next {n : Nat} {octets chunk : Octets} (before : Yields n octets)
      (read : e.reads n = some chunk) (more : chunk ≠ [])
      (maxBody : octets.length + chunk.length ≤ e.maxBody)
      (maxDecode : octets.length + chunk.length < maxDecode)
      (expansion : octets.length + chunk.length ≤ e.expansion)
      (reserved : e.reserve (n + 1) chunk.length = true) (allocated : e.allocate n = true) :
      Yields (n + 1) (octets ++ chunk)

/-- The workspace is paid for and the decoder set up. -/
def Ready : Prop :=
  e.reserve 0 e.coding.workspaceCharge = true ∧ ¬(e.coding = .zstd ∧ e.opens = false)

/-- What the reads and the answers to them decide: the decoded octets, the encoded ones (`none`) or
an error. -/
inductive Decides : Except Nat (Option Octets) → Prop where
  | noWorkspace (refused : e.reserve 0 e.coding.workspaceCharge = false) : Decides (.error 503)
  | unopened (reserved : e.reserve 0 e.coding.workspaceCharge = true)
      (zstd : e.coding = .zstd) (closed : e.opens = false) : Decides (.ok none)
  | complete {n : Nat} {octets : Octets} (ready : e.Ready) (yields : e.Yields n octets)
      (ended : e.reads n = some []) : Decides (.ok (some octets))
  | malformed {n : Nat} {octets : Octets} (ready : e.Ready) (yields : e.Yields n octets)
      (broken : e.reads n = none) : Decides (.ok none)
  | tooLarge {n : Nat} {octets chunk : Octets} (ready : e.Ready) (yields : e.Yields n octets)
      (read : e.reads n = some chunk) (more : chunk ≠ [])
      (large : e.maxBody < size octets chunk) : Decides (.error 413)
  | capped {n : Nat} {octets chunk : Octets} (ready : e.Ready) (yields : e.Yields n octets)
      (read : e.reads n = some chunk) (more : chunk ≠ []) (fits : size octets chunk ≤ e.maxBody)
      (capped : maxDecode ≤ size octets chunk ∨ e.expansion < size octets chunk) :
      Decides (.ok none)
  | noCapacity {n : Nat} {octets chunk : Octets} (ready : e.Ready) (yields : e.Yields n octets)
      (read : e.reads n = some chunk) (more : chunk ≠ []) (fits : size octets chunk ≤ e.maxBody)
      (within : size octets chunk < maxDecode ∧ size octets chunk ≤ e.expansion)
      (refused : e.reserve (n + 1) chunk.length = false ∨ e.allocate n = false) :
      Decides (.error 503)

/-- The headers and the body that are forwarded by what was decided. -/
def decided (headers : Headers) : Except Nat (Option Octets) → Headers × Except Nat Octets
  | .ok (some octets) =>
    ((headers.insert (ascii "content-length") (ascii (toString octets.length))).remove
      (ascii "content-encoding"), .ok octets)
  | .ok none => (headers, .ok e.encoded)
  | .error status => (headers, .error status)

/-- What is decoded is what was read, within the limits and paid for. -/
structure Sound (s : Decoding) : Prop where
  yields : e.Yields s.count s.decoded
  held : s.decoded.length ≤ s.held
  maxBody : s.decoded.length ≤ e.maxBody
  maxDecode : s.decoded.length < maxDecode
  expansion : s.decoded.length ≤ e.expansion

variable {e} {inline : Nat} {s next : Decoding}

theorem turn_again (taken : e.turn inline s = .again next) :
    s.decoded.length < next.decoded.length ∧ next.decoded.length < maxDecode ∧
      (e.Sound s → e.Sound next) := by
  rw [turn] at taken
  cases read : e.reads s.count with
  | none => simp [read] at taken
  | some chunk =>
    simp only [read] at taken
    split_ifs at taken with done large capped _ reserved allocated
    obtain rfl := Turn.again.inj taken
    have more := List.length_pos_of_ne_nil done
    simp only [size, usizeMax, maxDecode, List.length_append] at large capped ⊢
    refine ⟨by omega, by omega, fun sound =>
      ⟨.next sound.yields read done (by omega) (by simp only [maxDecode]; omega) (by omega)
        (Bool.not_eq_false _ ▸ reserved) (Bool.not_eq_false _ ▸ allocated), ?_, ?_, ?_, ?_⟩⟩
    · simpa using sound.held
    all_goals simp only [List.length_append, maxDecode]; omega

theorem turn_complete {last : Decoding} (ended : e.turn inline s = .stop (.complete, last)) :
    last = s ∧ e.reads s.count = some [] := by
  rw [turn] at ended
  cases read : e.reads s.count with
  | none => simp [read] at ended
  | some chunk =>
    simp only [read] at ended
    split_ifs at ended <;> simp_all

theorem passes_sound (passes : Loop.Passes (e.turn inline) {} s) : e.Sound s :=
  passes.invariant (fun _ _ taken => (turn_again taken).2.2)
    ⟨.zero, le_rfl, Nat.zero_le _, by decide, Nat.zero_le _⟩

variable (e inline)

theorem decodeReader_run :
    Loop.run (e.turn inline) (maxDecode + 1) {} = some (e.decodeReader inline) := by
  have decreases (s next : Decoding) (taken : e.turn inline s = .again next) :
      maxDecode - next.decoded.length < maxDecode - s.decoded.length := by
    have grows := turn_again taken
    omega
  obtain ⟨result, found⟩ := Option.isSome_iff_exists.mp
    (Loop.run_isSome decreases (Nat.lt_succ_of_le (Nat.sub_le ..)))
  rw [decodeReader, found, Option.getD_some]

/-- The limit is the only difference an attempt on the spot makes. -/
theorem decodeReader_inline :
    e.decodeReader inline = e.decodeReader usizeMax ∨ ∃ s,
      e.decodeReader inline = (.inlineLimit, s) := by
  have agrees (s : Decoding) : e.turn inline s = e.turn usizeMax s ∨
      ∃ result, e.turn inline s = .stop result ∧ ∃ s, result = (.inlineLimit, s) := by
    rw [turn, turn]
    cases e.reads s.count with
    | none => exact .inl rfl
    | some chunk =>
      -- A size is at most `usizeMax`.
      have unlimited : ¬usizeMax < size s.decoded chunk := Nat.not_lt.mpr (Nat.min_le_right ..)
      simp only [unlimited, if_false]
      split_ifs <;> simp
  simpa [decodeReader_run] using Loop.run_agrees agrees (maxDecode + 1) {}

theorem decodeEntity_inline :
    e.decodeEntity inline = .deferred ∨ e.decodeEntity inline = e.decodeEntity usizeMax := by
  unfold decodeEntity
  split_ifs
  · exact .inr rfl
  · exact .inr rfl
  · cases e.decodeReader_inline inline with
    | inl same => exact .inr (by rw [same])
    | inr limited =>
      obtain ⟨s, limited⟩ := limited
      exact .inl (by rw [limited])

variable {e inline}

theorem decodeEntity_decoded {octets : Octets} {held : Nat}
    (decoded : e.decodeEntity inline = .decoded octets held) :
    ∃ s, e.Sound s ∧ e.reads s.count = some [] ∧ s.decoded = octets ∧ s.held = held := by
  unfold decodeEntity at decoded
  split_ifs at decoded
  obtain ⟨last, passes, stops⟩ := Loop.ends_of_run (e.decodeReader_run inline)
  split at decoded <;> cases decoded
  case _ s read =>
    obtain ⟨rfl, finished⟩ := turn_complete (read ▸ stops)
    exact ⟨_, passes_sound passes, finished, rfl, rfl⟩

/-- Reads that are granted are the turns of the full decode. -/
theorem Yields.passes {n : Nat} {octets : Octets} (yields : e.Yields n octets) :
    Loop.Passes (e.turn usizeMax) {} ⟨n, octets, octets.length⟩ := by
  induction yields with
  | zero => exact .refl _
  | @next n octets chunk _ read more fits small within reserved allocated ih =>
    refine ih.trans (.single ?_)
    have exact : size octets chunk = octets.length + chunk.length := by
      simp only [maxDecode] at small
      simp only [size, usizeMax]
      omega
    have limits : ¬e.maxBody < size octets chunk ∧
        ¬(maxDecode ≤ size octets chunk ∨ e.expansion < size octets chunk) ∧
        ¬usizeMax < size octets chunk := by
      rw [exact] at *
      simp only [maxDecode, usizeMax] at *
      omega
    simp [turn, read, more, limits, reserved, allocated]

theorem decodeReader_stop {n : Nat} {octets : Octets} {result : DecodeResult × Decoding}
    (yields : e.Yields n octets)
    (stops : e.turn usizeMax ⟨n, octets, octets.length⟩ = .stop result) :
    e.decodeReader usizeMax = result :=
  (Loop.ends_of_run (e.decodeReader_run usizeMax)).unique ⟨_, yields.passes, stops⟩

theorem Ready.decodeEntity (ready : e.Ready) : e.decodeEntity inline =
    match e.decodeReader inline with
    | (.complete, s) => .decoded s.decoded s.held
    | (.malformedOrCodecCap, _) => .undecoded
    | (.tooLarge, _) => .refused 413
    | (.noCapacity, _) => .refused 503
    | (.inlineLimit, _) => .deferred := by
  rw [Entity.decodeEntity, if_neg (by simp [ready.1]), if_neg ready.2]

/-- A full decode is forwarded as the reads decide. -/
theorem Decides.forward {verdict : Except Nat (Option Octets)} (decides : e.Decides verdict)
    (headers : Headers) :
    e.forward headers (e.decodeEntity usizeMax) = e.decided headers verdict := by
  cases decides with
  | noWorkspace refused =>
    rw [decodeEntity, if_pos refused]
    rfl
  | unopened reserved zstd closed =>
    rw [decodeEntity, if_neg (by simp [reserved]), if_pos ⟨zstd, closed⟩]
    rfl
  | complete ready yields ended =>
    rw [ready.decodeEntity, decodeReader_stop yields (by rw [turn, ended]; rfl)]
    rfl
  | malformed ready yields broken =>
    rw [ready.decodeEntity, decodeReader_stop yields (by rw [turn, broken])]
    rfl
  | tooLarge ready yields read more large =>
    rw [ready.decodeEntity, decodeReader_stop yields (by simp only [turn, read, more, large]; rfl)]
    rfl
  | capped ready yields read more fits capped =>
    rw [ready.decodeEntity, decodeReader_stop yields
      (by simp only [turn, read, more, Nat.not_lt.mpr fits, capped]; rfl)]
    rfl
  | @noCapacity n octets chunk ready yields read more fits within refused =>
    have capped : ¬(maxDecode ≤ size octets chunk ∨ e.expansion < size octets chunk) := by omega
    have unlimited : ¬usizeMax < size octets chunk := Nat.not_lt.mpr (Nat.min_le_right ..)
    cases reserved : e.reserve (n + 1) chunk.length with
    | false =>
      rw [ready.decodeEntity, decodeReader_stop yields (by
        simp only [turn, read, more, Nat.not_lt.mpr fits, capped, unlimited, reserved]; rfl)]
      rfl
    | true =>
      have allocated := refused.resolve_left (by simp [reserved])
      rw [ready.decodeEntity, decodeReader_stop yields (by
        simp only [turn, read, more, Nat.not_lt.mpr fits, capped, unlimited, reserved,
          allocated]; rfl)]
      rfl

/-- The reads always decide. -/
theorem exists_decides (e : Entity) : ∃ verdict, e.Decides verdict := by
  cases reserved : e.reserve 0 e.coding.workspaceCharge with
  | false => exact ⟨_, .noWorkspace reserved⟩
  | true =>
    by_cases closed : e.coding = .zstd ∧ e.opens = false
    · exact ⟨_, .unopened reserved closed.1 closed.2⟩
    have ready : e.Ready := ⟨reserved, closed⟩
    obtain ⟨⟨n, octets, held⟩, passes, stops⟩ := Loop.ends_of_run (e.decodeReader_run usizeMax)
    have yields := (passes_sound passes).yields
    rw [turn] at stops
    cases read : e.reads n with
    | none => exact ⟨_, .malformed ready yields read⟩
    | some chunk =>
      simp only [read] at stops
      have unlimited : ¬usizeMax < size octets chunk := Nat.not_lt.mpr (Nat.min_le_right ..)
      split_ifs at stops with done large capped refused failed
      · exact ⟨_, .complete ready yields (done ▸ read)⟩
      · exact ⟨_, .tooLarge ready yields read done large⟩
      · exact ⟨_, .capped ready yields read done (Nat.not_lt.mp large) capped⟩
      all_goals
        rw [not_or, Nat.not_le, Nat.not_lt] at capped
      · exact ⟨_, .noCapacity ready yields read done (Nat.not_lt.mp large) capped (.inl refused)⟩
      · exact ⟨_, .noCapacity ready yields read done (Nat.not_lt.mp large) capped (.inr failed)⟩

theorem decodeBody_eq (e : Entity) (way : Offload) (headers : Headers) :
    e.decodeBody way headers = e.forward headers (e.decodeEntity usizeMax) ∨
      (way = .slotsClosed ∨ way = .taskFailed) ∧
        e.decodeBody way headers = (headers, .error 503) := by
  have offloaded : e.offloadDecode way = e.decodeEntity usizeMax ∨
      (way = .slotsClosed ∨ way = .taskFailed) ∧ e.offloadDecode way = .refused 503 := by
    cases way <;> simp [offloadDecode]
  simp only [decodeBody]
  split
  · obtain same | ⟨failed, same⟩ := offloaded
    · exact .inl (by rw [same])
    · exact .inr ⟨failed, by rw [same]; rfl⟩
  case _ ready =>
    split_ifs at ready ⊢
    · cases e.decodeEntity_inline inlineMaxDecoded with
      | inl deferred => exact (ready deferred).elim
      | inr same => exact .inl (by rw [same])
    · exact (ready rfl).elim

/-- Decoding is all or nothing, as the reads decide; the attempt on the spot does not show, and all
that is held is paid for. -/
theorem decodeBody_allOrNothing (e : Entity) (way : Offload) (headers : Headers) :
    let result := e.decodeBody way headers
    (result = e.forward headers (e.decodeEntity usizeMax) ∨
      (way = .slotsClosed ∨ way = .taskFailed) ∧ result = (headers, .error 503)) ∧
    (∃ verdict, e.Decides verdict) ∧
    (∀ verdict, e.Decides verdict → result = e.decided headers verdict ∨
      (way = .slotsClosed ∨ way = .taskFailed) ∧ result = (headers, .error 503)) ∧
    ((∃ n octets, e.Yields n octets ∧ e.reads n = some [] ∧
        octets.length ≤ e.maxBody ∧ octets.length < maxDecode ∧
        octets.length ≤ max (2 ^ 20) (64 * e.encoded.length) ∧
        result = ((headers.insert (ascii "content-length") (ascii (toString octets.length))).remove
          (ascii "content-encoding"), .ok octets)) ∨
      result = (headers, .ok e.encoded) ∨ ∃ status, result = (headers, .error status)) ∧
    ∀ inline, (∀ s, Loop.Passes (e.turn inline) {} s → s.decoded.length ≤ s.held) ∧
      ∀ octets held, e.decodeEntity inline = .decoded octets held → octets.length ≤ held := by
  have full := e.decodeBody_eq way headers
  refine ⟨full, e.exists_decides, fun verdict decides => decides.forward headers ▸ full, ?_,
    fun inline =>
    ⟨fun s passes => (passes_sound passes).held, ?_⟩⟩
  · obtain same | ⟨-, failed⟩ := full
    · rw [same]
      cases outcome : e.decodeEntity usizeMax with
      | decoded octets held =>
        obtain ⟨s, sound, finished, rfl, -⟩ := decodeEntity_decoded outcome
        refine .inl ⟨_, _, sound.yields, finished, sound.maxBody, sound.maxDecode, ?_, rfl⟩
        have expansion := sound.expansion
        simp only [Entity.expansion, maxExpansionRatio, expansionFloor] at expansion
        omega
      | refused status => exact .inr (.inr ⟨status, rfl⟩)
      | _ => exact .inr (.inl rfl)
    · exact .inr (.inr ⟨503, failed⟩)
  · intro octets held decoded
    obtain ⟨s, sound, -, rfl, rfl⟩ := decodeEntity_decoded decoded
    exact sound.held

end Entity

end HttpJet.Bridge
