import HttpJet.Library.BitString
import HttpJet.Library.PrefixCode

/-!
# The HPACK Huffman code and its encoder

The static code of RFC 7541 Appendix B, the word-at-a-time encoder `fill`, and the octet-at-a-time
encoder it falls back to.  Of the 64-bit accumulators only the low `nbits` bits are significant.
-/

namespace HttpJet.Hpack.Huffman

open Library.BitString Library.PrefixCode List Option Bool

/-- `(code, bit length)` for the symbols `0..=255`, then EOS at 256. -/
def table : List (Nat × Nat) := [
    (0x1ff8, 13), (0x7fffd8, 23), (0xfffffe2, 28), (0xfffffe3, 28), (0xfffffe4, 28),
    (0xfffffe5, 28), (0xfffffe6, 28), (0xfffffe7, 28), (0xfffffe8, 28), (0xffffea, 24),
    (0x3ffffffc, 30), (0xfffffe9, 28), (0xfffffea, 28), (0x3ffffffd, 30), (0xfffffeb, 28),
    (0xfffffec, 28), (0xfffffed, 28), (0xfffffee, 28), (0xfffffef, 28), (0xffffff0, 28),
    (0xffffff1, 28), (0xffffff2, 28), (0x3ffffffe, 30), (0xffffff3, 28), (0xffffff4, 28),
    (0xffffff5, 28), (0xffffff6, 28), (0xffffff7, 28), (0xffffff8, 28), (0xffffff9, 28),
    (0xffffffa, 28), (0xffffffb, 28), (0x14, 6), (0x3f8, 10), (0x3f9, 10), (0xffa, 12),
    (0x1ff9, 13), (0x15, 6), (0xf8, 8), (0x7fa, 11), (0x3fa, 10), (0x3fb, 10), (0xf9, 8),
    (0x7fb, 11), (0xfa, 8), (0x16, 6), (0x17, 6), (0x18, 6), (0x0, 5), (0x1, 5), (0x2, 5),
    (0x19, 6), (0x1a, 6), (0x1b, 6), (0x1c, 6), (0x1d, 6), (0x1e, 6), (0x1f, 6), (0x5c, 7),
    (0xfb, 8), (0x7ffc, 15), (0x20, 6), (0xffb, 12), (0x3fc, 10), (0x1ffa, 13), (0x21, 6),
    (0x5d, 7), (0x5e, 7), (0x5f, 7), (0x60, 7), (0x61, 7), (0x62, 7), (0x63, 7), (0x64, 7),
    (0x65, 7), (0x66, 7), (0x67, 7), (0x68, 7), (0x69, 7), (0x6a, 7), (0x6b, 7), (0x6c, 7),
    (0x6d, 7), (0x6e, 7), (0x6f, 7), (0x70, 7), (0x71, 7), (0x72, 7), (0xfc, 8), (0x73, 7),
    (0xfd, 8), (0x1ffb, 13), (0x7fff0, 19), (0x1ffc, 13), (0x3ffc, 14), (0x22, 6), (0x7ffd, 15),
    (0x3, 5), (0x23, 6), (0x4, 5), (0x24, 6), (0x5, 5), (0x25, 6), (0x26, 6), (0x27, 6),
    (0x6, 5), (0x74, 7), (0x75, 7), (0x28, 6), (0x29, 6), (0x2a, 6), (0x7, 5), (0x2b, 6),
    (0x76, 7), (0x2c, 6), (0x8, 5), (0x9, 5), (0x2d, 6), (0x77, 7), (0x78, 7), (0x79, 7),
    (0x7a, 7), (0x7b, 7), (0x7ffe, 15), (0x7fc, 11), (0x3ffd, 14), (0x1ffd, 13),
    (0xffffffc, 28), (0xfffe6, 20), (0x3fffd2, 22), (0xfffe7, 20), (0xfffe8, 20),
    (0x3fffd3, 22), (0x3fffd4, 22), (0x3fffd5, 22), (0x7fffd9, 23), (0x3fffd6, 22),
    (0x7fffda, 23), (0x7fffdb, 23), (0x7fffdc, 23), (0x7fffdd, 23), (0x7fffde, 23),
    (0xffffeb, 24), (0x7fffdf, 23), (0xffffec, 24), (0xffffed, 24), (0x3fffd7, 22),
    (0x7fffe0, 23), (0xffffee, 24), (0x7fffe1, 23), (0x7fffe2, 23), (0x7fffe3, 23),
    (0x7fffe4, 23), (0x1fffdc, 21), (0x3fffd8, 22), (0x7fffe5, 23), (0x3fffd9, 22),
    (0x7fffe6, 23), (0x7fffe7, 23), (0xffffef, 24), (0x3fffda, 22), (0x1fffdd, 21),
    (0xfffe9, 20), (0x3fffdb, 22), (0x3fffdc, 22), (0x7fffe8, 23), (0x7fffe9, 23),
    (0x1fffde, 21), (0x7fffea, 23), (0x3fffdd, 22), (0x3fffde, 22), (0xfffff0, 24),
    (0x1fffdf, 21), (0x3fffdf, 22), (0x7fffeb, 23), (0x7fffec, 23), (0x1fffe0, 21),
    (0x1fffe1, 21), (0x3fffe0, 22), (0x1fffe2, 21), (0x7fffed, 23), (0x3fffe1, 22),
    (0x7fffee, 23), (0x7fffef, 23), (0xfffea, 20), (0x3fffe2, 22), (0x3fffe3, 22),
    (0x3fffe4, 22), (0x7ffff0, 23), (0x3fffe5, 22), (0x3fffe6, 22), (0x7ffff1, 23),
    (0x3ffffe0, 26), (0x3ffffe1, 26), (0xfffeb, 20), (0x7fff1, 19), (0x3fffe7, 22),
    (0x7ffff2, 23), (0x3fffe8, 22), (0x1ffffec, 25), (0x3ffffe2, 26), (0x3ffffe3, 26),
    (0x3ffffe4, 26), (0x7ffffde, 27), (0x7ffffdf, 27), (0x3ffffe5, 26), (0xfffff1, 24),
    (0x1ffffed, 25), (0x7fff2, 19), (0x1fffe3, 21), (0x3ffffe6, 26), (0x7ffffe0, 27),
    (0x7ffffe1, 27), (0x3ffffe7, 26), (0x7ffffe2, 27), (0xfffff2, 24), (0x1fffe4, 21),
    (0x1fffe5, 21), (0x3ffffe8, 26), (0x3ffffe9, 26), (0xffffffd, 28), (0x7ffffe3, 27),
    (0x7ffffe4, 27), (0x7ffffe5, 27), (0xfffec, 20), (0xfffff3, 24), (0xfffed, 20),
    (0x1fffe6, 21), (0x3fffe9, 22), (0x1fffe7, 21), (0x1fffe8, 21), (0x7ffff3, 23),
    (0x3fffea, 22), (0x3fffeb, 22), (0x1ffffee, 25), (0x1ffffef, 25), (0xfffff4, 24),
    (0xfffff5, 24), (0x3ffffea, 26), (0x7ffff4, 23), (0x3ffffeb, 26), (0x7ffffe6, 27),
    (0x3ffffec, 26), (0x3ffffed, 26), (0x7ffffe7, 27), (0x7ffffe8, 27), (0x7ffffe9, 27),
    (0x7ffffea, 27), (0x7ffffeb, 27), (0xffffffe, 28), (0x7ffffec, 27), (0x7ffffed, 27),
    (0x7ffffee, 27), (0x7ffffef, 27), (0x7fffff0, 27), (0x3ffffee, 26), (0x3fffffff, 30)]

/-- The symbol of EOS, which is never emitted. -/
def eos : Nat := 256

/-- The codeword of a table entry. -/
def wordOf (entry : Nat × Nat) : List Bool := bitsOf entry.2 entry.1

/-- The codewords in symbol order. -/
def words : List (List Bool) := table.map wordOf

/-- What every entry of the table satisfies on its own. -/
def EntryOk (entry : Nat × Nat) : Prop :=
  5 ≤ entry.2 ∧ entry.2 ≤ 30 ∧ entry.1 < 2 ^ entry.2

instance (entry : Nat × Nat) : Decidable (EntryOk entry) :=
  inferInstanceAs (Decidable (_ ∧ _ ∧ _))

theorem table_length : table.length = 257 := by decide +kernel

theorem table_ok : ∀ entry ∈ table, EntryOk entry := by decide +kernel

theorem words_prefixFree : PrefixFree words :=
  prefixFree_of_separated 30 words (by decide +kernel)

theorem words_getElem? (symbol : Nat) : words[symbol]? = (table[symbol]?).map wordOf := by
  rw [words, getElem?_map]

theorem word_length_bounds {word : List Bool} (member : word ∈ words) :
    5 ≤ word.length ∧ word.length ≤ 30 := by
  obtain ⟨entry, inTable, rfl⟩ := mem_map.mp member
  obtain ⟨low, high, _⟩ := table_ok entry inTable
  exact ⟨by simpa [wordOf] using low, by simpa [wordOf] using high⟩

theorem word_ne_nil {word : List Bool} (member : word ∈ words) : word ≠ [] := by
  intro empty
  have bounds := word_length_bounds member
  simp [empty] at bounds

/-- EOS is a run of thirty ones. -/
theorem eos_word : words[eos]? = some (replicate 30 true) := by decide +kernel

/-- No codeword stands in front of at most seven padding ones. -/
theorem no_word_in_padding {count : Nat} (few : count ≤ 7) :
    ∀ word ∈ words, ¬ word <+: replicate count true := by
  intro word member below
  obtain ⟨_, here⟩ := mem_iff_getElem?.mp member
  have inEos : word <+: replicate 30 true :=
    below.trans (by
      rw [show 30 = count + (30 - count) by omega, replicate_add]
      exact prefix_append ..)
  have same := words_prefixFree.index_eq here eos_word inEos
  rw [same, eos_word, some.injEq] at here
  have lengths := below.length_le
  rw [← here] at lengths
  simp at lengths
  omega

/-! ## Encoding -/

/-- The code and bit length of octet `b`. -/
def codeOf (b : UInt8) : Nat × Nat := table.getD b.toNat (0, 0)

variable (data : List UInt8) (b : UInt8) (state : Filling)

theorem codeOf_getElem? : table[b.toNat]? = some (codeOf b) := by
  have small : b.toNat < table.length := by
    rw [table_length]
    exact Nat.lt_succ_of_lt b.toNat_lt
  simp [codeOf, getD_eq_getElem?_getD, getElem?_eq_getElem small]

theorem codeOf_ok : EntryOk (codeOf b) :=
  table_ok _ (mem_of_getElem? (codeOf_getElem? b))

/-- The bits of the code of every octet, in order. -/
def codeBits (data : List UInt8) : List Bool := data.flatMap fun b => wordOf (codeOf b)

theorem codeBits_cons (data : List UInt8) :
    codeBits (b :: data) = wordOf (codeOf b) ++ codeBits data := rfl

/-- Number of octets `data` occupies when Huffman-encoded. -/
def encodedLen (data : List UInt8) : Nat :=
  ((data.map fun b => (codeOf b).2).sum + 7) / 8

theorem length_codeBits : (codeBits data).length = (data.map fun b => (codeOf b).2).sum := by
  induction data with
  | nil => rfl
  | cons _ _ ih => simp [codeBits_cons, wordOf, ih]

/-- The encoder's registers: the octets still free in the destination, the
accumulator with its count of pending bits, and the octets written. -/
structure Filling where
  room : Nat
  acc : Nat
  nbits : Nat
  written : List UInt8
  deriving DecidableEq

/-- Write octets into the destination; `none` when they do not fit. -/
def Filling.put (state : Filling) (octets : List UInt8) : Option Filling :=
  if octets.length ≤ state.room then
    some { state with room := state.room - octets.length, written := state.written ++ octets }
  else none

/-- The four octets of a 32-bit word, big-endian. -/
def beOctets (word : Nat) : List UInt8 :=
  [UInt8.ofNat (word >>> 24), UInt8.ofNat (word >>> 16), UInt8.ofNat (word >>> 8), UInt8.ofNat word]

/-- Append one code to the accumulator and spill a word when 32 bits are pending. -/
def fillSymbol (state : Filling) (b : UInt8) : Option Filling :=
  let (code, len) := codeOf b
  let acc := (state.acc <<< len) % 2 ^ 64 ||| code
  let nbits := state.nbits + len
  if 32 ≤ nbits then
    { state with acc := acc, nbits := nbits - 32 }.put (beOctets ((acc >>> (nbits - 32)) % 2 ^ 32))
  else some { state with acc := acc, nbits := nbits }

/-- `while nbits >= 8`: spill whole octets.  The fuel is the pending bit count. -/
def fillOctets : Nat → Filling → Option Filling
  | 0, state => some state
  | fuel + 1, state =>
    if 8 ≤ state.nbits then
      ({ state with nbits := state.nbits - 8 }.put
        [UInt8.ofNat (state.acc >>> (state.nbits - 8))]).bind (fillOctets fuel)
    else some state

/-- The last octet, with the remaining bits padded by ones. -/
def padOctet (acc nbits : Nat) : UInt8 :=
  UInt8.ofNat ((acc <<< (8 - nbits)) % 2 ^ 64 ||| (2 ^ (8 - nbits) - 1))

/-- Encode `data` into exactly `room` octets; `none` when it does not fit exactly. -/
def fill (room : Nat) (data : List UInt8) : Option (List UInt8) := do
  let state ← data.foldlM fillSymbol ⟨room, 0, 0, []⟩
  let state ← fillOctets state.nbits state
  let state ← if 0 < state.nbits then state.put [padOctet state.acc state.nbits] else some state
  if state.room = 0 then some state.written else none

/-- Spill octets of the octet-at-a-time encoder. -/
def spillOctets : Nat → Nat → Nat → List UInt8 × Nat
  | 0, _, nbits => ([], nbits)
  | fuel + 1, acc, nbits =>
    if 8 ≤ nbits then
      let inner := spillOctets fuel acc (nbits - 8)
      (UInt8.ofNat (acc >>> (nbits - 8)) :: inner.1, inner.2)
    else ([], nbits)

/-- The octet-at-a-time fallback. -/
def encodeOctets (data : List UInt8) : List UInt8 :=
  let (out, acc, nbits) := data.foldl (fun (state : List UInt8 × Nat × Nat) b =>
    let (code, len) := codeOf b
    let acc := (state.2.1 <<< len) % 2 ^ 64 ||| code
    let spilled := spillOctets (state.2.2 + len) acc (state.2.2 + len)
    (state.1 ++ spilled.1, acc, spilled.2)) ([], 0, 0)
  if 0 < nbits then out ++ [padOctet acc nbits] else out

/-- What `encode_sized` appends when the caller computed `encodedLen`. -/
def encodeSized (data : List UInt8) (len : Nat) : List UInt8 :=
  (fill len data).getD (encodeOctets data)

/-- The Huffman encoding of `data`. -/
def encode (data : List UInt8) : List UInt8 := encodeSized data (encodedLen data)

/-! ## The encoder writes the code bits padded with ones -/

theorem octetsBits_beOctets (word : Nat) : octetsBits (beOctets word) = bitsOf 32 word := by
  simp only [beOctets, octetsBits_cons, octetsBits_nil, octetBits_ofNat, append_nil]
  rw [bitsOf_add 8 24 word, bitsOf_add 8 16 word, bitsOf_add 8 8 word]

/-- The bits a state stands for: those written, then those pending. -/
def Filling.bits (state : Filling) : List Bool :=
  octetsBits state.written ++ bitsOf state.nbits state.acc

/-- The destination size is the octets written plus those still free. -/
def Filling.capacity (state : Filling) : Nat := state.room + state.written.length

theorem Filling.put_of_fits {state : Filling} {octets : List UInt8}
    (fits : octets.length ≤ state.room) :
    state.put octets =
      some { state with room := state.room - octets.length, written := state.written ++ octets } :=
  if_pos fits

/-- Spilling the pending bits above `keep` moves them from the accumulator to the output. -/
theorem Filling.bits_spill (octets : List UInt8) (keep : Nat)
    (split : state.nbits = 8 * octets.length + keep)
    (spilled : octetsBits octets = bitsOf (8 * octets.length) (state.acc >>> keep)) (room : Nat) :
    (Filling.mk room state.acc keep (state.written ++ octets)).bits = state.bits := by
  rw [Filling.bits, Filling.bits, octetsBits_append, spilled, append_assoc, split, bitsOf_add]

theorem fillSymbol_spec (b : UInt8) (pending : state.nbits < 32)
    (fits : state.nbits + (codeOf b).2 ≤ 8 * state.room) :
    ∃ next, fillSymbol state b = some next ∧ next.nbits < 32 ∧
      next.bits = state.bits ++ wordOf (codeOf b) ∧ next.capacity = state.capacity := by
  obtain ⟨_, _, small⟩ := codeOf_ok b
  have pushed : bitsOf (state.nbits + (codeOf b).2)
      ((state.acc <<< (codeOf b).2) % 2 ^ 64 ||| (codeOf b).1) =
        bitsOf state.nbits state.acc ++ wordOf (codeOf b) :=
    bitsOf_push (by omega) _ _ small
  unfold fillSymbol
  simp only
  generalize (state.acc <<< (codeOf b).2) % 2 ^ 64 ||| (codeOf b).1 = acc at pushed ⊢
  split_ifs with spill
  · rw [Filling.put_of_fits (by simp [beOctets]; omega)]
    refine ⟨_, rfl, by simp only; omega, ?_, ?_⟩
    · have moved := Filling.bits_spill ⟨state.room, acc, state.nbits + (codeOf b).2, state.written⟩
        (beOctets ((acc >>> (state.nbits + (codeOf b).2 - 32)) % 2 ^ 32))
        (state.nbits + (codeOf b).2 - 32) (by simp [beOctets]; omega)
        (by rw [octetsBits_beOctets, bitsOf_mod (Nat.le_refl 32)]; rfl)
      rw [moved, Filling.bits, pushed, Filling.bits, append_assoc]
    · simp [Filling.capacity, beOctets]; omega
  · refine ⟨_, rfl, Nat.not_le.mp spill, ?_, rfl⟩
    rw [Filling.bits, pushed, Filling.bits, append_assoc]

theorem fillSymbols_spec (pending : state.nbits < 32)
    (fits : state.nbits + (codeBits data).length ≤ 8 * state.room) :
    ∃ next, data.foldlM fillSymbol state = some next ∧ next.nbits < 32 ∧
      next.bits = state.bits ++ codeBits data ∧ next.capacity = state.capacity := by
  induction data generalizing state with
  | nil => exact ⟨state, rfl, pending, by simp [codeBits], rfl⟩
  | cons b _ ih =>
    rw [codeBits_cons, length_append, wordOf, length_bitsOf] at fits
    obtain ⟨mid, stepped, midPending, midBits, midCapacity⟩ :=
      fillSymbol_spec state b pending (by omega)
    have lengths := congrArg length midBits
    simp only [Filling.bits, length_append, length_octetsBits, length_bitsOf, wordOf,
      Filling.capacity] at lengths midCapacity
    obtain ⟨last, ran, lastPending, lastBits, lastCapacity⟩ := ih mid midPending (by omega)
    refine ⟨last, ?_, lastPending, ?_, ?_⟩
    · rw [foldlM_cons, stepped]
      exact ran
    · rw [lastBits, midBits, codeBits_cons, append_assoc]
    · rw [lastCapacity]
      exact midCapacity

theorem fillOctets_spec (fuel : Nat) (state : Filling) (enough : state.nbits < 8 * fuel + 8)
    (fits : state.nbits ≤ 8 * state.room) :
    ∃ next, fillOctets fuel state = some next ∧ next.nbits < 8 ∧ next.bits = state.bits ∧
      next.capacity = state.capacity := by
  induction fuel generalizing state with
  | zero => exact ⟨state, rfl, by omega, rfl, rfl⟩
  | succ _ ih =>
    by_cases more : 8 ≤ state.nbits
    · have one : octetsBits [UInt8.ofNat (state.acc >>> (state.nbits - 8))] =
          bitsOf 8 (state.acc >>> (state.nbits - 8)) := by
        simp [octetBits_ofNat]
      obtain ⟨last, ran, lastPending, lastBits, lastCapacity⟩ :=
        ih ⟨state.room - 1, state.acc, state.nbits - 8,
          state.written ++ [UInt8.ofNat (state.acc >>> (state.nbits - 8))]⟩
          (by simp only; omega) (by simp only; omega)
      refine ⟨last, ?_, lastPending, ?_, ?_⟩
      · rw [fillOctets, if_pos more, Filling.put_of_fits (by simp; omega)]
        exact ran
      · rw [lastBits]
        exact Filling.bits_spill _ [_] _ (by simp; omega) one _
      · rw [lastCapacity]
        simp [Filling.capacity]; omega
    · exact ⟨state, by rw [fillOctets, if_neg more], Nat.not_le.mp more, rfl, rfl⟩

theorem octetBits_padOctet {acc nbits : Nat} (few : nbits ≤ 8) :
    octetBits (padOctet acc nbits) = bitsOf nbits acc ++ replicate (8 - nbits) true := by
  have ones : 2 ^ (8 - nbits) - 1 < 2 ^ (8 - nbits) := Nat.sub_lt (Nat.two_pow_pos _) (by decide)
  have pushed := @bitsOf_push nbits (8 - nbits) 64 (by omega)
    acc (2 ^ (8 - nbits) - 1) ones
  rw [Nat.add_sub_cancel' few, bitsOf_ones] at pushed
  rw [padOctet, octetBits_ofNat, pushed]

theorem fill_encodedLen : ∃ out count, fill (encodedLen data) data = some out ∧ count ≤ 7 ∧
      octetsBits out = codeBits data ++ replicate count true := by
  have total := length_codeBits data
  have ceiling : (codeBits data).length ≤ 8 * encodedLen data ∧
      8 * encodedLen data ≤ (codeBits data).length + 7 := by
    rw [encodedLen, ← total]
    omega
  obtain ⟨coded, codedRun, _, codedBits, codedCapacity⟩ :=
    fillSymbols_spec data ⟨encodedLen data, 0, 0, []⟩ (Nat.zero_lt_succ 31) (by simp; omega)
  have codedLength := congrArg length codedBits
  simp only [Filling.bits, length_append, length_octetsBits, length_bitsOf,
    Filling.capacity, length_nil] at codedLength codedCapacity
  obtain ⟨spilled, spilledRun, _, spilledBits, spilledCapacity⟩ :=
    fillOctets_spec coded.nbits coded (by omega) (by omega)
  have bits : spilled.bits = codeBits data := by
    rw [spilledBits, codedBits]
    simp [Filling.bits]
  have spilledLength := congrArg length bits
  simp only [Filling.bits, length_append, length_octetsBits, length_bitsOf,
    Filling.capacity] at spilledLength spilledCapacity
  have run : fill (encodedLen data) data =
      (if 0 < spilled.nbits then spilled.put [padOctet spilled.acc spilled.nbits]
        else some spilled).bind
          (fun state => if state.room = 0 then some state.written else none) := by
    rw [fill, codedRun]
    simp only [bind_eq_bind, bind_some]
    rw [spilledRun, bind_some]
    split <;> rfl
  by_cases partialOctet : 0 < spilled.nbits
  · refine ⟨spilled.written ++ [padOctet spilled.acc spilled.nbits], 8 - spilled.nbits,
      ?_, by omega, ?_⟩
    · rw [run, if_pos partialOctet, Filling.put_of_fits (by simp; omega)]
      simp only [bind_some, length_singleton]
      rw [if_pos (by omega)]
    · rw [octetsBits_append, octetsBits_cons, octetsBits_nil, append_nil,
        octetBits_padOctet (by omega), ← append_assoc, ← bits, Filling.bits]
  · refine ⟨spilled.written, 0, ?_, by decide, ?_⟩
    · rw [run, if_neg partialOctet, bind_some, if_pos (by omega)]
    · rw [← bits, Filling.bits, Nat.eq_zero_of_not_pos partialOctet]
      simp

/-- Huffman encoding is the code bits padded with at most seven ones. -/
theorem octetsBits_encode :
    ∃ count ≤ 7, octetsBits (encode data) = codeBits data ++ replicate count true := by
  obtain ⟨_, count, ran, few, bits⟩ := fill_encodedLen data
  exact ⟨count, few, by rw [encode, encodeSized, ran]; exact bits⟩

theorem length_encode : (encode data).length = encodedLen data := by
  obtain ⟨_, _, bits⟩ := octetsBits_encode data
  have lengths := congrArg length bits
  rw [length_octetsBits, length_append, length_replicate, length_codeBits] at lengths
  rw [encodedLen]
  omega

/-- Reading the encoding bit by bit gives the octets back, with the padding left over. -/
theorem scan_encode : ∃ count ≤ 7, scan words [] (octetsBits (encode data)) =
      (data.map UInt8.toNat, replicate count true) := by
  obtain ⟨count, few, bits⟩ := octetsBits_encode data
  refine ⟨count, few, ?_⟩
  have asWords : codeBits data = (data.map UInt8.toNat).flatMap fun symbol =>
    words.getD symbol [] := by
    rw [codeBits, flatMap_map]
    apply flatMap_congr
    intro b _
    rw [getD_eq_getElem?_getD, words_getElem?, codeOf_getElem?]
    rfl
  have known : ∀ symbol ∈ data.map UInt8.toNat, symbol < words.length := by
    intro symbol member
    obtain ⟨b, _, rfl⟩ := mem_map.mp member
    rw [words, length_map, table_length]
    exact Nat.lt_succ_of_lt b.toNat_lt
  rw [bits, asWords, scan_flatMap words_prefixFree (fun _ => word_ne_nil) known,
    scan_of_no_word (no_word_in_padding few)]
  simp

end HttpJet.Hpack.Huffman
