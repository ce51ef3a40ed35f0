import HttpJet.Hpack.HuffmanCode
import HttpJet.Library.BinarySearch
import Mathlib.Tactic.IntervalCases

/-!
# Lookup tables of the Huffman decoder

`decodeTables` builds an 11-bit root table and 5-bit sub tables from the code; `longTable` groups
the codes of 17 to 30 bits by length.  A window of sixteen bits finds an entry exactly when some
code of at most sixteen bits begins it, and the binary search of a group finds exactly its codes.
-/

namespace HttpJet.Hpack.Huffman

open Library.BitString Library.PrefixCode Library.BinarySearch List

variable {w : Nat}

def rootBits : Nat := 11
def winBits : Nat := 16
def subBits : Nat := winBits - rootBits

/-- Root entry flag: the low bits index `sub` instead of naming a symbol. -/
def subTable : Nat := 0x8000

/-- One row of `table.iter().enumerate()`. -/
structure Symbol where
  code : Nat
  len : Nat
  sym : Nat
  deriving DecidableEq

def symbols : List Symbol := table.zipIdx.map fun row => ⟨row.1.1, row.1.2, row.2⟩

/-- A table entry: `code_len << 8 | symbol`. -/
def Symbol.entry (s : Symbol) : Nat := s.len <<< 8 ||| s.sym

def Symbol.word (s : Symbol) : List Bool := wordOf (s.code, s.len)

/-- The code of `s` is a prefix of the `width`-bit window `w`. -/
def Symbol.Hits (s : Symbol) (width w : Nat) : Prop :=
  s.len ≤ width ∧ w >>> (width - s.len) = s.code

instance (s : Symbol) (width w : Nat) : Decidable (s.Hits width w) :=
  inferInstanceAs (Decidable (_ ∧ _))

variable {s : Symbol}

theorem mem_symbols : s ∈ symbols ↔ table[s.sym]? = some (s.code, s.len) := by
  rw [symbols, mem_map]
  constructor
  · rintro ⟨_, member, rfl⟩
    exact mem_zipIdx_iff_getElem?.mp member
  · intro here
    exact ⟨((s.code, s.len), s.sym), mem_zipIdx_iff_getElem?.mpr here, rfl⟩

theorem Symbol.ok_of_mem (member : s ∈ symbols) : EntryOk (s.code, s.len) :=
  table_ok _ (mem_of_getElem? (mem_symbols.mp member))

theorem Symbol.sym_lt_of_mem (member : s ∈ symbols) : s.sym < 257 := by
  obtain ⟨small, _⟩ := List.getElem?_eq_some_iff.mp (mem_symbols.mp member)
  rwa [table_length] at small

theorem Symbol.word_getElem? (member : s ∈ symbols) : words[s.sym]? = some s.word := by
  rw [words_getElem?, mem_symbols.mp member]
  rfl

theorem exists_symbol_of_word {word : List Bool} (member : word ∈ words) :
    ∃ s ∈ symbols, s.word = word := by
  obtain ⟨index, here⟩ := mem_iff_getElem?.mp member
  rw [words_getElem?, Option.map_eq_some_iff] at here
  obtain ⟨⟨code, len⟩, inTable, rfl⟩ := here
  exact ⟨⟨code, len, index⟩, mem_symbols.mpr inTable, rfl⟩

theorem Symbol.eq_of_prefix {t : Symbol} (hs : s ∈ symbols) (ht : t ∈ symbols)
    (below : s.word <+: t.word) : s = t := by
  have same := words_prefixFree.index_eq (Symbol.word_getElem? hs) (Symbol.word_getElem? ht) below
  have hsRow := mem_symbols.mp hs
  rw [same, mem_symbols.mp ht, Option.some.injEq, Prod.mk.injEq] at hsRow
  cases s
  cases t
  simp_all

@[simp]
theorem Symbol.length_word (s : Symbol) : s.word.length = s.len := length_bitsOf ..

theorem Symbol.hits_iff (small : s.code < 2 ^ s.len) {width : Nat} (bound : w < 2 ^ width) :
    s.Hits width w ↔ s.word <+: bitsOf width w := by
  constructor
  · rintro ⟨fits, same⟩
    have front := take_bitsOf fits w
    rw [same] at front
    rw [Symbol.word, wordOf, ← front]
    exact take_prefix ..
  · intro below
    have fits : s.len ≤ width := by simpa using below.length_le
    refine ⟨fits, ?_⟩
    have front := prefix_iff_eq_take.mp below
    rw [Symbol.length_word, take_bitsOf fits, Symbol.word, wordOf] at front
    have shifted : w >>> (width - s.len) < 2 ^ s.len := by
      rw [Nat.shiftRight_eq_div_pow, Nat.div_lt_iff_lt_mul (Nat.two_pow_pos _), ← Nat.pow_add,
        Nat.add_sub_cancel' fits]
      exact bound
    exact ((bitsOf_inj small shifted).mp front).symm

/-! ## Construction -/

structure DecodeTables where
  root : List Nat
  sub : List (List Nat)
  deriving DecidableEq

/-- `slots.get_mut(base..base + count)` followed by `fill(entry)`. -/
def fillRange (slots : List Nat) (base count entry : Nat) : List Nat :=
  if base + count ≤ slots.length then
    slots.take base ++ (List.replicate count entry ++ slots.drop (base + count))
  else slots

/-- A code of at most `rootBits` bits fills every root slot sharing its prefix. -/
def addShort (t : DecodeTables) (s : Symbol) : DecodeTables :=
  { t with root :=
      fillRange t.root (s.code <<< (rootBits - s.len)) (1 <<< (rootBits - s.len)) s.entry }

/-- The tables with a sub table for root slot `index`, and the slot's value. -/
def openSub (t : DecodeTables) (index slot : Nat) : DecodeTables × Nat :=
  if slot &&& subTable = 0 then
    ({ root := t.root.set index (subTable ||| t.sub.length)
       sub := t.sub ++ [List.replicate (1 <<< subBits) 0] }, subTable ||| t.sub.length)
  else (t, slot)

/-- The span of a sub table that a code of `rootBits + 1 ..= winBits` bits fills. -/
def fillSub (s : Symbol) (slots : List Nat) : List Nat :=
  fillRange slots ((s.code &&& (1 <<< (s.len - rootBits)) - 1) <<< (winBits - s.len))
    (1 <<< (winBits - s.len)) s.entry

def addLong (t : DecodeTables) (s : Symbol) : DecodeTables :=
  let index := s.code >>> (s.len - rootBits)
  match t.root[index]? with
  | none => t
  | some slot =>
    let (t, slot) := openSub t index slot
    if s.len ≤ winBits then { t with sub := t.sub.modify (slot &&& subTable - 1) (fillSub s) }
    else t

def addSymbol (t : DecodeTables) (s : Symbol) : DecodeTables :=
  if s.sym = eos then t
  else if s.len ≤ rootBits then addShort t s
  else addLong t s

def decodeTables : DecodeTables :=
  symbols.foldl addSymbol ⟨List.replicate (1 <<< rootBits) 0, []⟩

/-- What the decoder reads for a window: the root entry, or the sub entry it points to. -/
def DecodeTables.lookup (t : DecodeTables) (rootWindow subWindow : Nat) : Nat :=
  let e := t.root.getD rootWindow 0
  if e &&& subTable ≠ 0 then
    ((t.sub[e &&& subTable - 1]?).bind fun slots => slots[subWindow]?).getD 0
  else e

/-! ## Slots and flags -/

@[simp]
theorem length_fillRange (slots : List Nat) (base count entry : Nat) :
    (fillRange slots base count entry).length = slots.length := by
  unfold fillRange
  split
  · simp; omega
  · rfl

theorem getElem?_fillRange {slots : List Nat} {base count : Nat} (entry i : Nat)
    (inside : base + count ≤ slots.length) : (fillRange slots base count entry)[i]? =
      if base ≤ i ∧ i < base + count then some entry else slots[i]? := by
  rw [fillRange, if_pos inside]
  rcases Nat.lt_or_ge i base with below | above
  · rw [getElem?_append_left (by simp; omega), getElem?_take_of_lt below, if_neg (by omega)]
  · rw [getElem?_append_right (by simp; omega), length_take]
    rcases Nat.lt_or_ge i (base + count) with within | _
    · rw [getElem?_append_left (by simp; omega), if_pos ⟨above, within⟩]
      simp [getElem?_replicate]
      omega
    · rw [getElem?_append_right (by simp; omega), getElem?_drop, if_neg (by omega)]
      congr 1
      simp
      omega

theorem pointer_eq {j : Nat} (small : j < subTable) : subTable ||| j = subTable + j := by
  have sum := Nat.two_pow_add_eq_or_of_lt (i := 15) (b := j) small 1
  simpa [subTable] using sum.symm

theorem pointer_index {j : Nat} (small : j < subTable) : (subTable ||| j) &&& subTable - 1 = j := by
  rw [pointer_eq small, show subTable - 1 = 2 ^ 15 - 1 from rfl, Nat.and_two_pow_sub_one_eq_mod]
  unfold subTable at small ⊢
  omega

theorem pointer_flag (j : Nat) : (subTable ||| j) &&& subTable ≠ 0 := by
  intro zero
  have bit := congrArg (fun n => n.testBit 15) zero
  simp only [show subTable = 2 ^ 15 from rfl, Nat.testBit_and, Nat.testBit_or,
    Nat.testBit_two_pow_self, Bool.true_or, Bool.and_self, Nat.zero_testBit] at bit
  cases bit

theorem no_flag_of_lt {e : Nat} (small : e < subTable) : e &&& subTable = 0 := by
  apply Nat.eq_of_testBit_eq
  intro i
  rw [Nat.testBit_and, show subTable = 2 ^ 15 from rfl, Nat.testBit_two_pow, Nat.zero_testBit]
  by_cases same : 15 = i
  · subst same
    rw [Nat.testBit_lt_two_pow small, Bool.false_and]
  · simp [same]

/-! ## What a partially built table answers -/

/-- The conditions on a symbol under which `addSymbol` records it. -/
structure Symbol.Regular (s : Symbol) : Prop where
  short : s.len ≤ 30
  long : 5 ≤ s.len
  small : s.code < 2 ^ s.len
  octet : s.sym < 256

theorem Symbol.regular_of_mem (member : s ∈ symbols) (notEos : s.sym ≠ eos) : s.Regular := by
  obtain ⟨low, high, small⟩ := Symbol.ok_of_mem member
  have bound := Symbol.sym_lt_of_mem member
  exact ⟨high, low, small, by unfold eos at notEos; omega⟩

theorem Symbol.Regular.entry_eq (regular : s.Regular) : s.entry = s.len * 256 + s.sym := by
  have sum := Nat.two_pow_add_eq_or_of_lt (i := 8) regular.octet s.len
  rw [Symbol.entry, Nat.shiftLeft_eq, Nat.mul_comm, ← sum]

theorem Symbol.Regular.entry_lt (regular : s.Regular) : s.entry < subTable := by
  have short := regular.short
  have octet := regular.octet
  rw [regular.entry_eq]
  unfold subTable
  omega

/-- One sub slot: the entry of a recorded code that hits the window, or nothing. -/
def SlotOk (done : List Symbol) (window : Nat) (slot : Option Nat) : Prop :=
  (∃ s ∈ done, rootBits < s.len ∧ s.Hits winBits window ∧ slot = some s.entry) ∨
    (slot = some 0 ∧ ∀ s ∈ done, rootBits < s.len → ¬ s.Hits winBits window)

/-- One root slot: a symbol, a sub table, or nothing yet. -/
inductive RootOk (done : List Symbol) (t : DecodeTables) (r : Nat) : Prop where
  | symbol (s : Symbol) (member : s ∈ done) (hits : s.Hits rootBits r)
      (slot : t.root[r]? = some s.entry)
  | pointer (j : Nat) (slots : List Nat) (slot : t.root[r]? = some (subTable ||| j))
      (present : t.sub[j]? = some slots) (full : slots.length = 32)
      (noShort : ∀ s ∈ done, ¬ s.Hits rootBits r)
      (entries : ∀ w < 32, SlotOk done (r * 32 + w) slots[w]?)
  | empty (slot : t.root[r]? = some 0) (noShort : ∀ s ∈ done, ¬ s.Hits rootBits r)
      (noLong : ∀ s ∈ done, rootBits < s.len → s.code >>> (s.len - rootBits) ≠ r)

/-- The invariant of the construction loop after the symbols `done`. -/
structure TablesOk (done : List Symbol) (t : DecodeTables) : Prop where
  root_length : t.root.length = 2048
  sub_count : t.sub.length ≤ done.length
  root : ∀ r < 2048, RootOk done t r
  distinct : ∀ r r' j : Nat, j < t.sub.length → t.root[r]? = some (subTable ||| j) →
    t.root[r']? = some (subTable ||| j) → r = r'

variable {done : List Symbol}

theorem forall_mem_snoc {P : Symbol → Prop} (old : ∀ u ∈ done, P u) (new : P s) :
    ∀ u ∈ done ++ [s], P u :=
  forall_mem_append.mpr ⟨old, forall_mem_singleton.mpr new⟩

theorem SlotOk.snoc {window : Nat} {slot : Option Nat} (ok : SlotOk done window slot)
    (miss : rootBits < s.len → ¬ s.Hits winBits window) : SlotOk (done ++ [s]) window slot := by
  rcases ok with ⟨u, member, deep, hits, same⟩ | ⟨zero, none⟩
  · exact Or.inl ⟨u, mem_append_left _ member, deep, hits, same⟩
  · exact Or.inr ⟨zero, forall_mem_snoc none miss⟩

/-- A sixteen-bit window with root part `r` is hit only by codes below root slot `r`. -/
theorem Symbol.root_of_hits {r : Nat} (below : w < 32) (deep : rootBits < s.len)
    (hits : s.Hits winBits (r * 32 + w)) : s.code >>> (s.len - rootBits) = r := by
  obtain ⟨_, same⟩ := hits
  unfold rootBits at *
  unfold winBits at *
  rw [← same, ← Nat.shiftRight_add, show 16 - s.len + (s.len - 11) = 5 by omega,
    Nat.shiftRight_eq_div_pow]
  omega

theorem Symbol.span_iff_hits (deep : rootBits < s.len) (fits : s.len ≤ winBits) (_below : w < 32) :
    ((s.code &&& (1 <<< (s.len - rootBits)) - 1) <<< (winBits - s.len) ≤ w ∧
      w < (s.code &&& (1 <<< (s.len - rootBits)) - 1) <<< (winBits - s.len) +
        1 <<< (winBits - s.len)) ↔
      s.Hits winBits (s.code >>> (s.len - rootBits) * 32 + w) := by
  obtain ⟨code, len, _⟩ := s
  unfold Symbol.Hits
  simp only [rootBits, winBits] at *
  rw [Nat.one_shiftLeft (len - 11), Nat.and_two_pow_sub_one_eq_mod]
  interval_cases len <;> simp <;> omega

theorem Symbol.span_inside (deep : rootBits < s.len) (fits : s.len ≤ winBits) :
    (s.code &&& (1 <<< (s.len - rootBits)) - 1) <<< (winBits - s.len) +
      1 <<< (winBits - s.len) ≤ 32 := by
  obtain ⟨code, len, _⟩ := s
  simp only [rootBits, winBits] at *
  rw [Nat.one_shiftLeft (len - 11), Nat.and_two_pow_sub_one_eq_mod]
  interval_cases len <;> simp <;> omega

theorem Symbol.root_span_iff_hits (shallow : s.len ≤ rootBits) (r : Nat) :
    (s.code <<< (rootBits - s.len) ≤ r ∧
      r < s.code <<< (rootBits - s.len) + 1 <<< (rootBits - s.len)) ↔ s.Hits rootBits r := by
  have positive : 0 < 2 ^ (rootBits - s.len) := Nat.two_pow_pos _
  rw [Symbol.Hits, Nat.shiftLeft_eq, Nat.shiftRight_eq_div_pow, Nat.one_shiftLeft,
    Nat.div_eq_iff positive]
  constructor
  · rintro ⟨low, high⟩
    exact ⟨shallow, low, by omega⟩
  · rintro ⟨_, low, _⟩
    exact ⟨low, by omega⟩

/-! ## Recording one symbol -/

variable {t : DecodeTables}

theorem addShort_ok (ok : TablesOk done t) (regular : s.Regular) (shallow : s.len ≤ rootBits) :
    TablesOk (done ++ [s]) (addShort t s) := by
  have inside : s.code <<< (rootBits - s.len) + 1 <<< (rootBits - s.len) ≤ t.root.length := by
    rw [ok.root_length, Nat.shiftLeft_eq, Nat.one_shiftLeft]
    calc s.code * 2 ^ (rootBits - s.len) + 2 ^ (rootBits - s.len)
        = (s.code + 1) * 2 ^ (rootBits - s.len) := by rw [Nat.succ_mul]
      _ ≤ 2 ^ s.len * 2 ^ (rootBits - s.len) := Nat.mul_le_mul_right _ regular.small
      _ = 2 ^ rootBits := by rw [← Nat.pow_add, Nat.add_sub_cancel' shallow]
  have slots (r : Nat) : (addShort t s).root[r]? =
      if s.Hits rootBits r then some s.entry else t.root[r]? :=
    (getElem?_fillRange _ _ inside).trans (if_congr (Symbol.root_span_iff_hits shallow r) rfl rfl)
  refine ⟨by rw [addShort, length_fillRange, ok.root_length], ?_, ?_, ?_⟩
  · have count := ok.sub_count
    simp only [addShort, length_append, length_singleton]
    omega
  · intro r bound
    by_cases hits : s.Hits rootBits r
    · exact .symbol s (by simp) hits (by rw [slots, if_pos hits])
    · have kept : (addShort t s).root[r]? = t.root[r]? := by rw [slots, if_neg hits]
      cases ok.root r bound with
      | symbol u member uHits slot =>
        exact .symbol u (mem_append_left _ member) uHits (kept.trans slot)
      | pointer j subSlots slot present full noShort entries =>
        -- A short code never claims a sub slot, so only the root condition could change.
        exact .pointer j subSlots (kept.trans slot) present full (forall_mem_snoc noShort hits)
          fun w below => (entries w below).snoc fun deep => absurd shallow (Nat.not_le.mpr deep)
      | empty slot noShort noLong =>
        exact .empty (kept.trans slot) (forall_mem_snoc noShort hits)
          (forall_mem_snoc noLong fun deep => absurd shallow (Nat.not_le.mpr deep))
  · intro r r' j bound hr hr'
    have flag : ∀ q : Nat, (addShort t s).root[q]? = some (subTable ||| j) →
        t.root[q]? = some (subTable ||| j) := by
      intro q here
      rw [slots] at here
      by_cases hits : s.Hits rootBits q
      · rw [if_pos hits, Option.some.injEq] at here
        have clash := no_flag_of_lt regular.entry_lt
        rw [here] at clash
        exact absurd clash (pointer_flag j)
      · rwa [if_neg hits] at here
    exact ok.distinct r r' j bound (flag r hr) (flag r' hr')

/-- The root slot of a long code is never taken by a recorded short code. -/
def Apart (done : List Symbol) (s : Symbol) : Prop :=
  ∀ u ∈ done, ¬ u.Hits rootBits (s.code >>> (s.len - rootBits))

theorem Symbol.root_lt (small : s.code < 2 ^ s.len) (deep : rootBits < s.len) :
    s.code >>> (s.len - rootBits) < 2048 := by
  rw [Nat.shiftRight_eq_div_pow, Nat.div_lt_iff_lt_mul (Nat.two_pow_pos _),
    show 2048 = 2 ^ rootBits from rfl, ← Nat.pow_add, Nat.add_sub_cancel' (Nat.le_of_lt deep)]
  exact small

/-- After `openSub` the slot holds a pointer; recording the symbol changes no other slot. -/
theorem openSub_ok {r : Nat} (bound : r < 2048) (room : done.length < subTable)
    (ok : TablesOk done t)
    (apart : ∀ u ∈ done, ¬ u.Hits rootBits r) (regular : ∀ u ∈ done, u.Regular) :
    ∃ slot t' j, t.root[r]? = some slot ∧ openSub t r slot = (t', subTable ||| j) ∧
      j < t'.sub.length ∧ t'.sub.length ≤ done.length + 1 ∧ t'.root[r]? = some (subTable ||| j) ∧
      t'.root.length = 2048 ∧ (∀ q < 2048, q ≠ r → RootOk done t' q) ∧
      (∃ slots, t'.sub[j]? = some slots ∧ slots.length = 32 ∧
        ∀ w < 32, SlotOk done (r * 32 + w) slots[w]?) ∧
      (∀ q q' k : Nat, k < t'.sub.length → t'.root[q]? = some (subTable ||| k) →
        t'.root[q']? = some (subTable ||| k) → q = q') := by
  have count := ok.sub_count
  cases ok.root r bound with
  | symbol u member hits => exact absurd hits (apart u member)
  | pointer j slots slot present full _ entries =>
    obtain ⟨jLt, _⟩ := List.getElem?_eq_some_iff.mp present
    exact ⟨_, t, j, slot, by rw [openSub, if_neg (pointer_flag j)], jLt, by omega, slot,
      ok.root_length, fun q qBound _ => ok.root q qBound, ⟨slots, present, full, entries⟩,
      ok.distinct⟩
  | empty slot _ noLong =>
    have rLt : r < t.root.length := by rw [ok.root_length]; exact bound
    have other (q : Nat) (ne : q ≠ r) :
        (t.root.set r (subTable ||| t.sub.length))[q]? = t.root[q]? :=
      getElem?_set_ne (Ne.symm ne)
    have older {j : Nat} {slots : List Nat} (present : t.sub[j]? = some slots) :
        (t.sub ++ [List.replicate (1 <<< subBits) 0])[j]? = some slots := by
      obtain ⟨jLt, _⟩ := List.getElem?_eq_some_iff.mp present
      rw [getElem?_append_left jLt, present]
    refine ⟨0, _, t.sub.length, slot, by rw [openSub, if_pos (by rfl)], by simp, by simp; omega,
      getElem?_set_self rLt, by simp [ok.root_length], ?_, ?_, ?_⟩
    · intro q qBound ne
      cases ok.root q qBound with
      | symbol u member hits here => exact .symbol u member hits ((other q ne).trans here)
      | pointer j slots here present full none entries =>
        exact .pointer j slots ((other q ne).trans here) (older present) full none entries
      | empty here none noneLong => exact .empty ((other q ne).trans here) none noneLong
    · refine ⟨List.replicate 32 0, by simp [subBits, winBits, rootBits], by simp, ?_⟩
      intro w below
      refine Or.inr ⟨by rw [getElem?_replicate, if_pos below], fun u member deep hits => ?_⟩
      exact noLong u member deep (Symbol.root_of_hits below deep hits)
    · -- The fresh pointer is larger than every pointer stored before.
      have fresh (q j : Nat) (ne : q ≠ r) (jLt : j < t.sub.length + 1)
          (here : t.root[q]? = some (subTable ||| j)) : j < t.sub.length := by
        have qBound : q < 2048 := by
          obtain ⟨qLt, _⟩ := List.getElem?_eq_some_iff.mp here
          rwa [ok.root_length] at qLt
        cases ok.root q qBound with
        | symbol u member _ slot =>
          rw [slot, Option.some.injEq] at here
          have clash := no_flag_of_lt (regular u member).entry_lt
          rw [here] at clash
          exact absurd clash (pointer_flag j)
        | pointer _ _ slot present =>
          obtain ⟨_, _⟩ := List.getElem?_eq_some_iff.mp present
          rw [slot, Option.some.injEq, pointer_eq (by omega), pointer_eq (by omega)] at here
          omega
        | empty slot =>
          rw [slot, Option.some.injEq] at here
          have clash := pointer_flag j
          rw [← here] at clash
          exact absurd rfl clash
      intro q q' k kLt hq hq'
      rw [length_append, length_singleton] at kLt
      have atNew {p : Nat} (here : p = r) (hp : (t.root.set r (subTable ||| t.sub.length))[p]? =
          some (subTable ||| k)) : k = t.sub.length := by
        rw [here, getElem?_set_self rLt, Option.some.injEq, pointer_eq (by omega),
          pointer_eq (by omega)] at hp
        omega
      by_cases qNew : q = r
      · by_cases qNew' : q' = r
        · rw [qNew, qNew']
        · have small := fresh q' k qNew' kLt ((other q' qNew').symm.trans hq')
          have large := atNew qNew hq
          omega
      · have small := fresh q k qNew kLt ((other q qNew).symm.trans hq)
        by_cases qNew' : q' = r
        · have large := atNew qNew' hq'
          omega
        · exact ok.distinct q q' k small ((other q qNew).symm.trans hq)
            ((other q' qNew').symm.trans hq')

theorem fillSub_getElem? {slots : List Nat} (deep : rootBits < s.len) (fits : s.len ≤ winBits)
    (full : slots.length = 32) (below : w < 32) : (fillSub s slots)[w]? =
      if s.Hits winBits (s.code >>> (s.len - rootBits) * 32 + w) then some s.entry
      else slots[w]? :=
  (getElem?_fillRange _ _ (by rw [full]; exact Symbol.span_inside deep fits)).trans
    (if_congr (Symbol.span_iff_hits deep fits below) rfl rfl)

/-- Slots other than the one a long code opens keep what they answer. -/
theorem RootOk.snoc_long {q : Nat} (ok : RootOk done t q) (deep : rootBits < s.len)
    (elsewhere : s.code >>> (s.len - rootBits) ≠ q) : RootOk (done ++ [s]) t q := by
  have missRoot : ¬ s.Hits rootBits q := fun hits => absurd hits.1 (Nat.not_le.mpr deep)
  cases ok with
  | symbol u member hits slot => exact .symbol u (mem_append_left _ member) hits slot
  | pointer j slots slot present full noShort entries =>
    exact .pointer j slots slot present full (forall_mem_snoc noShort missRoot) fun w below =>
      (entries w below).snoc fun _ hits => elsewhere (Symbol.root_of_hits below deep hits)
  | empty slot noShort noLong =>
    exact .empty slot (forall_mem_snoc noShort missRoot) (forall_mem_snoc noLong fun _ => elsewhere)

theorem addLong_ok (ok : TablesOk done t) (known : s.Regular) (deep : rootBits < s.len)
    (room : done.length < subTable) (apart : Apart done s) (regular : ∀ u ∈ done, u.Regular) :
    TablesOk (done ++ [s]) (addLong t s) := by
  have bound := Symbol.root_lt known.small deep
  obtain ⟨slot, t', j, here, opened, jLt, count, pointer, rootLength, others, ⟨_, present,
    full, entries⟩, distinct⟩ := openSub_ok bound room ok apart regular
  have jSmall : j < subTable := by omega
  have missRoot : ¬ s.Hits rootBits (s.code >>> (s.len - rootBits)) :=
    fun hits => absurd hits.1 (Nat.not_le.mpr deep)
  -- A code of more than `winBits` bits opens its sub table and fills nothing.
  have added : addLong t s =
      { t' with sub := t'.sub.modify j (if s.len ≤ winBits then fillSub s else id) } := by
    simp only [addLong, here, opened, pointer_index jSmall]
    split_ifs
    · rfl
    · rw [modify_id]
  rw [added]
  refine ⟨rootLength, by simpa using count, fun q qBound => ?_, by simpa using distinct⟩
  by_cases same : q = s.code >>> (s.len - rootBits)
  · subst same
    refine .pointer j _ pointer (by rw [getElem?_modify_eq, present]; rfl) ?_
      (forall_mem_snoc apart missRoot) fun w below => ?_
    · split_ifs
      · rw [fillSub, length_fillRange, full]
      · exact full
    · split_ifs with fits
      · rw [fillSub_getElem? deep fits full below]
        split_ifs with hits
        · exact Or.inl ⟨s, by simp, deep, hits, rfl⟩
        · exact (entries w below).snoc fun _ => hits
      · exact (entries w below).snoc fun _ hits => fits hits.1
  · cases (others q qBound same).snoc_long deep (Ne.symm same) with
    | symbol u member hits slot => exact .symbol u member hits slot
    | pointer k subSlots slot kPresent kFull noShort kEntries =>
      have differ : j ≠ k := by
        rintro rfl
        exact same (distinct q _ j jLt slot pointer)
      exact .pointer k subSlots slot (by simp [differ, kPresent]) kFull noShort kEntries
    | empty slot noShort noLong => exact .empty slot noShort noLong

/-! ## The finished tables -/

/-- The symbols the loop records, in order. -/
def recorded (list : List Symbol) : List Symbol := list.filter fun s => s.sym ≠ eos

theorem apart_of_prefixFree {u : Symbol} (hu : u ∈ symbols) (hs : s ∈ symbols)
    (deep : rootBits < s.len) : ¬ u.Hits rootBits (s.code >>> (s.len - rootBits)) := by
  intro hits
  have small := (Symbol.ok_of_mem hs).2.2
  have uSmall := (Symbol.ok_of_mem hu).2.2
  have below := (Symbol.hits_iff uSmall (Symbol.root_lt small deep)).mp hits
  have front := take_bitsOf (Nat.le_of_lt deep) s.code
  rw [← front] at below
  have same := Symbol.eq_of_prefix hu hs (below.trans (List.take_prefix ..))
  have shallow := hits.1
  rw [same] at shallow
  omega

theorem foldl_addSymbol_ok (list done : List Symbol) (t : DecodeTables)
    (inTable : ∀ s ∈ list, s ∈ symbols) (before : ∀ s ∈ done, s ∈ symbols ∧ s.sym ≠ eos)
    (room : done.length + list.length < subTable) (ok : TablesOk done t) :
    TablesOk (done ++ recorded list) (list.foldl addSymbol t) := by
  induction list generalizing done t with
  | nil => simpa [recorded] using ok
  | cons s list ih =>
    have member := inTable s (by simp)
    have later : ∀ u ∈ list, u ∈ symbols := fun u hu => inTable u (by simp [hu])
    rw [length_cons] at room
    by_cases isEos : s.sym = eos
    · have skipped : recorded (s :: list) = recorded list := by simp [recorded, isEos]
      rw [foldl_cons, addSymbol, if_pos isEos, skipped]
      exact ih done t later before (by omega) ok
    · have taken : recorded (s :: list) = [s] ++ recorded list := by simp [recorded, isEos]
      have known := Symbol.regular_of_mem member isEos
      rw [foldl_cons, addSymbol, if_neg isEos, taken, ← append_assoc]
      apply ih
      · exact later
      · exact forall_mem_snoc before ⟨member, isEos⟩
      · simp; omega
      · split_ifs with shallow
        · exact addShort_ok ok known shallow
        · have deep := Nat.not_le.mp shallow
          exact addLong_ok ok known deep (by omega)
            (fun u hu => apart_of_prefixFree (before u hu).1 member deep)
            (fun u hu => Symbol.regular_of_mem (before u hu).1 (before u hu).2)

theorem decodeTables_ok : TablesOk (recorded symbols) decodeTables := by
  have start : TablesOk [] ⟨replicate (1 <<< rootBits) 0, []⟩ :=
    ⟨length_replicate, Nat.zero_le _, fun r bound => .empty
      (by rw [getElem?_replicate, if_pos (show r < 1 <<< rootBits from bound)]) (by simp)
        (by simp), by simp⟩
  have count : symbols.length = 257 := by simp [symbols, table_length]
  have built := foldl_addSymbol_ok symbols [] _ (fun s hs => hs) (by simp)
    (by rw [count]; decide) start
  rwa [nil_append] at built

/-- The entry read for a sixteen-bit window names the code in front of the window;
no entry means that no code of at most sixteen bits stands there. -/
theorem lookup_spec (bound : w < 2 ^ winBits) : (∃ s ∈ symbols, s.Regular ∧ s.Hits winBits w ∧
      decodeTables.lookup (w / 32) (w % 32) = s.entry) ∨
    (decodeTables.lookup (w / 32) (w % 32) = 0 ∧ ∀ s ∈ symbols, ¬ s.Hits winBits w) := by
  have split : w / 32 * 32 + w % 32 = w := by omega
  have mem {s : Symbol} (member : s ∈ recorded symbols) : s ∈ symbols ∧ s.Regular := by
    rw [recorded, mem_filter, decide_eq_true_eq] at member
    exact ⟨member.1, Symbol.regular_of_mem member.1 member.2⟩
  have notEos {s : Symbol} (member : s ∈ symbols) (hits : s.Hits winBits w) :
      s ∈ recorded symbols := by
    rw [recorded, mem_filter, decide_eq_true_eq]
    refine ⟨member, fun isEos => ?_⟩
    have row := Symbol.word_getElem? member
    rw [isEos, eos_word, Option.some.injEq] at row
    have lengths := congrArg List.length row
    have fits := hits.1
    rw [length_replicate, Symbol.length_word] at lengths
    unfold winBits at fits
    omega
  -- A short code sees only the root part of the window.
  have shallowHit {s : Symbol} (shallow : s.len ≤ rootBits) :
      s.Hits winBits w ↔ s.Hits rootBits (w / 32) := by
    unfold Symbol.Hits rootBits winBits at *
    have shifted : w / 32 = w >>> 5 := by rw [Nat.shiftRight_eq_div_pow]
    rw [shifted, ← Nat.shiftRight_add, show 5 + (11 - s.len) = 16 - s.len by omega]
    constructor
    · rintro ⟨_, same⟩; exact ⟨shallow, same⟩
    · rintro ⟨_, same⟩; exact ⟨by omega, same⟩
  have rootLt : w / 32 < 2048 := by unfold winBits at bound; omega
  cases decodeTables_ok.root (w / 32) rootLt with
  | symbol s member hits slot =>
    refine Or.inl ⟨s, (mem member).1, (mem member).2, (shallowHit hits.1).mpr hits, ?_⟩
    simp [DecodeTables.lookup, getD_eq_getElem?_getD, slot, no_flag_of_lt (mem member).2.entry_lt]
  | pointer j slots slot present _ noShort entries =>
    have jSmall : j < subTable := by
      obtain ⟨_, _⟩ := List.getElem?_eq_some_iff.mp present
      have count := decodeTables_ok.sub_count
      have total : (recorded symbols).length ≤ symbols.length := length_filter_le ..
      have all : symbols.length = 257 := by simp [symbols, table_length]
      unfold subTable
      omega
    have read : decodeTables.lookup (w / 32) (w % 32) = (slots[w % 32]?).getD 0 := by
      simp [DecodeTables.lookup, getD_eq_getElem?_getD, slot, pointer_flag,
        pointer_index jSmall, present]
    have entry := entries (w % 32) (Nat.mod_lt _ (by decide))
    rw [split] at entry
    rcases entry with ⟨s, member, _, hits, same⟩ | ⟨zero, none⟩
    · exact Or.inl ⟨s, (mem member).1, (mem member).2, hits, by rw [read, same]; rfl⟩
    · refine Or.inr ⟨by rw [read, zero]; rfl, fun s member hits => ?_⟩
      by_cases shallow : s.len ≤ rootBits
      · exact noShort s (notEos member hits) ((shallowHit shallow).mp hits)
      · exact none s (notEos member hits) (Nat.not_le.mp shallow) hits
  | empty slot noShort noLong =>
    refine Or.inr ⟨by simp [DecodeTables.lookup, getD_eq_getElem?_getD, slot],
      fun s member hits => ?_⟩
    by_cases shallow : s.len ≤ rootBits
    · exact noShort s (notEos member hits) ((shallowHit shallow).mp hits)
    · have deep := Nat.not_le.mp shallow
      rw [← split] at hits
      exact noLong s (notEos member (split ▸ hits)) deep
        (Symbol.root_of_hits (Nat.mod_lt _ (by decide)) deep hits)

/-! ## Long codes -/

/-- Group a long code by its length. -/
def pushLong (groups : List (List (Nat × Nat))) (s : Symbol) : List (List (Nat × Nat)) :=
  if s.len ≤ winBits then groups
  else groups.modify (s.len - winBits - 1) (· ++ [(s.code, s.sym)])

/-- The codes of `winBits + 1 ..= 30` bits by length, each group sorted by code. -/
def longTable : List (List (Nat × Nat)) :=
  (symbols.foldl pushLong (List.replicate (30 - winBits) [])).map
    (List.mergeSort · fun first second => first.1 ≤ second.1)

theorem foldl_pushLong (list : List Symbol) (groups : List (List (Nat × Nat)))
    (short : ∀ s ∈ list, s.len ≤ 30) (full : groups.length = 30 - winBits) :
    (list.foldl pushLong groups).length = 30 - winBits ∧ ∀ k < 30 - winBits, ∀ pair : Nat × Nat,
        (pair ∈ (list.foldl pushLong groups).getD k [] ↔ pair ∈ groups.getD k [] ∨
          (⟨pair.1, winBits + 1 + k, pair.2⟩ : Symbol) ∈ list) := by
  induction list generalizing groups with
  | nil => exact ⟨full, fun k _ pair => by simp⟩
  | cons s list ih =>
    have later : ∀ u ∈ list, u.len ≤ 30 := fun u hu => short u (by simp [hu])
    have pushedFull : (pushLong groups s).length = 30 - winBits := by
      unfold pushLong
      split
      · exact full
      · simpa using full
    obtain ⟨length, member⟩ := ih (pushLong groups s) later pushedFull
    refine ⟨length, fun k kLt pair => ?_⟩
    rw [foldl_cons, member k kLt pair, mem_cons, or_left_comm, ← or_assoc]
    refine or_congr_left ?_
    have kGroup : k < groups.length := by rw [full]; exact kLt
    unfold pushLong
    split_ifs with shallow
    · constructor
      · exact Or.inr
      · rintro (same | old)
        · rw [← same] at shallow
          simp only at shallow
          omega
        · exact old
    · simp only [getD_eq_getElem?_getD, getElem?_modify]
      by_cases here : s.len - winBits - 1 = k
      · have len : s.len = winBits + 1 + k := by omega
        simp only [here, if_true, getElem?_eq_getElem kGroup, Option.map_eq_map,
          Option.map_some, Option.getD_some, mem_append, mem_singleton]
        rw [or_comm]
        refine or_congr_left ?_
        obtain ⟨_, _, _⟩ := s
        obtain ⟨c, y⟩ := pair
        simp only [Prod.mk.injEq, Symbol.mk.injEq] at len ⊢
        constructor
        · rintro ⟨rfl, rfl⟩; exact ⟨rfl, len.symm, rfl⟩
        · rintro ⟨rfl, _, rfl⟩; exact ⟨rfl, rfl⟩
      · simp only [here, if_false, Option.map_eq_map, Option.map_id']
        constructor
        · exact Or.inr
        · rintro (same | old)
          · rw [← same] at here
            simp only at here
            omega
          · exact old

theorem longTable_length : longTable.length = 30 - winBits := by
  rw [longTable, length_map]
  exact (foldl_pushLong symbols _ (fun s member => (Symbol.ok_of_mem member).2.1) (by simp)).1

theorem mem_longTable {k : Nat} (kLt : k < 30 - winBits) (pair : Nat × Nat) :
    pair ∈ longTable.getD k [] ↔ (⟨pair.1, winBits + 1 + k, pair.2⟩ : Symbol) ∈ symbols := by
  obtain ⟨length, member⟩ := foldl_pushLong symbols (replicate (30 - winBits) [])
    (fun s member => (Symbol.ok_of_mem member).2.1) (by simp)
  have grouped := member k kLt pair
  have empty : (replicate (30 - winBits) ([] : List (Nat × Nat))).getD k [] = [] := by
    simp [getD_eq_getElem?_getD, kLt]
  rw [empty] at grouped
  simp only [not_mem_nil, false_or] at grouped
  rw [← grouped, longTable]
  have here : k < (symbols.foldl pushLong (replicate (30 - winBits) [])).length := by
    rw [length]; exact kLt
  simp [getD_eq_getElem?_getD, getElem?_map, getElem?_eq_getElem here, mem_mergeSort]

theorem longTable_sorted {k : Nat} (kLt : k < 30 - winBits) :
    (longTable.getD k []).Pairwise fun first second => first.1 ≤ second.1 := by
  have here : k < (symbols.foldl pushLong (replicate (30 - winBits) [])).length := by
    have length := longTable_length
    rw [longTable, length_map] at length
    rw [length]; exact kLt
  simp only [longTable, getD_eq_getElem?_getD, getElem?_map,
    getElem?_eq_getElem here, Option.map_some, Option.getD_some]
  refine (pairwise_mergeSort ?_ ?_ _).imp (fun ordered => of_decide_eq_true ordered)
  · intro a b c first second
    exact decide_eq_true (Nat.le_trans (of_decide_eq_true first) (of_decide_eq_true second))
  · intro a b
    rw [Bool.or_eq_true, decide_eq_true_eq, decide_eq_true_eq]
    exact Nat.le_total ..

/-- `for len in (WIN_BITS + 1)..=30`: match the next `len` bits against the group. -/
def decodeLongFrom (groups : List (List (Nat × Nat))) (acc nbits : Nat) :
    List Nat → Option (Nat × Nat)
  | [] => none
  | len :: lens =>
    if nbits < len then none
    else
      let code := acc >>> (nbits - len) &&& (1 <<< len) - 1
      let group := groups.getD (len - winBits - 1) []
      match binarySearchByKey group Prod.fst code with
      | some index => (group[index]?).map fun pair => (pair.2, len)
      | none => decodeLongFrom groups acc nbits lens

/-- Resolve a code of 17 to 30 bits by exact match. -/
def decodeLong (acc nbits : Nat) : Option (Nat × Nat) :=
  decodeLongFrom longTable acc nbits (List.range' (winBits + 1) (30 - winBits))

theorem next_code_eq {acc nbits len : Nat} (fits : len ≤ nbits) :
    bitsOf len (acc >>> (nbits - len) &&& (1 <<< len) - 1) = (bitsOf nbits acc).take len := by
  rw [take_bitsOf fits, Nat.one_shiftLeft, Nat.and_two_pow_sub_one_eq_mod,
    bitsOf_mod (Nat.le_refl len)]

/-- The loop finds the shortest long code in front of the pending bits. -/
theorem decodeLongFrom_spec (acc nbits : Nat) (count start : Nat) (low : winBits < start)
    (high : start + count ≤ 31) :
    (∃ s ∈ symbols, winBits < s.len ∧ s.len ≤ nbits ∧ s.word <+: bitsOf nbits acc ∧
      decodeLongFrom longTable acc nbits (range' start count) = some (s.sym, s.len)) ∨
    (decodeLongFrom longTable acc nbits (range' start count) = none ∧
      ∀ s ∈ symbols, start ≤ s.len → s.len < start + count → ¬ s.word <+: bitsOf nbits acc) := by
  induction count generalizing start with
  | zero => exact Or.inr ⟨rfl, fun s _ low high => by omega⟩
  | succ _ ih =>
    rw [range'_succ, decodeLongFrom]
    split_ifs with short
    · refine Or.inr ⟨rfl, fun s _ low _ below => ?_⟩
      have lengths := below.length_le
      rw [Symbol.length_word, length_bitsOf] at lengths
      omega
    · have fits := Nat.not_lt.mp short
      have kLt : start - winBits - 1 < 30 - winBits := by omega
      have len : winBits + 1 + (start - winBits - 1) = start := by omega
      have next := @next_code_eq acc _ _ fits
      have small : acc >>> (nbits - start) &&& (1 <<< start) - 1 < 2 ^ start := by
        rw [Nat.one_shiftLeft, Nat.and_two_pow_sub_one_eq_mod]
        exact Nat.mod_lt _ (Nat.two_pow_pos _)
      have inGroup := mem_longTable kLt
      have sorted := longTable_sorted kLt
      rw [len] at inGroup
      dsimp only
      generalize longTable.getD (start - winBits - 1) [] = group at inGroup sorted ⊢
      generalize acc >>> (nbits - start) &&& (1 <<< start) - 1 = code at next small ⊢
      cases found : binarySearchByKey group Prod.fst code with
      | some =>
        obtain ⟨⟨c, sym⟩, here, same⟩ := binarySearchByKey_sound found
        have member := (inGroup (c, sym)).mp (mem_of_getElem? here)
        refine Or.inl ⟨_, member, low, fits, ?_, by simp [here]⟩
        rw [Symbol.word, wordOf]
        rw [same, next]
        exact take_prefix ..
      | none =>
        have absent : ∀ s ∈ symbols, s.len = start → ¬ s.word <+: bitsOf nbits acc := by
          intro s member sLen below
          have front := prefix_iff_eq_take.mp below
          rw [Symbol.length_word, sLen, ← next, Symbol.word, wordOf, sLen] at front
          have sSmall := (Symbol.ok_of_mem member).2.2
          simp only [sLen] at sSmall
          have same := (bitsOf_inj sSmall small).mp front
          have present := (inGroup (s.code, s.sym)).mpr (by rw [← sLen]; exact member)
          obtain ⟨_, hit⟩ := binarySearchByKey_complete sorted present same
          rw [found] at hit
          cases hit
        rcases ih (start + 1) (by omega) (by omega) with hit | ⟨missed, none⟩
        · exact Or.inl hit
        · refine Or.inr ⟨missed, fun s member sLow sHigh => ?_⟩
          rcases Nat.lt_or_eq_of_le sLow with above | same
          · exact none s member above (by omega)
          · exact absent s member same.symm

end HttpJet.Hpack.Huffman
