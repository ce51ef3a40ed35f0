import Mathlib.Data.List.Basic
import Mathlib.Algebra.Order.Group.Nat

/-!
# Binary records

Little-endian numbers, fields at fixed offsets, and readers that consume a buffer from the front.
`Reads reader encoded x`: the reader consumes exactly `encoded` whatever follows it.  Counts and
offsets in front of what they describe are filled in later: `copyAt` copies over a part of a buffer,
`copyItems` items of one width one after the other.
-/

namespace HttpJet.Library

open List

/-! ## Numbers -/

def le : Nat → Nat → List UInt8
  | 0, _ => []
  | width + 1, n => UInt8.ofNat n :: le width (n / 256)

def fromLe : List UInt8 → Nat
  | [] => 0
  | octet :: rest => octet.toNat + 256 * fromLe rest

@[simp]
theorem length_le (width n : Nat) : (le width n).length = width := by
  induction width generalizing n with
  | zero => rfl
  | succ _ ih => rw [le, length_cons, ih]

/-- A number of a fixed width wraps round. -/
theorem fromLe_le (width n : Nat) : fromLe (le width n) = n % 256 ^ width := by
  induction width generalizing n with
  | zero => rw [pow_zero, Nat.mod_one, le, fromLe]
  | succ width ih =>
    rw [le, fromLe, ih, UInt8.toNat_ofNat', pow_succ' 256 width]
    exact Nat.mod_mul.symm

/-! ## Fields at fixed offsets -/

section

variable {α : Type}

def slice (offset width : Nat) (text : List α) : List α := (text.drop offset).take width

theorem slice_append {front field back : List α} {offset width : Nat}
    (starts : front.length = offset)
    (fills : field.length = width) : slice offset width (front ++ (field ++ back)) = field := by
  rw [slice, ← starts, drop_left, ← fills, take_left]

/-- The field at an index of a record that is its fields put together. -/
theorem slice_flatten {fields : List (List α)} {field : List α} {offset width : Nat} (index : Nat)
    (found : fields[index]? = some field) (starts : (fields.take index).flatten.length = offset)
    (fills : field.length = width) : slice offset width fields.flatten = field := by
  have split : fields = fields.take index ++ field :: fields.drop (index + 1) := by
    obtain ⟨_, rfl⟩ := List.getElem?_eq_some_iff.mp found
    rw [getElem_cons_drop, take_append_drop]
  rw [split, flatten_append, flatten_cons]
  exact slice_append starts fills

end

/-! ## Readers -/

/-- A reader consumes octets from the front of a buffer, or fails. -/
abbrev Reader (ε : Type) := StateT (List UInt8) (Except ε)

section

variable {ε α β : Type}
variable {x : α} {y : β} {encoded : List UInt8}

/-- The next `count` octets, or `short` when there are fewer. -/
def Reader.take (short : ε) (count : Nat) : Reader ε (List UInt8) := fun buffer =>
  if buffer.length < count then .error short else .ok (buffer.take count, buffer.drop count)

/-- `count` items in a row. -/
def Reader.many (item : Reader ε α) : Nat → Reader ε (List α)
  | 0 => pure []
  | count + 1 => do
      let first ← item
      let rest ← many item count
      pure (first :: rest)

/-- A conversion of what was read that may fail. -/
def Reader.check (error : ε) (result : Option α) : Reader ε α := fun buffer =>
  match result with
  | some x => .ok (x, buffer)
  | none => .error error

/-- The reader consumes exactly `encoded` and returns `x`. -/
def Reads (reader : Reader ε α) (encoded : List UInt8) (x : α) : Prop :=
  ∀ rest, reader (encoded ++ rest) = .ok (x, rest)

theorem Reads.pure (x : α) : Reads (pure x : Reader ε α) [] x := fun _ => rfl

variable {reader : Reader ε α} {next : α → Reader ε β}

theorem Reads.bind {first second : List UInt8} (reads : Reads reader first x)
    (continues : Reads (next x) second y) : Reads (reader >>= next) (first ++ second) y := by
  intro rest
  change (reader (first ++ second ++ rest) >>= fun result => next result.1 result.2) = _
  rw [append_assoc, reads]
  exact continues rest

theorem Reads.bind_nil (reads : Reads reader encoded x) (continues : Reads (next x) [] y) :
    Reads (reader >>= next) encoded y := by
  have both := reads.bind continues
  rwa [append_nil] at both

theorem Reads.nil_bind (reads : Reads reader [] x) (continues : Reads (next x) encoded y) :
    Reads (reader >>= next) encoded y := reads.bind continues

theorem Reads.take (short : ε) {count : Nat} (fills : encoded.length = count) :
    Reads (Reader.take short count) encoded encoded := by
  intro rest
  have enough : ¬(encoded ++ rest).length < count := by
    rw [length_append]
    omega
  rw [Reader.take, if_neg enough, ← fills, take_left, drop_left]

theorem Reads.check (error : ε) {result : Option α} (valid : result = some x) :
    Reads (Reader.check error result) [] x := by
  intro rest
  rw [valid]
  rfl

/-- Items in a row are read back when each of them is. -/
theorem Reads.many {item : Reader ε α} {encode : α → List UInt8} {items : List α}
    (reads : ∀ x ∈ items, Reads item (encode x) x) :
    Reads (Reader.many item items.length) (items.flatMap encode) items := by
  induction items with
  | nil => exact Reads.pure []
  | cons first rest ih =>
    refine (reads first mem_cons_self).bind ?_
    refine (ih fun x member => reads x (mem_cons_of_mem _ member)).bind_nil ?_
    exact Reads.pure (first :: rest)

end

/-! ## Buffers that are filled in later -/

variable {α β : Type}
variable {encode : β → List α} {width : Nat} {items : List β}

/-- Copy a text over a part of the buffer. -/
def copyAt (buffer : List α) (start : Nat) (text : List α) : List α :=
  buffer.take start ++ (text ++ buffer.drop (start + text.length))

/-- Room of the right size is filled in. -/
theorem copyAt_append {front room text back : List α} {start : Nat} (starts : front.length = start)
    (fills : room.length = text.length) :
    copyAt (front ++ (room ++ back)) start text = front ++ (text ++ back) := by
  rw [copyAt, ← starts, take_left, ← fills, ← drop_drop, drop_left, drop_left]

/-- Copy items one after the other, and say where the last one ends. -/
def copyItems (encode : β → List α) (width : Nat) (buffer : List α) (start : Nat) (items : List β) :
    List α × Nat :=
  items.foldl (fun state item => (copyAt state.1 state.2 (encode item), state.2 + width))
    (buffer, start)

section

variable (widths : ∀ item ∈ items, (encode item).length = width)
include widths

theorem copyItems_append {front room back : List α} {start : Nat} (starts : front.length = start)
    (fills : room.length = items.length * width) :
    copyItems encode width (front ++ (room ++ back)) start items =
      (front ++ (items.flatMap encode ++ back), start + items.length * width) := by
  induction items generalizing front room start with
  | nil =>
    rw [length_nil, Nat.zero_mul, length_eq_zero_iff] at fills
    rw [fills, flatMap_nil, length_nil, Nat.zero_mul]
    rfl
  | cons item items ih =>
    have here := widths item mem_cons_self
    rw [length_cons, Nat.add_mul, Nat.one_mul] at fills
    have first : (room.take width).length = (encode item).length := by
      rw [length_take, here, fills]
      omega
    have rest : (room.drop width).length = items.length * width := by
      rw [length_drop, fills]
      omega
    have copied : copyAt (front ++ (room ++ back)) start (encode item) =
        front ++ encode item ++ (room.drop width ++ back) := by
      rw [← take_append_drop width room, append_assoc, copyAt_append starts first,
        append_assoc, take_append_drop]
    have later :
        copyItems encode width (front ++ encode item ++ (room.drop width ++ back)) (start + width)
        items = _ :=
      ih (fun other listed => widths other (mem_cons_of_mem _ listed))
        (by rw [length_append, starts, here]) rest
    rw [copyItems, foldl_cons, copied]
    rw [copyItems] at later
    rw [later, flatMap_cons, append_assoc, append_assoc, length_cons, Nat.add_mul,
      Nat.one_mul, Nat.add_right_comm, Nat.add_assoc]

theorem length_flatMap_of_width : (items.flatMap encode).length = items.length * width := by
  induction items with
  | nil => rw [flatMap_nil, length_nil, length_nil, Nat.zero_mul]
  | cons item _ ih =>
    rw [flatMap_cons, length_append, widths item mem_cons_self,
      ih fun other listed => widths other (mem_cons_of_mem _ listed), length_cons, Nat.add_mul,
      Nat.one_mul, Nat.add_comm]

/-- Items of one width stand at multiples of it. -/
theorem flatMap_split {index : Nat} {item : β} (found : items[index]? = some item) :
    ∃ front back, items.flatMap encode = front ++ (encode item ++ back) ∧
      front.length = index * width := by
  obtain ⟨inside, rfl⟩ := List.getElem?_eq_some_iff.mp found
  refine ⟨(items.take index).flatMap encode, (items.drop (index + 1)).flatMap encode, ?_, ?_⟩
  · rw [← flatMap_cons, ← flatMap_append, getElem_cons_drop, take_append_drop]
  · rw [length_flatMap_of_width fun other listed => widths other (mem_of_mem_take listed),
      length_take_of_le inside.le]

end

end HttpJet.Library
