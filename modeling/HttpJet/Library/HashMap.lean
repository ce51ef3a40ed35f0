import Mathlib.Data.List.AList
import Mathlib.Algebra.BigOperators.Group.Finset.Basic
import Mathlib.Algebra.Order.BigOperators.Group.List
import Mathlib.Algebra.Order.Ring.Nat

/-!
# Hash maps

A hash map as an association list without repeated keys.  `total f` sums a measure over the entries,
and every update says what it does to a total.
-/

namespace HttpJet.Library

open List

/-- A map with at most one value for each key. -/
abbrev HashMap (κ ν : Type) := AList fun _ : κ => ν

namespace HashMap

variable {κ ν ν' : Type} {measure : κ → ν → Nat} {key : κ} {value : ν}

/-- Change every value. -/
def mapValues (map : HashMap κ ν) (change : ν → ν') : HashMap κ ν' where
  entries := map.entries.map fun entry => ⟨entry.1, change entry.2⟩
  nodupKeys := by
    rw [List.NodupKeys, List.keys, List.map_map]
    exact map.nodupKeys

theorem keys_filterMap_sublist (change : κ → ν → Option ν')
    (entries : List (Sigma fun _ : κ => ν)) :
    (keys (entries.filterMap fun entry =>
      (change entry.1 entry.2).map fun value => (⟨entry.1, value⟩ : Sigma fun _ : κ => ν'))).Sublist
      entries.keys := by
  induction entries with
  | nil => exact List.Sublist.refl _
  | cons entry _ ih =>
    cases kept : change entry.1 entry.2 with
    | none =>
      rw [filterMap_cons_none (by rw [kept]; rfl)]
      exact ih.cons _
    | some =>
      rw [filterMap_cons_some (by rw [kept]; rfl)]
      exact ih.cons_cons entry.1

/-- Change the values of some entries and drop the others. -/
def filterMap (change : κ → ν → Option ν') (map : HashMap κ ν) : HashMap κ ν' where
  entries := map.entries.filterMap fun entry =>
    (change entry.1 entry.2).map fun value => ⟨entry.1, value⟩
  nodupKeys := List.Nodup.sublist (keys_filterMap_sublist change map.entries) map.nodupKeys

/-- Keep the entries a test accepts. -/
def filter (keep : κ → ν → Bool) (map : HashMap κ ν) : HashMap κ ν :=
  filterMap (fun key value => if keep key value then some value else none) map

/-- The sum of a measure over the entries. -/
def total (measure : κ → ν → Nat) (map : HashMap κ ν) : Nat :=
  (map.entries.map fun entry => measure entry.1 entry.2).sum

/-- The number of entries. -/
def size (map : HashMap κ ν) : Nat := map.entries.length

theorem mapValues_of_same (map : HashMap κ ν) {change : ν → ν}
    (same : ∀ value, change value = value) :
    map.mapValues change = map := by
  refine AList.ext ?_
  change (map.entries.map fun entry => ⟨entry.1, change entry.2⟩) = map.entries
  simp [same]

@[simp]
theorem total_empty (measure : κ → ν → Nat) : total measure (∅ : HashMap κ ν) = 0 := rfl

theorem size_eq_total (map : HashMap κ ν) : map.size = total (fun _ _ => 1) map := by
  simp [size, total]

theorem size_mapValues (map : HashMap κ ν) (change : ν → ν') :
    (map.mapValues change).size = map.size := by
  simp [size, mapValues]

theorem total_mapValues (measure : κ → ν' → Nat) (map : HashMap κ ν) (change : ν → ν') :
    total measure (map.mapValues change) =
      total (fun key value => measure key (change value)) map := by
  simp [total, mapValues, Function.comp_def]

theorem total_filterMap (measure : κ → ν' → Nat) (change : κ → ν → Option ν') (map : HashMap κ ν) :
    total measure (filterMap change map) =
      total (fun key value => (change key value).elim 0 (measure key)) map := by
  have sums (entries : List (Sigma fun _ : κ => ν)) : ((entries.filterMap fun entry =>
          (change entry.1 entry.2).map fun value => (⟨entry.1, value⟩ : Sigma fun _ : κ => ν')).map
        fun entry => measure entry.1 entry.2).sum =
        (entries.map fun entry => (change entry.1 entry.2).elim 0 (measure entry.1)).sum := by
    induction entries with
    | nil => rfl
    | cons entry _ ih =>
      cases kept : change entry.1 entry.2 with
      | none =>
        rw [filterMap_cons_none (by rw [kept]; rfl), ih, map_cons, sum_cons, kept,
          Option.elim_none, Nat.zero_add]
      | some =>
        rw [filterMap_cons_some (by rw [kept]; rfl), map_cons, sum_cons, ih,
          map_cons, sum_cons, kept, Option.elim_some]
  exact sums map.entries

theorem total_le_size (small : ∀ key value, measure key value ≤ 1) (map : HashMap κ ν) :
    total measure map ≤ map.size := by
  rw [size_eq_total]
  exact sum_le_sum fun entry _ => small entry.1 entry.2

theorem length_keys (map : HashMap κ ν) : map.keys.length = map.size := by
  rw [AList.keys, keys, length_map, size]

variable [DecidableEq κ] {map : HashMap κ ν}

def get (map : HashMap κ ν) (key : κ) : Option ν := map.lookup key

def put (map : HashMap κ ν) (key : κ) (value : ν) : HashMap κ ν := AList.insert key value map

def del (map : HashMap κ ν) (key : κ) : HashMap κ ν := AList.erase key map

/-- Change the value of a key that is present. -/
def modify (map : HashMap κ ν) (key : κ) (change : ν → ν) : HashMap κ ν :=
  match map.get key with
  | some value => map.put key (change value)
  | none => map

def contains (map : HashMap κ ν) (key : κ) : Bool := (map.get key).isSome

@[simp]
theorem get_empty (key : κ) : get (∅ : HashMap κ ν) key = none := AList.lookup_empty key

section

variable (map)

@[simp]
theorem get_put_self (key : κ) (value : ν) :
    (map.put key value).get key = some value := AList.lookup_insert map

theorem get_put_of_ne {other : κ} (ne : other ≠ key) (value : ν) :
    (map.put key value).get other = map.get other := AList.lookup_insert_ne ne

@[simp]
theorem get_del_self (key : κ) : (map.del key).get key = none :=
  AList.lookup_erase key map

theorem get_del_of_ne {other : κ} (ne : other ≠ key) :
    (map.del key).get other = map.get other := AList.lookup_erase_ne ne

theorem get_put (key other : κ) (value : ν) :
    (map.put key value).get other = if other = key then some value else map.get other := by
  split
  · next same => rw [same, get_put_self]
  · next ne => exact get_put_of_ne map ne value

theorem get_del (key other : κ) :
    (map.del key).get other = if other = key then none else map.get other := by
  split
  · next same => rw [same, get_del_self]
  · next ne => exact get_del_of_ne map ne

@[simp]
theorem put_put (key : κ) (old value : ν) :
    (map.put key old).put key value = map.put key value := AList.insert_insert map

end

theorem del_of_none (absent : map.get key = none) : map.del key = map := by
  have missing : key ∉ map.keys := AList.lookup_eq_none.mp absent
  exact AList.ext (kerase_of_notMem_keys missing)

section

variable (map)

@[simp]
theorem del_put (key : κ) (value : ν) : (map.put key value).del key = map.del key := by
  refine AList.ext ?_
  exact kerase_cons_eq rfl

theorem put_del (key : κ) (value : ν) : (map.del key).put key value = map.put key value := by
  have erased := congrArg AList.entries (del_of_none (get_del_self map key))
  refine AList.ext ?_
  exact congrArg (cons _) erased

@[simp]
theorem del_del (key : κ) : (map.del key).del key = map.del key :=
  del_of_none (get_del_self map key)

theorem get_modify (key other : κ) (change : ν → ν) : (map.modify key change).get other =
      if other = key then (map.get key).map change else map.get other := by
  rw [modify]
  cases found : map.get key with
  | none =>
    by_cases same : other = key
    · rw [if_pos same, same, found]
      rfl
    · rw [if_neg same]
  | some => rw [get_put]; rfl

theorem get_mapValues (change : ν → ν') (key : κ) :
    (map.mapValues change).get key = (map.get key).map change := by
  have entries (list : List (Sigma fun _ : κ => ν)) :
      dlookup key (list.map fun entry => (⟨entry.1, change entry.2⟩ : Sigma fun _ : κ => ν')) =
        (dlookup key list).map change := by
    induction list with
    | nil => rfl
    | cons entry _ ih =>
      obtain ⟨first, _⟩ := entry
      by_cases same : key = first
      · subst same
        rw [map_cons, dlookup_cons_eq, dlookup_cons_eq]
        rfl
      · rw [map_cons, dlookup_cons_ne _ _ same, dlookup_cons_ne _ _ same, ih]
  exact entries map.entries

theorem contains_mapValues (change : ν → ν') (key : κ) :
    (map.mapValues change).contains key = map.contains key := by
  rw [contains, contains, get_mapValues, Option.isSome_map]

end

theorem get_filterMap (change : κ → ν → Option ν') (map : HashMap κ ν) (key : κ) :
    (filterMap change map).get key = (map.get key).bind (change key) := by
  refine Option.ext fun value => ?_
  have found : value ∈ (filterMap change map).get key ↔
      (⟨key, value⟩ : Sigma fun _ : κ => ν') ∈ (filterMap change map).entries :=
    AList.mem_lookup_iff
  refine found.trans ?_
  simp only [filterMap, mem_filterMap, Option.bind_eq_some_iff, Option.map_eq_some_iff]
  constructor
  · rintro ⟨⟨_, old⟩, member, _, kept, same⟩
    cases same
    exact ⟨old, AList.mem_lookup_iff.mpr member, kept⟩
  · rintro ⟨old, present, kept⟩
    exact ⟨⟨key, old⟩, AList.mem_lookup_iff.mp present, value, kept, rfl⟩

theorem get_filter (keep : κ → ν → Bool) (map : HashMap κ ν) (key : κ) :
    (filter keep map).get key = (map.get key).filter (keep key) := by
  rw [filter, get_filterMap]
  cases map.get key with
  | none => rfl
  | some => rw [Option.bind_some, Option.filter_some]

theorem kerase_cons_self (key : κ) (value : ν) (rest : List (Sigma fun _ : κ => ν)) :
    kerase key (⟨key, value⟩ :: rest) = rest :=
  kerase_cons_eq rfl

theorem mapValues_del (map : HashMap κ ν) (change : ν → ν') (key : κ) :
    (map.del key).mapValues change = (map.mapValues change).del key := by
  have entries (list : List (Sigma fun _ : κ => ν)) :
      (kerase key list).map (fun entry => (⟨entry.1, change entry.2⟩ : Sigma fun _ : κ => ν')) =
        kerase key (list.map fun entry => ⟨entry.1, change entry.2⟩) := by
    induction list with
    | nil => rfl
    | cons entry rest ih =>
      obtain ⟨first, value⟩ := entry
      by_cases same : key = first
      · subst same
        rw [map_cons, kerase_cons_self, kerase_cons_self]
      · rw [map_cons, kerase_cons_ne same, map_cons, kerase_cons_ne same, ih]
  exact AList.ext (entries map.entries)

theorem mapValues_put (map : HashMap κ ν) (change : ν → ν') (key : κ) (value : ν) :
    (map.put key value).mapValues change = (map.mapValues change).put key (change value) := by
  have erased := congrArg AList.entries (mapValues_del map change key)
  refine AList.ext ?_
  change ((AList.insert key value map).entries.map fun entry => ⟨entry.1, change entry.2⟩) =
    (AList.insert key (change value) (map.mapValues change)).entries
  exact congrArg (cons _) erased

theorem contains_iff : map.contains key = true ↔ ∃ value, map.get key = some value :=
  Option.isSome_iff_exists

theorem contains_eq_false : map.contains key = false ↔ map.get key = none := by
  rw [contains, Option.isSome_eq_false_iff, Option.isNone_iff_eq_none]

theorem contains_put (map : HashMap κ ν) (key other : κ) (value : ν) :
    (map.put key value).contains other = (decide (other = key) || map.contains other) := by
  rw [contains, get_put]
  split_ifs with same
  · rw [decide_eq_true same]
    rfl
  · rw [decide_eq_false same]
    rfl

theorem contains_put_of_contains (known : map.contains key = true) {other : κ} :
    (map.put key value).contains other = map.contains other := by
  rw [contains_put, Bool.or_eq_right_iff_imp, decide_eq_true_iff]
  rintro rfl
  exact known

theorem contains_del (map : HashMap κ ν) (key other : κ) :
    (map.del key).contains other = (!decide (other = key) && map.contains other) := by
  rw [contains, get_del]
  split_ifs with same
  · rw [decide_eq_true same]
    rfl
  · rw [decide_eq_false same]
    rfl

theorem mem_keys : key ∈ map.keys ↔ map.contains key = true := by
  rw [contains, get, AList.lookup_isSome]
  rfl

/-- Where an entry comes from. -/
theorem get_of_put {value' : ν} (found : (map.put key value).get other = some value') :
    other = key ∧ value = value' ∨ other ≠ key ∧ map.get other = some value' := by
  rw [get_put] at found
  split_ifs at found with same
  · exact .inl ⟨same, Option.some.inj found⟩
  · exact .inr ⟨same, found⟩

theorem get_of_del (found : (map.del key).get other = some value) :
    other ≠ key ∧ map.get other = some value := by
  rw [get_del] at found
  split_ifs at found with same
  exact ⟨same, found⟩

/-! ## Properties of every entry -/

/-- Every entry has a property. -/
def All (P : κ → ν → Prop) (map : HashMap κ ν) : Prop :=
  ∀ key value, map.get key = some value → P key value

namespace All

variable {P Q : κ → ν → Prop}

theorem empty : All P (∅ : HashMap κ ν) := fun _ _ found => nomatch found

theorem del (all : All P map) (key : κ) : All P (map.del key) :=
  fun other value found => all other value (get_of_del found).2

/-- A value joins entries that have the property. -/
theorem put (rest : All P (map.del key)) (holds : P key value) : All P (map.put key value) := by
  intro other value' found
  rcases get_of_put found with ⟨rfl, rfl⟩ | ⟨apart, found⟩
  · exact holds
  · exact rest other value' ((get_del_of_ne map apart).trans found)

theorem mono (all : All P map) (implies : ∀ key value, P key value → Q key value) : All Q map :=
  fun key value found => implies key value (all key value found)

end All

/-! ## Totals -/

theorem sum_kerase (measure : κ → ν → Nat) (key : κ) (entries : List (Sigma fun _ : κ => ν)) :
    ((kerase key entries).map fun entry => measure entry.1 entry.2).sum +
      (dlookup key entries).elim 0 (measure key) =
      (entries.map fun entry => measure entry.1 entry.2).sum := by
  induction entries with
  | nil => rfl
  | cons entry rest =>
    obtain ⟨first, value⟩ := entry
    by_cases same : key = first
    · subst same
      rw [kerase_cons_self, dlookup_cons_eq]
      simp only [Option.elim_some, map_cons, sum_cons]
      omega
    · rw [kerase_cons_ne same, dlookup_cons_ne _ _ same]
      simp only [map_cons, sum_cons]
      omega

theorem total_del (measure : κ → ν → Nat) (map : HashMap κ ν) (key : κ) :
    total measure (map.del key) + (map.get key).elim 0 (measure key) = total measure map :=
  sum_kerase measure key map.entries

theorem total_del_of_get (found : map.get key = some value) :
    total measure (map.del key) + measure key value = total measure map := by
  have removed := total_del measure map key
  rwa [found] at removed

theorem total_put (measure : κ → ν → Nat) (map : HashMap κ ν) (key : κ) (value : ν) :
    total measure (map.put key value) = measure key value + total measure (map.del key) := by
  have entries : (AList.erase key map).entries = kerase key map.entries := rfl
  simp [total, put, del, AList.entries_insert, entries]

theorem total_put_of_none (absent : map.get key = none) (value : ν) :
    total measure (map.put key value) = measure key value + total measure map := by
  have removed := total_del measure map key
  rw [absent] at removed
  rw [total_put, ← removed]
  rfl

theorem total_put_of_get {old : ν} (found : map.get key = some old) (value : ν) :
    total measure (map.put key value) + measure key old = measure key value +
      total measure map := by
  rw [total_put, Nat.add_assoc, total_del_of_get found]

theorem total_eq_zero
    (zero : ∀ key value, map.get key = some value → measure key value = 0) :
    total measure map = 0 := by
  refine sum_eq_zero fun n member => ?_
  obtain ⟨entry, here, rfl⟩ := mem_map.mp member
  exact zero entry.1 entry.2 (AList.mem_lookup_iff.mpr here)

theorem total_le_total {measure' : κ → ν → Nat}
    (le : ∀ key value, map.get key = some value → measure key value ≤ measure' key value) :
    total measure map ≤ total measure' map :=
  sum_le_sum fun entry member => le entry.1 entry.2 (AList.mem_lookup_iff.mpr member)

theorem size_filter_le (keep : κ → ν → Bool) (map : HashMap κ ν) :
    (filter keep map).size ≤ map.size := by
  rw [size_eq_total, size_eq_total, filter, total_filterMap]
  refine total_le_total fun key value _ => ?_
  cases keep key value with
  | true => exact le_rfl
  | false => exact Nat.zero_le 1

theorem size_del_le (map : HashMap κ ν) (key : κ) : (map.del key).size ≤ map.size := by
  rw [size_eq_total, size_eq_total, ← total_del _ map key]
  exact Nat.le_add_right ..

theorem size_del_of_get (found : map.get key = some value) :
    (map.del key).size + 1 = map.size := by
  rw [size_eq_total, size_eq_total]
  exact total_del_of_get found

theorem size_put_le (map : HashMap κ ν) (key : κ) (value : ν) :
    (map.put key value).size ≤ map.size + 1 := by
  have smaller := size_del_le map key
  rw [size_eq_total] at smaller ⊢
  rw [total_put]
  omega

theorem size_put_of_get {old : ν} (found : map.get key = some old) (value : ν) :
    (map.put key value).size = map.size := by
  rw [size_eq_total, size_eq_total]
  exact Nat.add_right_cancel ((total_put_of_get found value).trans (Nat.add_comm ..))

theorem size_put_of_none (absent : map.get key = none) (value : ν) :
    (map.put key value).size = map.size + 1 := by
  rw [size_eq_total, size_eq_total, total_put_of_none absent, Nat.add_comm]

/-- A total depends on what the keys map to only. -/
theorem total_congr {measure : ν → Nat} {measure' : ν' → Nat} {map' : HashMap κ ν'}
    (same : ∀ key, (map.get key).map measure = (map'.get key).map measure') :
    total (fun _ => measure) map = total (fun _ => measure') map' := by
  have perm : List.Perm (map.mapValues measure).entries (map'.mapValues measure').entries := by
    refine lookup_ext (map.mapValues measure).nodupKeys (map'.mapValues measure').nodupKeys
      fun key value => ?_
    change value ∈ (map.mapValues measure).get key ↔ value ∈ (map'.mapValues measure').get key
    rw [get_mapValues, get_mapValues, same]
  have sums := (perm.map fun entry => entry.2).sum_eq
  simpa only [total, mapValues, map_map, Function.comp_def] using sums

theorem total_eq_sum_keys (measure : κ → ν → Nat) (map : HashMap κ ν) :
    total measure map = (map.keys.map fun key => (map.get key).elim 0 (measure key)).sum := by
  rw [total, AList.keys, keys, map_map]
  refine congrArg sum (map_congr_left fun entry member => ?_)
  have found : map.get entry.1 = some entry.2 := AList.mem_lookup_iff.mpr member
  rw [Function.comp_apply, found]
  rfl

/-- A total is the sum over any keys that include those of the map. -/
theorem total_eq_sum_of_contains (measure : κ → ν → Nat) {other : HashMap κ ν'}
    (includes : ∀ key, map.contains key = true → other.contains key = true) :
    total measure map = (other.keys.map fun key => (map.get key).elim 0 (measure key)).sum := by
  rw [total_eq_sum_keys, ← sum_toFinset _ map.keys_nodup, ← sum_toFinset _ other.keys_nodup]
  refine Finset.sum_subset ?_ ?_
  · intro key listed
    rw [mem_toFinset, mem_keys] at listed ⊢
    exact includes key listed
  · intro key _ absent
    rw [mem_toFinset, mem_keys, Bool.not_eq_true, contains_eq_false] at absent
    rw [absent]
    rfl

/-- One entry's measure is part of the total. -/
theorem le_total (found : map.get key = some value) :
    measure key value ≤ total measure map := by
  have removed : _ + measure key value = total measure map := total_del_of_get found
  omega

end HashMap

end HttpJet.Library
