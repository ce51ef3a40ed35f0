import HttpJet.Library.Runs
import HttpJet.PageCache.VarySpecs

/-!
# The accounting of the spec map

`Kept` holds in every run: the counters describe what the specs are charged, and
the filters know every spec.  Each call is first put as what it does to the map,
and the invariant follows from that.
-/

namespace HttpJet.PageCache

open Library Cache List Option Bool
open HashMap

variable {variantHash : UInt64} {walk : Walk UInt64}
variable (names : List Str)

/-! ## Costs -/

namespace Spec

variable {spec : Spec}

theorem cost_note_of_contains (known : spec.variants.contains variantHash = true) (nowMs : Nat)
    (newest : Instant) : (spec.note variantHash nowMs newest).cost = spec.cost := by
  obtain ⟨_, found⟩ := HashMap.contains_iff.mp known
  rw [cost, cost, note, size_put_of_get found]

theorem cost_note_of_new (unknown : spec.variants.contains variantHash = false) (nowMs : Nat)
    (newest : Instant) : (spec.note variantHash nowMs newest).cost = spec.cost + variantBytes := by
  rw [cost, cost, note, size_put_of_none (contains_eq_false.mp unknown)]
  rw [Nat.add_mul, Nat.one_mul, ← Nat.add_assoc]

theorem rename_same {names : List Str} (same : spec.names = names) : spec.rename names = spec :=
  if_pos same

theorem rename_changed {names : List Str} (changed : spec.names ≠ names) :
    spec.rename names = { spec with names := names, variants := ∅ } := if_neg changed

@[simp]
theorem charged_rename : (spec.rename names).charged = spec.charged := by
  rw [rename]
  split_ifs <;> rfl

@[simp]
theorem check_rename : (spec.rename names).check = spec.check := by
  rw [rename]
  split_ifs <;> rfl

@[simp]
theorem pathHash_rename : (spec.rename names).pathHash = spec.pathHash := by
  rw [rename]
  split_ifs <;> rfl

theorem size_rename_le : (spec.rename names).variants.size ≤ spec.variants.size := by
  rw [rename]
  split_ifs
  · exact le_rfl
  · exact Nat.zero_le _

theorem leastUsed_eq_none (nothing : spec.leastUsed walk = none) : spec.variants.size = 0 := by
  have empty := argmin_eq_none.mp nothing
  rw [← length_keys, ← (walk.perm spec.variants.keys).length_eq, empty]
  rfl

theorem leastUsed_found {hash : UInt64} (least : spec.leastUsed walk = some hash) :
    ∃ used, spec.variants.get hash = some used := by
  have member := (walk.perm spec.variants.keys).subset (argmin_mem least)
  exact HashMap.contains_iff.mp (HashMap.mem_keys.mp member)

end Spec

namespace UrlVarySpecs

theorem rechargedBytes_add {bytes charged : Nat} (spec : Spec) (same : spec.charged = charged)
    (covered : charged ≤ bytes) : rechargedBytes bytes spec + charged = bytes + spec.cost := by
  rw [rechargedBytes]
  split_ifs <;> omega

/-! ## What holds in every run -/

section

variable (baseCheck : PageCacheKey → UInt64)
variable {nowMs : Nat} {keep : UInt64} {resident : UInt64 → Bool}

/-- What is known of a spec in the map. -/
structure Listed (s : UrlVarySpecs) (hash : UInt64) (spec : Spec) : Prop where
  few : spec.variants.size ≤ maxVariants
  base : s.bases.test hash = true
  path : s.paths.test spec.pathHash = true
  origin : ∃ base : PageCacheKey, spec.check = baseCheck base ∧
    spec.pathHash = pathFilterHash base.vhostId base.path

structure Kept (s : UrlVarySpecs) : Prop where
  len : s.len = s.map.size
  bytes : s.bytes = HashMap.total (fun _ spec => spec.charged) s.map
  few : s.len ≤ maxSpecs
  listed : HashMap.All (Listed baseCheck s) s.map

variable {baseCheck} {s s' : UrlVarySpecs} {baseHash : UInt64} {old spec : Spec}

theorem Kept.new : Kept baseCheck new := ⟨rfl, rfl, Nat.zero_le _, HashMap.All.empty⟩

theorem Kept.charged_le (kept : Kept baseCheck s) (found : s.map.get baseHash = some spec) :
    spec.charged ≤ s.bytes := by
  rw [kept.bytes]
  exact @HashMap.le_total _ _ (fun _ spec => spec.charged) _ _ _ _ found

theorem Kept.remove (kept : Kept baseCheck s) (found : s.map.get baseHash = some spec) :
    Kept baseCheck (s.remove baseHash spec) where
  len := by
    have smaller := size_del_of_get found
    change s.len - 1 = (s.map.del baseHash).size
    rw [kept.len]
    omega
  bytes := by
    have removed :=
      @total_del_of_get UInt64 Spec (fun _ spec => spec.charged) _ _ _ _ found
    change s.bytes - spec.charged = HashMap.total _ (s.map.del baseHash)
    rw [kept.bytes]
    omega
  few := (Nat.sub_le ..).trans kept.few
  listed := (kept.listed.del baseHash).mono fun _ _ known =>
    ⟨known.few, known.base, known.path, known.origin⟩

section

variable (s : UrlVarySpecs) (baseHash : UInt64) (spec : Spec) (variantHash : UInt64) (nowMs : Nat)
  (newest : Instant)

theorem map_insert : (s.insert baseHash spec).map = s.map.put baseHash spec := rfl

theorem len_insert : (s.insert baseHash spec).len = s.len := by
  rw [insert, mark]

theorem bytes_insert : (s.insert baseHash spec).bytes = s.bytes := by
  rw [insert, mark]

theorem bases_insert : (s.insert baseHash spec).bases = s.bases.set baseHash := by
  rw [insert, mark]

theorem paths_insert : (s.insert baseHash spec).paths = s.paths.set spec.pathHash := by
  rw [insert, mark]

theorem len_admitNew : (s.admitNew baseHash spec).len = s.len + 1 := rfl

theorem bytes_admitNew : (s.admitNew baseHash spec).bytes = s.bytes + spec.cost := rfl

theorem len_enter : (s.enter baseHash spec variantHash nowMs newest).len = s.len := rfl

end

theorem Listed.insert {hash : UInt64} {other : Spec} (known : Listed baseCheck s hash other)
    (baseHash : UInt64) (spec : Spec) : Listed baseCheck (s.insert baseHash spec) hash other where
  few := known.few
  base := by
    exact BitFilter.test_set known.base _
  path := by
    exact BitFilter.test_set known.path _
  origin := known.origin

/-- A spec takes its slot: what is left to show is what the counters became. -/
theorem Kept.insert (kept : Kept baseCheck s) (len : s'.len = (s.map.put baseHash spec).size)
    (bytes : s'.bytes = HashMap.total (fun _ spec => spec.charged) (s.map.put baseHash spec))
    (few : s'.len ≤ maxSpecs) (map : s'.map = s.map) (bases : s'.bases = s.bases)
    (paths : s'.paths = s.paths) (variants : spec.variants.size ≤ maxVariants)
    (origin : ∃ base : PageCacheKey, spec.check = baseCheck base ∧
      spec.pathHash = pathFilterHash base.vhostId base.path) :
    Kept baseCheck (s'.insert baseHash spec) := by
  refine ⟨?_, ?_, ?_, ?_⟩
  · rw [len_insert, map_insert, map, len]
  · rw [bytes_insert, map_insert, map, bytes]
  · rw [len_insert]
    exact few
  · rw [map_insert, map]
    refine HashMap.All.put ?_ ⟨variants, ?_, ?_, origin⟩
    · refine (kept.listed.del baseHash).mono fun _ _ known => ?_
      have moved : Listed baseCheck s' _ _ :=
        ⟨known.few, bases ▸ known.base, paths ▸ known.path, known.origin⟩
      exact moved.insert baseHash spec
    · exact BitFilter.test_set_self ..
    · exact BitFilter.test_set_self ..

theorem Kept.admitNew (kept : Kept baseCheck s) (absent : s.map.get baseHash = none)
    (room : s.len < maxSpecs) (base : PageCacheKey) (names : List Str) (variantHash : UInt64)
    (nowMs : Nat) (newest : Instant) :
    Kept baseCheck (s.admitNew baseHash (Spec.first names (baseCheck base)
      (pathFilterHash base.vhostId base.path) variantHash nowMs newest)) := by
  refine kept.insert ?_ ?_ room rfl rfl rfl ?_ ⟨base, ?_, ?_⟩
  · rw [size_put_of_none absent, ← kept.len]
  · rw [total_put_of_none absent, ← kept.bytes]
    exact Nat.add_comm ..
  · rw [Spec.first, size_put_of_none (get_empty _)]
    decide
  · rw [Spec.first]
  · rw [Spec.first]

/-- A spec taken from its slot, to be put back by `enter`: `spec` is `old` with some
of its fields changed, and the bytes account for what it is charged. -/
structure Ready (s : UrlVarySpecs) (old : Spec) (s' : UrlVarySpecs) (spec : Spec) : Prop where
  map : s'.map = s.map
  len : s'.len = s.len
  bases : s'.bases = s.bases
  paths : s'.paths = s.paths
  bytes : s'.bytes + old.charged = s.bytes + spec.charged
  check : spec.check = old.check
  path : spec.pathHash = old.pathHash

theorem Ready.bytes_enter (ready : Ready s old s' spec) (covered : old.charged ≤ s.bytes)
    (baseHash variantHash : UInt64) (nowMs : Nat) (newest : Instant) :
    (s'.enter baseHash spec variantHash nowMs newest).bytes + old.charged =
      s.bytes + (spec.note variantHash nowMs newest).cost := by
  have before := ready.bytes
  have recharged : _ + spec.charged = s'.bytes + _ :=
    rechargedBytes_add (spec.note variantHash nowMs newest) rfl (by omega)
  rw [enter, recharge, bytes_insert]
  dsimp only
  omega

theorem Kept.enter (kept : Kept baseCheck s) (found : s.map.get baseHash = some old)
    (ready : Ready s old s' spec) {newest : Instant}
    (variants : (spec.note variantHash nowMs newest).variants.size ≤ maxVariants) :
    Kept baseCheck (s'.enter baseHash spec variantHash nowMs newest) := by
  have known := kept.listed baseHash old found
  refine kept.insert ?_ ?_ ?_ ready.map ready.bases ready.paths variants ?_
  · rw [size_put_of_get found, ← kept.len, ← ready.len]
  · have total := @total_put_of_get UInt64 Spec (fun _ spec => spec.charged) _ _ _ _ found
      { spec.note variantHash nowMs newest with
        charged := (spec.note variantHash nowMs newest).cost }
    have after := ready.bytes_enter (kept.charged_le found) baseHash variantHash nowMs newest
    rw [UrlVarySpecs.enter, recharge, bytes_insert] at after
    rw [← kept.bytes] at total
    dsimp only at total after ⊢
    omega
  · rw [ready.len]
    exact kept.few
  · obtain ⟨base, isCheck, isPath⟩ := known.origin
    exact ⟨base, ready.check.trans isCheck, ready.path.trans isPath⟩

theorem Kept.change (kept : Kept baseCheck s) (found : s.map.get baseHash = some old)
    (charged : spec.charged = old.charged) (check : spec.check = old.check)
    (path : spec.pathHash = old.pathHash) (variants : spec.variants.size ≤ maxVariants) :
    Kept baseCheck { s with map := s.map.put baseHash spec } where
  len := by
    rw [size_put_of_get found]
    exact kept.len
  bytes := by
    have total := @total_put_of_get UInt64 Spec (fun _ spec => spec.charged) _ _ _ _ found spec
    rw [kept.bytes]
    dsimp only at total ⊢
    omega
  few := kept.few
  listed := by
    have known := kept.listed baseHash old found
    obtain ⟨base, isCheck, isPath⟩ := known.origin
    refine HashMap.All.put ?_
      ⟨variants, known.base, path ▸ known.path, base, check.trans isCheck, path.trans isPath⟩
    exact (kept.listed.del baseHash).mono fun _ _ known =>
      ⟨known.few, known.base, known.path, known.origin⟩

/-- What a touch does to a spec. -/
def touched (nowMs : Nat) (variantHash : UInt64) (spec : Spec) : Spec :=
  { spec with
    touched := if stale nowMs spec.touched then nowMs else spec.touched
    variants := spec.variants.modify variantHash fun used =>
      if stale nowMs used then nowMs else used }

theorem size_modify (map : HashMap UInt64 Nat) (key : UInt64) (change : Nat → Nat) :
    (map.modify key change).size = map.size := by
  rw [HashMap.modify]
  cases found : map.get key with
  | none => rfl
  | some => exact size_put_of_get found _

theorem touch_eq (s : UrlVarySpecs) (nowMs : Nat) (baseHash variantHash : UInt64) :
    s.touch nowMs baseHash variantHash = s ∨ ∃ spec, s.map.get baseHash = some spec ∧
        s.touch nowMs baseHash variantHash =
          { s with map := s.map.put baseHash (touched nowMs variantHash spec) } := by
  rw [touch]
  split_ifs
  · rw [HashMap.modify]
    cases found : s.map.get baseHash with
    | none => exact .inl rfl
    | some spec => exact .inr ⟨spec, rfl, rfl⟩
  · exact .inl rfl

theorem Kept.touch (kept : Kept baseCheck s) (nowMs : Nat) (baseHash variantHash : UInt64) :
    Kept baseCheck (s.touch nowMs baseHash variantHash) := by
  rcases s.touch_eq nowMs baseHash variantHash with same | ⟨spec, found, changed⟩
  · rw [same]
    exact kept
  · rw [changed]
    refine kept.change found rfl rfl rfl ?_
    rw [touched, size_modify]
    exact (kept.listed baseHash spec found).few

variable (baseCheck) in
theorem dropSpec_eq (s : UrlVarySpecs) (base : PageCacheKey) (baseHash : UInt64) :
    (s.dropSpec baseCheck base baseHash).1 = s ∨ ∃ spec, s.map.get baseHash = some spec ∧
        (s.dropSpec baseCheck base baseHash).1 = s.remove baseHash spec := by
  rw [dropSpec]
  split_ifs
  · cases found : s.map.get baseHash with
    | none => exact .inl rfl
    | some spec =>
      dsimp only
      split_ifs
      · exact .inr ⟨spec, rfl, rfl⟩
      · exact .inl rfl
  · exact .inl rfl

variable (baseCheck) in
theorem scanPlain_eq (s : UrlVarySpecs) (r : Scan) : (s.scanPlain baseCheck r).1 = s ∨
      ∃ spec, s.map.get r.keyHash = some spec ∧
        (s.scanPlain baseCheck r).1 = s.remove r.keyHash spec := by
  rw [scanPlain]
  split_ifs
  · exact .inl rfl
  · cases found : s.map.get r.keyHash with
    | none => exact .inl rfl
    | some spec =>
      dsimp only
      split_ifs
      · exact .inr ⟨spec, rfl, rfl⟩
      · exact .inl rfl
      · exact .inl rfl

/-- The evictions that make room are removals. -/
theorem makeRoom_induction {P : UrlVarySpecs → Prop}
    (removes : ∀ (s : UrlVarySpecs) (victim : UInt64) (spec : Spec), P s → victim ≠ keep →
      s.map.get victim = some spec → P (s.remove victim spec))
    (walk : Walk UInt64) (cost fuel : Nat) (s : UrlVarySpecs) (holds : P s) :
    P (makeRoom walk keep cost fuel s).1 := by
  induction fuel generalizing s with
  | zero => exact holds
  | succ _ ih =>
    rw [makeRoom]
    split_ifs
    · cases evicted : s.evictOldest walk keep with
      | none => exact holds
      | some =>
        obtain ⟨victim, isOldest, result⟩ := map_eq_some_iff.mp evicted
        have member := mem_filter.mp (argmin_mem isOldest)
        have present := (walk.perm s.map.keys).subset member.1
        obtain ⟨spec, found⟩ := HashMap.contains_iff.mp (HashMap.mem_keys.mp present)
        rw [found] at result
        rw [← result]
        exact ih _ (removes s victim spec holds (of_decide_eq_true member.2) found)
    · exact holds

theorem makeRoom_absent (absent : s.map.get keep = none) (cost fuel : Nat) :
    (makeRoom walk keep cost fuel s).1.map.get keep = none := by
  have removes : ∀ (s : UrlVarySpecs) (victim : UInt64) (spec : Spec), s.map.get keep = none →
      victim ≠ keep → s.map.get victim = some spec →
        (s.remove victim spec).map.get keep = none := by
    intro s victim spec absent other _
    change (s.map.del victim).get keep = none
    rw [get_del_of_ne _ (Ne.symm other), absent]
  exact makeRoom_induction removes walk cost fuel s absent

theorem noRoom_eq_false {cost : Nat} :
    s.noRoom cost = false ↔ s.len < maxSpecs ∧ s.bytes + cost ≤ maxSpecBytes := by
  rw [noRoom, or_eq_false_iff, decide_eq_false_iff_not, decide_eq_false_iff_not,
    Nat.not_le, Nat.not_lt]

theorem cost_first (check pathHash variantHash : UInt64) (nowMs : Nat) (newest : Instant) :
    (Spec.first names check pathHash variantHash nowMs newest).cost = newCost names := by
  rw [Spec.cost, Spec.first, size_put_of_none (get_empty _), newCost]
  change specBytes + namesCost names + (0 + 1) * variantBytes = _
  omega

variable (baseCheck) in
/-- A vacant slot: evictions, and then a new spec if there is room for it. -/
theorem prepareVacant_eq (s : UrlVarySpecs) (p : Prepare) :
    ∃ roomy, roomy = (makeRoom p.walk p.baseHash (newCost p.names) (s.map.size + 1) s).1 ∧
      ((s.prepareVacant baseCheck p).1 = roomy ∨
        roomy.len < maxSpecs ∧ roomy.bytes + newCost p.names ≤ maxSpecBytes ∧
          (s.prepareVacant baseCheck p).1 = roomy.admitNew p.baseHash
            (Spec.first p.names (baseCheck p.base) (pathFilterHash p.base.vhostId p.base.path)
              p.variantHash p.nowMs p.now)) := by
  refine ⟨_, rfl, ?_⟩
  rw [prepareVacant]
  dsimp only
  cases room : UrlVarySpecs.noRoom
      (makeRoom p.walk p.baseHash (newCost p.names) (s.map.size + 1) s).1 (newCost p.names) with
  | true => exact .inl rfl
  | false =>
    obtain ⟨few, fits⟩ := noRoom_eq_false.mp room
    exact .inr ⟨few, fits, rfl⟩

variable (baseCheck) in
theorem scanVacant_eq (s : UrlVarySpecs) (r : Scan) (base : PageCacheKey) (baseHash : UInt64)
    (names : List Str) : (s.scanVacant baseCheck r base baseHash names).1 = s ∨
      s.len < maxSpecs ∧ s.bytes + newCost names ≤ maxSpecBytes ∧
        (s.scanVacant baseCheck r base baseHash names).1 = s.admitNew baseHash
          (Spec.first names (baseCheck base)
            (pathFilterHash base.vhostId base.path) r.keyHash r.nowMs
            r.storedAt) := by
  rw [scanVacant]
  split_ifs with older crowded
  · exact .inl rfl
  · exact .inl rfl
  · obtain ⟨few, fits⟩ := noRoom_eq_false.mp (eq_false_iff.mpr crowded)
    exact .inr ⟨few, fits, rfl⟩

/-! ## Changes of a spec in its slot -/

theorem Ready.rename (s : UrlVarySpecs) (old : Spec) (names : List Str) :
    Ready s old s (old.rename names) :=
  ⟨rfl, rfl, rfl, rfl, by rw [Spec.charged_rename], old.check_rename names,
    old.pathHash_rename names⟩

theorem Ready.retain (ready : Ready s old s spec) (covered : old.charged ≤ s.bytes)
    (resident : UInt64 → Bool) :
    Ready s old (s.recharge (spec.retain resident)).1 (s.recharge (spec.retain resident)).2 := by
  have before := ready.bytes
  have recharged : _ + spec.charged = s.bytes + _ :=
    rechargedBytes_add (spec.retain resident) rfl (by omega)
  refine ⟨rfl, rfl, rfl, rfl, ?_, ready.check, ready.path⟩
  change rechargedBytes s.bytes (spec.retain resident) + old.charged =
    s.bytes + (spec.retain resident).cost
  omega

theorem Ready.forget (ready : Ready s old s' spec) (hash : UInt64) :
    Ready s old s' { spec with variants := spec.variants.del hash } :=
  ⟨ready.map, ready.len, ready.bases, ready.paths, ready.bytes, ready.check, ready.path⟩

theorem full_eq_false : s.full spec = false ↔
      spec.variants.size < maxVariants ∧ s.bytes + variantBytes ≤ maxSpecBytes := by
  rw [full, or_eq_false_iff, decide_eq_false_iff_not, decide_eq_false_iff_not,
    Nat.not_le, Nat.not_lt]

theorem size_note_le (spec : Spec) (variantHash : UInt64) (nowMs : Nat) (newest : Instant) :
    (spec.note variantHash nowMs newest).variants.size ≤ spec.variants.size + 1 :=
  size_put_le ..

/-- The room made for a variant: in the end there is a slot for it among the variants. -/
theorem makeVariantRoom_ready (ready : Ready s old s spec) (covered : old.charged ≤ s.bytes)
    (few : spec.variants.size ≤ maxVariants) (walk : Walk UInt64) (resident : UInt64 → Bool) :
    Ready s old (s.makeVariantRoom walk resident spec).1
        (s.makeVariantRoom walk resident spec).2.1 ∧
      (s.makeVariantRoom walk resident spec).2.1.variants.size < maxVariants := by
  have retained := ready.retain covered resident
  have fewer : (spec.retain resident).variants.size ≤ maxVariants :=
    (size_filter_le ..).trans few
  rw [makeVariantRoom]
  dsimp only
  cases crowded : (s.recharge (spec.retain resident)).1.full
      (s.recharge (spec.retain resident)).2 with
  | false => exact ⟨retained, (full_eq_false.mp crowded).1⟩
  | true =>
    rw [if_pos rfl]
    cases least : (s.recharge (spec.retain resident)).2.leastUsed walk with
    | none =>
      refine ⟨retained, ?_⟩
      rw [Spec.leastUsed_eq_none least]
      decide
    | some hash =>
      obtain ⟨_, found⟩ := Spec.leastUsed_found least
      refine ⟨retained.forget hash, ?_⟩
      have smaller := size_del_of_get found
      change ((spec.retain resident).variants.del hash).size < maxVariants
      change ((spec.retain resident).variants.del hash).size + 1 =
        (spec.retain resident).variants.size at smaller
      omega

/-- An occupied slot takes a variant of the URL it belongs to. -/
theorem prepareOccupied_admits (kept : Kept baseCheck s) {p : Prepare}
    (found : s.map.get p.baseHash = some old) (same : old.check = baseCheck p.base) :
    ∃ s' spec, Ready s old s' spec ∧
      (spec.note p.variantHash p.nowMs p.now).variants.size ≤ maxVariants ∧
      (s.prepareOccupied baseCheck p old).1 =
        s'.enter p.baseHash spec p.variantHash p.nowMs p.now := by
  have ready := Ready.rename s old p.names
  have few := ((old.size_rename_le p.names).trans (kept.listed _ old found).few)
  rw [prepareOccupied, if_pos same]
  by_cases crowded :
      (!(old.rename p.names).variants.contains p.variantHash && s.full (old.rename p.names)) = true
  · rw [if_pos crowded]
    obtain ⟨roomy, small⟩ :=
      makeVariantRoom_ready ready (kept.charged_le found) few p.walk p.resident
    exact ⟨_, _, roomy, (size_note_le ..).trans small, rfl⟩
  · rw [if_neg crowded]
    refine ⟨s, old.rename p.names, ready, ?_, rfl⟩
    rw [and_eq_true, not_eq_true', not_and_or] at crowded
    rcases crowded with known | roomy
    · rw [not_eq_false] at known
      obtain ⟨_, present⟩ := HashMap.contains_iff.mp known
      rw [Spec.note, size_put_of_get present]
      exact few
    · rw [not_eq_true] at roomy
      exact (size_note_le ..).trans (full_eq_false.mp roomy).1

/-- What a scanned variant does to the slot of its URL. -/
theorem scanOccupied_cases (kept : Kept baseCheck s) (r : Scan) (base : PageCacheKey)
    (names : List Str) (found : s.map.get baseHash = some old) :
    ((old.check ≠ baseCheck base ∨ old.names ≠ names ∧ r.storedAt ≤ old.newest) ∧
        (s.scanOccupied baseCheck r base baseHash names old).1 = s) ∨
      (¬(old.names ≠ names ∧ r.storedAt ≤ old.newest) ∧ old.check = baseCheck base ∧
        (((old.rename names).variants.contains r.keyHash = false ∧
          s.full (old.rename names) = true ∧
            (s.scanOccupied baseCheck r base baseHash names old).1 =
              { s with map := s.map.put baseHash (old.rename names) }) ∨
          (((old.rename names).variants.contains r.keyHash = true ∨
            s.full (old.rename names) = false) ∧
            ((old.rename names).note r.keyHash r.nowMs
              (max old.newest r.storedAt)).variants.size ≤ maxVariants ∧
            (s.scanOccupied baseCheck r base baseHash names old).1 =
              s.enter baseHash (old.rename names) r.keyHash r.nowMs
                (max old.newest r.storedAt)))) := by
  have few := ((old.size_rename_le names).trans (kept.listed _ old found).few)
  rw [scanOccupied]
  split
  · rename_i same
    split_ifs with older
    · exact .inl ⟨.inr older, rfl⟩
    · refine .inr ⟨older, same, ?_⟩
      dsimp only
      cases known : (old.rename names).variants.contains r.keyHash with
      | true =>
        obtain ⟨_, present⟩ := HashMap.contains_iff.mp known
        refine .inr ⟨.inl rfl, ?_, rfl⟩
        rw [Spec.note, size_put_of_get present]
        exact few
      | false =>
        cases crowded : s.full (old.rename names) with
        | true => exact .inl ⟨rfl, rfl, rfl⟩
        | false =>
          exact .inr ⟨.inr rfl, (size_note_le ..).trans (full_eq_false.mp crowded).1, rfl⟩
  · rename_i same
    exact .inl ⟨.inl same, rfl⟩

/-! ## Walks over all specs -/

theorem foldl_uncharge (entries : List (Sigma fun _ : UInt64 => Spec)) (s : UrlVarySpecs) :
    (entries.foldl (fun s entry => s.uncharge entry.2) s).len = s.len - entries.length ∧
      (entries.foldl (fun s entry => s.uncharge entry.2) s).bytes =
        s.bytes - (entries.map fun entry => entry.2.charged).sum := by
  induction entries generalizing s with
  | nil => exact ⟨rfl, rfl⟩
  | cons entry rest ih =>
    obtain ⟨len, bytes⟩ := ih (s.uncharge entry.2)
    rw [foldl_cons, map_cons, sum_cons, length_cons, len, bytes]
    change s.len - 1 - rest.length = _ ∧ s.bytes - entry.2.charged - _ = _
    omega

theorem clear_counters (kept : Kept baseCheck s) : s.clear.len = 0 ∧ s.clear.bytes = 0 := by
  obtain ⟨len, bytes⟩ := foldl_uncharge s.map.entries s
  refine ⟨len.trans ?_, bytes.trans ?_⟩
  · rw [kept.len]
    exact Nat.sub_self _
  · rw [kept.bytes]
    exact Nat.sub_self _

theorem Kept.clear (kept : Kept baseCheck s) : Kept baseCheck s.clear := by
  obtain ⟨len, bytes⟩ := clear_counters kept
  refine ⟨len.trans rfl, bytes.trans rfl, ?_, HashMap.All.empty⟩
  rw [len]
  exact Nat.zero_le _

theorem keeps_pruned {spec kept : Spec} (survives : pruned nowMs resident spec = some kept) :
    kept = { spec.retain resident with charged := (spec.retain resident).cost } := by
  rw [pruned] at survives
  split_ifs at survives
  exact (some.inj survives).symm

/-- The walk of `prune` replaces what each spec is charged by what is left of it. -/
theorem foldl_pruneStep (nowMs : Nat) (resident : UInt64 → Bool)
    (entries : List (Sigma fun _ : UInt64 => Spec)) (s : UrlVarySpecs) (len bytes : Nat)
    (isLen : s.len = len + entries.length)
    (isBytes : s.bytes = bytes + (entries.map fun entry => entry.2.charged).sum) :
    (entries.foldl (pruneStep nowMs resident) s).len =
        len + (entries.map fun entry => (pruned nowMs resident entry.2).elim 0 fun _ => 1).sum ∧
      (entries.foldl (pruneStep nowMs resident) s).bytes =
        bytes +
          (entries.map fun entry => (pruned nowMs resident entry.2).elim 0 Spec.charged).sum := by
  induction entries generalizing s len bytes with
  | nil => exact ⟨isLen, isBytes⟩
  | cons entry _ ih =>
    simp only [map_cons, sum_cons, length_cons, foldl_cons] at isLen isBytes ⊢
    have recharged : _ + entry.2.charged = s.bytes + _ :=
      rechargedBytes_add (entry.2.retain resident) rfl (by omega)
    by_cases survives : keeps nowMs (entry.2.retain resident) = true
    · have step : pruneStep nowMs resident s entry = (s.recharge (entry.2.retain resident)).1 :=
        if_pos survives
      have left : pruned nowMs resident entry.2 =
          some { entry.2.retain resident with charged := (entry.2.retain resident).cost } :=
        if_pos survives
      rw [step, left]
      have next := ih (s.recharge (entry.2.retain resident)).1 (len + 1)
        (bytes + (entry.2.retain resident).cost) (by change s.len = _; omega)
        (by change rechargedBytes s.bytes (entry.2.retain resident) = _; omega)
      simp only [elim_some]
      omega
    · have step : pruneStep nowMs resident s entry = s.uncharge (entry.2.retain resident) :=
        if_neg survives
      have left : pruned nowMs resident entry.2 = none := if_neg survives
      rw [step, left]
      have next := ih (s.uncharge (entry.2.retain resident)) len bytes
        (by change s.len - 1 = _; omega) (by change s.bytes - entry.2.charged = _; omega)
      simp only [elim_none]
      omega

theorem prune_of_empty (empty : s.isEmpty = true) : (s.prune nowMs resident).1 = s := by
  rw [prune, if_pos empty]

/-- What `prune` leaves in the map. -/
def survivors (s : UrlVarySpecs) (nowMs : Nat) (resident : UInt64 → Bool) : HashMap UInt64 Spec :=
  HashMap.filterMap (fun _ spec => pruned nowMs resident spec) s.map

theorem get_survivors (found : (s.survivors nowMs resident).get baseHash = some spec) :
    ∃ old, s.map.get baseHash = some old ∧
      spec = { old.retain resident with charged := (old.retain resident).cost } := by
  rw [survivors, get_filterMap, bind_eq_some_iff] at found
  obtain ⟨old, present, survives⟩ := found
  exact ⟨old, present, keeps_pruned survives⟩

theorem prune_eq (kept : Kept baseCheck s) (nowMs : Nat) (resident : UInt64 → Bool)
    (nonempty : s.isEmpty = false) : (s.prune nowMs resident).1.map = s.survivors nowMs resident ∧
      (s.prune nowMs resident).1.len = (s.survivors nowMs resident).size ∧
      (s.prune nowMs resident).1.bytes =
        HashMap.total (fun _ spec => spec.charged) (s.survivors nowMs resident) ∧
      (s.prune nowMs resident).1.bases = s.bases.rebuild (s.survivors nowMs resident).keys ∧
      (s.prune nowMs resident).1.paths =
        s.paths.rebuild
          ((s.survivors nowMs resident).entries.map fun entry => entry.2.pathHash) := by
  obtain ⟨len, bytes⟩ := foldl_pruneStep nowMs resident s.map.entries s 0 0
    (by rw [Nat.zero_add, kept.len]; rfl) (by rw [Nat.zero_add, kept.bytes]; rfl)
  have result : s.prune nowMs resident = _ := if_neg (by rw [nonempty]; exact false_ne_true)
  rw [Nat.zero_add] at len bytes
  rw [result]
  refine ⟨rfl, len.trans ?_, bytes.trans ?_, rfl, rfl⟩
  · rw [size_eq_total, survivors, total_filterMap]
    rfl
  · rw [survivors, total_filterMap]
    rfl

theorem Kept.prune (kept : Kept baseCheck s) (nowMs : Nat) (resident : UInt64 → Bool) :
    Kept baseCheck (s.prune nowMs resident).1 := by
  cases empty : s.isEmpty with
  | true =>
    rw [prune_of_empty empty]
    exact kept
  | false =>
    obtain ⟨map, len, bytes, bases, paths⟩ := prune_eq kept nowMs resident empty
    refine ⟨by rw [len, map], by rw [bytes, map], ?_, ?_⟩
    · have fewer : (s.survivors nowMs resident).size ≤ s.map.size := by
        rw [size_eq_total, size_eq_total, survivors, total_filterMap]
        refine total_le_total fun hash spec _ => ?_
        cases pruned nowMs resident spec with
        | none => exact Nat.zero_le 1
        | some => exact le_rfl
      rw [len]
      exact fewer.trans (kept.len ▸ kept.few)
    · rw [map]
      intro hash spec found
      obtain ⟨old, present, rfl⟩ := get_survivors found
      have known := kept.listed hash old present
      refine ⟨(size_filter_le ..).trans known.few, ?_, ?_, known.origin⟩
      · rw [bases]
        exact BitFilter.test_rebuild _ (HashMap.mem_keys.mpr (HashMap.contains_iff.mpr ⟨_, found⟩))
      · rw [paths]
        exact BitFilter.test_rebuild _ (mem_map.mpr ⟨⟨hash, _⟩, AList.mem_lookup_iff.mp found, rfl⟩)

theorem Kept.makeRoom (kept : Kept baseCheck s) (walk : Walk UInt64) (keep : UInt64)
    (cost fuel : Nat) : Kept baseCheck (makeRoom walk keep cost fuel s).1 :=
  makeRoom_induction (fun _ _ _ kept _ found => kept.remove found) walk cost fuel s kept

theorem Kept.prepare (kept : Kept baseCheck s) (p : Prepare) :
    Kept baseCheck (s.prepare baseCheck p).1 := by
  rw [UrlVarySpecs.prepare]
  cases found : s.map.get p.baseHash with
  | none =>
    obtain ⟨roomy, isRoomy, result⟩ := s.prepareVacant_eq baseCheck p
    have kept' : Kept baseCheck roomy := isRoomy ▸ kept.makeRoom ..
    have absent : roomy.map.get p.baseHash = none := isRoomy ▸ makeRoom_absent found ..
    rcases result with refused | ⟨few, -, admitted⟩
    · rw [refused]
      exact kept'
    · rw [admitted]
      exact kept'.admitNew absent few ..
  | some old =>
    dsimp only
    by_cases same : old.check = baseCheck p.base
    · obtain ⟨_, _, ready, few, admitted⟩ := prepareOccupied_admits kept found same
      rw [admitted]
      exact kept.enter found ready few
    · rw [prepareOccupied, if_neg same]
      exact kept

theorem Kept.registerScanned (kept : Kept baseCheck s) (r : Scan) :
    Kept baseCheck (s.registerScanned baseCheck r).1 := by
  rw [UrlVarySpecs.registerScanned]
  cases UrlVary.split r.key with
  | none =>
    rcases s.scanPlain_eq baseCheck r with same | ⟨_, found, removed⟩
    · rw [same]
      exact kept
    · rw [removed]
      exact kept.remove found
  | some parts =>
    obtain ⟨base, names⟩ := parts
    dsimp only
    cases found : s.map.get (r.hashOf base) with
    | none =>
      rcases s.scanVacant_eq baseCheck r base (r.hashOf base) names with
        same | ⟨few, -, admitted⟩
      · rw [same]
        exact kept
      · rw [admitted]
        exact kept.admitNew found few ..
    | some old =>
      rcases scanOccupied_cases kept r base names found with
        ⟨-, same⟩ | ⟨-, -, ⟨-, -, renamed⟩ | ⟨-, few, admitted⟩⟩
      · rw [same]
        exact kept
      · rw [renamed]
        exact kept.change found (old.charged_rename names) (old.check_rename names)
          (old.pathHash_rename names)
          ((old.size_rename_le names).trans (kept.listed _ old found).few)
      · rw [admitted]
        exact kept.enter found (Ready.rename s old names) few

theorem Kept.step (kept : Kept baseCheck s) (call : Call) :
    Kept baseCheck (s.step baseCheck call) := by
  cases call with
  | prepare p => exact kept.prepare p
  | touch nowMs baseHash variantHash => exact kept.touch nowMs baseHash variantHash
  | confirm => exact kept
  | dropSpec base baseHash =>
    rcases s.dropSpec_eq baseCheck base baseHash with same | ⟨_, found, removed⟩
    · rw [UrlVarySpecs.step, same]
      exact kept
    · rw [UrlVarySpecs.step, removed]
      exact kept.remove found
  | registerScanned r => exact kept.registerScanned r
  | prune nowMs resident => exact kept.prune nowMs resident
  | clear => exact kept.clear

end

end UrlVarySpecs

end HttpJet.PageCache
