import HttpJet.PageCache.VaryAccounts

/-!
# The bounds of the spec map

That specs are charged what they cost, within the bound on bytes, depends on the calls that change a
spec in its slot.  The map is in order along a run exactly when every call of it `Fits`.
-/

namespace HttpJet.PageCache.UrlVarySpecs

open Library Cache List
open HashMap

variable {s s' : UrlVarySpecs} {baseHash : UInt64} {old spec : Spec}
variable {variantHash : UInt64}

/-! ## Bytes after a change in place -/

theorem cost_eq_of_size {spec other : Spec} (names : spec.names = other.names)
    (size : spec.variants.size = other.variants.size) : spec.cost = other.cost := by
  rw [Spec.cost, Spec.cost, names, size]

theorem contains_retain (new : spec.variants.contains variantHash = false)
    (resident : UInt64 → Bool) : (spec.retain resident).variants.contains variantHash = false := by
  rw [contains_eq_false] at new ⊢
  rw [Spec.retain, get_filter, new, Option.filter_none]

theorem cost_makeVariantRoom (s : UrlVarySpecs) (walk : Walk UInt64) (resident : UInt64 → Bool)
    (new : spec.variants.contains variantHash = false) (nowMs : Nat) (newest : Instant) :
    ((s.makeVariantRoom walk resident spec).2.1.note variantHash nowMs newest).cost =
        (spec.retain resident).cost + variantBytes ∧ ((spec.retain resident).variants.size = 0 ∨
            (s.recharge (spec.retain resident)).1.bytes + variantBytes ≤ maxSpecBytes) ∨
      ((s.makeVariantRoom walk resident spec).2.1.note variantHash nowMs newest).cost =
          (spec.retain resident).cost ∧ (spec.retain resident).variants.size ≠ 0 := by
  have unknown : (s.recharge (spec.retain resident)).2.variants.contains variantHash = false :=
    contains_retain new resident
  have grown : ((s.recharge (spec.retain resident)).2.note variantHash nowMs newest).cost =
      (spec.retain resident).cost + variantBytes := Spec.cost_note_of_new unknown nowMs newest
  rw [makeVariantRoom]
  dsimp only
  cases crowded : (s.recharge (spec.retain resident)).1.full
      (s.recharge (spec.retain resident)).2 with
  | false => exact .inl ⟨grown, .inr (full_eq_false.mp crowded).2⟩
  | true =>
    cases least : (s.recharge (spec.retain resident)).2.leastUsed walk with
    | none => exact .inl ⟨grown, .inl (Spec.leastUsed_eq_none least)⟩
    | some hash =>
      obtain ⟨_, found⟩ := Spec.leastUsed_found least
      have smaller := size_del_of_get found
      refine .inr ⟨?_, ?_⟩
      · have missing : ((spec.retain resident).variants.del hash).get variantHash = none := by
          rw [get_del, contains_eq_false.mp (contains_retain new resident), ite_self]
        refine cost_eq_of_size rfl ?_
        change (((spec.retain resident).variants.del hash).put variantHash nowMs).size = _
        rw [size_put_of_none missing]
        exact smaller
      · change _ + 1 = (spec.retain resident).variants.size at smaller
        omega

section

variable (baseCheck : PageCacheKey → UInt64)
variable {names : List Str} {p : Prepare} {call : Call} {count : Nat}

/-- Every spec is charged what it costs, within the bound. -/
structure Exact (s : UrlVarySpecs) : Prop where
  charged : HashMap.All (fun _ spec => spec.charged = spec.cost) s.map
  bounded : s.bytes ≤ maxSpecBytes

/-- The bytes left suffice for what `prepare` makes of the slot it finds. -/
def FitsPrepare (s : UrlVarySpecs) (p : Prepare) (old : Spec) : Prop :=
  (old.names = p.names → old.variants.contains p.variantHash = true ∨ old.variants.size ≠ 0 ∨
      s.bytes + variantBytes ≤ maxSpecBytes) ∧
    (old.names ≠ p.names → s.bytes + newCost p.names ≤ maxSpecBytes + old.cost)

/-- The bytes left suffice for the names a scanned variant gives a slot; at the bound
the slot keeps them without a variant and without being charged. -/
def FitsScan (s : UrlVarySpecs) (names : List Str) (old : Spec) : Prop :=
  (s.bytes + variantBytes ≤ maxSpecBytes → s.bytes + newCost names ≤ maxSpecBytes + old.cost) ∧
    (maxSpecBytes < s.bytes + variantBytes → specBytes + namesCost names = old.cost)

/-- What a call that changes a spec in its slot needs. -/
def Fits (s : UrlVarySpecs) : Call → Prop
  | .prepare p => ∀ old, s.map.get p.baseHash = some old → old.check = baseCheck p.base →
      s.FitsPrepare p old
  | .registerScanned r => ∀ base names old, UrlVary.split r.key = some (base, names) →
      s.map.get (r.hashOf base) = some old → old.check = baseCheck base → old.names ≠ names →
      old.newest < r.storedAt → s.FitsScan names old
  | _ => True

variable {baseCheck}

theorem cost_rename_changed (changed : old.names ≠ names) :
    (old.rename names).cost = specBytes + namesCost names ∧
      (old.rename names).variants.size = 0 := by
  rw [Spec.rename_changed changed]
  exact ⟨Nat.add_zero _, rfl⟩

theorem contains_rename_changed (changed : old.names ≠ names) (hash : UInt64) :
    (old.rename names).variants.contains hash = false := by
  rw [Spec.rename_changed changed]
  rfl

theorem size_retain_le (spec : Spec) (resident : UInt64 → Bool) :
    (spec.retain resident).variants.size ≤ spec.variants.size := size_filter_le ..

theorem cost_retain (spec : Spec) (resident : UInt64 → Bool) :
    (spec.retain resident).cost + (spec.variants.size - (spec.retain resident).variants.size) *
      variantBytes = spec.cost := by
  have fewer := size_retain_le spec resident
  rw [Spec.cost, Spec.cost, Nat.sub_mul, Nat.add_assoc]
  change specBytes + namesCost spec.names + _ = _
  have scaled := Nat.mul_le_mul_right variantBytes fewer
  omega

theorem bytes_prepareOccupied (kept : Kept baseCheck s) (found : s.map.get p.baseHash = some old)
    (same : old.check = baseCheck p.base) :
    (((old.rename p.names).variants.contains p.variantHash = true ∨
        s.full (old.rename p.names) = false) ∧
      (s.prepareOccupied baseCheck p old).1.bytes + old.charged =
        s.bytes + ((old.rename p.names).note p.variantHash p.nowMs p.now).cost) ∨
      ((old.rename p.names).variants.contains p.variantHash = false ∧
        s.full (old.rename p.names) = true ∧
        (s.prepareOccupied baseCheck p old).1.bytes + old.charged =
          s.bytes + ((s.makeVariantRoom p.walk p.resident (old.rename p.names)).2.1.note
            p.variantHash p.nowMs p.now).cost) := by
  have covered := kept.charged_le found
  have ready := Ready.rename s old p.names
  have few := (old.size_rename_le p.names).trans (kept.listed _ old found).few
  rw [prepareOccupied, if_pos same]
  dsimp only
  cases known : (old.rename p.names).variants.contains p.variantHash with
  | true => exact .inl ⟨.inl rfl, ready.bytes_enter covered ..⟩
  | false =>
    cases crowded : s.full (old.rename p.names) with
    | false => exact .inl ⟨.inr rfl, ready.bytes_enter covered ..⟩
    | true =>
      obtain ⟨roomy, -⟩ := makeVariantRoom_ready ready covered few p.walk p.resident
      exact .inr ⟨rfl, rfl, roomy.bytes_enter covered ..⟩

theorem bytes_prepare_changed (kept : Kept baseCheck s) (found : s.map.get p.baseHash = some old)
    (same : old.check = baseCheck p.base) (changed : old.names ≠ p.names) :
    (s.prepareOccupied baseCheck p old).1.bytes + old.charged = s.bytes + newCost p.names := by
  have unknown := contains_rename_changed changed p.variantHash
  obtain ⟨cost, empty⟩ := cost_rename_changed changed
  rcases bytes_prepareOccupied kept found same with ⟨-, bytes⟩ | ⟨-, -, bytes⟩
  · rw [Spec.cost_note_of_new unknown, cost] at bytes
    rw [bytes, newCost]
    omega
  · have left := cost_retain (old.rename p.names) p.resident
    have fewer := size_retain_le (old.rename p.names) p.resident
    rcases cost_makeVariantRoom s p.walk p.resident unknown p.nowMs p.now with
      ⟨grown, -⟩ | ⟨-, nonempty⟩
    · rw [grown] at bytes
      rw [empty, Nat.zero_sub, Nat.zero_mul, Nat.add_zero] at left
      rw [bytes, newCost, left, cost]
      omega
    · omega

theorem prepareOccupied_bytes_le_iff (kept : Kept baseCheck s) (exact : Exact s)
    (found : s.map.get p.baseHash = some old) (same : old.check = baseCheck p.base) :
    (s.prepareOccupied baseCheck p old).1.bytes ≤ maxSpecBytes ↔ s.FitsPrepare p old := by
  have charged := exact.charged p.baseHash old found
  have bounded := exact.bounded
  by_cases changed : old.names = p.names
  · rw [FitsPrepare]
    simp only [changed, true_implies, ne_eq, not_true_eq_false, false_implies, and_true]
    have bytes := bytes_prepareOccupied kept found same
    rw [Spec.rename_same changed] at bytes
    rcases bytes with ⟨known | roomy, bytes⟩ | ⟨unknown, _, bytes⟩
    · rw [Spec.cost_note_of_contains known] at bytes
      exact ⟨fun _ => .inl known, fun _ => by omega⟩
    · -- A variant that is known was the case before.
      obtain ⟨-, fits⟩ := full_eq_false.mp roomy
      refine ⟨fun _ => .inr (.inr fits), fun _ => ?_⟩
      have cost : (old.note p.variantHash p.nowMs p.now).cost ≤ old.cost + variantBytes := by
        cases known : old.variants.contains p.variantHash with
        | true =>
          rw [Spec.cost_note_of_contains known]
          exact Nat.le_add_right ..
        | false => exact (Spec.cost_note_of_new known ..).le
      omega
    · have left := cost_retain old p.resident
      have fewer := size_retain_le old p.resident
      have recharged : (s.recharge (old.retain p.resident)).1.bytes + old.charged =
          s.bytes + (old.retain p.resident).cost :=
        rechargedBytes_add (old.retain p.resident) rfl (kept.charged_le found)
      rcases cost_makeVariantRoom s p.walk p.resident unknown p.nowMs p.now with
        ⟨grown, empty | fits⟩ | ⟨same, nonempty⟩
      · rw [empty, Nat.sub_zero] at left
        constructor
        · intro fits
          refine .inr ?_
          by_cases none : old.variants.size = 0
          · rw [none, Nat.zero_mul] at left
            exact .inr (by omega)
          · exact .inl none
        · rintro (known | some | _)
          · rw [unknown] at known
            cases known
          · have one := Nat.le_mul_of_pos_left variantBytes (Nat.pos_of_ne_zero some)
            omega
          · omega
      · refine ⟨fun _ => .inr ?_, fun _ => by omega⟩
        by_cases none : old.variants.size = 0
        · rw [none, Nat.zero_sub, Nat.zero_mul] at left
          exact .inr (by omega)
        · exact .inl none
      · refine ⟨fun _ => .inr (.inl (by omega)), fun _ => ?_⟩
        omega
  · have bytes := bytes_prepare_changed kept found same changed
    rw [FitsPrepare]
    simp only [changed, false_implies, ne_eq, not_false_eq_true, true_implies, true_and]
    omega

/-! ## Exactness along a run -/

theorem Exact.new : Exact new := ⟨HashMap.All.empty, Nat.zero_le _⟩

theorem Exact.remove (exact : Exact s) (baseHash : UInt64) (spec : Spec) :
    Exact (s.remove baseHash spec) :=
  ⟨exact.charged.del baseHash, (Nat.sub_le ..).trans exact.bounded⟩

theorem Exact.admitNew (exact : Exact s) (room : s.bytes + spec.cost ≤ maxSpecBytes)
    (baseHash : UInt64) : Exact (s.admitNew baseHash spec) :=
  ⟨HashMap.All.put (exact.charged.del baseHash) rfl, room⟩

theorem Exact.enter (exact : Exact s) (map : s'.map = s.map) {nowMs : Nat} {newest : Instant}
    (bounded : (s'.enter baseHash spec variantHash nowMs newest).bytes ≤ maxSpecBytes) :
    Exact (s'.enter baseHash spec variantHash nowMs newest) := by
  refine ⟨?_, bounded⟩
  rw [UrlVarySpecs.enter, recharge, map_insert, map]
  exact HashMap.All.put (exact.charged.del baseHash) rfl

theorem Exact.makeRoom (exact : Exact s) (walk : Walk UInt64) (keep : UInt64) (cost fuel : Nat) :
    Exact (makeRoom walk keep cost fuel s).1 :=
  makeRoom_induction (fun _ victim spec exact _ _ => exact.remove victim spec) walk cost
    fuel s exact

theorem Exact.touch (exact : Exact s) (nowMs : Nat) (baseHash variantHash : UInt64) :
    Exact (s.touch nowMs baseHash variantHash) := by
  rcases s.touch_eq nowMs baseHash variantHash with same | ⟨spec, found, changed⟩
  · rw [same]
    exact exact
  · rw [changed]
    refine ⟨HashMap.All.put (exact.charged.del baseHash) ?_, exact.bounded⟩
    refine (exact.charged baseHash spec found).trans (cost_eq_of_size rfl ?_)
    rw [touched, size_modify]

theorem full_rename_changed (changed : old.names ≠ names)
    (crowded : s.full (old.rename names) = true) : maxSpecBytes < s.bytes + variantBytes := by
  rw [full, (cost_rename_changed changed).2, Bool.or_eq_true, decide_eq_true_iff,
    decide_eq_true_iff] at crowded
  rcases crowded with impossible | crowded
  · exact absurd impossible (by decide)
  · exact crowded

section

variable (kept : Kept baseCheck s)
include kept

theorem Exact.clear : Exact s.clear := by
  obtain ⟨-, bytes⟩ := clear_counters kept
  refine ⟨HashMap.All.empty, ?_⟩
  rw [bytes]
  exact Nat.zero_le _

theorem Exact.prune (exact : Exact s) (nowMs : Nat)
    (resident : UInt64 → Bool) : Exact (s.prune nowMs resident).1 := by
  cases empty : s.isEmpty with
  | true =>
    rw [prune_of_empty empty]
    exact exact
  | false =>
    obtain ⟨map, -, bytes, -, -⟩ := prune_eq kept nowMs resident empty
    refine ⟨?_, ?_⟩
    · rw [map]
      intro hash spec found
      obtain ⟨_, -, rfl⟩ := get_survivors found
      rfl
    · rw [bytes]
      refine le_trans ?_ exact.bounded
      rw [kept.bytes, survivors, total_filterMap]
      refine total_le_total fun hash spec found => ?_
      cases survives : pruned nowMs resident spec with
      | none => exact Nat.zero_le _
      | some =>
        rw [keeps_pruned survives, exact.charged hash spec found, ← cost_retain spec resident]
        exact Nat.le_add_right ..

theorem Exact.prepare (exact : Exact s)
    (fits : s.Fits baseCheck (.prepare p)) : Exact (s.prepare baseCheck p).1 := by
  rw [UrlVarySpecs.prepare]
  cases found : s.map.get p.baseHash with
  | none =>
    obtain ⟨roomy, isRoomy, result⟩ := s.prepareVacant_eq baseCheck p
    have exact' : Exact roomy := isRoomy ▸ exact.makeRoom ..
    rcases result with refused | ⟨-, _, admitted⟩
    · rw [refused]
      exact exact'
    · rw [admitted]
      exact exact'.admitNew (by rwa [cost_first]) _
  | some old =>
    dsimp only
    by_cases same : old.check = baseCheck p.base
    · have bounded := (prepareOccupied_bytes_le_iff kept exact found same).mpr (fits old found same)
      obtain ⟨_, _, ready, -, admitted⟩ := prepareOccupied_admits kept found same
      rw [admitted] at bounded ⊢
      exact exact.enter ready.map bounded
    · rw [prepareOccupied, if_neg same]
      exact exact

theorem scan_enter_bytes_le_iff (exact : Exact s)
    (found : s.map.get baseHash = some old) {keyHash : UInt64} {nowMs : Nat} {newest : Instant}
    (room : (old.rename names).variants.contains keyHash = true ∨
      s.full (old.rename names) = false) :
    (s.enter baseHash (old.rename names) keyHash nowMs newest).bytes ≤ maxSpecBytes ↔
      (old.names ≠ names → s.bytes + newCost names ≤ maxSpecBytes + old.cost) := by
  have charged := exact.charged baseHash old found
  have bounded := exact.bounded
  have after := (Ready.rename s old names).bytes_enter (kept.charged_le found) baseHash keyHash
    nowMs newest
  by_cases changed : old.names = names
  · refine ⟨fun _ differ => absurd changed differ, fun _ => ?_⟩
    rw [Spec.rename_same changed] at room after ⊢
    cases known : old.variants.contains keyHash with
    | true =>
      rw [Spec.cost_note_of_contains known] at after
      omega
    | false =>
      rw [Spec.cost_note_of_new known] at after
      rw [known] at room
      rcases room with impossible | roomy
      · cases impossible
      · have fits := (full_eq_false.mp roomy).2
        omega
  · rw [Spec.cost_note_of_new (contains_rename_changed changed keyHash),
      (cost_rename_changed changed).1] at after
    simp only [ne_eq, changed, not_false_eq_true, true_implies, newCost]
    omega

theorem Exact.registerScanned (exact : Exact s) {r : Scan}
    (fits : s.Fits baseCheck (.registerScanned r)) :
    Exact (s.registerScanned baseCheck r).1 := by
  rw [UrlVarySpecs.registerScanned]
  cases parts : UrlVary.split r.key with
  | none =>
    rcases s.scanPlain_eq baseCheck r with same | ⟨_, -, removed⟩
    · rw [same]
      exact exact
    · rw [removed]
      exact exact.remove ..
  | some sides =>
    obtain ⟨base, names⟩ := sides
    dsimp only
    cases found : s.map.get (r.hashOf base) with
    | none =>
      rcases s.scanVacant_eq baseCheck r base (r.hashOf base) names with
        same | ⟨-, room, admitted⟩
      · rw [same]
        exact exact
      · rw [admitted]
        exact exact.admitNew (by rwa [cost_first]) _
    | some old =>
      rcases scanOccupied_cases kept r base names found with
        ⟨-, same⟩ | ⟨notOlder, check, ⟨-, crowded, renamed⟩ | ⟨room, -, admitted⟩⟩
      · rw [same]
        exact exact
      · rw [renamed]
        refine ⟨HashMap.All.put (exact.charged.del _) ?_, exact.bounded⟩
        rw [Spec.charged_rename, exact.charged _ old found]
        by_cases changed : old.names = names
        · rw [Spec.rename_same changed]
        · have newer := Nat.lt_of_not_le fun older => notOlder ⟨changed, older⟩
          rw [(cost_rename_changed changed).1]
          exact ((fits base names old parts found check changed newer).2
            (full_rename_changed changed crowded)).symm
      · rw [admitted]
        refine exact.enter rfl ((scan_enter_bytes_le_iff kept exact found room).mpr ?_)
        intro changed
        have newer := Nat.lt_of_not_le fun older => notOlder ⟨changed, older⟩
        rw [contains_rename_changed changed] at room
        rcases room with impossible | roomy
        · cases impossible
        · exact (fits base names old parts found check changed newer).1
            (full_eq_false.mp roomy).2

/-- A call that fits keeps the map exact. -/
theorem Exact.step (exact : Exact s) (fits : s.Fits baseCheck call) :
    Exact (s.step baseCheck call) := by
  cases call with
  | prepare => exact exact.prepare kept fits
  | touch nowMs baseHash variantHash => exact exact.touch nowMs baseHash variantHash
  | confirm => exact exact
  | dropSpec base baseHash =>
    rcases s.dropSpec_eq baseCheck base baseHash with same | ⟨_, -, removed⟩
    · rw [UrlVarySpecs.step, same]
      exact exact
    · rw [UrlVarySpecs.step, removed]
      exact exact.remove ..
  | registerScanned => exact exact.registerScanned kept fits
  | prune nowMs resident => exact exact.prune kept nowMs resident
  | clear => exact Exact.clear kept

end

/-! ## The map in order -/

variable (baseCheck) in
/-- The counters describe the map, the map is within its bounds, and both filters
know every spec. -/
structure InOrder (s : UrlVarySpecs) : Prop where
  len : s.len = s.map.size
  bytes : s.bytes = HashMap.total (fun _ spec => spec.cost) s.map
  variants : HashMap.All (fun _ spec => spec.variants.size ≤ maxVariants) s.map
  few : s.len ≤ maxSpecs
  bounded : s.bytes ≤ maxSpecBytes
  filters : HashMap.All (fun hash spec => s.mayHave hash = true ∧
    ∃ base : PageCacheKey, spec.check = baseCheck base ∧
      spec.pathHash = pathFilterHash base.vhostId base.path ∧
      s.mayVaryPath base.vhostId base.path = true) s.map

theorem isEmpty_of_found (kept : Kept baseCheck s) (found : s.map.get baseHash = some spec) :
    s.isEmpty = false := by
  have one := size_del_of_get found
  rw [← kept.len] at one
  rw [isEmpty, beq_eq_false_iff_ne]
  omega

theorem Exact.bytes_eq (exact : Exact s) (kept : Kept baseCheck s) :
    s.bytes = HashMap.total (fun _ spec => spec.cost) s.map := by
  rw [kept.bytes]
  refine Nat.le_antisymm ?_ ?_
  · exact total_le_total fun hash spec found => (exact.charged hash spec found).le
  · exact total_le_total fun hash spec found => (exact.charged hash spec found).ge

theorem InOrder.of_exact (kept : Kept baseCheck s) (exact : Exact s) : InOrder baseCheck s where
  len := kept.len
  bytes := exact.bytes_eq kept
  variants := kept.listed.mono fun _ _ known => known.few
  few := kept.few
  bounded := exact.bounded
  filters := by
    intro hash spec found
    have known := kept.listed hash spec found
    obtain ⟨base, check, path⟩ := known.origin
    have nonempty := isEmpty_of_found kept found
    refine ⟨?_, base, check, path, ?_⟩
    · rw [mayHave, nonempty, known.base]
      rfl
    · rw [mayVaryPath, nonempty, ← path, known.path]
      rfl

/-- A call that leaves the map in order did fit. -/
theorem fits_of_inOrder (kept : Kept baseCheck s) (exact : Exact s)
    (after : InOrder baseCheck (s.step baseCheck call)) : s.Fits baseCheck call := by
  cases call with
  | prepare =>
    intro old found same
    refine (prepareOccupied_bytes_le_iff kept exact found same).mp ?_
    have bounded := after.bounded
    rwa [step, UrlVarySpecs.prepare, found] at bounded
  | registerScanned r =>
    intro base names old parts found check changed newer
    rw [step, UrlVarySpecs.registerScanned, parts] at after
    dsimp only at after
    rw [found] at after
    rcases scanOccupied_cases kept r base names found with
      ⟨refused, -⟩ | ⟨-, -, ⟨-, crowded, renamed⟩ | ⟨room, -, admitted⟩⟩
    · rcases refused with differs | ⟨-, older⟩
      · exact absurd check differs
      · exact absurd newer (Nat.not_lt.mpr older)
    · have full := full_rename_changed changed crowded
      refine ⟨fun fits => absurd full (Nat.not_lt.mpr fits), fun _ => ?_⟩
      have bytes := after.bytes
      rw [renamed] at bytes
      have total := @total_put_of_get UInt64 Spec (fun _ spec => spec.cost) _ _ _ _ found
        (old.rename names)
      have before := exact.bytes_eq kept
      rw [← (cost_rename_changed changed).1]
      dsimp only at bytes total
      omega
    · have bounded := after.bounded
      rw [admitted] at bounded
      have fits := (scan_enter_bytes_le_iff kept exact found room).mp bounded changed
      rw [contains_rename_changed changed] at room
      rcases room with impossible | roomy
      · cases impossible
      · have left := (full_eq_false.mp roomy).2
        exact ⟨fun _ => fits, fun full => absurd full (Nat.not_lt.mpr left)⟩
  | touch | confirm | dropSpec | prune | clear => trivial

/-! ## Runs -/

theorem run_snoc (calls : List Call) (call : Call) :
    run baseCheck (calls ++ [call]) = (run baseCheck calls).step baseCheck call :=
  foldl_append

theorem run_kept (calls : List Call) : Kept baseCheck (run baseCheck calls) :=
  foldlRecOn calls (step baseCheck) Kept.new fun _ kept call _ => kept.step call

/-- Exactness carries along a run whose calls each keep it. -/
theorem run_exact {calls : List Call}
    (keeps : ∀ k call, calls[k]? = some call → Exact (run baseCheck (calls.take k)) →
      Exact (run baseCheck (calls.take (k + 1))))
        (k : Nat) : Exact (run baseCheck (calls.take k)) := by
  induction k with
  | zero => exact Exact.new
  | succ k ih =>
    cases next : calls[k]? with
    | none =>
      rw [take_add_one, next, Option.toList_none, append_nil]
      exact ih
    | some call => exact keeps k call next ih

theorem run_take_succ {calls : List Call} {k : Nat} (next : calls[k]? = some call) :
    run baseCheck (calls.take (k + 1)) = (run baseCheck (calls.take k)).step baseCheck call := by
  rw [take_add_one, next, Option.toList_some, run_snoc]

variable (baseCheck) in
/-- The map is in order along a run exactly when every call of the run fits. -/
theorem run_inOrder_iff (calls : List Call) :
    (∀ k, InOrder baseCheck (run baseCheck (calls.take k))) ↔
      ∀ k call, calls[k]? = some call → (run baseCheck (calls.take k)).Fits baseCheck call := by
  constructor
  · intro ordered k call next
    have fits : ∀ k call, calls[k]? = some call → Exact (run baseCheck (calls.take k)) →
        (run baseCheck (calls.take k)).Fits baseCheck call := by
      intro k call next exact
      refine fits_of_inOrder (run_kept _) exact ?_
      rw [← run_take_succ next]
      exact ordered (k + 1)
    refine fits k call next (run_exact (fun k call next exact => ?_) k)
    rw [run_take_succ next]
    exact exact.step (run_kept _) (fits k call next exact)
  · intro fits k
    refine InOrder.of_exact (run_kept _) (run_exact (fun k call next exact => ?_) k)
    rw [run_take_succ next]
    exact exact.step (run_kept _) (fits k call next)

/-! ## Routing -/

variable (baseCheck) in
/-- The slot of the URL lists the variant, under the names it declares. -/
def Routes (s : UrlVarySpecs) (p : Prepare) : Prop :=
  ∃ spec, s.map.get p.baseHash = some spec ∧ spec.check = baseCheck p.base ∧ spec.names = p.names ∧
    spec.variants.contains p.variantHash = true

theorem routes_enter (check : spec.check = baseCheck p.base) (same : spec.names = p.names) :
    Routes baseCheck (s.enter p.baseHash spec p.variantHash p.nowMs p.now) p :=
  ⟨_, get_put_self .., check, same, contains_iff.mpr ⟨_, get_put_self ..⟩⟩

theorem routes_prepare (s : UrlVarySpecs) (p : Prepare) :
    (s.prepare baseCheck p).2.1 = true ↔ Routes baseCheck (s.prepare baseCheck p).1 p := by
  rw [prepare]
  cases found : s.map.get p.baseHash with
  | none =>
    simp only [prepareVacant]
    split_ifs
    · refine iff_of_false id ?_
      rintro ⟨_, found', _⟩
      cases (makeRoom_absent found ..).symm.trans found'
    · exact iff_of_true rfl ⟨_, get_put_self .., rfl, rfl, contains_iff.mpr ⟨_, get_put_self ..⟩⟩
  | some old =>
    have renamed : (old.rename p.names).check = old.check ∧
        (old.rename p.names).names = p.names := by
      grind [Spec.rename]
    have roomy (spec : Spec) : (s.makeVariantRoom p.walk p.resident spec).2.1.check = spec.check ∧
        (s.makeVariantRoom p.walk p.resident spec).2.1.names = spec.names := by
      grind [makeVariantRoom, recharge, Spec.retain]
    simp only [prepareOccupied]
    split_ifs with check
    · exact iff_of_true rfl
        (routes_enter ((roomy _).1.trans (renamed.1.trans check)) ((roomy _).2.trans renamed.2))
    · exact iff_of_true rfl (routes_enter (renamed.1.trans check) renamed.2)
    · refine iff_of_false id ?_
      rintro ⟨_, found', other, _⟩
      cases found.symm.trans found'
      exact check other

theorem routes_iff (kept : Kept baseCheck s) : Routes baseCheck s p ↔
    s.names baseCheck p.baseHash p.base = some p.names ∧
      s.confirm baseCheck p.base p.baseHash p.names p.variantHash = true := by
  rw [Routes, UrlVarySpecs.names, confirm]
  cases found : s.map.get p.baseHash with
  | none => simp
  | some spec =>
    have known : s.mayHave p.baseHash = true := by
      rw [mayHave, isEmpty_of_found kept found, (kept.listed _ _ found).base]
      rfl
    by_cases check : spec.check = baseCheck p.base <;> simp [known, check, Option.filter]

variable (baseCheck) in
/-- After any calls, `prepare` admits a variant exactly when requests are then routed by the names
it declares and its entry is confirmed. -/
theorem run_prepare_iff_routed (calls : List Call) (p : Prepare) :
    ((run baseCheck calls).prepare baseCheck p).2.1 = true ↔
      let s := run baseCheck (calls ++ [.prepare p])
      s.names baseCheck p.baseHash p.base = some p.names ∧
        s.confirm baseCheck p.base p.baseHash p.names p.variantHash = true := by
  rw [run_snoc, routes_prepare]
  exact routes_iff ((run_kept calls).step (.prepare p))

/-! ## A run that passes the bound

One URL varies on a short name.  Others, each with all its variants under four long names, fill the
map up to less than the cost of such names.  Then the first URL declares four long names too. -/

def urlBase (b : Nat) : PageCacheKey := ⟨0, true, [], hex 16 b, [], [], 0⟩

def shortNames : List Str := [octetsOf "a"]

def longNames : List Str :=
  [List.replicate 64 97, List.replicate 64 98, List.replicate 64 99, List.replicate 64 100]

def plainWalk : Walk UInt64 := ⟨id, fun _ => .refl _⟩

def declares (b : Nat) (names : List Str) (variant : Nat) : Prepare where
  base := urlBase b
  baseHash := UInt64.ofNat b
  names := names
  variantHash := UInt64.ofNat variant
  resident := fun _ => true
  nowMs := 0
  now := 0
  walk := plainWalk

/-- The first `count` variants of a URL. -/
def fillUrl (b count : Nat) : List Call :=
  (List.range count).map fun variant => .prepare (declares b longNames variant)

/-- URLs `1` to `count`, each with all its variants. -/
def fillUrls (count : Nat) : List Call :=
  (List.range count).flatMap fun b => fillUrl (b + 1) maxVariants

def overflow (count : Nat) : List Call :=
  .prepare (declares 0 shortNames 0) :: fillUrls count ++ [.prepare (declares 0 longNames 0)]

variable (baseCheck) in
/-- The first URL as it was declared, before others. -/
structure FirstUrl (s : UrlVarySpecs) : Prop where
  kept : Kept baseCheck s
  short : ∃ spec, s.map.get 0 = some spec ∧ spec.names = shortNames ∧
    spec.check = baseCheck (urlBase 0) ∧ spec.charged = 233

variable (baseCheck) in
/-- `count` URLs have been filled. -/
structure Filled (count : Nat) (s : UrlVarySpecs) : Prop extends FirstUrl baseCheck s where
  bytes : s.bytes = 233 + count * 3584
  len : s.len = count + 1
  fresh : ∀ b, count < b → b < 2 ^ 64 → s.map.get (UInt64.ofNat b) = none

variable (baseCheck) in
/-- The URL after those has `variants` variants. -/
structure Filling (count variants : Nat) (s : UrlVarySpecs) :
    Prop extends FirstUrl baseCheck s where
  bytes : s.bytes = 233 + count * 3584 + 512 + variants * 48
  len : s.len = count + 2
  fresh : ∀ b, count + 1 < b → b < 2 ^ 64 → s.map.get (UInt64.ofNat b) = none
  next : ∃ spec, s.map.get (UInt64.ofNat (count + 1)) = some spec ∧ spec.names = longNames ∧
    spec.check = baseCheck (urlBase (count + 1)) ∧ spec.variants.size = variants ∧
    spec.charged = 512 + variants * 48 ∧
    ∀ variant, variants ≤ variant → variant < 2 ^ 64 →
      spec.variants.contains (UInt64.ofNat variant) = false

theorem ofNat_ne {a b : Nat} (aSmall : a < 2 ^ 64) (bSmall : b < 2 ^ 64) (ne : a ≠ b) :
    UInt64.ofNat a ≠ UInt64.ofNat b := by
  intro same
  have values := congrArg UInt64.toNat same
  rw [UInt64.toNat_ofNat_of_lt' aSmall, UInt64.toNat_ofNat_of_lt' bSmall] at values
  exact ne values

theorem newCost_longNames : newCost longNames = 560 := by decide

theorem prepare_of_room (absent : s.map.get p.baseHash = none) (few : s.len < maxSpecs)
    (room : s.bytes + newCost p.names ≤ maxSpecBytes) :
    (s.prepare baseCheck p).1 = s.admitNew p.baseHash
      (Spec.first p.names (baseCheck p.base) (pathFilterHash p.base.vhostId p.base.path)
        p.variantHash p.nowMs p.now) := by
  have roomy := noRoom_eq_false.mpr ⟨few, room⟩
  rw [prepare, absent]
  rw [prepareVacant, makeRoom, roomy]
  dsimp only
  rw [if_neg Bool.false_ne_true, roomy]
  rfl

theorem prepare_of_slot (found : s.map.get p.baseHash = some old)
    (check : old.check = baseCheck p.base)
    (names : old.names = p.names) (roomy : s.full old = false) :
    (s.prepare baseCheck p).1 = s.enter p.baseHash old p.variantHash p.nowMs p.now := by
  rw [prepare, found]
  dsimp only
  rw [prepareOccupied, if_pos check]
  dsimp only
  rw [Spec.rename_same names, roomy, Bool.and_false, if_neg Bool.false_ne_true]

theorem FirstUrl.put (first : FirstUrl baseCheck s) (kept : Kept baseCheck s') {hash : UInt64}
    (map : s'.map = s.map.put hash spec) (other : hash ≠ 0) : FirstUrl baseCheck s' := by
  obtain ⟨short, found, facts⟩ := first.short
  refine ⟨kept, short, ?_, facts⟩
  rw [map, get_put_of_ne _ (Ne.symm other), found]

theorem Filled.begin (filled : Filled baseCheck count s) (left : count < 4681) :
    Filling baseCheck count 1
      (s.step baseCheck (.prepare (declares (count + 1) longNames 0))) := by
  have small : count + 1 < 2 ^ 64 := by omega
  have absent := filled.fresh (count + 1) (Nat.lt_succ_self _) small
  have few : s.len < maxSpecs := by
    rw [filled.len, maxSpecs]
    omega
  have cost : newCost (declares (count + 1) longNames 0).names = 560 := newCost_longNames
  have room : s.bytes + newCost (declares (count + 1) longNames 0).names ≤ maxSpecBytes := by
    rw [cost, filled.bytes, maxSpecBytes]
    omega
  have kept := filled.kept.step (.prepare (declares (count + 1) longNames 0))
  have admitted : s.step baseCheck (.prepare (declares (count + 1) longNames 0)) = _ :=
    prepare_of_room absent few room
  have map := congrArg UrlVarySpecs.map admitted
  have len := congrArg UrlVarySpecs.len admitted
  have bytes := congrArg UrlVarySpecs.bytes admitted
  rw [len_admitNew, filled.len] at len
  rw [bytes_admitNew, cost_first, cost, filled.bytes] at bytes
  refine ⟨filled.put kept map (ofNat_ne small (by decide) (Nat.succ_ne_zero _)), bytes, len, ?_, ?_⟩
  · intro b later bound
    rw [map]
    exact (get_put_of_ne _ (ofNat_ne bound small (by omega)) _).trans
      (filled.fresh b (by omega) bound)
  · refine ⟨_, (congrArg (fun map => HashMap.get map _) map).trans (get_put_self ..), rfl,
      rfl, rfl, (cost_first ..).trans cost, ?_⟩
    intro variant later bound
    rw [contains_eq_false]
    exact (get_put_of_ne _ (ofNat_ne bound (by decide) (by omega)) _).trans
      (get_empty _)

theorem Filling.more {variants : Nat} (filling : Filling baseCheck count variants s)
    (left : count < 4681) (some : variants < 64) : Filling baseCheck count (variants + 1)
      (s.step baseCheck (.prepare (declares (count + 1) longNames variants))) := by
  have small : count + 1 < 2 ^ 64 := by omega
  obtain ⟨spec, found, names, check, size, charged, unknown⟩ := filling.next
  have new := unknown variants le_rfl (by omega)
  have roomy : s.full spec = false := by
    refine full_eq_false.mpr ⟨by rwa [size], ?_⟩
    rw [filling.bytes, variantBytes, maxSpecBytes]
    omega
  have kept := filling.kept.step (.prepare (declares (count + 1) longNames variants))
  have admitted : s.step baseCheck (.prepare (declares (count + 1) longNames variants)) = _ :=
    prepare_of_slot found check names roomy
  have map := congrArg UrlVarySpecs.map admitted
  have len := congrArg UrlVarySpecs.len admitted
  have ready : Ready s spec s spec := ⟨rfl, rfl, rfl, rfl, rfl, rfl, rfl⟩
  have after := ready.bytes_enter (filling.kept.charged_le found) (UInt64.ofNat (count + 1))
    (UInt64.ofNat variants) 0 0
  have cost := Spec.cost_note_of_new new 0 0
  have before : spec.cost = 512 + variants * 48 := by
    rw [Spec.cost, names, size]
    rfl
  rw [len_enter, filling.len] at len
  refine ⟨filling.put kept map (ofNat_ne small (by decide) (Nat.succ_ne_zero _)), ?_, len, ?_, ?_⟩
  · have bytes := congrArg UrlVarySpecs.bytes admitted
    rw [cost, before, charged, filling.bytes, variantBytes] at after
    refine bytes.trans ?_
    change (s.enter (UInt64.ofNat (count + 1)) spec (UInt64.ofNat variants) 0 0).bytes = _
    omega
  · intro b later bound
    rw [map]
    exact (get_put_of_ne _ (ofNat_ne bound small (by omega)) _).trans
      (filling.fresh b later bound)
  · refine ⟨_, (congrArg (fun map => HashMap.get map _) map).trans (get_put_self ..),
      names, check, ?_, ?_, ?_⟩
    · exact (size_put_of_none (contains_eq_false.mp new) _).trans (by rw [size])
    · refine cost.trans ?_
      rw [before, variantBytes]
      omega
    · intro variant later bound
      have earlier := contains_eq_false.mp (unknown variant (by omega) bound)
      rw [contains_eq_false]
      exact (get_put_of_ne _ (ofNat_ne bound (by omega) (by omega)) _).trans earlier

theorem Filled.fillUrl (filled : Filled baseCheck count s) (left : count < 4681) {variants : Nat}
    (some : variants < 64) : Filling baseCheck count (variants + 1)
      ((fillUrl (count + 1) (variants + 1)).foldl (step baseCheck) s) := by
  induction variants with
  | zero => exact filled.begin left
  | succ _ ih =>
    rw [UrlVarySpecs.fillUrl, range_succ, map_append, foldl_append]
    exact (ih (by omega)).more left some

theorem Filling.filled (filling : Filling baseCheck count 64 s) :
    Filled baseCheck (count + 1) s where
  toFirstUrl := filling.toFirstUrl
  bytes := by
    rw [filling.bytes]
    omega
  len := filling.len
  fresh := filling.fresh

theorem Filled.fillUrls (first : Filled baseCheck 0 s) (most : count ≤ 4681) :
    Filled baseCheck count ((fillUrls count).foldl (step baseCheck) s) := by
  induction count with
  | zero => exact first
  | succ _ ih =>
    rw [UrlVarySpecs.fillUrls, range_succ, flatMap_append, foldl_append, flatMap_singleton]
    exact ((ih (by omega)).fillUrl most (by decide)).filled

theorem filled_first :
    Filled baseCheck 0 (new.step baseCheck (.prepare (declares 0 shortNames 0))) := by
  have cost : newCost (declares 0 shortNames 0).names = 233 := by decide
  have absent : new.map.get (declares 0 shortNames 0).baseHash = none := get_empty _
  have admitted : new.step baseCheck (.prepare (declares 0 shortNames 0)) = _ :=
    prepare_of_room absent (by decide) (by decide)
  have kept := (Kept.new : Kept baseCheck new).step (.prepare (declares 0 shortNames 0))
  have map := congrArg UrlVarySpecs.map admitted
  have len := congrArg UrlVarySpecs.len admitted
  have bytes := congrArg UrlVarySpecs.bytes admitted
  refine ⟨⟨kept, _, (congrArg (fun map => HashMap.get map _) map).trans (get_put_self ..),
    rfl, rfl, (cost_first ..).trans cost⟩, bytes, len, ?_⟩
  intro b later bound
  exact (get_put_of_ne _ (ofNat_ne bound (by decide) (by omega)) _).trans
    (get_empty _)

theorem Filled.declare (filled : Filled baseCheck count s) :
    (s.step baseCheck (.prepare (declares 0 longNames 0))).bytes = 560 + count * 3584 := by
  obtain ⟨spec, found, names, check, charged⟩ := filled.short
  have changed : spec.names ≠ (declares 0 longNames 0).names := by
    rw [names]
    decide
  have slot : s.map.get (declares 0 longNames 0).baseHash = some spec := found
  have bytes := bytes_prepare_changed filled.kept slot check changed
  have cost : newCost (declares 0 longNames 0).names = 560 := newCost_longNames
  rw [charged, filled.bytes, cost] at bytes
  rw [step, prepare, slot]
  dsimp only
  omega

/-- Declared names that grow in place carry the bytes past their bound. -/
theorem overflow_passes_bound :
    (run (fun _ => 0) (.prepare (declares 0 shortNames 0) :: fillUrls 4681)).bytes ≤ maxSpecBytes ∧
      maxSpecBytes < (run (fun _ => 0) (overflow 4681)).bytes := by
  have filled : Filled (fun _ => 0) 4681 _ := filled_first.fillUrls (le_refl 4681)
  rw [overflow, run_snoc, run, foldl_cons, filled.declare, filled.bytes]
  decide

end

end HttpJet.PageCache.UrlVarySpecs
