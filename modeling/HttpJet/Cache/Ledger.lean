import HttpJet.Cache.Operations
import HttpJet.Library.Runs
import Mathlib.Data.Fintype.Basic

/-!
# Runs of the cache

Every section keeps the shards sound and the shared reservation equal to what they hold, so
no call of any run fails at a lookup.

A value enters a shard by an accepted insert, may be changed in place, and leaves by one
call of the eviction hook. The events about one key tell the lives of its values, one
after another; `after_unlock` follows a section exactly if it called the hook.
-/

namespace HttpJet.Cache

open Library
open ShardKey (nil)
open Picture (Does)

variable {max : Strand → Nat}

/-! ## The reservation -/

namespace GlobalBudget

theorem checkedAdd_eq_some {a b sum : Nat} (added : checkedAdd a b = some sum) : sum = a + b := by
  rw [checkedAdd] at added
  split_ifs at added
  exact (Option.some.inj added).symm

theorem tryReplace_spec {g g' : GlobalBudget} {old new : Weights}
    (swapped : g.tryReplace old new = some g')
    (strand : Strand) : g'.used strand = g.used strand - old.on strand + new.on strand ∧
      g'.used strand ≤ g'.max strand ∧ g'.max strand = g.max strand := by
  obtain ⟨ram, ramAdded, swapped⟩ := Option.bind_eq_some_iff.mp swapped
  obtain ⟨disk, diskAdded, swapped⟩ := Option.bind_eq_some_iff.mp swapped
  split_ifs at swapped with beyond
  obtain rfl := Option.some.inj swapped
  obtain ⟨ramFits, diskFits⟩ := not_or.mp beyond
  cases strand with
  | ram => exact ⟨checkedAdd_eq_some ramAdded, Nat.le_of_not_lt ramFits, rfl⟩
  | disk => exact ⟨checkedAdd_eq_some diskAdded, Nat.le_of_not_lt diskFits, rfl⟩

theorem release_used (g : GlobalBudget) (freed : Weights) (strand : Strand) :
    (g.release freed).used strand = g.used strand - freed.on strand := by
  cases strand <;> rfl

end GlobalBudget

variable {K V : Type} [DecidableEq K]

namespace Picture

/-- The reservation covers this shard and the rest, within the caps. -/
structure Balanced (rest max : Strand → Nat) (p : Picture K V) : Prop where
  reserved : ∀ strand, p.budget.used strand = p.used strand + rest strand
  capped : ∀ strand, p.budget.used strand ≤ max strand
  max : ∀ strand, p.budget.max strand = max strand

omit [DecidableEq K] in
/-- A swapped reservation covers the shard with the new weights in place of the old. -/
theorem Balanced.swap {rest : Strand → Nat} {p p' : Picture K V} {old new : Weights}
    (balanced : p.Balanced rest max) (swapped : p.budget.tryReplace old new = some p'.budget)
    (covered : ∀ strand, old.on strand ≤ p.used strand)
    (used : ∀ strand, p'.used strand = p.used strand - old.on strand + new.on strand) :
    p'.Balanced rest max := by
  have spec := GlobalBudget.tryReplace_spec swapped
  refine ⟨fun strand => ?_, fun strand => ?_, fun strand => ?_⟩
  · have reserved := balanced.reserved strand
    have covers := covered strand
    rw [(spec strand).1, used strand]
    omega
  · exact (spec strand).2.1.trans ((spec strand).2.2.trans (balanced.max strand)).le
  · exact (spec strand).2.2.trans (balanced.max strand)

theorem Balanced.does [CacheValue V] {rest : Strand → Nat} {p p' : Picture K V}
    (balanced : p.Balanced rest max) (does : Does p p') : p'.Balanced rest max := by
  cases does with
  | @evicts _ e _ holds =>
    refine ⟨fun strand => ?_, fun strand => ?_, fun strand => ?_⟩
    · have reserved := balanced.reserved strand
      have covered := holds.covered strand
      change (p.budget.release e.weights).used strand = p.used strand -
        e.weights.on strand + rest strand
      rw [GlobalBudget.release_used]
      omega
    · have capped := balanced.capped strand
      change (p.budget.release e.weights).used strand ≤ max strand
      rw [GlobalBudget.release_used]
      omega
    · cases strand with
      | ram => exact balanced.max .ram
      | disk => exact balanced.max .disk
  | admits _ swapped =>
    have nothing (strand : Strand) : Weights.on ⟨0, 0⟩ strand = 0 := by cases strand <;> rfl
    refine balanced.swap swapped (fun strand => ?_) fun strand => ?_
    · rw [nothing]
      exact Nat.zero_le _
    · rw [nothing]
      rfl
  | replaces holds swapped | reweighs holds swapped =>
    exact balanced.swap swapped holds.covered fun _ => rfl
  | rejects | changes => exact ⟨balanced.reserved, balanced.capped, balanced.max⟩

end Picture

/-! ## Sections -/

namespace ShardedCache

variable [ShardKey K] [CacheValue V]
variable {c : ShardedCache K V}

/-- A cache that has gone on from another by critical sections, its shards sound. -/
structure Ran (c c' : ShardedCache K V) : Prop where
  sound : ∀ index, (c'.shards index).Sound
  sections : Relation.ReflTransGen
    (fun c c' => ∃ index a, (c.lock index).Leads a ∧ c' = c.unlock index a) c c'

theorem Ran.refl (sound : ∀ index, (c.shards index).Sound) : Ran c c :=
  ⟨sound, .refl⟩

theorem Ran.trans {c' c'' : ShardedCache K V} (first : Ran c c') (second : Ran c' c'') :
    Ran c c'' :=
  ⟨second.sound, first.sections.trans second.sections⟩

theorem within_ran (sound : ∀ index, (c.shards index).Sound) {index : Fin shardCount}
    {body : Access K V → Option (Access K V)}
    (leads : ∃ a, body (c.lock index) = some a ∧ (c.lock index).Leads a) :
    ∃ c', c.within index body = some c' ∧ Ran c c' := by
  obtain ⟨a, done, leads⟩ := leads
  refine ⟨c.unlock index a, by rw [within, done]; rfl, fun other => ?_,
    .single ⟨index, a, leads, rfl⟩⟩
  change (Function.update c.shards index a.shard other).Sound
  rw [Function.update_apply]
  split_ifs
  · exact leads.sound
  · exact sound other

theorem withinEach_ran {body : Fin shardCount → Access K V → Option (Access K V)}
    (leads : ∀ index a, a.shard.Sound → a.evicted = false → ∃ a',
      body index a = some a' ∧ a.Leads a')
    (indices : List (Fin shardCount)) (sound : ∀ index, (c.shards index).Sound) :
    ∃ c', withinEach body indices c = some c' ∧ Ran c c' := by
  induction indices generalizing c with
  | nil => exact ⟨c, rfl, .refl sound⟩
  | cons index _ ih =>
    obtain ⟨_, done1, ran1⟩ := within_ran sound (leads index (c.lock index) (sound index) rfl)
    obtain ⟨c', done, ran⟩ := ih ran1.sound
    refine ⟨c', ?_, ran1.trans ran⟩
    rw [withinEach, done1]
    exact done

theorem withGroups_ran (body : List (RealKey K) → List (AccessOp K V))
    (groups : List (List (RealKey K)))
    (sound : ∀ index, (c.shards index).Sound) :
    ∃ c', withGroups body groups c = some c' ∧ Ran c c' := by
  induction groups generalizing c with
  | nil => exact ⟨c, rfl, .refl sound⟩
  | cons group _ ih =>
    cases group with
    | nil => exact ih sound
    | cons id ids =>
      obtain ⟨_, done1, ran1⟩ := within_ran sound
        (AccessOp.execAll_leads (body (id :: ids)) (sound (ShardKey.shardIndex id.val)))
      obtain ⟨c', done, ran⟩ := ih ran1.sound
      refine ⟨c', ?_, ran1.trans ran⟩
      rw [withGroups, withShard, done1]
      exact done

theorem step_ran (sound : ∀ index, (c.shards index).Sound) (op : Op K V) :
    ∃ c', c.step op = some c' ∧ Ran c c' := by
  cases op with
  | withShard _ body => exact within_ran sound (AccessOp.execAll_leads body (sound _))
  | withShardGroups ids body => exact withGroups_ran body (groups ids) sound
  | get now id =>
    rw [step, get]
    refine within_ran sound ?_
    obtain ⟨a, value, done, leads⟩ :=
      Access.getFresh_leads (sound (ShardKey.shardIndex id.val)) now id
      (a := c.lock (ShardKey.shardIndex id.val))
    exact ⟨a, congrArg (Option.map Prod.fst) done, leads⟩
  | insert id value =>
    rw [step, insert]
    refine within_ran sound ?_
    exact Access.insert_leads (sound _) id.property value
  | remove id =>
    rw [step, remove]
    refine within_ran sound ?_
    obtain ⟨a, done, leads, _⟩ :=
      Access.teardown_leads (sound (ShardKey.shardIndex id.val)) id .explicit
      (a := c.lock (ShardKey.shardIndex id.val))
    exact ⟨a, done, leads⟩
  | sweepExpired =>
    exact withinEach_ran
      (fun _ a sound _ => Access.sweepLoop_leads _ sound (Nat.lt_succ_self _)) _ sound
  | purgeIf =>
    exact withinEach_ran (fun _ a sound _ => Access.teardownAll_leads .explicit _ sound) _ sound
  | clear walk =>
    exact withinEach_ran
      (fun index a sound quiet => ⟨_, rfl, Access.drain_leads sound (walk index) quiet⟩) _
      sound

theorem run_ran (ops : List (Op K V)) (sound : ∀ index, (c.shards index).Sound) :
    ∃ c', run ops c = some c' ∧ Ran c c' := by
  induction ops generalizing c with
  | nil => exact ⟨c, rfl, .refl sound⟩
  | cons op _ ih =>
    obtain ⟨_, done1, ran1⟩ := step_ran sound op
    obtain ⟨c', done, ran⟩ := ih ran1.sound
    refine ⟨c', ?_, ran1.trans ran⟩
    rw [run, done1]
    exact done

/-! ## After every run -/

/-- The reservation is what the shards hold, within the caps. -/
structure Reserved (max : Strand → Nat) (c : ShardedCache K V) : Prop where
  total : ∀ strand, c.globalBudget.used strand = ∑ index, (c.shards index).used strand
  capped : ∀ strand, c.globalBudget.used strand ≤ max strand
  max : ∀ strand, c.globalBudget.max strand = max strand

theorem Reserved.section (reserved : c.Reserved max) {index : Fin shardCount} {a : Access K V}
    (leads : (c.lock index).Leads a) : (c.unlock index a).Reserved max := by
  let rest (strand : Strand) : Nat :=
    ∑ other ∈ Finset.univ.erase index, (c.shards other).used strand
  have start : (c.lock index).picture.Balanced rest max := by
    refine ⟨fun strand => (reserved.total strand).trans ?_, reserved.capped, reserved.max⟩
    exact (Finset.add_sum_erase _ (fun other => (c.shards other).used strand)
      (Finset.mem_univ index)).symm
  have after : a.picture.Balanced rest max :=
    Runs.steps_invariant (fun _ _ does balanced => balanced.does does) leads.does start
  refine ⟨fun strand => ?_, after.capped, after.max⟩
  refine (after.reserved strand).trans ?_
  rw [← Finset.add_sum_erase _ _ (Finset.mem_univ index)]
  change _ = (Function.update c.shards index a.shard index).used strand +
    ∑ other ∈ Finset.univ.erase index, (Function.update c.shards index a.shard other).used strand
  rw [Function.update_self]
  refine congrArg (a.shard.used strand + ·) (Finset.sum_congr rfl fun other member => ?_)
  rw [Function.update_of_ne (Finset.ne_of_mem_erase member)]

theorem Reserved.ran {c' : ShardedCache K V} (reserved : c.Reserved max) (ran : Ran c c') :
    c'.Reserved max := by
  refine Runs.steps_invariant (fun before after taken kept => ?_) ran.sections reserved
  obtain ⟨_, a, leads, rfl⟩ := taken
  exact kept.section leads

/-- What the representation of a shard should be. -/
structure Represents (s : Shard K V) (ram disk : List K) : Prop where
  ramList : (threading V .ram).Threaded nil s ram
  ramKeys : ∀ key, key ∈ ram ↔ key ∈ s.map.keys
  diskList : (threading V .disk).Threaded nil s disk
  diskKeys : ∀ key, key ∈ disk ↔ ∃ node, s.map.get key = some node ∧ 0 < node.diskWeight
  ramUsed : s.ramUsed = HashMap.total (fun _ node => node.ramWeight) s.map
  diskUsed : s.diskUsed = HashMap.total (fun _ node => node.diskWeight) s.map

omit [CacheValue V] in
theorem represents_of_sound {s : Shard K V} (sound : s.Sound) :
    ∃ ram disk, Represents s ram disk := by
  obtain ⟨ram, ramList, ramKeys⟩ := sound.lists .ram
  obtain ⟨disk, diskList, diskKeys⟩ := sound.lists .disk
  refine ⟨ram, disk, ramList, fun key => ?_, diskList, fun key => ?_, sound.used .ram,
    sound.used .disk⟩
  · rw [ramKeys, HashMap.mem_keys, HashMap.contains_iff]
    constructor
    · rintro ⟨e, found, -⟩
      obtain ⟨node, present, -⟩ := Shard.content_eq_some.mp found
      exact ⟨node, present⟩
    · rintro ⟨node, present⟩
      exact ⟨node.entry, Shard.content_eq_some.mpr ⟨node, present, rfl⟩, trivial⟩
  · rw [diskKeys]
    constructor
    · rintro ⟨e, found, weighs⟩
      obtain ⟨node, present, rfl⟩ := Shard.content_eq_some.mp found
      exact ⟨node, present, weighs⟩
    · rintro ⟨node, present, weighs⟩
      exact ⟨node.entry, Shard.content_eq_some.mpr ⟨node, present, rfl⟩, weighs⟩

omit [CacheValue V] in
theorem new_sound (config : ShardCacheConfig) (index : Fin shardCount) :
    ((new config : ShardedCache K V).shards index).Sound := Shard.Sound.new

omit [DecidableEq K] [CacheValue V] in
theorem new_reserved (config : ShardCacheConfig) :
    (new config : ShardedCache K V).Reserved (new config : ShardedCache K V).globalBudget.max where
  total strand := by
    refine Eq.trans ?_ (Finset.sum_eq_zero fun index _ => ?_).symm
    · cases strand <;> rfl
    · cases strand <;> rfl
  capped strand := by
    refine (Nat.zero_le _).trans' (le_of_eq ?_)
    cases strand <;> rfl
  max _ := rfl

/-- After every run, which fails nowhere: in every shard one list runs through all keys and
the other through those with a disk weight, once and in both directions; the counters are
the sums of the recorded weights; and the reservation is what the shards hold, within the caps. -/
theorem run_represents (config : ShardCacheConfig) (ops : List (Op K V)) :
    ∃ c, run ops (new config) = some c ∧
      (∀ index, ∃ ram disk, Represents (c.shards index) ram disk) ∧
      c.globalBudget.ramUsed = ∑ index, (c.shards index).ramUsed ∧
      c.globalBudget.diskUsed = ∑ index, (c.shards index).diskUsed ∧
      c.globalBudget.ramUsed ≤ c.globalBudget.ramMax ∧
        c.globalBudget.diskUsed ≤ c.globalBudget.diskMax ∧
      c.globalBudget.ramMax = config.maxRamBytes ∧
      c.globalBudget.diskMax =
        if 0 < config.maxDiskBytes then config.maxDiskBytes else config.maxRamBytes := by
  obtain ⟨c, done, ran⟩ := run_ran ops (new_sound config)
  have reserved := (new_reserved config).ran ran
  refine ⟨c, done, fun index => represents_of_sound (ran.sound index), reserved.total .ram,
    reserved.total .disk, ?_, ?_, reserved.max .ram, reserved.max .disk⟩
  · exact (reserved.capped .ram).trans (reserved.max .ram).ge
  · exact (reserved.capped .disk).trans (reserved.max .disk).ge

end ShardedCache

open List

variable {K V : Type}
variable {events : List (Event K V)} {last : Option V}

/-! ## The lives of the values under a key -/

def Event.key : Event K V → K
  | .accepted key _ => key
  | .rejected key _ => key
  | .changed key _ _ => key
  | .evicted key _ _ => key

/-- What an event does to the value under a key. -/
inductive Event.Moves (key : K) : Option V → Event K V → Option V → Prop
  | accepted (value : V) : Moves key none (.accepted key value) (some value)
  | rejected (value : V) (occupant : Option V) : Moves key occupant (.rejected key value) occupant
  | changed (before after : V) : Moves key (some before) (.changed key before after) (some after)
  | evicted (value : V) (cause : EvictCause) : Moves key (some value)
      (.evicted key value cause) none
  | other {event : Event K V} (ne : event.key ≠ key)
      (occupant : Option V) : Moves key occupant event occupant

/-- From one value under a key to another, by events. -/
def Lives (key : K) : Option V → List (Event K V) → Option V → Prop
  | first, [], last => first = last
  | first, event :: events, last => ∃ next, event.Moves key first next ∧ Lives key next events last

theorem lives_append {key : K} {later : List (Event K V)} {first : Option V} :
    Lives key first (events ++ later) last ↔
      ∃ middle, Lives key first events middle ∧ Lives key middle later last := by
  induction events generalizing first with
  | nil => exact ⟨fun lives => ⟨first, rfl, lives⟩, fun ⟨_, same, lives⟩ => same ▸ lives⟩
  | cons _ _ ih =>
    constructor
    · rintro ⟨next, moves, rest⟩
      obtain ⟨middle, front, back⟩ := ih.mp rest
      exact ⟨middle, ⟨next, moves, front⟩, back⟩
    · rintro ⟨middle, ⟨next, moves, front⟩, back⟩
      exact ⟨next, moves, ih.mpr ⟨middle, front, back⟩⟩

/-- A value stays under a key through events, changed in place from one to another. -/
inductive Kept (key : K) : V → List (Event K V) → V → Prop
  | nil (value : V) : Kept key value [] value
  | changed {before after last : V} {events : List (Event K V)}
      (rest : Kept key after events last) :
      Kept key before (.changed key before after :: events) last
  | rejected {value last : V} {events : List (Event K V)} (refused : V)
      (rest : Kept key value events last) :
      Kept key value (.rejected key refused :: events) last
  | other {value last : V} {events : List (Event K V)} {event : Event K V} (ne : event.key ≠ key)
      (rest : Kept key value events last) : Kept key value (event :: events) last

namespace Kept

variable {key : K}

theorem append {first middle last : V} {later : List (Event K V)}
    (kept : Kept key first events middle)
    (kept' : Kept key middle later last) : Kept key first (events ++ later) last := by
  induction kept with
  | nil => exact kept'
  | changed _ ih => exact .changed (ih kept')
  | rejected refused _ ih => exact .rejected refused (ih kept')
  | other ne _ ih => exact .other ne (ih kept')

/-- No value enters or leaves meanwhile. -/
theorem quiet {first last : V} (kept : Kept key first events last) :
    (∀ value, .accepted key value ∉ events) ∧ ∀ value cause, .evicted key value cause ∉ events := by
  induction kept with
  | nil => exact ⟨fun _ => not_mem_nil, fun _ _ => not_mem_nil⟩
  | changed _ ih | rejected _ _ ih =>
    exact ⟨fun v => by simp [ih.1 v], fun v cause => by simp [ih.2 v cause]⟩
  | other ne _ ih =>
    refine ⟨fun v member => ?_, fun v cause member => ?_⟩
    · rcases mem_cons.mp member with rfl | member
      · exact ne rfl
      · exact ih.1 v member
    · rcases mem_cons.mp member with rfl | member
      · exact ne rfl
      · exact ih.2 v cause member

end Kept

/-- A value under a key is kept to the end, or to a call of the hook. -/
theorem Lives.settled {key : K} {value : V} (lives : Lives key (some value) events last) :
    (∃ w, Kept key value events w ∧ last = some w) ∨
      ∃ life w cause later, events = life ++ .evicted key w cause :: later ∧
        Kept key value life w := by
  induction events generalizing value with
  | nil => exact .inl ⟨value, .nil value, lives.symm⟩
  | cons event events ih =>
    obtain ⟨_, moves, rest⟩ := lives
    cases moves with
    | rejected refused =>
      rcases ih rest with ⟨w, kept, same⟩ | ⟨life, w, cause, later, rfl, kept⟩
      · exact .inl ⟨w, .rejected refused kept, same⟩
      · exact .inr ⟨_ :: life, w, cause, later, rfl, .rejected refused kept⟩
    | changed =>
      rcases ih rest with ⟨w, kept, same⟩ | ⟨life, w, cause, later, rfl, kept⟩
      · exact .inl ⟨w, .changed kept, same⟩
      · exact .inr ⟨_ :: life, w, cause, later, rfl, .changed kept⟩
    | evicted value cause => exact .inr ⟨[], value, cause, events, rfl, .nil value⟩
    | other ne =>
      rcases ih rest with ⟨w, kept, same⟩ | ⟨life, w, cause, later, rfl, kept⟩
      · exact .inl ⟨w, .other ne kept, same⟩
      · exact .inr ⟨event :: life, w, cause, later, rfl, .other ne kept⟩

/-- A value under a key comes from the last insert accepted for it. -/
theorem Lives.owned {key : K} {w : V} (lives : Lives key none events (some w)) :
    ∃ earlier v life, events = earlier ++ .accepted key v :: life ∧ Kept key v life w := by
  induction events using reverseRecOn generalizing w with
  | nil => nomatch lives
  | append_singleton events event ih =>
    obtain ⟨_, front, _, moves, same⟩ := lives_append.mp lives
    subst same
    cases moves with
    | accepted => exact ⟨events, w, [], rfl, .nil w⟩
    | rejected refused =>
      obtain ⟨earlier, v, life, rfl, kept⟩ := ih front
      exact ⟨earlier, v, life ++ [_], by simp, kept.append (.rejected refused (.nil w))⟩
    | changed =>
      obtain ⟨earlier, v, life, rfl, kept⟩ := ih front
      exact ⟨earlier, v, life ++ [_], by simp, kept.append (.changed (.nil w))⟩
    | other ne =>
      obtain ⟨earlier, v, life, rfl, kept⟩ := ih front
      exact ⟨earlier, v, life ++ [event], by simp, kept.append (.other ne (.nil w))⟩

/-! ## The ledger -/

/-- The books about a key: the events of a shard against the value that is resident. -/
structure Ledger (key : K) (events : List (Event K V)) (resident : Option V) : Prop where
  /-- An accepted value is resident still or was passed to the hook, and never both. -/
  settled : ∀ before v after, events = before ++ .accepted key v :: after →
    Xor (∃ w, Kept key v after w ∧ resident = some w)
      (∃ life w cause later, after = life ++ .evicted key w cause :: later ∧ Kept key v life w)
  /-- What the hook is passed is an accepted value, with the changes made to it in place. -/
  owned : ∀ before w cause after, events = before ++ .evicted key w cause :: after →
    ∃ earlier v life, before = earlier ++ .accepted key v :: life ∧ Kept key v life w
  /-- Between two calls of the hook for a key an insert was accepted. -/
  once : ∀ before w cause between w' cause' after,
    events = before ++ .evicted key w cause :: between ++ .evicted key w' cause' :: after →
      ∃ v, .accepted key v ∈ between

theorem ledger_of_lives {key : K} {resident : Option V} (lives : Lives key none events resident) :
    Ledger key events resident where
  settled := by
    rintro before v after rfl
    obtain ⟨middle, _, next, moves, rest⟩ := lives_append.mp lives
    have taken : next = some v := by
      cases moves with
      | accepted => rfl
      | other ne => exact absurd rfl ne
    subst taken
    rcases rest.settled with kept | gone
    · refine .inl ⟨kept, ?_⟩
      rintro ⟨life, w, cause, later, rfl, _⟩
      obtain ⟨_, kept, _⟩ := kept
      exact kept.quiet.2 w cause (mem_append_right _ mem_cons_self)
    · refine .inr ⟨gone, ?_⟩
      rintro ⟨_, kept, _⟩
      obtain ⟨life, w, cause, _, rfl, _⟩ := gone
      exact kept.quiet.2 w cause (mem_append_right _ mem_cons_self)
  owned := by
    rintro before w cause after rfl
    obtain ⟨middle, front, next, moves, _⟩ := lives_append.mp lives
    have held : middle = some w := by
      cases moves with
      | evicted => rfl
      | other ne => exact absurd rfl ne
    subst held
    exact front.owned
  once := by
    rintro _ w _ _ w' _ _ rfl
    obtain ⟨middle, front, _, moves, _⟩ := lives_append.mp lives
    have held : middle = some w' := by
      cases moves with
      | evicted => rfl
      | other ne => exact absurd rfl ne
    subst held
    obtain ⟨_, _, gone, left, back⟩ := lives_append.mp front
    have absent : gone = none := by
      cases left with
      | evicted => rfl
      | other ne => exact absurd rfl ne
    subst absent
    obtain ⟨_, v, _, rfl, _⟩ := back.owned
    exact ⟨v, mem_append_right _ mem_cons_self⟩

/-! ## Sections keep the books -/

variable [DecidableEq K]

namespace Picture

variable {p p' : Picture K V}

def value (p : Picture K V) (key : K) : Option V := (p.content key).map Entry.value

omit [DecidableEq K] in
theorem Holds.value {id : K} {e : Entry V} (holds : p.Holds id e) : p.value id = some e.value := by
  rw [Picture.value, holds.found]
  rfl

/-- Every key's values have lived as the events tell. -/
def Told (past : List (Event K V)) (p : Picture K V) : Prop :=
  ∀ key, Lives key none (past ++ p.events) (p.value key)

/-- The flag says whether the hook was called. -/
def Flagged (p : Picture K V) : Prop :=
  p.evicted = true ↔ ∃ key value cause, Event.evicted key value cause ∈ p.events

/-- Writing one key with the event that says so. -/
theorem Told.write {past : List (Event K V)} (told : p.Told past) (event : Event K V)
    {entry : Option (Entry V)} (content : p'.content = Function.update p.content event.key entry)
    (events : p'.events = p.events ++ [event])
    (moves : event.Moves event.key (p.value event.key) (entry.map Entry.value)) : p'.Told past := by
  intro key
  rw [events, ← append_assoc]
  refine lives_append.mpr ⟨_, told key, _, ?_, rfl⟩
  change event.Moves key (p.value key) ((p'.content key).map Entry.value)
  rw [content]
  by_cases this : key = event.key
  · subst this
    rw [Function.update_self]
    exact moves
  · rw [Function.update_of_ne this]
    exact .other (Ne.symm this) _

theorem Told.does [CacheValue V] {past : List (Event K V)} (told : p.Told past) (does : Does p p') :
    p'.Told past := by
  cases does with
  | @evicts id e cause holds =>
    refine told.write (.evicted id e.value cause) rfl rfl ?_
    rw [Event.key, holds.value]
    exact .evicted e.value cause
  | @admits id value _ absent =>
    refine told.write (.accepted id value) rfl rfl ?_
    rw [Event.key, Picture.value, absent]
    exact .accepted value
  | @replaces id e value budget holds =>
    have gone : (p.evict id e .explicit budget).Told past := by
      refine told.write (.evicted id e.value .explicit) rfl rfl ?_
      rw [Event.key, holds.value]
      exact .evicted e.value .explicit
    refine gone.write (.accepted id value) rfl rfl ?_
    have absent : (p.evict id e .explicit budget).content id = none := Function.update_self id ..
    rw [Event.key, Picture.value, absent]
    exact .accepted value
  | rejects id value =>
    refine told.write (.rejected id value) (Function.update_eq_self id p.content).symm rfl ?_
    exact .rejected value _
  | @changes id e value holds =>
    refine told.write (.changed id e.value value) rfl rfl ?_
    rw [Event.key, holds.value]
    exact .changed e.value value
  | @reweighs id e new budget holds =>
    have same : (p.reweigh id e new budget).value = p.value := by
      funext key
      change (Function.update p.content id (some { e with weights := new }) key).map _ = _
      rw [Function.update_apply]
      split_ifs with this
      · subst this
        exact holds.value.symm
      · rfl
    intro key
    rw [same]
    exact told key

theorem Flagged.does [CacheValue V] (flagged : p.Flagged) (does : Does p p') : p'.Flagged := by
  have called {events : List (Event K V)} {key : K} {value : V} {cause : EvictCause}
      (member : .evicted key value cause ∈ events) :
      true = true ↔ ∃ key value cause, Event.evicted key value cause ∈ events :=
    iff_of_true rfl ⟨key, value, cause, member⟩
  have other {event : Event K V} (ne : ∀ key value cause, event ≠ .evicted key value cause) :
      p.evicted = true ↔ ∃ key value cause,
        Event.evicted key value cause ∈ p.events ++ [event] := by
    refine flagged.trans
      (exists_congr fun key => exists_congr fun value => exists_congr fun cause => ?_)
    rw [mem_append, mem_singleton]
    exact (or_iff_left (ne key value cause).symm).symm
  cases does with
  | evicts => exact called (mem_append_right _ mem_cons_self)
  | admits | rejects | changes => exact other fun _ _ _ => nofun
  | replaces => exact called (mem_append_left _ (mem_append_right _ mem_cons_self))
  | reweighs => exact flagged

end Picture

namespace ShardedCache

/-- The events of a shard, over all its sections. -/
def eventsOf (c : ShardedCache K V) (index : Fin shardCount) : List (Event K V) :=
  (c.sections.filter fun section_ => decide (section_.shard = index)).flatMap Section.events

omit [DecidableEq K] in
/-- The value under a key of a shard. -/
def resident (c : ShardedCache K V) (index : Fin shardCount) (key : K) : Option V :=
  ((c.shards index).map.get key).map Node.value

variable [ShardKey K] [CacheValue V]

/-- The books of every shard and the notice of every section. -/
structure Audited (c : ShardedCache K V) : Prop where
  lives : ∀ index key, Lives key none (c.eventsOf index) (c.resident index key)
  notices : ∀ section_ ∈ c.sections, section_.notified = true ↔
    ∃ key value cause, Event.evicted key value cause ∈ section_.events

theorem Audited.section {c : ShardedCache K V} (audited : c.Audited) {index : Fin shardCount}
    {a : Access K V} (leads : (c.lock index).Leads a) : (c.unlock index a).Audited := by
  have value (s : Shard K V) (key : K) :
      (s.content key).map Entry.value = (s.map.get key).map Node.value := by
    rw [Shard.content, Option.map_map]
    rfl
  have told : a.picture.Told (c.eventsOf index) := by
    refine Runs.steps_invariant (fun _ _ does told => told.does does) leads.does fun key => ?_
    change Lives key none (c.eventsOf index ++ []) (((c.shards index).content key).map _)
    rw [append_nil, value]
    exact audited.lives index key
  have flagged : a.picture.Flagged := by
    refine Runs.steps_invariant (fun _ _ does flagged => flagged.does does) leads.does ?_
    exact iff_of_false Bool.false_ne_true (by rintro ⟨_, _, _, member⟩; cases member)
  constructor
  · intro other key
    by_cases this : other = index
    · subst this
      have events : (c.unlock other a).eventsOf other = c.eventsOf other ++ a.events := by
        simp [eventsOf, unlock]
      rw [events, resident]
      change Lives key none _ (((Function.update c.shards other a.shard other).map.get key).map _)
      rw [Function.update_self, ← value]
      exact told key
    · have events : (c.unlock index a).eventsOf other = c.eventsOf other := by
        simp [eventsOf, unlock, Ne.symm this]
      rw [events, resident]
      change Lives key none _ (((Function.update c.shards index a.shard other).map.get key).map _)
      rw [Function.update_of_ne this]
      exact audited.lives other key
  · intro section_ member
    rcases mem_append.mp member with member | member
    · exact audited.notices section_ member
    · rw [mem_singleton.mp member]
      exact flagged

theorem Audited.ran {c c' : ShardedCache K V} (audited : c.Audited) (ran : Ran c c') :
    c'.Audited := by
  refine Runs.steps_invariant (fun before after taken kept => ?_) ran.sections audited
  obtain ⟨_, a, leads, rfl⟩ := taken
  exact kept.section leads

/-- The last that `insert_replacing` logs is whether it accepts the value, which is what it
returns. -/
theorem insertReplacing_logs {a a' : Access K V} {id : K} {value : V} {inserted : Bool}
    (done : a.insertReplacing id value = some (a', inserted)) :
    a'.events.getLast? = some (if inserted then .accepted id value else .rejected id value) := by
  obtain ⟨⟨a1, reserved⟩, _, rest⟩ := Option.bind_eq_some_iff.mp done
  cases reserved with
  | false =>
    cases rest
    exact getLast?_concat ..
  | true =>
    obtain ⟨a2, _, rest⟩ := Option.bind_eq_some_iff.mp rest
    obtain ⟨a3, placed, rest⟩ := Option.bind_eq_some_iff.mp rest
    obtain ⟨_, _, placed⟩ := Option.bind_eq_some_iff.mp placed
    obtain ⟨_, _, placed⟩ := Option.bind_eq_some_iff.mp placed
    cases placed
    cases rest
    exact getLast?_concat ..

/-- After every run: each accepted value is resident under its key or was passed to the hook,
once and never both; the hook is passed accepted values only; and `after_unlock` follows
exactly the sections that called it.  A value is accepted exactly if `insert_replacing` returns
true. -/
theorem run_ledger (config : ShardCacheConfig) (ops : List (Op K V)) :
    ∃ c, run ops (new config) = some c ∧
      (∀ index key, Ledger key (c.eventsOf index) (c.resident index key)) ∧
      (∀ section_ ∈ c.sections, section_.notified = true ↔
        ∃ key value cause, Event.evicted key value cause ∈ section_.events) ∧
      ∀ (a a' : Access K V) id value inserted, a.insertReplacing id value = some (a', inserted) →
        a'.events.getLast? =
          some (if inserted then .accepted id value else .rejected id value) := by
  obtain ⟨c, done, ran⟩ := run_ran ops (new_sound config)
  have start : (new config : ShardedCache K V).Audited :=
    ⟨fun _ _ => rfl, fun _ member => nomatch member⟩
  have audited := start.ran ran
  exact ⟨c, done, fun index key => ledger_of_lives (audited.lives index key), audited.notices,
    fun _ _ _ _ _ => insertReplacing_logs⟩

end ShardedCache

end HttpJet.Cache
