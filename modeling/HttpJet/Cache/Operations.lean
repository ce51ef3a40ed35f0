import HttpJet.Cache.Sound

/-!
# The operations of an access

An access to a locked shard, without links, generations and deadlines: the keys' content,
the bytes used, the shared reservation and the events. Every operation is a sequence of six
kinds of steps on that picture, keeps the shard sound and fails at no lookup, whatever the
closure that runs them does.
-/

namespace HttpJet.Cache

open Library Option Bool
open ShardKey (nil)
open CacheValue (weights)

variable {K V : Type} [DecidableEq K]
variable {a : Access K V} {id : K} {e : Entry V}

structure Picture (K V : Type) where
  content : K → Option (Entry V)
  used : Strand → Nat
  budget : GlobalBudget
  evicted : Bool
  events : List (Event K V)

def Access.picture (a : Access K V) : Picture K V where
  content := a.shard.content
  used := a.shard.used
  budget := a.globalBudget
  evicted := a.evicted
  events := a.events

namespace Picture

variable (p : Picture K V)

def evict (id : K) (e : Entry V) (cause : EvictCause) (budget : GlobalBudget) : Picture K V where
  content := Function.update p.content id none
  used strand := p.used strand - e.weights.on strand
  budget := budget
  evicted := true
  events := p.events ++ [.evicted id e.value cause]

def accept [CacheValue V] (p : Picture K V) (id : K) (value : V) (budget : GlobalBudget) :
    Picture K V where
  content := Function.update p.content id (some ⟨value, weights value⟩)
  used strand := p.used strand + (weights value).on strand
  budget := budget
  evicted := p.evicted
  events := p.events ++ [.accepted id value]

def reject (id : K) (value : V) : Picture K V :=
  { p with events := p.events ++ [.rejected id value] }

def change (id : K) (e : Entry V) (value : V) : Picture K V :=
  { p with
    content := Function.update p.content id (some { e with value := value })
    events := p.events ++ [.changed id e.value value] }

def reweigh (id : K) (e : Entry V) (new : Weights) (budget : GlobalBudget) : Picture K V :=
  { p with
    content := Function.update p.content id (some { e with weights := new })
    used := fun strand => p.used strand - e.weights.on strand + new.on strand
    budget := budget }

/-- A resident entry, whose weights are among the bytes used. -/
structure Holds (p : Picture K V) (id : K) (e : Entry V) : Prop where
  found : p.content id = some e
  covered : ∀ strand, e.weights.on strand ≤ p.used strand

/-- One step of an access. A reservation moves with the entry it is for. -/
inductive Does [CacheValue V] : Picture K V → Picture K V → Prop
  | evicts {p : Picture K V} {id : K} {e : Entry V} (cause : EvictCause) (holds : p.Holds id e) :
      Does p (p.evict id e cause (p.budget.release e.weights))
  | admits {p : Picture K V} {id : K} {value : V} {budget : GlobalBudget}
      (absent : p.content id = none)
      (reserved : p.budget.tryReplace ⟨0, 0⟩ (weights value) = some budget) :
      Does p (p.accept id value budget)
  | replaces {p : Picture K V} {id : K} {e : Entry V} {value : V} {budget : GlobalBudget}
      (holds : p.Holds id e)
        (reserved : p.budget.tryReplace e.weights (weights value) = some budget) :
      Does p ((p.evict id e .explicit budget).accept id value budget)
  | rejects (p : Picture K V) (id : K) (value : V) : Does p (p.reject id value)
  | changes {p : Picture K V} {id : K} {e : Entry V} (value : V) (holds : p.Holds id e) :
      Does p (p.change id e value)
  | reweighs {p : Picture K V} {id : K} {e : Entry V} {new : Weights} {budget : GlobalBudget}
      (holds : p.Holds id e) (reserved : p.budget.tryReplace e.weights new = some budget) :
      Does p (p.reweigh id e new budget)

/-! ## Emptying a picture -/

/-- The bytes a key takes. -/
def weightOf (strand : Strand) (id : K) : Nat :=
  (p.content id).elim 0 fun e => e.weights.on strand

/-- The call of the hook for a key, if it is resident. -/
def farewell (id : K) : Option (Event K V) :=
  (p.content id).map fun e => .evicted id e.value .explicit

/-- A picture without the given keys. -/
def emptied (ids : List K) : Picture K V where
  content key := if key ∈ ids then none else p.content key
  used strand := p.used strand - (ids.map (p.weightOf strand)).sum
  budget := p.budget.release ⟨(ids.map (p.weightOf .ram)).sum, (ids.map (p.weightOf .disk)).sum⟩
  evicted := p.evicted || decide (ids ≠ [])
  events := p.events ++ ids.filterMap p.farewell

theorem emptied_nil : p.emptied [] = p := by
  rw [emptied]
  simp only [List.not_mem_nil, if_false, List.map_nil, List.sum_nil, Nat.sub_zero, ne_eq,
    not_true_eq_false,
    decide_false, Bool.or_false, List.filterMap_nil, List.append_nil]
  rfl

variable {p} {ids : List K} {cause : EvictCause} {budget : GlobalBudget}

theorem evict_content (fresh : id ∉ ids) {key : K} (member : key ∈ ids) :
    (p.evict id e cause budget).content key = p.content key := by
  refine Function.update_of_ne ?_ ..
  rintro rfl
  exact fresh member

theorem evict_weights (fresh : id ∉ ids) (strand : Strand) :
    ids.map ((p.evict id e cause budget).weightOf strand) = ids.map (p.weightOf strand) := by
  refine List.map_congr_left fun key member => ?_
  rw [weightOf, weightOf, evict_content fresh member]

theorem evict_farewells (fresh : id ∉ ids) :
    ids.filterMap (p.evict id e cause budget).farewell = ids.filterMap p.farewell := by
  refine List.filterMap_congr fun key member => ?_
  rw [farewell, farewell, evict_content fresh member]

omit [DecidableEq K] in
theorem sum_weights_cons (found : p.content id = some e) (strand : Strand) :
    ((id :: ids).map (p.weightOf strand)).sum = e.weights.on strand +
      (ids.map (p.weightOf strand)).sum := by
  rw [List.map_cons, List.sum_cons, weightOf, found]
  rfl

theorem emptied_cons (found : p.content id = some e) (fresh : id ∉ ids) :
    p.emptied (id :: ids) = (p.evict id e .explicit (p.budget.release e.weights)).emptied ids := by
  rw [emptied, emptied, Picture.mk.injEq]
  refine ⟨?_, ?_, ?_, ?_, ?_⟩
  · funext key
    change _ = if key ∈ ids then none else Function.update p.content id none key
    by_cases this : key = id <;> by_cases member : key ∈ ids <;> simp [this, member]
  · funext strand
    rw [evict_weights fresh, sum_weights_cons found]
    exact Nat.sub_add_eq ..
  · rw [evict_weights fresh, evict_weights fresh, sum_weights_cons found, sum_weights_cons found]
    simp only [GlobalBudget.release, Nat.sub_add_eq]
    rfl
  · simp [evict]
  · have first : p.farewell id = some (.evicted id e.value .explicit) := by
      rw [farewell, found]
      rfl
    rw [evict_farewells fresh, List.filterMap_cons_some first]
    change _ = p.events ++ [_] ++ _
    rw [List.append_assoc, List.singleton_append]

theorem emptied_does [CacheValue V] (nodup : ids.Nodup)
    (resident : ∀ id ∈ ids, ∃ e, p.content id = some e)
    (covered : ∀ strand, (ids.map (p.weightOf strand)).sum ≤ p.used strand) :
    Relation.ReflTransGen Does p (p.emptied ids) := by
  induction ids generalizing p with
  | nil => rw [emptied_nil]
  | cons id ids ih =>
    obtain ⟨fresh, nodup⟩ := List.nodup_cons.mp nodup
    obtain ⟨e, found⟩ := resident id List.mem_cons_self
    have whole (strand : Strand) :
        e.weights.on strand + (ids.map (p.weightOf strand)).sum ≤ p.used strand := by
      rw [← sum_weights_cons found]
      exact covered strand
    have holds : p.Holds id e := ⟨found, fun strand => Nat.le_of_add_right_le (whole strand)⟩
    rw [emptied_cons found fresh]
    refine .head (.evicts .explicit holds) (ih nodup (fun key member => ?_) fun strand => ?_)
    · rw [evict_content fresh member]
      exact resident key (List.mem_cons_of_mem id member)
    · rw [evict_weights fresh]
      exact Nat.le_sub_of_add_le' (whole strand)

end Picture

/-! ## Deadlines -/

omit [DecidableEq K] in
theorem Access.popExpiry_length {entries others : List (DeadlineEntry K)} {top : DeadlineEntry K}
    (popped : Shard.popExpiry entries = some (top, others)) :
    others.length + 1 = entries.length := by
  induction entries generalizing top others with
  | nil => nomatch popped
  | cons _ rest ih =>
    rw [Shard.popExpiry] at popped
    cases inner : Shard.popExpiry rest with
    | none =>
      rw [inner] at popped
      obtain ⟨-, rfl⟩ := Prod.mk.inj (some.inj popped)
      cases rest with
      | nil => rfl
      | cons =>
        rw [Shard.popExpiry] at inner
        split at inner
        · nomatch inner
        · split_ifs at inner
    | some =>
      have shorter := ih inner
      rw [inner] at popped
      dsimp only at popped
      split_ifs at popped
      · obtain ⟨-, rfl⟩ := Prod.mk.inj (some.inj popped)
        rfl
      · obtain ⟨-, rfl⟩ := Prod.mk.inj (some.inj popped)
        simpa using shorter

theorem Access.pushDeadline_picture (a : Access K V) (s : Shard K V) (id : K)
    (deadline : Option Instant)
    (generation : Nat) :
    picture { a with shard := s.pushDeadline id deadline generation } =
      picture { a with shard := s } := by
  cases deadline <;> rfl

theorem Access.pushDeadline_sound [ShardKey K] {s : Shard K V} (sound : s.Sound) (id : K)
    (deadline : Option Instant)
    (generation : Nat) : (s.pushDeadline id deadline generation).Sound := by
  cases deadline with
  | none => exact sound
  | some => exact sound.of_parts rfl rfl rfl

/-- Moving nodes within the lists shows in no picture. -/
theorem Access.picture_of_alike {shard : Shard K V} (alike : Shard.Alike a.shard shard) :
    Access.picture { a with shard := shard } = a.picture := by
  rw [Access.picture, Access.picture, Picture.mk.injEq]
  exact ⟨alike.content, alike.used, rfl, rfl, rfl⟩

open Picture (Does)

variable [ShardKey K]

theorem Shard.Sound.holds (sound : a.shard.Sound) (found : a.shard.content id = some e) :
    a.picture.Holds id e :=
  ⟨found, sound.le_used found⟩

namespace Access

variable {a' : Access K V}

/-! ## Teardown -/

/-- What a teardown of a resident entry leaves. -/
structure Torn (a a' : Access K V) (id : K) (e : Entry V) (cause : EvictCause)
    (budget : GlobalBudget) :
    Prop where
  sound : a'.shard.Sound
  picture : a'.picture = a.picture.evict id e cause budget
  size : a'.shard.map.size < a.shard.map.size
  expiry : a'.shard.expiry = a.shard.expiry

theorem teardownInner_of_none (absent : a.shard.content id = none) (cause : EvictCause)
    (releaseGlobal : Bool) : a.teardownInner id cause releaseGlobal = some a := by
  rw [teardownInner, Option.map_eq_none_iff.mp absent]

theorem teardownInner_of_some (sound : a.shard.Sound) (found : a.shard.content id = some e)
    (cause : EvictCause) (releaseGlobal : Bool) :
    ∃ a', a.teardownInner id cause releaseGlobal = some a' ∧ Torn a a' id e cause
      (if releaseGlobal then a.globalBudget.release e.weights else a.globalBudget) := by
  obtain ⟨n, present, rfl⟩ := Shard.content_eq_some.mp found
  obtain ⟨s, done, content, expiry, used, lists⟩ := sound.detach found
  obtain ⟨node, present', same⟩ := Shard.content_eq_some.mp ((congrFun content id).trans found)
  obtain ⟨dropped, content'⟩ := sound.drop found content used lists
  refine ⟨{ a with
    shard := { s with map := s.map.del id }
    globalBudget := if releaseGlobal then a.globalBudget.release n.weights else a.globalBudget
    evicted := true
    events := a.events ++ [.evicted id node.value cause] }, ?_, dropped, ?_, ?_, expiry⟩
  · have detached : a.shard.detach id n.weights = some s := done
    simp [teardownInner, present, detached, present']
  · have value : node.value = n.value := congrArg Entry.value same
    rw [picture, Picture.evict, Picture.mk.injEq]
    exact ⟨content', funext used, rfl, rfl,
      congrArg (fun value => a.events ++ [.evicted id value cause]) value⟩
  · have same := Shard.Alike.total (fun _ => 1) content
    rw [← HashMap.size_eq_total, ← HashMap.size_eq_total,
      ← HashMap.size_del_of_get present'] at same
    exact Nat.lt_of_succ_le same.le

variable [CacheValue V]

/-- An access that has gone on from another by steps, its shard sound. -/
structure Leads (a a' : Access K V) : Prop where
  sound : a'.shard.Sound
  does : Relation.ReflTransGen Does a.picture a'.picture

namespace Leads

theorem refl (sound : a.shard.Sound) : Leads a a := ⟨sound, .refl⟩

theorem trans {a'' : Access K V} (first : Leads a a') (second : Leads a' a'') : Leads a a'' :=
  ⟨second.sound, first.does.trans second.does⟩

theorem step (sound : a'.shard.Sound) (does : Does a.picture a'.picture) : Leads a a' :=
  ⟨sound, .single does⟩

/-- Links may change without a step. -/
theorem quiet (sound : a'.shard.Sound) (same : a'.picture = a.picture) : Leads a a' :=
  ⟨sound, same ▸ .refl⟩

end Leads

theorem Torn.leads {cause : EvictCause}
    (torn : Torn a a' id e cause (a.globalBudget.release e.weights))
    (sound : a.shard.Sound) (found : a.shard.content id = some e) : Leads a a' := by
  refine .step torn.sound ?_
  rw [torn.picture]
  exact .evicts cause (sound.holds found)

theorem teardown_leads (sound : a.shard.Sound) (id : K) (cause : EvictCause) :
    ∃ a', a.teardown id cause = some a' ∧ Leads a a' ∧ a'.shard.expiry = a.shard.expiry := by
  cases found : a.shard.content id with
  | none => exact ⟨a, teardownInner_of_none found cause true, .refl sound, rfl⟩
  | some =>
    obtain ⟨a', done, torn⟩ := teardownInner_of_some sound found cause true
    exact ⟨a', done, torn.leads sound found, torn.expiry⟩

theorem teardown_victim (sound : a.shard.Sound) {strand : Strand} {spared : K}
    (some_victim : a.shard.victim strand spared ≠ nil) :
    ∃ a', a.teardown (a.shard.victim strand spared) strand.cause = some a' ∧ Leads a a' ∧
      a'.shard.map.size < a.shard.map.size ∧ a'.shard.content spared = a.shard.content spared := by
  obtain ⟨other, e, found⟩ := sound.victim some_victim
  obtain ⟨a', done, torn⟩ := teardownInner_of_some sound found strand.cause true
  refine ⟨a', done, torn.leads sound found, torn.size, ?_⟩
  have content := congrArg Picture.content torn.picture
  exact (congrFun content spared).trans (Function.update_of_ne other.symm ..)

/-! ## Making room -/

/-- The loop ends with the reservation swapped, or without a victim left. -/
theorem reserveLoop_spec {old new : Weights} (fuel : Nat) (sound : a.shard.Sound)
    (enough : a.shard.map.size < fuel) :
    ∃ a', Leads a a' ∧ a'.shard.content id = a.shard.content id ∧
      (reserveLoop id old new fuel a = some (a', false) ∨
        ∃ budget, a'.globalBudget.tryReplace old new = some budget ∧
          reserveLoop id old new fuel a = some ({ a' with globalBudget := budget }, true)) := by
  induction fuel generalizing a with
  | zero => exact absurd enough (Nat.not_lt_zero _)
  | succ _ ih =>
    rw [reserveLoop]
    cases swapped : a.globalBudget.tryReplace old new with
    | some budget => exact ⟨a, .refl sound, rfl, .inr ⟨budget, swapped, rfl⟩⟩
    | none =>
      split_ifs with impossible
      · exact ⟨a, .refl sound, rfl, .inl rfl⟩
      · cases a.globalBudget.pressed old new with
        | none => exact ⟨a, .refl sound, rfl, .inl rfl⟩
        | some =>
          dsimp only
          split_ifs with last
          · exact ⟨a, .refl sound, rfl, .inl rfl⟩
          · obtain ⟨_, done, leads, _, kept⟩ := teardown_victim sound last
            obtain ⟨a', leads', kept', outcome⟩ := ih leads.sound (by omega)
            refine ⟨a', leads.trans leads', kept'.trans kept, ?_⟩
            rw [done]
            exact outcome

theorem reserveReplacing_spec (sound : a.shard.Sound) (id : K) (old new : Weights) :
    ∃ a', Leads a a' ∧ a'.shard.content id = a.shard.content id ∧
      (a.reserveReplacing id old new = some (a', false) ∨
        ∃ budget, a'.globalBudget.tryReplace old new = some budget ∧
          a.reserveReplacing id old new = some ({ a' with globalBudget := budget }, true)) :=
  reserveLoop_spec _ sound (Nat.lt_succ_self _)

theorem enforceLoop_leads (strand : Strand) (budget : Nat) (protect : K) (fuel : Nat)
    (sound : a.shard.Sound) (enough : a.shard.map.size < fuel) :
    ∃ a', enforceLoop strand budget protect fuel a = some a' ∧ Leads a a' := by
  induction fuel generalizing a with
  | zero => exact absurd enough (Nat.not_lt_zero _)
  | succ _ ih =>
    rw [enforceLoop]
    dsimp only
    split_ifs with beyond last
    · exact ⟨a, rfl, .refl sound⟩
    · obtain ⟨_, done, leads, _, _⟩ := teardown_victim sound last
      obtain ⟨a', done', leads'⟩ := ih leads.sound (by omega)
      refine ⟨a', ?_, leads.trans leads'⟩
      rw [done]
      exact done'
    · exact ⟨a, rfl, .refl sound⟩

section

variable (sound : a.shard.Sound)
include sound

theorem enforceBudgets_leads (protect : K) :
    ∃ a', a.enforceBudgets protect = some a' ∧ Leads a a' := by
  obtain ⟨a1, done1, leads1⟩ := enforceLoop_leads .ram a.ramBudgetPerShard protect _ sound
    (Nat.lt_succ_self _)
  obtain ⟨a2, done2, leads2⟩ := enforceLoop_leads .disk a1.diskBudgetPerShard protect _
    leads1.sound (Nat.lt_succ_self _)
  refine ⟨a2, ?_, leads1.trans leads2⟩
  rw [enforceBudgets, done1]
  exact done2

/-! ## Touching -/

theorem touchRam_leads (id : K) : ∃ a', a.touchRam id = some a' ∧ Leads a a' := by
  cases present : a.shard.map.get id with
  | none => exact ⟨a, by rw [touchRam, present], .refl sound⟩
  | some node =>
    obtain ⟨s, done, sound', alike⟩ := sound.touch
      (show a.shard.OnList .ram id
        from ⟨_, Shard.content_eq_some.mpr ⟨node, present, rfl⟩, trivial⟩)
    refine ⟨{ a with shard := s }, ?_, .quiet sound' (picture_of_alike alike)⟩
    have touched : a.shard.ramTouch id = some s := done
    rw [touchRam, present, touched]
    rfl

theorem touchDisk_leads (id : K) : ∃ a', a.touchDisk id = some a' ∧ Leads a a' := by
  cases found : a.shard.content id with
  | none =>
    refine ⟨a, ?_, .refl sound⟩
    rw [touchDisk, Shard.onDisk, Option.map_eq_none_iff.mp found]
    rfl
  | some =>
    obtain ⟨s, done, sound', alike⟩ := sound.touchDisk found
    refine ⟨{ a with shard := s }, ?_, .quiet sound' (picture_of_alike alike)⟩
    rw [touchDisk, Shard.onDisk_eq found]
    simp only [decide_eq_true_eq]
    rw [done]
    rfl

theorem touch_leads (id : K) : ∃ a', a.touch id = some a' ∧ Leads a a' := by
  cases present : a.shard.map.get id with
  | none => exact ⟨a, by rw [touch, present], .refl sound⟩
  | some node =>
    obtain ⟨_, s2, done1, found1, done2, sound2, alike⟩ :=
      sound.touchBoth (Shard.content_eq_some.mpr ⟨node, present, rfl⟩)
    refine ⟨{ a with shard := s2 }, ?_, .quiet sound2 (picture_of_alike alike)⟩
    rw [touch, present]
    simp only [done1, Shard.onDisk_eq found1, decide_eq_true_eq, Option.bind_eq_bind,
      Option.bind_some]
    rw [done2]
    rfl

theorem getFresh_leads (now : Instant) (id : K) :
    ∃ a' value, a.getFresh now id = some (a', value) ∧ Leads a a' := by
  cases present : a.shard.map.get id with
  | none => exact ⟨a, none, by rw [getFresh, present], .refl sound⟩
  | some node =>
    rw [getFresh, present]
    dsimp only
    by_cases stale : (!CacheValue.isFresh node.value now) = true
    · obtain ⟨a', done, leads, _⟩ := teardown_leads sound id .expired
      refine ⟨a', none, ?_, leads⟩
      rw [if_pos stale, done]
      rfl
    · obtain ⟨_, s2, done1, _, done2, sound2, alike⟩ :=
        sound.touchBoth (Shard.content_eq_some.mpr ⟨node, present, rfl⟩)
      refine ⟨{ a with shard := s2 }, some node.value, ?_, .quiet sound2 (picture_of_alike alike)⟩
      rw [if_neg stale, done1]
      exact (congrArg (fun found => Option.bind found _) done2).trans rfl

/-! ## Inserting -/

theorem place_spec (absent : a.shard.content id = none) (real : id ≠ nil) (value : V) :
    ∃ a', a.place id value = some a' ∧ a'.shard.Sound ∧
      a'.picture = a.picture.accept id value a.globalBudget := by
  have sound0 : a.shard.bumpGen.Sound := sound.of_parts rfl rfl rfl
  obtain ⟨s, done, sound', content, used⟩ := sound0.attach absent real
    ⟨value, ⟨nil, nil⟩, ⟨nil, nil⟩, (weights value).ram, (weights value).disk,
      a.shard.bumpGen.nextGen⟩
  obtain ⟨node, present, _⟩ :=
    Shard.content_eq_some.mp ((congrFun content id).trans (Function.update_self id ..))
  refine ⟨{ a with
    shard := s.pushDeadline id (CacheValue.deadline node.value) a.shard.bumpGen.nextGen
    events := a.events ++ [.accepted id value] }, ?_, pushDeadline_sound sound' .., ?_⟩
  · rw [place]
    simp [done, present]
  · rw [pushDeadline_picture { a with events := a.events ++ [.accepted id value] },
      Picture.accept, picture,
      Picture.mk.injEq]
    exact ⟨content, funext used, rfl, rfl, rfl⟩

theorem insertReplacing_leads (real : id ≠ nil) (value : V) :
    ∃ a' inserted, a.insertReplacing id value = some (a', inserted) ∧ Leads a a' := by
  obtain ⟨a1, leads, kept, refused | ⟨budget, swapped, reserved⟩⟩ :=
    reserveReplacing_spec sound id (a.shard.recorded id) (weights value)
  · refine ⟨{ a1 with events := a1.events ++ [.rejected id value] }, false, ?_,
      leads.trans (.step leads.sound (.rejects _ id value))⟩
    rw [insertReplacing, refused]
    rfl
  · let a2 : Access K V := { a1 with globalBudget := budget }
    have sound2 : a2.shard.Sound := leads.sound
    cases found : a.shard.content id with
    | none =>
      have absent : a2.shard.content id = none := kept.trans found
      obtain ⟨a', done, sound', pictured⟩ := place_spec sound2 absent real value
      refine ⟨a', true, ?_, leads.trans (.step sound' ?_)⟩
      · have skipped : a2.teardownInner id .explicit false = some a2 :=
          teardownInner_of_none absent .explicit false
        rw [insertReplacing, reserved]
        change bind (a2.teardownInner id .explicit false) _ = _
        rw [skipped]
        change bind (a2.place id value) _ = _
        rw [done]
        rfl
      · rw [pictured]
        rw [Shard.recorded, map_eq_none_iff.mp found] at swapped
        exact .admits (p := a1.picture) absent swapped
    | some e =>
      have held : a2.shard.content id = some e := kept.trans found
      obtain ⟨a3, torn, left⟩ := teardownInner_of_some sound2 held .explicit false
      have absent : a3.shard.content id = none :=
        (congrFun (congrArg Picture.content left.picture) id).trans (Function.update_self id ..)
      obtain ⟨a', done, sound', pictured⟩ := place_spec left.sound absent real value
      have budget3 : a3.globalBudget = budget := congrArg Picture.budget left.picture
      refine ⟨a', true, ?_, leads.trans (.step sound' ?_)⟩
      · rw [insertReplacing, reserved]
        change bind (a2.teardownInner id .explicit false) _ = _
        rw [torn]
        change bind (a3.place id value) _ = _
        rw [done]
        rfl
      · rw [pictured, budget3, left.picture]
        rw [Shard.recorded_eq found] at swapped
        exact .replaces (p := a1.picture) (leads.sound.holds held) swapped

theorem insert_leads (real : id ≠ nil) (value : V) :
    ∃ a', a.insert id value = some a' ∧ Leads a a' := by
  obtain ⟨a1, inserted, done, leads⟩ := insertReplacing_leads sound real value
  cases inserted with
  | false =>
    refine ⟨a1, ?_, leads⟩
    rw [insert, done]
    rfl
  | true =>
    obtain ⟨a', done', leads'⟩ := enforceBudgets_leads leads.sound id
    refine ⟨a', ?_, leads.trans leads'⟩
    rw [insert, done]
    exact done'

/-! ## Changing a value in place -/

theorem rewrite_leads {e : Entry V} (found : a.shard.content id = some e) (value : V) :
    Leads a (a.rewrite id value) ∧
      (a.rewrite id value).shard.content id = some { e with value := value } := by
  obtain ⟨node, present, rfl⟩ := Shard.content_eq_some.mp found
  have content := Shard.Sound.content_modify (fun node => { node with value := value }) present
  have written : a.rewrite id value = { a with
      shard :=
        { a.shard with map := a.shard.map.modify id fun node => { node with value := value } }
      events := a.events ++ [.changed id node.value value] } := by
    rw [rewrite, present]
  rw [written]
  refine ⟨.step (sound.modify _ (fun _ strand => by cases strand <;> rfl) rfl present) ?_,
    (congrFun content id).trans (Function.update_self id ..)⟩
  have pictured : picture { a with
      shard :=
        { a.shard with map := a.shard.map.modify id fun node => { node with value := value } }
      events := a.events ++ [.changed id node.value value] } =
        a.picture.change id node.entry value := by
    rw [picture, Picture.change, Picture.mk.injEq]
    exact ⟨content, rfl, rfl, rfl, rfl⟩
  rw [pictured]
  exact .changes value (sound.holds found)

theorem charge_leads {e : Entry V} (found : a.shard.content id = some e) (new : Weights)
    {settle : Access K V → Option (Access K V)}
    (settles : ∀ {b : Access K V}, b.shard.Sound → (∃ e, b.shard.content id = some e) → ∃ b',
      settle b = some b' ∧ Leads b b') :
    ∃ a' kept, a.charge id e.weights new settle = some (a', kept) ∧ Leads a a' := by
  obtain ⟨a1, leads, kept, refused | ⟨budget, swapped, reserved⟩⟩ :=
    reserveReplacing_spec sound id e.weights new
  · obtain ⟨a', torn, leads', _⟩ := teardown_leads leads.sound id .size
    refine ⟨a', false, ?_, leads.trans leads'⟩
    rw [charge, refused]
    change bind (a1.teardown id .size) _ = _
    rw [torn]
    rfl
  · have held := kept.trans found
    obtain ⟨s, done, sound2, content, used⟩ := leads.sound.reweigh held new
    let a2 : Access K V := { a1 with shard := s, globalBudget := budget }
    have leads2 : Leads a1 a2 := by
      refine .step sound2 ?_
      have pictured : a2.picture = a1.picture.reweigh id e new budget := by
        rw [picture, Picture.reweigh, Picture.mk.injEq]
        exact ⟨content, funext used, rfl, rfl, rfl⟩
      rw [pictured]
      exact .reweighs (leads.sound.holds held) swapped
    obtain ⟨a', settled, leads'⟩ := settles leads2.sound
      ⟨_, (congrFun content id).trans (Function.update_self id ..)⟩
    refine ⟨a', true, ?_, (leads.trans leads2).trans leads'⟩
    rw [charge, reserved]
    change bind (a1.shard.reweigh id e.weights new) _ = _
    rw [done]
    change bind (settle a2) _ = _
    rw [settled]
    rfl

theorem renew_leads (resident : ∃ e, a.shard.content id = some e)
    (deadline : Option Instant) : Leads a (a.renew id deadline) := by
  obtain ⟨e, found⟩ := resident
  obtain ⟨node, present, rfl⟩ := Shard.content_eq_some.mp found
  have sound0 : a.shard.bumpGen.Sound := sound.of_parts rfl rfl rfl
  have renewed := sound0.modify (fun node => { node with generation := a.shard.bumpGen.nextGen })
    (fun _ strand => by cases strand <;> rfl) rfl present
  refine .quiet (pushDeadline_sound renewed ..) ?_
  have content := Shard.Sound.content_modify (s := a.shard.bumpGen)
    (fun node => { node with generation := a.shard.bumpGen.nextGen }) present
  refine (pushDeadline_picture a _ id deadline _).trans ?_
  rw [picture, picture, Picture.mk.injEq]
  exact ⟨content.trans (Function.update_eq_self_iff.mpr found.symm), rfl, rfl, rfl, rfl⟩

theorem mutate_leads (id : K) (f : V → V × Bool) :
    ∃ a' kept, a.mutate id f = some (a', kept) ∧ Leads a a' := by
  cases present : a.shard.map.get id with
  | none => exact ⟨a, false, by rw [mutate, present], .refl sound⟩
  | some node =>
    have found : a.shard.content id = some node.entry :=
      Shard.content_eq_some.mpr ⟨node, present, rfl⟩
    obtain ⟨leads, found'⟩ := rewrite_leads sound found (f node.value).1
    rw [mutate, present]
    dsimp only
    split_ifs with committed
    · obtain ⟨a', kept, charged, leads'⟩ :=
        charge_leads leads.sound found' (weights (f node.value).1)
        fun sound resident => by
          have renewed := renew_leads sound resident (CacheValue.deadline (f node.value).1)
          obtain ⟨b', enforced, leads'⟩ := enforceBudgets_leads renewed.sound id
          exact ⟨b', enforced, renewed.trans leads'⟩
      exact ⟨a', kept, charged, leads.trans leads'⟩
    · exact ⟨_, false, rfl, leads⟩

theorem reconcileWeights_leads (id protect : K) :
    ∃ a' kept, a.reconcileWeights id protect = some (a', kept) ∧ Leads a a' := by
  cases present : a.shard.map.get id with
  | none => exact ⟨a, false, by rw [reconcileWeights, present], .refl sound⟩
  | some node =>
    obtain ⟨a', kept, charged, leads⟩ := charge_leads sound
      (Shard.content_eq_some.mpr ⟨node, present, rfl⟩) (weights node.value)
      fun sound _ => enforceBudgets_leads sound protect
    refine ⟨a', kept, ?_, leads⟩
    rw [reconcileWeights, present]
    exact charged

end

/-! ## Sweeping -/

theorem sweepLoop_leads {now : Instant} (fuel : Nat) (sound : a.shard.Sound)
    (enough : a.shard.expiry.length < fuel) :
    ∃ a', sweepLoop now fuel a = some a' ∧ Leads a a' := by
  induction fuel generalizing a with
  | zero => exact absurd enough (Nat.not_lt_zero _)
  | succ fuel ih =>
    rw [sweepLoop]
    cases popped : Shard.popExpiry a.shard.expiry with
    | none => exact ⟨a, rfl, .refl sound⟩
    | some pair =>
      obtain ⟨top, others⟩ := pair
      have shorter := popExpiry_length popped
      dsimp only
      by_cases later : now < top.deadline
      · exact ⟨a, if_pos later, .refl sound⟩
      · let a1 : Access K V := { a with shard := { a.shard with expiry := others } }
        have leads1 : Leads a a1 := .quiet (sound.of_parts rfl rfl rfl) rfl
        split_ifs with due
        · obtain ⟨a2, torn, leads2, same⟩ := teardown_leads leads1.sound top.key .expired
          have fewer : a2.shard.expiry.length < fuel := by
            rw [same]
            change others.length < fuel
            omega
          obtain ⟨a', done, leads'⟩ := ih leads2.sound fewer
          refine ⟨a', ?_, (leads1.trans leads2).trans leads'⟩
          rw [torn]
          exact done
        · obtain ⟨a', done, leads'⟩ := ih leads1.sound (by change others.length < fuel; omega)
          exact ⟨a', done, leads1.trans leads'⟩

theorem teardownAll_leads (cause : EvictCause) (ids : List K) (sound : a.shard.Sound) :
    ∃ a', teardownAll cause ids a = some a' ∧ Leads a a' := by
  induction ids generalizing a with
  | nil => exact ⟨a, rfl, .refl sound⟩
  | cons id _ ih =>
    obtain ⟨_, torn, leads1, _⟩ := teardown_leads sound id cause
    obtain ⟨a', done, leads'⟩ := ih leads1.sound
    refine ⟨a', ?_, leads1.trans leads'⟩
    rw [teardownAll, torn]
    exact done

/-! ## Emptying a shard -/

theorem drain_leads (sound : a.shard.Sound) (walk : Walk K) (quiet : a.evicted = false) :
    Leads a (ShardedCache.drain walk a) := by
  have perm := walk.perm a.shard.map.keys
  have member {key : K} : key ∈ walk.arrange a.shard.map.keys ↔ ∃ node,
    a.shard.map.get key = some node := by
    rw [perm.mem_iff, HashMap.mem_keys, HashMap.contains_iff]
  have summed (strand : Strand) :
      ((walk.arrange a.shard.map.keys).map (a.picture.weightOf strand)).sum =
        a.shard.used strand := by
    rw [(perm.map _).sum_eq, sound.used, HashMap.total_eq_sum_keys]
    refine congrArg List.sum (List.map_congr_left fun key _ => ?_)
    change ((a.shard.map.get key).map Node.entry).elim 0 _ = _
    rw [Option.elim_map]
    rfl
  have pictured :
      (ShardedCache.drain walk a).picture = a.picture.emptied (walk.arrange a.shard.map.keys) := by
    rw [picture, Picture.emptied, Picture.mk.injEq]
    refine ⟨?_, ?_, ?_, ?_, ?_⟩
    · funext key
      split_ifs with present
      · rfl
      · refine (Option.eq_none_iff_forall_ne_some.mpr fun e found => ?_).symm
        obtain ⟨node, held, _⟩ := Shard.content_eq_some.mp found
        exact present (member.mpr ⟨node, held⟩)
    · funext strand
      rw [summed]
      change _ = a.shard.used strand - a.shard.used strand
      rw [Nat.sub_self]
      cases strand <;> rfl
    · rw [summed, summed]
      rfl
    · change _ = (a.evicted || _)
      rw [quiet, Bool.false_or]
      have same : walk.arrange a.shard.map.keys ≠ [] ↔ a.shard.map.keys ≠ [] :=
        not_congr ⟨fun empty => List.nil_perm.mp (empty ▸ perm), fun empty =>
          List.perm_nil.mp (empty ▸ perm)⟩
      exact (decide_eq_decide.mpr same).symm
    · refine congrArg (a.events ++ ·) (List.filterMap_congr fun key _ => ?_)
      change _ = ((a.shard.map.get key).map Node.entry).map _
      rw [Option.map_map]
      rfl
  refine ⟨Shard.Sound.new.of_parts rfl rfl rfl, ?_⟩
  rw [pictured]
  refine Picture.emptied_does (perm.nodup_iff.mpr a.shard.map.nodupKeys) (fun key present => ?_)
    fun strand => ?_
  · obtain ⟨node, held⟩ := member.mp present
    exact ⟨_, Shard.content_eq_some.mpr ⟨node, held, rfl⟩⟩
  · exact (summed strand).le

end Access

/-! ## Closures -/

variable [CacheValue V]

theorem AccessOp.exec_leads (op : AccessOp K V) (sound : a.shard.Sound) :
    ∃ a', op.exec a = some a' ∧ a.Leads a' := by
  cases op with
  | touch id => exact Access.touch_leads sound id
  | touchRam id => exact Access.touchRam_leads sound id
  | touchDisk id => exact Access.touchDisk_leads sound id
  | teardown id cause =>
    obtain ⟨a', done, leads, _⟩ := Access.teardown_leads sound id cause
    exact ⟨a', done, leads⟩
  | insertReplacing id value =>
    obtain ⟨a', _, done, leads⟩ := Access.insertReplacing_leads sound id.property value
    exact ⟨a', congrArg (Option.map Prod.fst) done, leads⟩
  | mutate id f =>
    obtain ⟨a', kept, done, leads⟩ := Access.mutate_leads sound id f
    exact ⟨a', congrArg (Option.map Prod.fst) done, leads⟩
  | interior id change =>
    rw [AccessOp.exec]
    cases present : a.shard.map.get id with
    | none => exact ⟨a, rfl, .refl sound⟩
    | some node =>
      have found := Shard.content_eq_some.mpr ⟨node, present, rfl⟩
      exact ⟨_, rfl, (Access.rewrite_leads sound found (change node.value)).1⟩
  | reconcileWeights id protect =>
    obtain ⟨a', _, done, leads⟩ := Access.reconcileWeights_leads sound id protect
    exact ⟨a', congrArg (Option.map Prod.fst) done, leads⟩
  | enforceBudgets protect => exact Access.enforceBudgets_leads sound protect

theorem AccessOp.execAll_leads (ops : List (AccessOp K V)) (sound : a.shard.Sound) :
    ∃ a', AccessOp.execAll ops a = some a' ∧ a.Leads a' := by
  induction ops generalizing a with
  | nil => exact ⟨a, rfl, .refl sound⟩
  | cons op _ ih =>
    obtain ⟨_, done1, leads1⟩ := op.exec_leads sound
    obtain ⟨a', done, leads⟩ := ih leads1.sound
    refine ⟨a', ?_, leads1.trans leads⟩
    rw [AccessOp.execAll, done1]
    exact done

end HttpJet.Cache
