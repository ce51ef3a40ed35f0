import HttpJet.Cache.Store

/-!
# Sound shards

A shard is sound when its lists hold exactly the keys they should and its counters are the sums of
the recorded weights.  The pieces every access is made of keep a shard sound, find every node they
look for, and change the content as they should.
-/

namespace HttpJet.Cache

open Library Option
open HashMap
open ShardKey (nil)

variable {K V : Type} [DecidableEq K]

/-- A node without its links. -/
structure Entry (V : Type) where
  value : V
  weights : Weights

def Node.entry (n : Node K V) : Entry V := ⟨n.value, n.weights⟩

/-- Whether an entry is on a list. -/
def Entry.On (e : Entry V) : Strand → Prop
  | .ram => True
  | .disk => 0 < e.weights.disk

namespace Shard

/-- What the keys of a shard stand for. -/
def content (s : Shard K V) (key : K) : Option (Entry V) := (s.map.get key).map Node.entry

variable {key id : K} {e : Entry V} {strand : Strand} {s s' s'' : Shard K V}

theorem content_eq_some :
    s.content key = some e ↔ ∃ node, s.map.get key = some node ∧ node.entry = e :=
  map_eq_some_iff

theorem onDisk_eq (found : s.content key = some e) :
    s.onDisk key = decide (0 < e.weights.disk) := by
  obtain ⟨_, present, rfl⟩ := content_eq_some.mp found
  rw [onDisk, present]
  rfl

theorem recorded_eq (found : s.content key = some e) : s.recorded key = e.weights := by
  obtain ⟨_, present, rfl⟩ := content_eq_some.mp found
  rw [recorded, present]
  rfl

/-- The keys a list should hold. -/
def OnList (s : Shard K V) (strand : Strand) (key : K) : Prop :=
  ∃ e, s.content key = some e ∧ e.On strand

theorem onList_update
    (content : s'.content = Function.update s.content id (some e)) (strand : Strand) (key : K) :
    s'.OnList strand key ↔ (key = id ∧ e.On strand) ∨ (key ≠ id ∧ s.OnList strand key) := by
  rw [OnList, OnList, content, Function.update_apply]
  split_ifs with this
  · simp [this]
  · simp [this]

/-- Shards that differ in their links at most. -/
structure Alike (s s' : Shard K V) : Prop where
  content : s'.content = s.content
  used : s'.used = s.used
  expiry : s'.expiry = s.expiry

theorem Alike.trans (first : Alike s s') (second : Alike s' s'') : Alike s s'' :=
  ⟨second.content.trans first.content, second.used.trans first.used,
    second.expiry.trans first.expiry⟩

theorem Alike.total (measure : Entry V → Nat) (content : s'.content = s.content) :
    HashMap.total (fun _ node => measure node.entry) s'.map =
      HashMap.total (fun _ node => measure node.entry) s.map := by
  refine total_congr fun key => ?_
  have same := congrArg (Option.map measure) (congrFun content key)
  rwa [Shard.content, Shard.content, Option.map_map, Option.map_map] at same

theorem Sound.content_modify (change : Node K V → Node K V) {node : Node K V}
    (found : s.map.get id = some node) : Shard.content { s with map := s.map.modify id change } =
      Function.update s.content id (some (change node).entry) := by
  funext key
  rw [Function.update_apply, Shard.content, get_modify]
  split_ifs with this
  · rw [found]
    rfl
  · rfl

/-! ## What a list operation leaves alone -/

variable (strand)

theorem blind_ends {strand other : Strand} (ne : other ≠ strand) :
    (threading V strand : Threading (Shard K V) K).Blind fun s => s.ends other where
  setCell s key link := by cases other <;> rfl
  setEnds s pair := by
    cases strand <;> cases other <;> first | rfl | exact absurd rfl ne

theorem blind_used : (threading V strand : Threading (Shard K V) K).Blind fun s => s.used where
  setCell s key link := rfl
  setEnds s pair := by cases strand <;> rfl

theorem blind_expiry :
    (threading V strand : Threading (Shard K V) K).Blind fun s => (s.expiry, s.nextGen) where
  setCell s key link := rfl
  setEnds s pair := by cases strand <;> rfl

variable [ShardKey K]

/-- Two shards that may differ in the links and ends of one list. -/
structure SameBut (strand : Strand) (s s' : Shard K V) : Prop where
  nodes : ∀ key, (s'.map.get key).map (fun node => node.setLink strand ⟨nil, nil⟩) =
    (s.map.get key).map fun node => node.setLink strand ⟨nil, nil⟩
  ends : ∀ other, other ≠ strand → s'.ends other = s.ends other
  used : s'.used = s.used
  expiry : s'.expiry = s.expiry
  nextGen : s'.nextGen = s.nextGen

theorem blind_nodes : (threading V strand).Blind
    fun s key => (s.map.get key).map fun node => node.setLink strand (⟨nil, nil⟩ : Link K) where
  setCell s key link := by
    funext other
    change ((s.map.modify key _).get other).map _ = _
    rw [HashMap.get_modify]
    split_ifs with same
    · subst same
      rw [Option.map_map]
      exact congrArg (Option.map · _) (funext fun node => by cases strand <;> rfl)
    · rfl
  setEnds s pair := by cases strand <;> rfl

variable {strand}

namespace SameBut

/-- A change no view blind to the list can see. -/
theorem of_blind
    (unseen : ∀ {X : Type} {view : Shard K V → X}, (threading V strand).Blind view →
      view s' = view s) :
    SameBut strand s s' where
  nodes := congrFun (unseen (blind_nodes strand))
  ends _ ne := unseen (blind_ends ne)
  used := unseen (blind_used strand)
  expiry := congrArg Prod.fst (unseen (blind_expiry strand))
  nextGen := congrArg Prod.snd (unseen (blind_expiry strand))

/-- What is read from a node past the links of the list. -/
theorem read (same : SameBut strand s s') {X : Type} {view : Node K V → X}
    (unseen : ∀ node link, view (node.setLink strand link) = view node) (key : K) :
    (s'.map.get key).map view = (s.map.get key).map view := by
  have through (found : Option (Node K V)) :
      found.map view = (found.map fun node => node.setLink strand ⟨nil, nil⟩).map view := by
    rw [Option.map_map]
    exact congrArg (Option.map · found) (funext fun node => (unseen node _).symm)
  rw [through, same.nodes, ← through]

theorem content (same : SameBut strand s s') : s'.content = s.content :=
  funext (same.read fun node link => by cases strand <;> rfl)

theorem cell (same : SameBut strand s s') {other : Strand} (ne : other ≠ strand) (key : K) :
    (threading V other).cell s' key = (threading V other).cell s key :=
  same.read
    (fun node link => by cases strand <;> cases other <;> first | rfl | exact absurd rfl ne) key

end SameBut

/-! ## The keys on the lists -/

/-- Each list is threaded through exactly the keys it should hold. -/
def Lists (s : Shard K V) (on : Strand → K → Prop) : Prop :=
  ∀ strand, ∃ order, (threading V strand).Threaded nil s order ∧ ∀ key, key ∈ order ↔ on strand key

namespace Lists

variable {on : Strand → K → Prop}

section

variable (lists : Lists s on)
include lists

theorem congr {on' : Strand → K → Prop}
    (same : ∀ strand key, on' strand key ↔ on strand key)
    (cells : ∀ strand key, on strand key →
      (threading V strand).cell s' key = (threading V strand).cell s key)
    (ends : s'.ends = s.ends) : Lists s' on' := by
  intro strand
  obtain ⟨order, threaded, members⟩ := lists strand
  exact ⟨order, threaded.congr (fun key member => cells strand key ((members key).mp member))
    (congrFun ends strand), fun key => (members key).trans (same strand key).symm⟩

theorem real {strand : Strand} {key : K} (member : on strand key) : key ≠ nil := by
  obtain ⟨_, threaded, members⟩ := lists strand
  rintro rfl
  exact threaded.real ((members nil).mpr member)

/-- A list operation on one list, from what it does to that list alone. -/
theorem of_one {on' : Strand → K → Prop} {order : List K}
    (same : SameBut strand s s') (threaded : (threading V strand).Threaded nil s' order)
    (members : ∀ key, key ∈ order ↔ on' strand key)
    (others : ∀ other, other ≠ strand → ∀ key, on' other key ↔ on other key) : Lists s' on' := by
  intro other
  by_cases this : other = strand
  · subst this
    exact ⟨order, threaded, members⟩
  · obtain ⟨order', threaded', members'⟩ := lists other
    exact ⟨order', threaded'.congr (fun key _ => same.cell this key) (same.ends other this),
      fun key => (members' key).trans (others other this key).symm⟩

theorem unlink (strand : Strand) {id : K} (member : on strand id) :
    ∃ s', s.unlink strand id = some s' ∧ SameBut strand s s' ∧
      Lists s' fun other key => on other key ∧ ¬(other = strand ∧ key = id) := by
  obtain ⟨_, threaded, members⟩ := lists strand
  obtain ⟨s', done, threaded'⟩ := Threading.unlink_spec threaded ((members id).mpr member)
  have same : SameBut strand s s' := SameBut.of_blind fun blind => blind.unlink done
  refine ⟨s', done, same, lists.of_one same threaded' (fun key => ?_) fun other ne key => ?_⟩
  · rw [threaded.nodup.mem_erase_iff, members, and_comm]
    exact and_congr_right' (by simp)
  · exact and_iff_left fun both => ne both.1

theorem pushFront (strand : Strand) {id : K} {node : Node K V}
    (present : s.map.get id = some node) (fresh : ¬on strand id) (real : id ≠ nil) :
    ∃ s', s.pushFront strand id = some s' ∧ SameBut strand s s' ∧
      Lists s' fun other key => on other key ∨ (other = strand ∧ key = id) := by
  obtain ⟨_, threaded, members⟩ := lists strand
  have found : (threading V strand).cell s id = some (node.link strand) := by
    change (s.map.get id).map _ = _
    rw [present]
    rfl
  obtain ⟨s', done, threaded'⟩ := Threading.pushFront_spec threaded found
    (fun member => fresh ((members id).mp member)) real
  have same : SameBut strand s s' := SameBut.of_blind fun blind => blind.pushFront done
  refine ⟨s', done, same, lists.of_one same threaded' (fun key => ?_) fun other ne key => ?_⟩
  · rw [List.mem_cons, members, or_comm]
    exact or_congr_right (by simp)
  · exact or_iff_left fun both => ne both.1

theorem touch (strand : Strand) {id : K} (member : on strand id) :
    ∃ s', s.touch strand id = some s' ∧ SameBut strand s s' ∧ Lists s' on := by
  obtain ⟨_, threaded, members⟩ := lists strand
  obtain ⟨s', done, threaded'⟩ := Threading.touch_spec threaded ((members id).mpr member)
  have same : SameBut strand s s' := SameBut.of_blind fun blind => blind.touch done
  refine ⟨s', done, same, lists.of_one same threaded' (fun key => ?_) fun other _ key => Iff.rfl⟩
  rw [List.mem_cons, threaded.nodup.mem_erase_iff, ← members]
  by_cases this : key = id
  · subst this
    simp [(members key).mpr member]
  · simp [this]

end

end Lists

/-! ## The pieces of an access -/

structure Sound (s : Shard K V) : Prop where
  lists : s.Lists s.OnList
  used : ∀ strand, s.used strand = HashMap.total (fun _ node => node.weights.on strand) s.map

theorem SameBut.alike (same : SameBut strand s s') : Alike s s' :=
  ⟨same.content, same.used, same.expiry⟩

theorem Alike.sound (alike : Alike s s') (sound : s.Sound) (lists : s'.Lists s.OnList) :
    s'.Sound where
  lists := by
    have same : s'.OnList = s.OnList := by
      funext strand key
      rw [OnList, OnList, alike.content]
    rwa [same]
  used strand := by
    rw [alike.used, sound.used]
    exact (Alike.total (fun e => e.weights.on strand) alike.content).symm

namespace Sound

theorem new : (Shard.new : Shard K V).Sound where
  lists strand := by
    refine ⟨[], Threading.Threaded.empty (by cases strand <;> rfl), fun key => ?_⟩
    exact iff_of_false List.not_mem_nil fun ⟨_, found, _⟩ => nomatch found
  used strand := by cases strand <;> rfl

/-- Deadlines and generations do not matter. -/
theorem of_parts (sound : s.Sound) (map : s'.map = s.map) (ends : s'.ends = s.ends)
    (used : s'.used = s.used) : s'.Sound where
  lists := by
    refine sound.lists.congr (fun strand key => ?_) (fun strand key _ => ?_) ends
    · rw [OnList, OnList, Shard.content, Shard.content, map]
    · change (s'.map.get key).map _ = (s.map.get key).map _
      rw [map]
  used strand := by rw [used, map, sound.used]

section

variable (sound : s.Sound)
include sound

theorem le_used (found : s.content key = some e) (strand : Strand) :
    e.weights.on strand ≤ s.used strand := by
  obtain ⟨node, present, rfl⟩ := content_eq_some.mp found
  rw [sound.used]
  exact @HashMap.le_total _ _ (fun _ node => node.weights.on strand) _ _ _ _ present

theorem real (found : s.content key = some e) : key ≠ nil :=
  sound.lists.real (show s.OnList .ram key from ⟨e, found, trivial⟩)

theorem victim {spared : K} (some_victim : s.victim strand spared ≠ nil) :
    s.victim strand spared ≠ spared ∧ ∃ e, s.content (s.victim strand spared) = some e := by
  obtain ⟨_, threaded, members⟩ := sound.lists strand
  rw [Shard.victim] at some_victim ⊢
  split_ifs at some_victim ⊢ with same
  · cases found : s.map.get (s.ends strand).tail with
    | none =>
      rw [found] at some_victim
      exact absurd rfl some_victim
    | some node =>
      rw [found] at some_victim
      have last : (threading V strand).cell s (s.ends strand).tail = some (node.link strand) := by
        change (s.map.get _).map _ = _
        rw [found]
        rfl
      have some_last := sound.real (content_eq_some.mpr ⟨node, found, rfl⟩)
      obtain ⟨member, apart⟩ := threaded.before_tail last some_last some_victim
      obtain ⟨e, present, _⟩ := (members _).mp member
      exact ⟨same ▸ apart, e, present⟩
  · obtain ⟨e, present, _⟩ := (members _).mp (threaded.tail_member some_victim)
    exact ⟨same, e, present⟩

/-! ## Moving a node to the front -/

theorem touch (on : s.OnList strand id) :
    ∃ s', s.touch strand id = some s' ∧ s'.Sound ∧ Alike s s' := by
  obtain ⟨s', done, same, lists⟩ := sound.lists.touch strand on
  exact ⟨s', done, same.alike.sound sound lists, same.alike⟩

theorem touchDisk (found : s.content id = some e) :
    ∃ s', (if 0 < e.weights.disk then s.diskTouch id else some s) = some s' ∧ s'.Sound ∧
      Alike s s' := by
  by_cases weighs : 0 < e.weights.disk
  · obtain ⟨s', done, kept⟩ := sound.touch (show s.OnList .disk id from ⟨e, found, weighs⟩)
    exact ⟨s', (if_pos weighs).trans done, kept⟩
  · exact ⟨s, if_neg weighs, sound, rfl, rfl, rfl⟩

theorem touchBoth (found : s.content id = some e) :
    ∃ s1 s2, s.ramTouch id = some s1 ∧ s1.content id = some e ∧
      (if 0 < e.weights.disk then s1.diskTouch id else some s1) = some s2 ∧ s2.Sound ∧
        Alike s s2 := by
  obtain ⟨s1, done1, sound1, alike1⟩ := sound.touch (show s.OnList .ram id from ⟨e, found, trivial⟩)
  have found1 := (congrFun alike1.content id).trans found
  obtain ⟨s2, done2, sound2, alike2⟩ := sound1.touchDisk found1
  exact ⟨s1, s2, done1, found1, done2, sound2, alike1.trans alike2⟩

/-! ## Detaching a node -/

theorem detach (found : s.content id = some e) :
    ∃ s', s.detach id e.weights = some s' ∧ s'.content = s.content ∧ s'.expiry = s.expiry ∧
      (∀ strand, s'.used strand = s.used strand - e.weights.on strand) ∧
      s'.Lists fun strand key => s.OnList strand key ∧ key ≠ id := by
  obtain ⟨s1, done1, same1, lists1⟩ := sound.lists.unlink .ram ⟨e, found, trivial⟩
  have both : ∃ s2, (if 0 < e.weights.disk then s1.diskUnlink id else some s1) = some s2 ∧
      Alike s1 s2 ∧
      s2.Lists fun strand key => s.OnList strand key ∧ key ≠ id := by
    by_cases weighs : 0 < e.weights.disk
    · obtain ⟨s2, done2, same2, lists2⟩ := lists1.unlink .disk
        ⟨⟨e, found, weighs⟩, fun same => nomatch same.1⟩
      refine ⟨s2, (if_pos weighs).trans done2, same2.alike, lists2.congr ?_ (fun _ _ _ => rfl) rfl⟩
      intro strand key
      cases strand <;> simp
    · refine ⟨s1, if_neg weighs, ⟨rfl, rfl, rfl⟩, lists1.congr ?_ (fun _ _ _ => rfl) rfl⟩
      intro strand key
      cases strand with
      | ram => simp
      | disk =>
        refine ⟨fun holds => ⟨holds.1, fun same => nomatch same.1⟩, fun holds => ⟨holds.1, ?_⟩⟩
        rintro rfl
        obtain ⟨_, found', weighs'⟩ := holds.1
        obtain rfl := some.inj (found.symm.trans found')
        exact weighs weighs'
  obtain ⟨s2, done2, alike2, lists2⟩ := both
  have alike := same1.alike.trans alike2
  refine ⟨{ s2 with
    ramUsed := s2.ramUsed - e.weights.ram, diskUsed := s2.diskUsed - e.weights.disk }, ?_,
      alike.content,
    alike.expiry, fun strand => ?_, lists2.congr (fun _ _ => Iff.rfl) (fun strand key _ => ?_) ?_⟩
  · have ram : s.ramUnlink id = some s1 := done1
    simp [Shard.detach, ram, done2]
  · have used := congrFun alike.used strand
    cases strand with
    | ram | disk => exact congrArg (· - _) used
  · cases strand <;> rfl
  · funext strand
    cases strand <;> rfl

end

theorem drop (sound : s.Sound) (found : s.content id = some e)
    (content : s'.content = s.content)
    (used : ∀ strand, s'.used strand = s.used strand - e.weights.on strand)
    (lists : s'.Lists fun strand key => s.OnList strand key ∧ key ≠ id) :
    Shard.Sound { s' with map := s'.map.del id } ∧
      Shard.content { s' with map := s'.map.del id } = Function.update s.content id none := by
  have dropped :
      Shard.content { s' with map := s'.map.del id } = Function.update s.content id none := by
    funext key
    rw [Function.update_apply, ← content, Shard.content, get_del]
    split_ifs <;> rfl
  refine ⟨⟨lists.congr ?_ ?_ ?_, fun strand => ?_⟩, dropped⟩
  · intro strand key
    rw [OnList, dropped, Function.update_apply]
    split_ifs with this
    · exact iff_of_false (fun ⟨_, absent, _⟩ => nomatch absent) fun both => both.2 this
    · exact (and_iff_left this).symm
  · intro strand key both
    change ((s'.map.del id).get key).map _ = _
    rw [get_del_of_ne _ both.2]
    rfl
  · funext strand
    cases strand <;> rfl
  · obtain ⟨node, present, rfl⟩ := content_eq_some.mp (content ▸ found)
    have removed := @total_del_of_get _ _ (fun _ node => node.weights.on strand) _ _ _ _ present
    have total := Alike.total (fun e => e.weights.on strand) content
    have before := sound.used strand
    have after := used strand
    change s'.used strand = HashMap.total (fun _ node => node.weights.on strand) (s'.map.del id)
    change HashMap.total (fun _ node => node.weights.on strand) s'.map =
      HashMap.total (fun _ node => node.weights.on strand) s.map at total
    change s'.used strand = s.used strand - node.weights.on strand at after
    omega

theorem of_counters (alike : Alike s s') (lists : s'.Lists s.OnList) (counters : Weights)
    (sums : ∀ strand,
      counters.on strand = HashMap.total (fun _ node => node.weights.on strand) s.map) :
    Shard.Sound { s' with ramUsed := counters.ram, diskUsed := counters.disk } where
  lists := by
    refine lists.congr (fun strand key => ?_) (fun strand key _ => ?_) ?_
    · rw [OnList, OnList, ← alike.content]
      exact Iff.rfl
    · cases strand <;> rfl
    · funext strand
      cases strand <;> rfl
  used strand := by
    have total := Alike.total (fun e => e.weights.on strand) alike.content
    refine Eq.trans ?_ ((sums strand).trans total.symm)
    cases strand <;> rfl

/-! ## Attaching a node -/

theorem enlist {on : Strand → K → Prop} (lists : s.Lists on) (fresh : ∀ strand, ¬on strand id)
    (found : s.content id = some e) (real : id ≠ nil) : ∃ s1 s2, s.ramPushFront id = some s1 ∧
      (if 0 < e.weights.disk then s1.diskPushFront id else some s1) = some s2 ∧ Alike s s2 ∧
      s2.Lists fun strand key => on strand key ∨ (key = id ∧ e.On strand) := by
  obtain ⟨_, present, _⟩ := content_eq_some.mp found
  obtain ⟨s1, done1, same1, lists1⟩ := lists.pushFront .ram present (fresh .ram) real
  refine ⟨s1, ?_⟩
  by_cases weighs : 0 < e.weights.disk
  · obtain ⟨_, present1, _⟩ := content_eq_some.mp ((congrFun same1.content id).trans found)
    obtain ⟨s2, done2, same2, lists2⟩ := lists1.pushFront .disk present1
      (fun on => on.elim (fresh .disk) fun same => nomatch same.1) real
    refine ⟨s2, done1, (if_pos weighs).trans done2, same1.alike.trans same2.alike,
      lists2.congr (fun strand key => ?_) (fun _ _ _ => rfl) rfl⟩
    cases strand <;> simp [Entry.On, weighs]
  · refine ⟨s1, done1, if_neg weighs, same1.alike,
      lists1.congr (fun strand key => ?_) (fun _ _ _ => rfl) rfl⟩
    cases strand <;> simp [Entry.On, weighs]

theorem attach (sound : s.Sound) (absent : s.content id = none) (real : id ≠ nil)
    (node : Node K V) :
    ∃ s', s.attach id node = some s' ∧ s'.Sound ∧
      s'.content = Function.update s.content id (some node.entry) ∧
      ∀ strand, s'.used strand = s.used strand + node.weights.on strand := by
  have missing : s.map.get id = none := map_eq_none_iff.mp absent
  let s0 : Shard K V := { s with map := s.map.put id node }
  have apart {strand : Strand} {key : K} (member : s.OnList strand key) : key ≠ id := by
    rintro rfl
    obtain ⟨e, found, _⟩ := member
    nomatch absent.symm.trans found
  have content0 : s0.content = Function.update s.content id (some node.entry) := by
    funext key
    rw [Function.update_apply, Shard.content, get_put]
    split_ifs <;> rfl
  have lists0 : s0.Lists s.OnList := by
    refine sound.lists.congr (fun _ _ => Iff.rfl) (fun strand key member => ?_) rfl
    change ((s.map.put id node).get key).map _ = _
    rw [get_put_of_ne _ (apart member)]
    rfl
  obtain ⟨s1, s2, done1, done2, alike, lists⟩ := enlist lists0 (fun _ member => apart member rfl)
    ((congrFun content0 id).trans (Function.update_self id ..)) real
  have lists2 : s2.Lists s0.OnList := by
    refine lists.congr (fun strand key => ?_) (fun _ _ _ => rfl) rfl
    rw [onList_update content0, or_comm]
    exact or_congr_left (and_iff_right_of_imp apart)
  have counted (strand : Strand) :
      Weights.on ⟨s2.ramUsed + node.ramWeight, s2.diskUsed + node.diskWeight⟩ strand =
        s.used strand + node.weights.on strand := by
    have used := congrFun alike.used strand
    cases strand with
    | ram => exact congrArg (· + node.ramWeight) used
    | disk => exact congrArg (· + node.diskWeight) used
  refine ⟨_, ?_,
    of_counters alike lists2 ⟨s2.ramUsed + node.ramWeight, s2.diskUsed + node.diskWeight⟩
    fun strand => ?_, alike.content.trans content0, fun strand => ?_⟩
  · change ((s0.ramPushFront id).bind fun s1 =>
      bind (if 0 < node.diskWeight then s1.diskPushFront id else some s1) _) = _
    rw [done1, bind_some]
    exact (congrArg (bind · _) done2).trans rfl
  · have added := @total_put_of_none _ _ (fun _ node => node.weights.on strand) _ _ _ missing node
    rw [counted, sound.used, Nat.add_comm]
    exact added.symm
  · refine Eq.trans ?_ (counted strand)
    cases strand <;> rfl

/-! ## Changing a node in place -/

theorem lists_modify {on : Strand → K → Prop} (lists : s.Lists on) {change : Node K V → Node K V}
    (links : ∀ node strand, (change node).link strand = node.link strand) (id : K) :
    Shard.Lists { s with map := s.map.modify id change } on := by
  refine lists.congr (fun _ _ => Iff.rfl) (fun strand key _ => ?_) rfl
  change ((s.map.modify id change).get key).map _ = (s.map.get key).map _
  rw [get_modify]
  split_ifs with this
  · subst this
    rw [Option.map_map]
    exact congrArg (Option.map · _) (funext fun node => links node strand)
  · rfl

/-- A change that keeps the links and the recorded weights. -/
theorem modify (sound : s.Sound) (change : Node K V → Node K V) {node : Node K V}
    (links : ∀ node strand, (change node).link strand = node.link strand)
    (weights : (change node).weights = node.weights) (found : s.map.get id = some node) :
    Shard.Sound { s with map := s.map.modify id change } := by
  have content := content_modify change found
  have here : s.content id = some node.entry := content_eq_some.mpr ⟨node, found, rfl⟩
  refine ⟨(lists_modify sound.lists links id).congr (fun strand key => ?_) (fun _ _ _ => rfl) rfl,
    fun strand => ?_⟩
  · rw [OnList, OnList, content, Function.update_apply]
    split_ifs with this
    · subst this
      have same : (change node).entry.On strand ↔ node.entry.On strand := by
        cases strand with
        | ram => exact Iff.rfl
        | disk =>
          change 0 < (change node).weights.disk ↔ 0 < node.weights.disk
          rw [weights]
      simp [here, same]
    · exact Iff.rfl
  · refine (sound.used strand).trans (total_congr fun key => ?_)
    rw [get_modify]
    split_ifs with this
    · subst this
      rw [found, map_some, map_some, map_some, weights]
    · rfl

/-- A node joins or leaves the disk list as its new weight says. -/
theorem relist {s0 : Shard K V} (sound : s.Sound) {new : Weights} (found : s.content id = some e)
    (content0 : s0.content = Function.update s.content id (some { e with weights := new }))
    (lists0 : s0.Lists s.OnList) : ∃ s1, (if 0 < e.weights.disk ∧ new.disk = 0 then s0.diskUnlink id
      else if e.weights.disk = 0 ∧ 0 < new.disk then s0.diskPushFront id else some s0) = some s1 ∧
      Alike s0 s1 ∧ s1.Lists s0.OnList := by
  have here (strand : Strand) : s.OnList strand id ↔ e.On strand := by
    rw [OnList, found]
    simp
  by_cases leaves : 0 < e.weights.disk ∧ new.disk = 0
  · obtain ⟨s1, done, same, lists⟩ := lists0.unlink .disk ((here .disk).mpr leaves.1)
    refine ⟨s1, (if_pos leaves).trans done, same.alike, lists.congr ?_ (fun _ _ _ => rfl) rfl⟩
    intro strand key
    rw [onList_update content0]
    by_cases this : key = id
    · cases strand with
      | ram => simp [this, here, Entry.On]
      | disk => simp [this, here, Entry.On, leaves.2]
    · simp [this]
  · rw [if_neg leaves]
    by_cases enters : e.weights.disk = 0 ∧ 0 < new.disk
    · have off : ¬s.OnList .disk id := fun on => Nat.ne_of_gt ((here .disk).mp on) enters.1
      obtain ⟨_, present0, _⟩ :=
        content_eq_some.mp ((congrFun content0 id).trans (Function.update_self id ..))
      obtain ⟨s1, done, same, lists⟩ := lists0.pushFront .disk present0 off (sound.real found)
      refine ⟨s1, (if_pos enters).trans done, same.alike, lists.congr ?_ (fun _ _ _ => rfl) rfl⟩
      intro strand key
      rw [onList_update content0]
      by_cases this : key = id
      · cases strand with
        | ram => simp [this, here, Entry.On]
        | disk => simp [this, Entry.On, enters.2]
      · simp [this]
    · refine ⟨s0, if_neg enters, ⟨rfl, rfl, rfl⟩, lists0.congr ?_ (fun _ _ _ => rfl) rfl⟩
      intro strand key
      rw [onList_update content0]
      by_cases this : key = id
      · cases strand with
        | ram => simp [this, here, Entry.On]
        | disk =>
          have same : 0 < new.disk ↔ 0 < e.weights.disk := by omega
          simp [this, here, Entry.On, same]
      · simp [this]

theorem reweigh (sound : s.Sound) (found : s.content id = some e) (new : Weights) :
    ∃ s', s.reweigh id e.weights new = some s' ∧ s'.Sound ∧
      s'.content = Function.update s.content id (some { e with weights := new }) ∧
      ∀ strand, s'.used strand = s.used strand - e.weights.on strand + new.on strand := by
  obtain ⟨node, present, rfl⟩ := content_eq_some.mp found
  let s0 : Shard K V := { s with map := s.map.modify id fun node =>
    { node with ramWeight := new.ram, diskWeight := new.disk } }
  have content0 : s0.content = Function.update s.content id (some ⟨node.value, new⟩) :=
    content_modify _ present
  have lists0 : s0.Lists s.OnList :=
    lists_modify sound.lists (fun _ strand => by cases strand <;> rfl) id
  obtain ⟨s1, done, alike, lists⟩ := sound.relist found content0 lists0
  have counted (strand : Strand) :
      Weights.on ⟨s1.ramUsed - node.weights.ram + new.ram,
        s1.diskUsed - node.weights.disk + new.disk⟩ strand =
        s.used strand - node.weights.on strand + new.on strand := by
    have used := congrFun alike.used strand
    cases strand with
    | ram => exact congrArg (· - node.weights.ram + new.ram) used
    | disk => exact congrArg (· - node.weights.disk + new.disk) used
  refine ⟨_, ?_, of_counters alike lists
    ⟨s1.ramUsed - node.weights.ram + new.ram, s1.diskUsed - node.weights.disk + new.disk⟩
      fun strand => ?_,
    alike.content.trans content0, fun strand => ?_⟩
  · simp only [Shard.reweigh, present, bind_eq_bind, bind_some]
    exact (congrArg (bind · _) done).trans rfl
  · rw [counted, sound.used]
    have fresh :
        s0.map = s.map.put id { node with ramWeight := new.ram, diskWeight := new.disk } := by
      change s.map.modify id _ = _
      rw [HashMap.modify, present]
    have replaced := @total_put_of_get _ _ (fun _ node => node.weights.on strand) _ _ _ _ present
      { node with ramWeight := new.ram, diskWeight := new.disk }
    have inside := @HashMap.le_total _ _ (fun _ node => node.weights.on strand) _ _ _ _ present
    rw [fresh]
    change _ + node.weights.on strand = new.on strand + _ at replaced
    omega
  · refine Eq.trans ?_ (counted strand)
    cases strand <;> rfl

end Sound

end Shard

end HttpJet.Cache
