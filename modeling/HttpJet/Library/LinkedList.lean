import Mathlib.Data.List.Induction

/-!
# Intrusive doubly linked lists

A list is threaded through the cells of a store: each cell names its neighbours by key, the ends are
kept beside the cells, and one key ends the list on both sides.  A store may carry several lists:
`Threading` says how one of them reads and writes its cells and ends.

Operations fail where a key is missing, so a specification also says that an operation finds every
cell it reaches for.
-/

namespace HttpJet.Library

open List Option

/-- The neighbours of a cell. -/
structure Link (K : Type) where
  prev : K
  next : K
  deriving DecidableEq

structure Ends (K : Type) where
  head : K
  tail : K
  deriving DecidableEq

/-- How a list is threaded through a store. -/
structure Threading (S K : Type) [DecidableEq K] where
  cell : S → K → Option (Link K)
  /-- Write a cell that is present. -/
  setCell : S → K → Link K → S
  ends : S → Ends K
  setEnds : S → Ends K → S
  cell_setCell : ∀ s key link other, cell (setCell s key link) other =
    if other = key then (cell s key).map fun _ => link else cell s other
  ends_setCell : ∀ s key link, ends (setCell s key link) = ends s
  cell_setEnds : ∀ s pair, cell (setEnds s pair) = cell s
  ends_setEnds : ∀ s pair, ends (setEnds s pair) = pair

namespace Threading

variable {S K X : Type} {s s' : S} {id before after key : K} {xs : List K}

/-- The cells of a list between two neighbours name each other in its order. -/
def Threads (cells : K → Option (Link K)) : K → List K → K → Prop
  | _, [], _ => True
  | before, x :: xs, after =>
    cells x = some ⟨before, xs.headD after⟩ ∧ Threads cells x xs after

theorem getLastD_append (xs ys : List K) (default : K) :
    (xs ++ ys).getLastD default = ys.getLastD (xs.getLastD default) := by
  induction xs generalizing default with
  | nil => rfl
  | cons _ _ ih => rw [cons_append, getLastD_cons, getLastD_cons, ih]

variable {cells : K → Option (Link K)}

theorem threads_append {ys : List K} : Threads cells before (xs ++ ys) after ↔
      Threads cells before xs (ys.headD after) ∧ Threads cells (xs.getLastD before) ys after := by
  induction xs generalizing before with
  | nil => exact (and_iff_right trivial).symm
  | cons _ xs ih =>
    have first : (xs ++ ys).headD after = xs.headD (ys.headD after) := by
      cases xs <;> rfl
    rw [cons_append, Threads, Threads, ih, first, and_assoc, getLastD_cons]

theorem threads_congr {cells' : K → Option (Link K)} (same : ∀ x ∈ xs, cells' x = cells x)
    (threads : Threads cells before xs after) : Threads cells' before xs after := by
  induction xs generalizing before with
  | nil => trivial
  | cons x _ ih =>
    obtain ⟨here, rest⟩ := threads
    exact ⟨(same x mem_cons_self).trans here,
      ih (fun y member => same y (mem_cons_of_mem x member)) rest⟩

theorem threads_present (threads : Threads cells before xs after) {x : K} (member : x ∈ xs) :
    ∃ link, cells x = some link := by
  induction xs generalizing before with
  | nil => nomatch member
  | cons _ _ ih =>
    rcases mem_cons.mp member with rfl | rest
    · exact ⟨_, threads.1⟩
    · exact ih threads.2 rest

variable [DecidableEq K] (t : Threading S K) (nil : K)

/-! ## Operations -/

def pushFront (s : S) (id : K) : Option S := do
  let oldHead := (t.ends s).head
  let _ ← t.cell s id
  let s := t.setCell s id ⟨nil, oldHead⟩
  if oldHead ≠ nil then
    let first ← t.cell s oldHead
    let s := t.setCell s oldHead { first with prev := id }
    some (t.setEnds s { t.ends s with head := id })
  else some (t.setEnds s ⟨id, id⟩)

/-- Make the predecessor, or the head, name the successor. -/
def skipForward (s : S) (prev next : K) : Option S :=
  if prev ≠ nil then do
    let before ← t.cell s prev
    some (t.setCell s prev { before with next := next })
  else some (t.setEnds s { t.ends s with head := next })

/-- Make the successor, or the tail, name the predecessor. -/
def skipBackward (s : S) (prev next : K) : Option S :=
  if next ≠ nil then do
    let after ← t.cell s next
    some (t.setCell s next { after with prev := prev })
  else some (t.setEnds s { t.ends s with tail := prev })

def unlink (s : S) (id : K) : Option S := do
  let link ← t.cell s id
  let s ← t.skipForward nil s link.prev link.next
  let s ← t.skipBackward nil s link.prev link.next
  let _ ← t.cell s id
  some (t.setCell s id ⟨nil, nil⟩)

/-- Move a cell to the front. -/
def touch (s : S) (id : K) : Option S :=
  if (t.ends s).head = id then some s
  else do
    let s ← t.unlink nil s id
    t.pushFront nil s id

/-! ## What another reader of the store sees -/

/-- What does not look at the list. -/
structure Blind {X : Type} (view : S → X) : Prop where
  setCell : ∀ s key link, view (t.setCell s key link) = view s
  setEnds : ∀ s pair, view (t.setEnds s pair) = view s

variable {t nil}

section

variable {view : S → X} (blind : t.Blind view)
include blind

theorem Blind.pushFront (done : t.pushFront nil s id = some s') : view s' = view s := by
  simp only [Threading.pushFront, bind_eq_bind, bind_eq_some_iff] at done
  obtain ⟨_, _, done⟩ := done
  split_ifs at done with empty
  · obtain ⟨_, _, done⟩ := bind_eq_some_iff.mp done
    rw [← some.inj done, blind.setEnds, blind.setCell, blind.setCell]
  · rw [← some.inj done, blind.setEnds, blind.setCell]

theorem Blind.skipForward {prev next : K} (done : t.skipForward nil s prev next = some s') :
    view s' = view s := by
  rw [Threading.skipForward] at done
  split_ifs at done
  · obtain ⟨_, _, done⟩ := bind_eq_some_iff.mp done
    rw [← some.inj done, blind.setCell]
  · rw [← some.inj done, blind.setEnds]

theorem Blind.skipBackward {prev next : K} (done : t.skipBackward nil s prev next = some s') :
    view s' = view s := by
  rw [Threading.skipBackward] at done
  split_ifs at done
  · obtain ⟨_, _, done⟩ := bind_eq_some_iff.mp done
    rw [← some.inj done, blind.setCell]
  · rw [← some.inj done, blind.setEnds]

theorem Blind.unlink (done : t.unlink nil s id = some s') : view s' = view s := by
  obtain ⟨_, _, done⟩ := bind_eq_some_iff.mp done
  obtain ⟨_, forward, done⟩ := bind_eq_some_iff.mp done
  obtain ⟨_, backward, done⟩ := bind_eq_some_iff.mp done
  obtain ⟨_, _, done⟩ := bind_eq_some_iff.mp done
  rw [← some.inj done, blind.setCell, blind.skipBackward backward, blind.skipForward forward]

theorem Blind.touch (done : t.touch nil s id = some s') : view s' = view s := by
  rw [Threading.touch] at done
  split_ifs at done
  · rw [some.inj done]
  · obtain ⟨_, unlinked, pushed⟩ := bind_eq_some_iff.mp done
    rw [blind.pushFront pushed, blind.unlink unlinked]

end

/-! ## Threaded lists -/

/-- A store in which the list is threaded from end to end. -/
structure Threaded (t : Threading S K) (nil : K) (s : S) (xs : List K) : Prop where
  threads : Threads (t.cell s) nil xs nil
  head : (t.ends s).head = xs.headD nil
  tail : (t.ends s).tail = xs.getLastD nil
  nodup : xs.Nodup
  real : nil ∉ xs

/-- The list is read from its members' cells and its ends. -/
theorem Threaded.congr (threaded : Threaded t nil s xs) (cells : ∀ x ∈ xs, t.cell s' x = t.cell s x)
    (ends : t.ends s' = t.ends s) : Threaded t nil s' xs where
  threads := threads_congr cells threaded.threads
  head := by rw [ends, threaded.head]
  tail := by rw [ends, threaded.tail]
  nodup := threaded.nodup
  real := threaded.real

theorem Threaded.empty (ends : t.ends s = ⟨nil, nil⟩) : Threaded t nil s [] where
  threads := trivial
  head := by
    rw [ends]
    rfl
  tail := by
    rw [ends]
    rfl
  nodup := nodup_nil
  real := not_mem_nil

theorem Threaded.tail_member (threaded : Threaded t nil s xs) (some_last : (t.ends s).tail ≠ nil) :
    (t.ends s).tail ∈ xs := by
  rw [threaded.tail] at some_last ⊢
  cases xs with
  | nil => exact absurd rfl some_last
  | cons x xs =>
    exact getLast_mem _

/-- The last cell names another member before it, if any. -/
theorem Threaded.before_tail {link : Link K} (threaded : Threaded t nil s xs)
    (last : t.cell s (t.ends s).tail = some link) (some_last : (t.ends s).tail ≠ nil)
    (some_prev : link.prev ≠ nil) : link.prev ∈ xs ∧ link.prev ≠ (t.ends s).tail := by
  cases xs using reverseRecOn with
  | nil => exact absurd threaded.tail some_last
  | append_singleton ys x =>
    have tail : (t.ends s).tail = x := by
      rw [threaded.tail, getLastD_append]
      rfl
    have here := (threads_append.mp threaded.threads).2.1
    rw [tail, here] at last
    obtain rfl := some.inj last
    have inside : ys.getLastD nil ∈ ys := by
      cases ys with
      | nil => exact absurd rfl some_prev
      | cons y ys =>
        exact getLast_mem _
    have apart := (nodup_append.mp threaded.nodup).2.2 _ inside x mem_cons_self
    exact ⟨mem_append_left _ inside, tail ▸ apart⟩

variable {old : Link K} (link : Link K)

theorem cell_setCell_self (present : t.cell s key = some old) :
    t.cell (t.setCell s key link) key = some link := by
  rw [t.cell_setCell, if_pos rfl, present]
  rfl

theorem cell_setCell_of_ne {other : K} (ne : other ≠ key) :
    t.cell (t.setCell s key link) other = t.cell s other := by
  rw [t.cell_setCell, if_neg ne]

/-- Writing a cell outside a part of the list. -/
theorem threads_setCell (outside : key ∉ xs) (threads : Threads (t.cell s) before xs after) :
    Threads (t.cell (t.setCell s key link)) before xs after := by
  refine threads_congr (fun x member => cell_setCell_of_ne link ?_) threads
  rintro rfl
  exact outside member

theorem pushFront_spec (threaded : Threaded t nil s xs) (present : t.cell s id = some old)
    (fresh : id ∉ xs) (real : id ≠ nil) :
    ∃ s', t.pushFront nil s id = some s' ∧ Threaded t nil s' (id :: xs) := by
  have nodup := nodup_cons.mpr ⟨fresh, threaded.nodup⟩
  have real' : nil ∉ id :: xs := fun member =>
    (mem_cons.mp member).elim (fun same => real same.symm) threaded.real
  cases xs with
  | nil =>
    have written := cell_setCell_self ⟨nil, nil⟩ present
    have pushed : t.pushFront nil s id = some (t.setEnds (t.setCell s id ⟨nil, nil⟩) ⟨id, id⟩) := by
      rw [pushFront, present, threaded.head]
      exact if_neg (not_not.mpr rfl)
    refine ⟨_, pushed, ?_, ?_, ?_, nodup, real'⟩
    · rw [t.cell_setEnds]
      exact ⟨written, trivial⟩
    · rw [t.ends_setEnds]
      rfl
    · rw [t.ends_setEnds]
      rfl
  | cons x xs =>
    have ne : x ≠ id := fun same => fresh (same ▸ mem_cons_self)
    have written := cell_setCell_self ⟨nil, x⟩ present
    have found : t.cell (t.setCell s id ⟨nil, x⟩) x = some ⟨nil, xs.headD nil⟩ :=
      (cell_setCell_of_ne _ ne).trans threaded.threads.1
    have pushed : t.pushFront nil s id = some (t.setEnds (t.setCell (t.setCell s id ⟨nil, x⟩) x
        ⟨id, xs.headD nil⟩) ⟨id, (t.ends s).tail⟩) := by
      have real : x ≠ nil := fun same => threaded.real (same ▸ mem_cons_self)
      rw [pushFront, present, threaded.head]
      refine (if_pos real).trans ?_
      rw [headD_cons, found]
      change some (t.setEnds _ ⟨id, (t.ends _).tail⟩) = _
      rw [t.ends_setCell, t.ends_setCell]
    refine ⟨_, pushed, ?_, ?_, ?_, nodup, real'⟩
    · rw [t.cell_setEnds]
      refine ⟨(cell_setCell_of_ne _ (Ne.symm ne)).trans written, cell_setCell_self _ found, ?_⟩
      have apart : id ∉ xs := fun member => fresh (mem_cons_of_mem x member)
      exact threads_setCell _ (nodup_cons.mp threaded.nodup).1
        (threads_setCell _ apart threaded.threads.2)
    · rw [t.ends_setEnds]
      rfl
    · rw [t.ends_setEnds]
      exact threaded.tail

/-! ## Unlinking -/

/-- The part before a cell names what comes after the cell instead. -/
theorem skipForward_spec {ys : List K} (next : K) (threads : Threads (t.cell s) nil ys after)
    (head : (t.ends s).head = ys.headD after) (nodup : ys.Nodup) (real : nil ∉ ys) :
    ∃ s', t.skipForward nil s (ys.getLastD nil) next = some s' ∧
      Threads (t.cell s') nil ys next ∧ (t.ends s').head = ys.headD next ∧
      (t.ends s').tail = (t.ends s).tail ∧
      ∀ x, x ∉ ys → t.cell s' x = t.cell s x := by
  cases ys using reverseRecOn with
  | nil =>
    refine ⟨t.setEnds s ⟨next, (t.ends s).tail⟩, if_neg (not_not.mpr rfl), trivial, ?_, ?_, ?_⟩
    · rw [t.ends_setEnds]
      rfl
    · rw [t.ends_setEnds]
    · intro x _
      rw [t.cell_setEnds]
  | append_singleton ys p =>
    obtain ⟨front, last⟩ := threads_append.mp threads
    have real' : p ≠ nil := by
      rintro rfl
      exact real (mem_append_right _ (mem_singleton_self _))
    have outside : p ∉ ys := fun member =>
      (nodup_append.mp nodup).2.2 p member p (mem_singleton_self p) rfl
    refine ⟨t.setCell s p ⟨ys.getLastD nil, next⟩, ?_, ?_, ?_, ?_, ?_⟩
    · rw [getLastD_concat, skipForward, if_pos real', last.1]
      rfl
    · exact threads_append.mpr
        ⟨threads_setCell _ outside front, cell_setCell_self _ last.1, trivial⟩
    · rw [t.ends_setCell, head]
      cases ys <;> rfl
    · rw [t.ends_setCell]
    · intro x other
      refine cell_setCell_of_ne _ ?_
      rintro rfl
      exact other (mem_append_right _ (mem_singleton_self _))

/-- The part behind a cell names what comes before the cell instead. -/
theorem skipBackward_spec {zs : List K} (prev : K) (threads : Threads (t.cell s) before zs nil)
    (tail : (t.ends s).tail = zs.getLastD before) (nodup : zs.Nodup) (real : nil ∉ zs) :
    ∃ s', t.skipBackward nil s prev (zs.headD nil) = some s' ∧
      Threads (t.cell s') prev zs nil ∧ (t.ends s').tail = zs.getLastD prev ∧
      (t.ends s').head = (t.ends s).head ∧
      ∀ x, x ∉ zs → t.cell s' x = t.cell s x := by
  cases zs with
  | nil =>
    refine ⟨t.setEnds s ⟨(t.ends s).head, prev⟩, if_neg (not_not.mpr rfl), trivial, ?_, ?_, ?_⟩
    · rw [t.ends_setEnds]
      rfl
    · rw [t.ends_setEnds]
    · intro x _
      rw [t.cell_setEnds]
  | cons n zs =>
    have real' : n ≠ nil := by
      rintro rfl
      exact real mem_cons_self
    refine ⟨t.setCell s n ⟨prev, zs.headD nil⟩, ?_, ?_, ?_, ?_, ?_⟩
    · rw [headD_cons, skipBackward, if_pos real', threads.1]
      rfl
    · exact ⟨cell_setCell_self _ threads.1, threads_setCell _ (nodup_cons.mp nodup).1 threads.2⟩
    · rw [t.ends_setCell, tail, getLastD_cons, getLastD_cons]
    · rw [t.ends_setCell]
    · intro x other
      refine cell_setCell_of_ne _ ?_
      rintro rfl
      exact other mem_cons_self

theorem unlink_spec (threaded : Threaded t nil s xs) (member : id ∈ xs) :
    ∃ s', t.unlink nil s id = some s' ∧ Threaded t nil s' (xs.erase id) := by
  obtain ⟨ys, zs, rfl⟩ := append_of_mem member
  obtain ⟨threads, head, tail, nodup, real⟩ := threaded
  obtain ⟨front, here, back⟩ := threads_append.mp threads
  obtain ⟨nodupFront, nodupBack, apart⟩ := nodup_append.mp nodup
  obtain ⟨outside, nodupBack⟩ := nodup_cons.mp nodupBack
  have outside' : id ∉ ys := fun inside => apart id inside id mem_cons_self rfl
  have disjoint {x : K} (inside : x ∈ ys) : x ∉ zs := fun behind =>
    apart x inside x (mem_cons_of_mem id behind) rfl
  have realFront : nil ∉ ys := fun inside => real (mem_append_left _ inside)
  have realBack : nil ∉ zs := fun inside => real (mem_append_right _ (mem_cons_of_mem id inside))
  have head' : (t.ends s).head = ys.headD id := by
    rw [head]
    cases ys <;> rfl
  obtain ⟨s1, forward, front1, head1, tail1, same1⟩ :=
    skipForward_spec (zs.headD nil) front head' nodupFront realFront
  have back1 : Threads (t.cell s1) id zs nil :=
    threads_congr (fun x inside => same1 x fun inFront => disjoint inFront inside) back
  have tail' : (t.ends s1).tail = zs.getLastD id := by
    rw [tail1, tail, getLastD_append, getLastD_cons]
  obtain ⟨s2, backward, back2, tail2, head2, same2⟩ :=
    skipBackward_spec (ys.getLastD nil) back1 tail' nodupBack realBack
  have front2 : Threads (t.cell s2) nil ys (zs.headD nil) :=
    threads_congr (fun x inside => same2 x (disjoint inside)) front1
  have kept : t.cell s2 id = some ⟨ys.getLastD nil, zs.headD nil⟩ := by
    rw [same2 id outside, same1 id outside', here]
  have erased : (ys ++ id :: zs).erase id = ys ++ zs := by
    rw [erase_append_right _ outside', erase_cons_head]
  refine ⟨t.setCell s2 id ⟨nil, nil⟩, ?_, ?_⟩
  · simp only [unlink, here, forward, backward, kept, bind_eq_bind, bind_some]
  · rw [erased]
    refine ⟨?_, ?_, ?_, ?_, ?_⟩
    · exact threads_append.mpr ⟨threads_setCell _ outside' front2, threads_setCell _ outside back2⟩
    · rw [t.ends_setCell, head2, head1]
      cases ys <;> rfl
    · rw [t.ends_setCell, tail2, getLastD_append]
    · exact nodup_append.mpr ⟨nodupFront, nodupBack, fun x inside y behind same =>
        disjoint inside (same ▸ behind)⟩
    · exact fun inside => (mem_append.mp inside).elim realFront realBack

theorem present_blind (t : Threading S K) : t.Blind fun s key => (t.cell s key).isSome where
  setCell s key link := by
    funext other
    rw [t.cell_setCell]
    split_ifs with same
    · rw [same, isSome_map]
    · rfl
  setEnds s pair := by
    rw [t.cell_setEnds]

theorem touch_spec (threaded : Threaded t nil s xs) (member : id ∈ xs) :
    ∃ s', t.touch nil s id = some s' ∧ Threaded t nil s' (id :: xs.erase id) := by
  by_cases first : (t.ends s).head = id
  · refine ⟨s, if_pos first, ?_⟩
    cases xs with
    | nil => nomatch member
    | cons x =>
      have same : x = id := threaded.head.symm.trans first
      subst same
      rw [erase_cons_head]
      exact threaded
  · obtain ⟨s1, unlinked, threaded1⟩ := unlink_spec threaded member
    obtain ⟨_, found⟩ := threads_present threaded.threads member
    have present : (t.cell s1 id).isSome = true := by
      rw [congrFun (t.present_blind.unlink unlinked) id, found]
      rfl
    obtain ⟨_, found1⟩ := isSome_iff_exists.mp present
    obtain ⟨s2, pushed, threaded2⟩ := pushFront_spec threaded1 found1 threaded.nodup.not_mem_erase
      fun same => threaded.real (same ▸ member)
    refine ⟨s2, ?_, threaded2⟩
    rw [touch, if_neg first, unlinked]
    exact pushed

end Threading

end HttpJet.Library
