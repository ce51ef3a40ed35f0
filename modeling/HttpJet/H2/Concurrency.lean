import HttpJet.H2.Places

/-!
# The concurrency cap and GOAWAY

A stream that is not refused holds a slot from its HEADERS to the end of its response.  The
last-stream-ids of GOAWAY frames do not rise, and nothing above any of them is dispatched.
-/

namespace HttpJet.H2

open Library List
open HashMap
open Link (Acts)

/-! ## Slots -/

/-- A refused stream holds no slot. -/
def slot (_ : StreamId) (refused : Bool) : Nat := if refused then 0 else 1

theorem slot_le (sid : StreamId) (refused : Bool) : slot sid refused ≤ 1 := by
  cases refused with
  | false => exact le_rfl
  | true => exact Nat.zero_le _

/-- The slots in use: streams received, handled and answered. -/
def slots (receiving : HashMap StreamId Bool) (inflight : List Task)
    (outstreams : HashMap StreamId OutStream) : Nat :=
  HashMap.total slot receiving + inflight.length + outstreams.size

section

variable (receiving : HashMap StreamId Bool) (inflight : List Task)
include receiving inflight

theorem slots_cancel_le (outstreams : HashMap StreamId OutStream) (sid : StreamId) :
    slots receiving inflight (outstreams.del sid) ≤ slots receiving inflight outstreams :=
  Nat.add_le_add_left (size_del_le outstreams sid) _

end

namespace Place

def Capped (p : Place) : Prop := slots p.receiving p.inflight p.outstreams ≤ p.maxConcurrent

section

variable {p : Place} (capped : p.Capped) (sid : StreamId)
include capped sid

theorem Capped.drop : (p.drop sid).Capped := by
  have removed := total_del slot p.receiving sid
  refine Nat.le_trans ?_ capped
  exact Nat.add_le_add_right (Nat.add_le_add_right (Nat.le.intro removed) _) _

theorem Capped.cancel : (p.cancel sid).Capped :=
  (slots_cancel_le _ _ _ sid).trans capped

/-- An aborted handler keeps its slot until it leaves the flight. -/
theorem Capped.abort : (p.abort sid).Capped := by
  have same : (p.abort sid).inflight.length = p.inflight.length := by
    rw [Place.abort]
    dsimp only
    split_ifs
    · exact length_map _
    · rfl
  rw [Capped, slots, same]
  exact capped

end

theorem Trip.capped {f : Frame} {p p' : Place} (trip : Trip f p p') (capped : p.Capped) :
    p'.Capped := by
  cases trip with
  | opens refused absent _ _ room =>
    have few : HashMap.total slot p.receiving ≤ p.receiving.size :=
      total_le_size slot_le _
    rw [Capped, slots] at capped ⊢
    dsimp only
    rw [total_put_of_none absent]
    cases refused with
    | true =>
      rw [slot, if_pos rfl]
      omega
    | false =>
      have free := (room rfl).2
      rw [slot, if_neg Bool.false_ne_true]
      omega
  | keeps refused found =>
    have same : HashMap.total slot (p.receiving.put f.streamId refused) + _ = _ :=
      total_put_of_get found refused
    rw [Capped, slots] at capped ⊢
    dsimp only
    omega
  | drops => exact capped.drop _
  | dispatches _ _ found =>
    have left : HashMap.total slot (p.receiving.del f.streamId) + _ = _ :=
      total_del_of_get found
    rw [Capped, slots] at capped ⊢
    dsimp only [Place.drop]
    rw [length_append, length_singleton]
    rw [slot, if_neg Bool.false_ne_true] at left
    omega
  | answers => exact Capped.cancel (Capped.drop (p := p.write _) capped _) _
  | rejects => exact Capped.drop (p := p.write _) capped _
  | resets =>
    exact ((Capped.drop (p := p.write _) capped _).abort _).cancel _
  | resetsRunning => exact (Capped.drop (p := p.write _) capped _).abort _
  | aborts => exact ((capped.drop _).abort _).cancel _
  | abortsRunning => exact (capped.drop _).abort _
  | shifts =>
    rw [Capped, slots] at capped ⊢
    rw [size_mapValues]
    exact capped
  | _ => exact capped

end Place

theorem Link.Acts.capped {l l' : Link} (acts : Acts l l') (capped : l.place.Capped) :
    l'.place.Capped := by
  have update {sid : StreamId} {st : OutStream} (found : l.outstreams.get sid = some st)
      (st' : OutStream) : slots l.place.receiving l.core.inflight (l.outstreams.put sid st') ≤
        l.core.maxConcurrent := by
    rw [slots, size_put_of_get found]
    exact capped
  cases acts with
  | expires sid _ taken =>
    obtain ⟨_, _, same⟩ := l.place_expires sid taken
    rw [same]
    exact capped.drop sid
  | aborts sid => exact capped.abort sid
  | leaves =>
    refine le_trans ?_ capped
    exact Nat.add_le_add_right (Nat.add_le_add_left (length_eraseIdx_le ..) _) _
  | responds position _ found _ _ _ _ _ shape =>
    have bound := (List.getElem?_eq_some_iff.mp found).1
    have left := length_eraseIdx_of_lt bound
    have flight : (l.core.inflight.eraseIdx position).length + 1 = l.core.inflight.length := by
      omega
    have room : slots l.place.receiving (l.core.inflight.eraseIdx position) l.outstreams + 1 ≤
        l.core.maxConcurrent := by
      rw [slots]
      change _ + l.core.inflight.length + l.outstreams.size ≤ l.core.maxConcurrent at capped
      omega
    cases shape with
    | headersOnly => exact (Nat.le_succ _).trans room
    | register =>
      refine le_trans ?_ room
      exact Nat.add_le_add_left (size_put_le ..) _
  | sends _ _ _ found | ends _ _ found | pulls _ _ found | keeps _ _ found
  | delivers _ _ _ _ found | finishes _ _ _ found
  | fails _ _ _ found | condemns _ _ _ found | credits _ _ _ found =>
    exact update found _
  | retires sid | cancels sid => exact (slots_cancel_le _ _ _ sid).trans capped
  | overflows sid =>
    rw [l.place_overflows sid]
    exact (Place.Capped.drop (p := l.place.write _) capped sid).abort sid
  | _ => exact capped

/-! ## GOAWAY -/

/-- The last-stream-ids of the GOAWAY frames written, in order. -/
def goawayIds (out : List Seg) : List StreamId :=
  out.filterMap fun
    | .goaway last _ => some last
    | _ => none

theorem Seg.Mute.not_isGoaway {seg : Seg} (mute : seg.Mute) : ¬seg.IsGoaway := by
  cases seg with
  | goaway => exact fun _ => mute
  | _ => exact id

theorem goawayIds_write (out : List Seg) {segs : List Seg} (none : ∀ seg ∈ segs, ¬seg.IsGoaway) :
    goawayIds (out ++ segs) = goawayIds out := by
  have empty : goawayIds segs = [] := by
    rw [goawayIds, filterMap_eq_nil_iff]
    intro seg member
    have other := none seg member
    cases seg with
    | goaway => exact absurd trivial other
    | _ => rfl
  rw [goawayIds, filterMap_append]
  exact (congrArg (goawayIds out ++ ·) empty).trans (append_nil _)

/-- No promise made by a GOAWAY is broken, and none will be: what is dispatched, or still may
be, lies below the last one. -/
structure AgreedAt (receiving : HashMap StreamId Bool) (last : StreamId)
    (goawayLast : Option StreamId) (accepting : Bool) (dispatched : List (StreamId × Request))
    (ids : List StreamId) : Prop where
  below : ∀ {sid refused}, receiving.get sid = some refused → sid ≤ last
  served : ∀ {sid request}, (sid, request) ∈ dispatched → sid ≤ last
  closed : ∀ {id}, goawayLast = some id → accepting = false
  kept : ∀ {id sid}, goawayLast = some id → receiving.get sid = some false → sid ≤ id
  honoured : ∀ {id sid request}, goawayLast = some id → (sid, request) ∈ dispatched → sid ≤ id
  silent : goawayLast = none → ids = []
  lowest : ∀ {id}, goawayLast = some id → ∀ earlier ∈ ids, id ≤ earlier
  falling : ids.Pairwise (· ≥ ·)

namespace AgreedAt

variable {receiving : HashMap StreamId Bool} {last : StreamId} {goawayLast : Option StreamId}
  {accepting : Bool} {dispatched : List (StreamId × Request)} {ids : List StreamId}

section

variable (agreed : AgreedAt receiving last goawayLast accepting dispatched ids)
include agreed

theorem drop (sid : StreamId) :
    AgreedAt (receiving.del sid) last goawayLast accepting dispatched ids := by
  exact { agreed with
    below := fun found => agreed.below (get_of_del found).2
    kept := fun promised found => agreed.kept promised (get_of_del found).2 }

/-- A stream joins the receiving ones; one that may be dispatched comes before any GOAWAY. -/
theorem receive {sid last' : StreamId} {refused : Bool} (raised : last ≤ last')
    (within : sid ≤ last') (early : ∀ {id}, goawayLast = some id → refused = false → sid ≤ id) :
    AgreedAt (receiving.put sid refused) last' goawayLast accepting dispatched ids := by
  refine { agreed with
    below := ?_
    served := fun member => (agreed.served member).trans raised
    kept := ?_ }
  · intro other refused' found
    rcases get_of_put found with ⟨rfl, rfl⟩ | ⟨_, elsewhere⟩
    · exact within
    · exact (agreed.below elsewhere).trans raised
  · intro id other promised found
    rcases get_of_put found with ⟨rfl, rfl⟩ | ⟨_, elsewhere⟩
    · exact early promised rfl
    · exact agreed.kept promised elsewhere

theorem refuse : AgreedAt receiving last goawayLast false dispatched ids :=
  { agreed with closed := fun _ => rfl }

/-- A GOAWAY promises no more than the one before it, and everything dispatched so far. -/
theorem goaway {id : StreamId} (same : id = goawayLast.elim last (min · last)) :
    AgreedAt receiving last (some id) false dispatched (ids ++ [id]) := by
  have bounds : (∀ {sid}, receiving.get sid = some false → sid ≤ id) ∧
      (∀ {sid request}, (sid, request) ∈ dispatched → sid ≤ id) ∧ ∀ earlier ∈ ids,
        id ≤ earlier := by
    cases before : goawayLast with
    | none =>
      rw [before] at same
      subst same
      refine ⟨agreed.below, agreed.served, ?_⟩
      rw [agreed.silent before]
      exact fun earlier member => nomatch member
    | some =>
      rw [before] at same
      subst same
      exact ⟨fun found => le_min (agreed.kept before found) (agreed.below found),
        fun member => le_min (agreed.honoured before member) (agreed.served member),
        fun earlier member => (min_le_left ..).trans (agreed.lowest before earlier member)⟩
  obtain ⟨kept, honoured, lowest⟩ := bounds
  refine ⟨agreed.below, agreed.served, fun _ => rfl, ?_, ?_, (nomatch ·), ?_, ?_⟩
  · exact fun promised found => Option.some.inj promised ▸ kept found
  · exact fun promised member => Option.some.inj promised ▸ honoured member
  · intro id' promised earlier member
    rw [← Option.some.inj promised]
    rcases mem_append.mp member with before | now
    · exact lowest earlier before
    · exact (mem_singleton.mp now).ge
  · rw [pairwise_append]
    refine ⟨agreed.falling, pairwise_singleton .., fun earlier member id' now => ?_⟩
    rw [mem_singleton.mp now]
    exact lowest earlier member

end

end AgreedAt

namespace Place

def Agreed (p : Place) : Prop :=
  AgreedAt p.receiving p.last p.goawayLast p.accepting p.dispatched (goawayIds p.out)

theorem Agreed.write {p : Place} (agreed : p.Agreed) {segs : List Seg}
    (none : ∀ seg ∈ segs, ¬seg.IsGoaway) : (p.write segs).Agreed := by
  rw [Agreed, Place.write]
  rw [goawayIds_write _ none]
  exact agreed

theorem Agreed.say {p : Place} (agreed : p.Agreed) {seg : Seg} (other : ¬seg.IsGoaway) :
    (p.write [seg]).Agreed :=
  agreed.write fun _ member => mem_singleton.mp member ▸ other

theorem Agreed.goaway {p : Place} (agreed : p.Agreed) (error : ErrorCode) :
    ({ p.write [.goaway p.goawayId error] with
      goawayLast := some p.goawayId, accepting := false } : Place).Agreed := by
  have same : p.goawayId = p.goawayLast.elim p.last (min · p.last) := by
    rw [goawayId]
    cases p.goawayLast <;> rfl
  have said := AgreedAt.goaway agreed same
  rw [Agreed, Place.write]
  rw [goawayIds, filterMap_append]
  exact said

theorem Trip.agreed {f : Frame} {p p' : Place} (trip : Trip f p p') (agreed : p.Agreed) :
    p'.Agreed := by
  cases trip with
  | writes _ mute =>
    exact agreed.write fun seg member => (mute seg member).not_isGoaway
  | announces _ _ interim =>
    refine agreed.write fun seg member => ?_
    obtain ⟨_, rfl⟩ := interim seg member
    exact id
  | opens _ _ _ above room =>
    refine AgreedAt.receive agreed above.le le_rfl fun promised admitted => ?_
    nomatch ((agreed.closed promised).symm.trans (room admitted).1)
  | passes _ _ above =>
    exact { agreed with
      below := fun found => (agreed.below found).trans above.le
      served := fun member => (agreed.served member).trans above.le }
  | keeps _ found =>
    refine AgreedAt.receive agreed le_rfl (agreed.below found) fun promised admitted => ?_
    exact agreed.kept promised (admitted ▸ found)
  | drops | aborts | abortsRunning => exact AgreedAt.drop agreed _
  | dispatches _ _ found =>
    have dropped := AgreedAt.drop agreed f.streamId
    refine { dropped with served := fun {sid request'} member => ?_, honoured := ?_ }
    · rcases mem_append.mp member with before | now
      · exact agreed.served before
      · cases mem_singleton.mp now
        exact agreed.below found
    · intro id sid request' promised member
      rcases mem_append.mp member with before | now
      · exact agreed.honoured promised before
      · cases mem_singleton.mp now
        exact agreed.kept promised found
  | answers | rejects | resets
  | resetsRunning => exact AgreedAt.drop (agreed.say id) f.streamId
  | refuses => exact AgreedAt.refuse agreed
  | closes error => exact agreed.goaway error
  | _ => exact agreed

end Place

theorem Link.Acts.agreed {l l' : Link} (acts : Acts l l') (agreed : l.place.Agreed) :
    l'.place.Agreed := by
  cases acts with
  | stops => exact AgreedAt.refuse agreed
  | closes error => exact agreed.goaway error
  | expires sid _ taken =>
    obtain ⟨_, written, same⟩ := l.place_expires sid taken
    have dropped : (l.place.drop sid).Agreed := AgreedAt.drop agreed sid
    rw [same]
    exact dropped.write (Link.forall_expired written id)
  | aborts | ends | condemns | cancels =>
    exact agreed.say id
  | responds _ task _ _ _ hints interim _ shape _ first rest =>
    have written : (l.place.write
        (hints ++ [.fields task.sid false shape.ended first rest])).Agreed := by
      exact agreed.write (Link.forall_heads interim (fun _ _ => id) id)
    cases shape <;> exact written
  | sends =>
    refine agreed.write fun seg member => ?_
    rcases mem_cons.mp member with rfl | payload
    · exact id
    · exact mem_singleton.mp payload ▸ id
  | overflows sid =>
    rw [l.place_overflows sid]
    exact AgreedAt.drop (agreed.say id) sid
  | _ => exact agreed

namespace Conn

theorem fresh_agreed (config : Config) : ((fresh config).link []).place.Agreed := by
  have ids : goawayIds (preamble config) = [] := by
    rw [preamble]
    split_ifs <;> rfl
  refine ⟨?_, (absurd · not_mem_nil), ?_, ?_, ?_, fun _ => ids, ?_, ids.symm ▸ List.Pairwise.nil⟩
  all_goals exact fun none => by cases none

/-- In every state of every run the streams received without being refused, handled or answered
stay within the cap; the last-stream-ids of the GOAWAY frames do not rise, and no request above
any of them is dispatched, before or after it. -/
theorem run_respects_cap_and_goaway (config : Config) (events : List Event) :
    HashMap.total (fun _ st => if st.refused then 0 else 1) (run config events).session.streams +
        (run config events).session.inflight.length + (run config events).outstreams.size ≤
      config.maxConcurrentStreams ∧
    (goawayIds (run config events).session.out).Pairwise (· ≥ ·) ∧
    ∀ request ∈ (run config events).session.dispatched,
      ∀ id ∈ goawayIds (run config events).session.out, request.1 ≤ id := by
  obtain ⟨capped, agreed⟩ := place_invariant (fun p => p.Capped ∧ p.Agreed) (fun _ _ => True)
    (fun _ _ => trivial) ⟨Nat.zero_le _, fresh_agreed config⟩
    (fun holds _ trip => ⟨trip.capped holds.1, trip.agreed holds.2⟩)
    (fun holds acts => ⟨acts.capped holds.1, acts.agreed holds.2⟩) events (Obeys.always events) 0
  have limit := (run_limits config events).1
  refine ⟨?_, agreed.falling, ?_⟩
  · have counted : slots ((run config events).session.streams.mapValues StreamState.refused)
        (run config events).session.inflight (run config events).outstreams ≤
        config.maxConcurrentStreams := le_of_le_of_eq capped limit
    rw [slots, total_mapValues] at counted
    exact counted
  · rintro ⟨_, _⟩ served id written
    cases last : ((run config events).session.core).goawayLast with
    | none => exact absurd (agreed.silent last ▸ written) not_mem_nil
    | some lowest => exact (agreed.honoured last served).trans (agreed.lowest last id written)

end Conn

end HttpJet.H2
