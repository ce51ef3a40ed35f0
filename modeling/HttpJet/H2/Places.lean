import HttpJet.H2.Receiving

/-!
# Where the streams are

A stream is received, then handled, then answered.  `Place` keeps where every stream is, what was
written and what was promised.  `Trip` is the little that a frame can change there, and
`Feeds.trips` takes every frame apart into trips: an invariant of the places is proved by cases
on trips and actions.
-/

namespace HttpJet.H2

open Hpack Hpack.Integer Library List
open HashMap
open Link (Acts)

variable {l' : Link}

structure Place where
  /-- The receiving streams, and whether each is refused. -/
  receiving : HashMap StreamId Bool
  last : StreamId
  goawayLast : Option StreamId
  out : List Seg
  peer : PeerSettings
  maxConcurrent : Nat
  inflight : List Task
  cancelled : List StreamId
  inflightSids : List StreamId
  dispatched : List (StreamId × Request)
  outstreams : HashMap StreamId OutStream
  pulls : List StreamId
  sendConn : Int
  pendingWindow : HashMap StreamId Int
  accepting : Bool
  notes : List Note

/-- The places of a core, beside the send side of a link. -/
def Core.place (k : Core) (l : Link) : Place where
  receiving := k.streams.mapValues StreamState.refused
  last := k.lastClientStream
  goawayLast := k.goawayLast
  out := k.out
  peer := k.peer
  maxConcurrent := k.maxConcurrent
  inflight := k.inflight
  cancelled := k.cancelled
  inflightSids := k.inflightSids
  dispatched := k.dispatched
  outstreams := l.outstreams
  pulls := l.pulls
  sendConn := l.sendConn
  pendingWindow := l.pendingWindow
  accepting := l.accepting
  notes := l.notes

def Link.place (l : Link) : Place := l.core.place l

/-- Segments that belong to no response. -/
def Seg.Mute : Seg → Prop
  | .settingsAck | .pingAck _ | .windowUpdate .. => True
  | _ => False

namespace Place

variable (p : Place)

def write (segs : List Seg) : Place := { p with out := p.out ++ segs }

theorem write_write (segs segs' : List Seg) :
    (p.write segs).write segs' = p.write (segs ++ segs') := by
  rw [write, write, write, append_assoc]

def goawayId : StreamId :=
  match p.goawayLast with
  | none => p.last
  | some previous => min previous p.last

def drop (sid : StreamId) : Place := { p with receiving := p.receiving.del sid }

def abort (sid : StreamId) : Place :=
  { p with
    inflightSids := p.inflightSids.erase sid
    inflight :=
      if p.inflightSids.contains sid then
        p.inflight.map fun task => if task.sid = sid then { task with aborted := true } else task
      else p.inflight
    cancelled :=
      if p.inflightSids.contains sid ∧ p.cancelled.length < p.maxConcurrent * 2 then
        p.cancelled.insert sid
      else p.cancelled }

/-- The response of a stream is given up. -/
def cancel (sid : StreamId) : Place :=
  { p with outstreams := p.outstreams.del sid, pendingWindow := p.pendingWindow.del sid }

/-- What a frame can change. -/
inductive Trip (f : Frame) (p : Place) : Place → Prop
  | writes (segs : List Seg) (mute : ∀ seg ∈ segs, seg.Mute) : Trip f p (p.write segs)
  /-- An interim head for a request that goes on. -/
  | announces (segs : List Seg) (known : p.receiving.contains f.streamId = true)
      (interim : ∀ seg ∈ segs, ∃ first, seg = .fields f.streamId true false first []) :
      Trip f p (p.write segs)
  | opens (refused : Bool) (absent : p.receiving.get f.streamId = none)
      (odd : f.streamId % 2 = 1) (above : p.last < f.streamId)
      (room : refused = false → p.accepting = true ∧
        p.receiving.size + p.inflight.length + p.outstreams.size < p.maxConcurrent) :
      Trip f p { p with receiving := p.receiving.put f.streamId refused, last := f.streamId }
  /-- A malformed head uses its id up. -/
  | passes (absent : p.receiving.get f.streamId = none) (odd : f.streamId % 2 = 1)
      (above : p.last < f.streamId) : Trip f p { p with last := f.streamId }
  | keeps (refused : Bool) (found : p.receiving.get f.streamId = some refused) :
      Trip f p { p with receiving := p.receiving.put f.streamId refused }
  | drops : Trip f p (p.drop f.streamId)
  | dispatches (isHead : Bool) (request : Request)
      (found : p.receiving.get f.streamId = some false) :
      Trip f p
        { p.drop f.streamId with
          inflight := p.inflight ++ [⟨f.streamId, isHead, false⟩]
          inflightSids := p.inflightSids.insert f.streamId
          dispatched := p.dispatched ++ [(f.streamId, request)] }
  /-- A bodiless response to a complete request. -/
  | answers (first : Octets) (rest : List Octets)
      (known : p.receiving.contains f.streamId = true) :
      Trip f p (((p.write [.fields f.streamId false true first rest]).drop f.streamId).cancel
        f.streamId)
  /-- A bodiless response to a request that is then reset. -/
  | rejects (first : Octets) (rest : List Octets)
      (known : p.receiving.contains f.streamId = true) :
      Trip f p ((p.write [.fields f.streamId false true first rest]).drop f.streamId)
  | resets (error : ErrorCode) (known : f.streamId ≤ p.last ∨ Core.SelfDependent f) :
      Trip f p
        ((((p.write [.rstStream f.streamId error]).drop f.streamId).abort f.streamId).cancel
          f.streamId)
  /-- The reset of a handled stream, which has no response to give up. -/
  | resetsRunning (error : ErrorCode) (running : f.streamId ∈ p.inflightSids) :
      Trip f p (((p.write [.rstStream f.streamId error]).drop f.streamId).abort f.streamId)
  | aborts (known : f.streamId ≤ p.last) (kind : f.kind = Kind.rstStream) :
      Trip f p (((p.drop f.streamId).abort f.streamId).cancel f.streamId)
  | abortsRunning (running : f.streamId ∈ p.inflightSids) :
      Trip f p ((p.drop f.streamId).abort f.streamId)
  | refuses : Trip f p { p with accepting := false }
  | closes (error : ErrorCode) :
      Trip f p
        { p.write [.goaway p.goawayId error] with
          goawayLast := some p.goawayId, accepting := false }
  | shifts (peer : PeerSettings) (legal : Core.Legal p.peer → Core.Legal peer) :
      Trip f p
        { p with
          peer := peer
          outstreams := p.outstreams.mapValues fun st =>
            { st with window := st.window + (peer.initialWindow - p.peer.initialWindow) } }
  /-- A SETTINGS frame that is rejected half-way. -/
  | unsettles (peer : PeerSettings) (legal : Core.Legal p.peer → Core.Legal peer) :
      Trip f p
        { p with
          peer := peer
          notes := p.notes ++
            if peer.initialWindow ≠ p.peer.initialWindow then
              [.rejected (peer.initialWindow - p.peer.initialWindow)]
            else [] }

/-- A rejected SETTINGS frame leaves a note if it had moved the initial window. -/
theorem unsettled {Q : Place → Prop} (p : Place) (peer : PeerSettings)
    (kept : peer.initialWindow = p.peer.initialWindow → Q { p with peer := peer })
    (noted : Q { p with
      peer := peer
      notes := p.notes ++ [.rejected (peer.initialWindow - p.peer.initialWindow)] }) : Q { p with
      peer := peer
      notes := p.notes ++ if peer.initialWindow ≠ p.peer.initialWindow then
        [.rejected (peer.initialWindow - p.peer.initialWindow)] else [] } := by
  split_ifs with moved
  · exact noted
  · rw [append_nil]
    exact kept (not_not.mp moved)

abbrev Trips (f : Frame) : Place → Place → Prop := Relation.ReflTransGen (Trip f)

theorem Trip.to {f : Frame} {p q r : Place} (trip : Trip f p q) (same : q = r) : Trips f p r :=
  same ▸ .single trip

end Place

/-! ## The places of a core -/

namespace Core

open Place (Trip Trips)

variable {sid : StreamId} {st : StreamState} {error : ErrorCode}

/-- The places once an outcome has taken effect. -/
def placeAfter (k : Core) (l : Link) (outcome : FrameOutcome) : Place :=
  ({ l with core := k }.settle outcome).place

theorem place_drop (k : Core) (sid : StreamId) (l : Link) :
    (k.drop sid).place l = (k.place l).drop sid := by
  rw [place, place, drop, Place.drop, mapValues_del]

theorem place_put (k : Core) (sid : StreamId) (st : StreamState) (l : Link) :
    ({ k with streams := k.streams.put sid st } : Core).place l =
      { k.place l with receiving := (k.place l).receiving.put sid st.refused } := by
  simp [place, mapValues_put]

theorem place_reset (k : Core) (sid : StreamId) (error : ErrorCode) (l : Link) :
    (k.reset sid error).place l =
      (((k.place l).write [.rstStream sid error]).drop sid).abort sid := by
  have dropped := (k.push (.rstStream sid error)).place_drop sid l
  exact congrArg (Place.abort · sid) dropped

theorem place_get {k : Core} (l : Link) (found : k.streams.get sid = some st) :
    (k.place l).receiving.get sid = some st.refused := by
  rw [place, get_mapValues, found]
  rfl

theorem place_known {k : Core} (l : Link) (found : k.streams.get sid = some st) :
    (k.place l).receiving.contains sid = true :=
  HashMap.contains_iff.mpr ⟨_, place_get l found⟩

theorem place_absent {k : Core} (l : Link) (absent : k.streams.get sid = none) :
    (k.place l).receiving.get sid = none := by
  rw [place, get_mapValues, absent]
  rfl

variable {f : Frame} {l : Link} {k k' : Core} {outcome : FrameOutcome}

theorem goaway_trips (k : Core) (l : Link) (error : ErrorCode) :
    Trips f (k.place l) ((k.goaway error).placeAfter l .stopReading) := .single (.closes error)

/-- A reset drops its stream, so it does not matter whether that is gone already. -/
theorem Resets.trips_dropped (resets : Resets f.streamId error k k' outcome)
    (known : f.streamId ≤ k.lastClientStream ∨ SelfDependent f) :
    Trips f ((k.place l).drop f.streamId) (k'.placeAfter l outcome) := by
  have same : (((k.place l).drop f.streamId).write [.rstStream f.streamId error]).drop f.streamId =
      ((k.place l).write [.rstStream f.streamId error]).drop f.streamId := by
    simp [Place.drop, Place.write]
  cases resets with
  | counted =>
    have reset := Trip.resets (p := (k.place l).drop f.streamId) error known
    rw [same, ← place_reset] at reset
    exact .single reset
  | exhausted running =>
    have reset := Trip.resetsRunning (p := (k.place l).drop f.streamId) error running
    rw [same, ← place_reset] at reset
    exact .head reset (goaway_trips _ l .enhanceYourCalm)

theorem Resets.trips (resets : Resets f.streamId error k k' outcome)
    (known : f.streamId ≤ k.lastClientStream ∨ SelfDependent f) :
    Trips f (k.place l) (k'.placeAfter l outcome) := .head .drops (resets.trips_dropped known)

/-- A rejected request is answered before it is reset. -/
theorem Resets.trips_rejected {first : Octets} {rest : List Octets}
    (resets : Resets f.streamId error
      (k.push (.fields f.streamId false true first rest)) k' outcome)
    (below : f.streamId ≤ k.lastClientStream)
    (known : (k.place l).receiving.contains f.streamId = true) :
    Trips f (k.place l) (k'.placeAfter l outcome) :=
  .head (.rejects first rest known) (resets.trips_dropped (.inl below))

theorem answered_trips (k : Core) (first : Octets)
    (known : (k.place l).receiving.contains f.streamId = true) :
    Trips f (k.place l) (((k.push (.fields f.streamId false true first [])).drop
      f.streamId).placeAfter l (.resetStream f.streamId)) := by
  have answers := Trip.answers (p := k.place l) first [] known
  have same := (k.push (.fields f.streamId false true first [])).place_drop f.streamId l
  exact answers.to (congrArg (Place.cancel · f.streamId) same).symm

theorem Completes.trips (completes : Completes f.streamId k k' outcome)
    (below : f.streamId ≤ k.lastClientStream)
    (found : (k.place l).receiving.get f.streamId = some false) :
    Trips f (k.place l) (k'.placeAfter l outcome) := by
  cases completes with
  | dispatched isHead request =>
    have dispatched := Trip.dispatches (p := k.place l) isHead request found
    rw [← place_drop] at dispatched
    exact .single dispatched
  | refuted resets =>
    have dropped := Trip.drops (f := f) (p := k.place l)
    rw [← place_drop] at dropped
    exact .head dropped (resets.trips (.inl below))

theorem Settles.trips (settles : Settles f.streamId st k k' outcome)
    (below : f.streamId ≤ k.lastClientStream) (found : k.streams.get f.streamId = some st) :
    Trips f (k.place l) (k'.placeAfter l outcome) := by
  have dropped := Trip.drops (f := f) (p := k.place l)
  rw [← place_drop] at dropped
  cases settles with
  | garbled => exact goaway_trips k l _
  | refused _ resets | malformed resets => exact .head dropped (resets.trips (.inl below))
  | rejected _ _ resets => exact resets.trips_rejected below (place_known l found)
  | answered first => exact answered_trips k first (place_known l found)
  | completed admitted completes => exact completes.trips below (admitted ▸ place_get l found)
  | unaffordable resets => exact resets.trips (.inl below)
  | admitted charge interim _ _ _ announced =>
    have keeps := Trip.keeps (f := f) (p := k.place l) _ (place_get l found)
    refine .head keeps ?_
    have announces := Trip.announces (f := f) (p := { k.place l with
      receiving := (k.place l).receiving.put f.streamId st.refused }) interim
      (HashMap.contains_iff.mpr ⟨_, get_put_self ..⟩) announced
    have same := k.place_put f.streamId { st with
      headerCharge := charge, bodyLease := k.leaseAfter st.bodyLease charge } l
    exact announces.to (congrArg (Place.write · interim) same).symm

theorem Discards.trips {block : Octets} (discards : Discards f block k k' outcome)
    (below : f.streamId ≤ k.lastClientStream) : Trips f (k.place l) (k'.placeAfter l outcome) := by
  cases discards with
  | finished _ _ resets => exact resets.trips (.inl below)
  | garbled => exact goaway_trips k l _
  | continues => exact .refl

theorem replenish_trips (k : Core) (l : Link) (n : Nat) :
    Trips f (k.place l) ((k.spend n).replenish.place l) := by
  rw [replenish]
  split_ifs
  · exact .single (.writes [_] fun _ member => mem_singleton.mp member ▸ trivial)
  · exact .refl

theorem buffer_trips (data : Octets) (lease : Option Nat) (ended : Bool)
    (found : k.streams.get f.streamId = some st) (same : sid = f.streamId) :
    Trips f (k.place l) ((k.buffer sid st data lease ended).place l) := by
  subst same
  have keeps := Trip.keeps (f := f) (p := k.place l) _ (place_get l found)
  have put (st' : StreamState) (kept : st'.refused = st.refused) :
      ({ k with streams := k.streams.put f.streamId st' } : Core).place l =
        { k.place l with receiving := (k.place l).receiving.put f.streamId st.refused } :=
    kept ▸ k.place_put f.streamId st' l
  rw [buffer]
  split_ifs
  · have written := Trip.writes (f := f) (p := { k.place l with
      receiving := (k.place l).receiving.put f.streamId st.refused })
      [.windowUpdate f.streamId (k.ourInitialWindow - st.recvWindow).toNat]
      fun _ member => mem_singleton.mp member ▸ trivial
    have same := put { st with
      body := st.body ++ data, bodyLease := lease, recvWindow := k.ourInitialWindow } rfl
    exact .head keeps (written.to (congrArg (Place.write · _) same).symm)
  · exact keeps.to (put { st with body := st.body ++ data, bodyLease := lease } rfl).symm

theorem Receives.trips {data : Octets} (receives : Receives f data st k k' outcome)
    (below : f.streamId ≤ k.lastClientStream) (found : k.streams.get f.streamId = some st)
    (admitted : st.refused = false) : Trips f (k.place l) (k'.placeAfter l outcome) := by
  have dropped := Trip.drops (f := f) (p := k.place l)
  rw [← place_drop] at dropped
  cases receives with
  | overrun resets => exact .head dropped (resets.trips (.inl below))
  | refuted _ resets => exact resets.trips (.inl below)
  | rejected _ resets => exact resets.trips_rejected below (place_known l found)
  | answered first => exact answered_trips k first (place_known l found)
  | exhausted => exact goaway_trips k l _
  | buffered => exact buffer_trips data _ _ found rfl
  | completed _ _ completes =>
    obtain ⟨_, streams⟩ := k.buffer_streams f.streamId st data
      (k.leaseAfter st.bodyLease data.length) (f.has Flag.endStream)
    have kept := place_get l (streams ▸ get_put_self ..)
    rw [admitted] at kept
    exact (buffer_trips data _ _ found rfl).trans
      (completes.trips ((k.buffer_frame ..).1 ▸ below) kept)

/-! ## Frames -/

theorem advance_trips (k : Core) (l : Link)
    (above : k.streams.get f.streamId = none → f.streamId % 2 = 1 ∧
      k.lastClientStream < f.streamId) :
    Trips f (k.place l) ((k.advance f.streamId).place l) := by
  rw [advance]
  split_ifs with known
  · exact .refl
  · have absent := contains_eq_false.mp (Bool.eq_false_iff.mpr known)
    exact .single (.passes (place_absent l absent) (above absent).1 (above absent).2)

/-- The stream of a HEADERS frame is found or opened. -/
theorem Entry.trips (entry : Entry l.outstreams.size l.accepting f k st) {st' : StreamState}
    (kept : st'.refused = st.refused) : Trips f (k.place l)
      (({ k.advance f.streamId with streams := k.streams.put f.streamId st' } : Core).place l) := by
  have same := (k.advance f.streamId).place_put f.streamId st' l
  cases entry with
  | trailers found =>
    have keeps := Trip.keeps (p := k.place l) _ (place_get l found)
    have last : k.advance f.streamId = k := by
      rw [advance, if_pos (HashMap.contains_iff.mpr ⟨_, found⟩)]
    rw [last] at same ⊢
    rw [kept] at same
    exact keeps.to same.symm
  | opened refused absent odd above room =>
    have opens := Trip.opens (p := k.place l) refused (place_absent l absent) odd above (by
      intro accepted
      rw [place, size_mapValues]
      exact room accepted)
    have last : k.advance f.streamId = { k with lastClientStream := f.streamId } := by
      rw [advance, if_neg]
      rw [contains_eq_false.mpr absent]
      exact Bool.false_ne_true
    rw [last] at same ⊢
    rw [kept] at same
    exact opens.to same.symm

/-- A frame that leaves the peer's settings alone, taken apart. -/
theorem Handles.trips {active : Nat} {accepting : Bool}
    (handles : Handles active accepting f k k' outcome) (framed : Framed k)
    (counted : active = l.outstreams.size) (accepts : accepting = l.accepting) : Trips f (k.place l)
      (k'.placeAfter { l with notes := l.notes ++ Link.rejection k k' outcome } outcome) := by
  subst counted accepts
  have quiet (same : k'.peer = k.peer) (trips : Trips f (k.place l) (k'.placeAfter l outcome)) :
      Trips f (k.place l)
        (k'.placeAfter { l with notes := l.notes ++ Link.rejection k k' outcome } outcome) := by
    have none : Link.rejection k k' outcome = [] :=
      if_neg fun both => both.2 (congrArg PeerSettings.initialWindow same)
    rw [none, append_nil]
    exact trips
  cases handles with
  | broken error => exact quiet rfl (goaway_trips k l error)
  | noted _ answers echo =>
    refine quiet rfl (.single (.writes answers fun seg member => ?_))
    rw [echo seg member]
    trivial
  | peerGoaway => exact quiet rfl (.single .refuses)
  | settings _ peer outcome legal change =>
    have acked := Trip.writes (f := f) (p := { k.place l with
      peer := peer
      outstreams := l.outstreams.mapValues fun st =>
        { st with window := st.window + (peer.initialWindow - k.peer.initialWindow) } })
      [.settingsAck] fun _ member => mem_singleton.mp member ▸ trivial
    have silent : Link.rejection k { k with peer := peer, out := k.out ++ [.settingsAck] } outcome =
        [] := by
      refine if_neg fun both => ?_
      rw [change] at both
      split_ifs at both <;> exact nomatch both.1
    rw [silent, append_nil]
    refine .head (.shifts peer legal) (acked.to ?_)
    rw [change]
    split_ifs with moved
    · rfl
    · have same : (l.outstreams.mapValues fun st => ({ st with
          window := st.window + (peer.initialWindow - k.peer.initialWindow) } : OutStream)) =
          l.outstreams := by
        refine mapValues_of_same _ fun st => ?_
        rw [not_not.mp moved, Int.add_zero]
      rw [same]
      rfl
  | settingsBroken peer error legal =>
    refine .head (.unsettles peer legal) (.single ?_)
    have closes := Trip.closes (f := f) (p := { k.place l with
      peer := peer
      notes := l.notes ++ if peer.initialWindow ≠ k.peer.initialWindow then
          [.rejected (peer.initialWindow - k.peer.initialWindow)] else [] }) error
    have same : Link.rejection k ({ k with peer := peer }.goaway error) .stopReading =
        if peer.initialWindow ≠ k.peer.initialWindow then
          [.rejected (peer.initialWindow - k.peer.initialWindow)] else [] := by
      simp only [Link.rejection, true_and]
      rfl
    rw [same]
    exact closes
  | credit => exact quiet rfl .refl
  | resets _ _ known resets =>
    exact quiet resets.effect.2.1.2 (resets.trips (known.imp And.right id))
  | peerReset _ opened kind =>
    have aborts := Trip.aborts (p := k.place l) opened.2 kind
    rw [← place_drop] at aborts
    exact quiet rfl (.single aborts)
  | peerResetExhausted _ _ running =>
    have aborts := Trip.abortsRunning (p := k.place l) running
    rw [← place_drop] at aborts
    exact quiet rfl (.head aborts (goaway_trips ((k.drop f.streamId).abort f.streamId) l _))
  | headersOnClosed _ _ _ _ _ opened discards =>
    exact quiet discards.effect.2.1.2 (discards.trips opened.2)
  | headersBroken _ above =>
    exact quiet rfl ((advance_trips k l above).trans (goaway_trips _ l _))
  | headersMalformed _ _ _ _ above discards =>
    have dropped := Trip.drops (f := f) (p := (k.advance f.streamId).place l)
    rw [← place_drop] at dropped
    exact quiet discards.effect.2.1.2 (((advance_trips k l above).tail dropped).trans
      (discards.trips (Framed.advance framed fun absent => (above absent).2).2))
  | headersTooLong _ entry => exact quiet rfl ((entry.trips rfl).trans (goaway_trips _ l _))
  | headersEnd _ _ _ _ _ _ entry _ redecoded settles =>
    refine quiet settles.effect.2.1.2 ((entry.trips redecoded.refused).trans
      (settles.trips ?_ (get_put_self ..)))
    exact (Framed.advance framed entry.above).2
  | headersOpen _ _ _ _ _ entry => exact quiet rfl (entry.trips rfl)
  | continueDiscard _ current _ discards =>
    have below := framed.opened current
    refine quiet ?_ ?_
    · rw [discards.effect.2.1.2]
      split_ifs <;> rfl
    · have trips := discards.trips (l := l) (by split_ifs <;> exact below)
      split_ifs at trips <;> exact trips
  | continuationEnd _ st' _ current _ found _ redecoded settles =>
    have keeps := Trip.keeps (f := f) (p := k.place l) _ (place_get l found)
    have same := k.place_put f.streamId st' l
    rw [redecoded.refused] at same
    exact quiet settles.effect.2.1.2 ((keeps.to same.symm).trans
      (settles.trips (framed.opened current) (get_put_self ..)))
  | continuationOpen _ _ _ _ found =>
    have keeps := Trip.keeps (f := f) (p := k.place l) _ (place_get l found)
    exact quiet rfl (keeps.to (k.place_put f.streamId _ l).symm)
  | dataOverrun => exact quiet rfl (goaway_trips k l _)
  | dataIgnored =>
    exact quiet ((k.spend f.length).replenish_effect.2.2) (replenish_trips k l f.length)
  | dataIdle =>
    exact quiet ((k.spend f.length).replenish_effect.2.2)
      ((replenish_trips k l f.length).trans (goaway_trips _ l _))
  | dataOnClosed _ _ _ _ opened resets =>
    refine quiet (resets.effect.2.1.2.trans ((k.spend f.length).replenish_effect.2.2))
      ((replenish_trips k l f.length).trans (resets.trips (.inl ?_)))
    exact (k.spend f.length).replenish_frame.2.1 ▸ opened.2
  | data st _ _ closed _ found _ receives =>
    obtain ⟨streams, last, _⟩ := (k.spend f.length).replenish_frame
    have refused : st.refused = false := by
      rw [Framed, closed] at framed
      exact (framed.finished found).2
    refine quiet (receives.effect.2.1.2.trans ((k.spend f.length).replenish_effect.2.2))
      ((replenish_trips k l f.length).trans
        (.trans ?_ (receives.trips ?_ (get_put_self ..) refused)))
    · have spent : (k.spend f.length).replenish.streams.get f.streamId = some st := by
        rw [streams]
        exact found
      have keeps := Trip.keeps (f := f) (p := (k.spend f.length).replenish.place l) _
        (place_get l spent)
      have same := (k.spend f.length).replenish.place_put f.streamId { st with
        recvWindow := st.recvWindow - f.length } l
      rw [streams] at same
      exact keeps.to same.symm
    · rw [last]
      exact framed.below found

end Core

/-- A frame fed to the loop, taken apart. -/
theorem Link.Feeds.trips {f : Frame} {l : Link} (feeds : Link.Feeds f l l')
    (framed : l.core.Framed) :
    Place.Trips f l.place l'.place := by
  obtain ⟨_, handles⟩ := feeds
  exact handles.trips framed rfl rfl

/-! ## Actions on the places -/

namespace Link

/-- A deadline drops its stream, and resets it unless a trailer block is open on it. -/
theorem place_expires (l : Link) (sid : StreamId) (taken : Bool) :
    let pending := if taken then l.pendingWindow.del sid else l.pendingWindow
    ∃ segs, (segs = [] ∨ segs = [.rstStream sid .cancel]) ∧
      ({ l.expire sid with pendingWindow := pending } : Link).place =
        { (l.place.drop sid).write segs with pendingWindow := pending } := by
  intro pending
  have expired : (l.core.expire sid).place l = l.place.drop sid := by
    rw [Core.expire]
    split_ifs
    · exact Core.place_drop { l.core with discardBlock := _, discarding := true } sid l
    · exact l.core.place_drop sid l
  rw [expire]
  split_ifs
  · refine ⟨[], .inl rfl, ?_⟩
    rw [← expired]
    simp only [Place.write, append_nil]
    rfl
  · refine ⟨[_], .inr rfl, ?_⟩
    rw [← expired]
    rfl

theorem forall_expired {segs : List Seg} {sid : StreamId} {p : Seg → Prop}
    (written : segs = [] ∨ segs = [.rstStream sid .cancel]) (reset : p (.rstStream sid .cancel)) :
    ∀ seg ∈ segs, p seg := by
  rcases written with rfl | rfl
  · exact forall_mem_nil p
  · exact forall_mem_singleton.mpr reset

theorem place_overflows (l : Link) (sid : StreamId) :
    ({ l with core := l.core.reset sid .flowControlError }.take sid).place =
      { ((l.place.write [.rstStream sid .flowControlError]).drop sid).abort sid with
        pendingWindow := l.pendingWindow.del sid } := by
  have reset := l.core.place_reset sid .flowControlError l
  exact congrArg (fun p : Place => { p with pendingWindow := l.pendingWindow.del sid }) reset

/-- The loop reads, so its receiving streams are framed. -/
def Sound (l : Link) : Prop := l.reading = true → l.core.Framed

theorem Feeds.sound {f : Frame} {l : Link} (feeds : Feeds f l l') (sound : l.Sound) : l'.Sound := by
  obtain ⟨reads, handles⟩ := feeds
  intro reads'
  rw [settle_core]
  refine handles.framed (sound reads) ?_
  rintro rfl
  exact Bool.false_ne_true reads'

theorem Acts.sound {l : Link} (acts : Acts l l') (sound : l.Sound) : l'.Sound := by
  intro reads'
  have framed := sound (acts.flags.1 reads')
  have moves := acts.moves
  generalize l'.core = k at moves
  induction moves with
  | refl => exact framed
  | tail _ last ih => exact last.framed ih

end Link

namespace Conn

open Place (Trip Trips)
open Link (Acts ActsTo Feeds)

theorem last_le_of_trip {f : Frame} {p p' : Place} (trip : Trip f p p') : p.last ≤ p'.last := by
  cases trip with
  | opens _ _ _ above | passes _ _ above => exact above.le
  | _ => exact le_rfl

theorem mem_preamble {config : Config} {seg : Seg} (member : seg ∈ preamble config) :
    (∃ params, seg = .settings params) ∨ ∃ increment, seg = .windowUpdate 0 increment := by
  rcases mem_cons.mp member with rfl | rest
  · exact .inl ⟨_, rfl⟩
  · split_ifs at rest
    · exact .inr ⟨_, mem_singleton.mp rest⟩
    · nomatch rest

/-- What trips and actions keep holds of the places in every state a run visits; trips of a frame
that is not allowed need not keep it, if the run feeds no such frame. -/
theorem place_invariant {config : Config} (Inv : Place → Prop) (Allowed : Frame → StreamId → Prop)
    (rises : ∀ {f n m}, Allowed f n → n ≤ m → Allowed f m)
    (start : Inv ((fresh config).link []).place)
    (tripped : ∀ {f p p'}, Inv p → Allowed f p.last → Trip f p p' → Inv p')
    (acted : ∀ {l l'}, Inv l.place → Acts l l' → Inv l'.place) (events : List Event)
    (obeys : Obeys config (fun f k => Allowed f k.lastClientStream) events) (visits : Nat) :
    Inv ((visited config events visits).link (notes config events)).place := by
  have journey {f : Frame} {p p' : Place} (holds : Inv p) (fine : Allowed f p.last)
      (trips : Trips f p p') : Inv p' ∧ Allowed f p'.last := by
    induction trips with
    | refl => exact ⟨holds, fine⟩
    | tail _ last ih => exact ⟨tripped ih.1 ih.2 last, rises ih.2 (last_le_of_trip last)⟩
  have acted' {l l' : Link} (holds : l.Sound ∧ Inv l.place) (acts : Acts l l') :
      l'.Sound ∧ Inv l'.place := ⟨acts.sound holds.1, acted holds.2 acts⟩
  have sound : ((fresh config).link []).Sound := fun _ => run_framed config [] (.inl rfl)
  have reached := link_invariant (fun l => l.Sound ∧ Inv l.place)
    (fun f k => Allowed f k.lastClientStream) ⟨sound, start⟩
    (fun {f l l'} holds fine feeds => by
      obtain ⟨reads, handles⟩ := feeds
      have trips := (Feeds.handled (l := l) reads handles).trips (holds.1 reads)
      exact ⟨(Feeds.handled (l := l) reads handles).sound holds.1, (journey holds.2 fine trips).1⟩)
    acted' events obeys
  exact (visited_invariant acted' reached visits).2

end Conn

/-! ## One place at a time -/

variable {sid : StreamId}

/-- Abort the handlers of a stream. -/
def abortTasks (sid : StreamId) (inflight : List Task) : List Task :=
  inflight.map fun task => if task.sid = sid then { task with aborted := true } else task

theorem mem_abortTasks {inflight : List Task} {task : Task}
    (member : task ∈ abortTasks sid inflight) :
    ∃ before ∈ inflight, before.sid = task.sid ∧
      (task.aborted = false → before.aborted = false ∧ task.sid ≠ sid) := by
  obtain ⟨before, earlier, same⟩ := mem_map.mp member
  refine ⟨before, earlier, ?_⟩
  split_ifs at same with own
  · subst same
    exact ⟨rfl, (nomatch ·)⟩
  · subst same
    exact ⟨rfl, fun running => ⟨running, own⟩⟩

structure PlacedAt (receiving : HashMap StreamId Bool) (last : StreamId) (inflight : List Task)
    (inflightSids : List StreamId) (outstreams : HashMap StreamId OutStream) : Prop where
  received : ∀ {sid refused}, receiving.get sid = some refused → sid ≤ last
  handled : ∀ {task}, task ∈ inflight → task.sid ≤ last
  answered : ∀ {sid st}, outstreams.get sid = some st → sid ≤ last
  unhandled : ∀ {sid refused}, receiving.get sid = some refused →
    ∀ task ∈ inflight, task.sid ≠ sid
  unanswered : ∀ {sid refused}, receiving.get sid = some refused → outstreams.get sid = none
  pending : ∀ {task}, task ∈ inflight → outstreams.get task.sid = none
  running : ∀ {sid}, sid ∈ inflightSids → ∃ task ∈ inflight, task.sid = sid
  tracked : ∀ {task}, task ∈ inflight → task.aborted = false → task.sid ∈ inflightSids
  distinct : inflight.Pairwise fun first second => first.sid ≠ second.sid
  nodup : inflightSids.Nodup

namespace PlacedAt

variable {receiving : HashMap StreamId Bool} {last : StreamId} {inflight : List Task}
  {inflightSids : List StreamId} {outstreams : HashMap StreamId OutStream}

theorem fresh : PlacedAt ∅ 0 [] [] ∅ where
  received found := nomatch found
  handled member := absurd member not_mem_nil
  answered found := nomatch found
  unhandled found := nomatch found
  unanswered found := nomatch found
  pending member := absurd member not_mem_nil
  running member := absurd member not_mem_nil
  tracked member := absurd member not_mem_nil
  distinct := .nil
  nodup := .nil

section

variable (placed : PlacedAt receiving last inflight inflightSids outstreams)
include placed

theorem of_running (runs : sid ∈ inflightSids) :
    sid ≤ last ∧ receiving.get sid = none ∧ outstreams.get sid = none := by
  obtain ⟨task, member, rfl⟩ := placed.running runs
  refine ⟨placed.handled member, ?_, placed.pending member⟩
  cases found : receiving.get task.sid with
  | none => rfl
  | some => exact absurd rfl (placed.unhandled found task member)

theorem of_received (known : receiving.contains sid = true) :
    sid ≤ last ∧ sid ∉ inflightSids ∧ outstreams.get sid = none := by
  obtain ⟨_, found⟩ := HashMap.contains_iff.mp known
  refine ⟨placed.received found, fun runs => ?_, placed.unanswered found⟩
  obtain ⟨task, member, same⟩ := placed.running runs
  exact placed.unhandled found task member same

theorem le_of_awaited (waits : receiving.contains sid = true ∨ sid ∈ inflightSids) :
    sid ≤ last := by
  rcases waits with received | handled
  · exact (placed.of_received received).1
  · exact (placed.of_running handled).1

theorem of_answered {st : OutStream} (found : outstreams.get sid = some st) :
    sid ≤ last ∧ receiving.get sid = none ∧ sid ∉ inflightSids := by
  refine ⟨placed.answered found, ?_, fun runs => ?_⟩
  · cases received : receiving.get sid with
    | none => rfl
    | some => nomatch (placed.unanswered received).symm.trans found
  · nomatch (placed.of_running runs).2.2.symm.trans found

theorem drop (sid : StreamId) :
    PlacedAt (receiving.del sid) last inflight inflightSids outstreams := by
  exact { placed with
    received := fun found => placed.received (get_of_del found).2
    unhandled := fun found => placed.unhandled (get_of_del found).2
    unanswered := fun found => placed.unanswered (get_of_del found).2 }

theorem receive {last' : StreamId} (refused : Bool) (raised : last ≤ last') (within : sid ≤ last')
    (alone : ∀ task ∈ inflight, task.sid ≠ sid) (silent : outstreams.get sid = none) :
    PlacedAt (receiving.put sid refused) last' inflight inflightSids outstreams := by
  refine { placed with
    received := ?_
    handled := fun member => (placed.handled member).trans raised
    answered := fun found => (placed.answered found).trans raised
    unhandled := ?_
    unanswered := ?_ }
  · intro other refused' found
    rcases get_of_put found with ⟨rfl, _⟩ | ⟨_, elsewhere⟩
    · exact within
    · exact (placed.received elsewhere).trans raised
  · intro other refused' found
    rcases get_of_put found with ⟨rfl, _⟩ | ⟨_, elsewhere⟩
    · exact alone
    · exact placed.unhandled elsewhere
  · intro other refused' found
    rcases get_of_put found with ⟨rfl, _⟩ | ⟨_, elsewhere⟩
    · exact silent
    · exact placed.unanswered elsewhere

theorem raise {last' : StreamId} (raised : last ≤ last') :
    PlacedAt receiving last' inflight inflightSids outstreams :=
  { placed with
    received := fun found => (placed.received found).trans raised
    handled := fun member => (placed.handled member).trans raised
    answered := fun found => (placed.answered found).trans raised }

theorem dispatch (known : receiving.contains sid = true) (isHead : Bool) :
    PlacedAt (receiving.del sid) last (inflight ++ [⟨sid, isHead, false⟩])
      (inflightSids.insert sid) outstreams := by
  obtain ⟨_, found⟩ := HashMap.contains_iff.mp known
  obtain ⟨below, _, silent⟩ := placed.of_received known
  have others := placed.unhandled found
  have dropped := placed.drop sid
  have either {task : Task} (member : task ∈ inflight ++ [⟨sid, isHead, false⟩]) :
      task ∈ inflight ∨ task = ⟨sid, isHead, false⟩ :=
    (mem_append.mp member).imp_right mem_singleton.mp
  constructor
  case received => exact dropped.received
  case handled =>
    intro task member
    rcases either member with before | rfl
    · exact placed.handled before
    · exact below
  case answered => exact placed.answered
  case unhandled =>
    intro other refused' found' task member
    rcases either member with before | rfl
    · exact dropped.unhandled found' task before
    · exact (get_of_del found').1.symm
  case unanswered => exact dropped.unanswered
  case pending =>
    intro task member
    rcases either member with before | rfl
    · exact placed.pending before
    · exact silent
  case running =>
    intro other member
    rcases mem_insert_iff.mp member with rfl | before
    · exact ⟨_, mem_append_right _ (mem_singleton_self _), rfl⟩
    · obtain ⟨task, found', same⟩ := placed.running before
      exact ⟨task, mem_append_left _ found', same⟩
  case tracked =>
    intro task member running
    rcases either member with before | rfl
    · exact mem_insert_of_mem (placed.tracked before running)
    · exact mem_insert_self
  case distinct =>
    refine pairwise_append.mpr ⟨placed.distinct, pairwise_singleton .., ?_⟩
    intro task before new member
    rw [mem_singleton.mp member]
    exact others task before
  case nodup => exact placed.nodup.insert

/-- Aborted handlers stay in flight, untracked. -/
theorem abort (sid : StreamId) : PlacedAt receiving last
      (if inflightSids.contains sid then abortTasks sid inflight else inflight)
      (inflightSids.erase sid) outstreams := by
  have stays {other : StreamId} (member : other ∈ inflightSids.erase sid) : other ∈ inflightSids :=
    mem_of_mem_erase member
  by_cases runs : inflightSids.contains sid = true
  · rw [if_pos runs]
    constructor
    case received => exact placed.received
    case handled =>
      intro task member
      obtain ⟨before, earlier, same, _⟩ := mem_abortTasks member
      exact same ▸ placed.handled earlier
    case answered => exact placed.answered
    case unhandled =>
      intro other refused found task member
      obtain ⟨before, earlier, same, _⟩ := mem_abortTasks member
      exact same ▸ placed.unhandled found before earlier
    case unanswered => exact placed.unanswered
    case pending =>
      intro task member
      obtain ⟨before, earlier, same, _⟩ := mem_abortTasks member
      exact same ▸ placed.pending earlier
    case running =>
      intro other member
      obtain ⟨task, found, same⟩ := placed.running (stays member)
      refine ⟨_, mem_map_of_mem found, ?_⟩
      split_ifs <;> exact same
    case tracked =>
      intro task member unaborted
      obtain ⟨_, earlier, same, alive⟩ := mem_abortTasks member
      have tracked := placed.tracked earlier (alive unaborted).1
      rw [same] at tracked
      exact (mem_erase_of_ne (alive unaborted).2).mpr tracked
    case distinct =>
      refine pairwise_map.mpr (placed.distinct.imp fun apart => ?_)
      split_ifs <;> exact apart
    case nodup => exact placed.nodup.erase sid
  · have absent : sid ∉ inflightSids := fun member => runs (contains_iff_mem.mpr member)
    rw [if_neg runs, erase_of_not_mem absent]
    exact placed

theorem leave {position : Nat} {task : Task} (found : inflight[position]? = some task) :
    PlacedAt receiving last (inflight.eraseIdx position) (inflightSids.erase task.sid) outstreams ∧
      (∀ other ∈ inflight.eraseIdx position, other.sid ≠ task.sid) ∧
      task.sid ∉ inflightSids.erase task.sid := by
  have remains {other : Task} (member : other ∈ inflight.eraseIdx position) :
      other ∈ inflight ∧ other.sid ≠ task.sid := by
    obtain ⟨index, elsewhere, here⟩ := mem_eraseIdx_iff_getElem?.mp member
    refine ⟨mem_of_getElem? here, ?_⟩
    obtain ⟨bound, rfl⟩ := List.getElem?_eq_some_iff.mp found
    obtain ⟨bound', rfl⟩ := List.getElem?_eq_some_iff.mp here
    have apart := pairwise_iff_getElem.mp placed.distinct
    rcases Nat.lt_or_gt_of_ne elsewhere with before | after
    · exact apart index position bound' bound before
    · exact (apart position index bound bound' after).symm
  have stays {other : StreamId} (member : other ∈ inflightSids.erase task.sid) :
      other ∈ inflightSids ∧ other ≠ task.sid :=
    ⟨mem_of_mem_erase member, (placed.nodup.mem_erase_iff.mp member).1⟩
  refine ⟨?_, fun other member => (remains member).2, fun member => (stays member).2 rfl⟩
  constructor
  case received => exact placed.received
  case handled => exact fun member => placed.handled (remains member).1
  case answered => exact placed.answered
  case unhandled => exact fun found other member => placed.unhandled found other (remains member).1
  case unanswered => exact placed.unanswered
  case pending => exact fun member => placed.pending (remains member).1
  case running =>
    intro other member
    obtain ⟨other', found', rfl⟩ := placed.running (stays member).1
    refine ⟨other', ?_, rfl⟩
    obtain ⟨index, here⟩ := mem_iff_getElem?.mp found'
    refine mem_eraseIdx_iff_getElem?.mpr ⟨index, ?_, here⟩
    rintro rfl
    rw [found] at here
    exact (stays member).2 (congrArg Task.sid (Option.some.inj here).symm)
  case tracked =>
    intro other member unaborted
    exact (mem_erase_of_ne (remains member).2).mpr
      (placed.tracked (remains member).1 unaborted)
  case distinct => exact placed.distinct.sublist (eraseIdx_sublist ..)
  case nodup => exact placed.nodup.erase task.sid

theorem answer (st : OutStream) (below : sid ≤ last) (unreceived : receiving.get sid = none)
    (unhandled : ∀ task ∈ inflight, task.sid ≠ sid) :
    PlacedAt receiving last inflight inflightSids (outstreams.put sid st) := by
  have kept {other : StreamId} (ne : other ≠ sid) :
      (outstreams.put sid st).get other = outstreams.get other := get_put_of_ne _ ne _
  refine { placed with answered := ?_, unanswered := ?_, pending := ?_ }
  · intro other st' found
    by_cases same : other = sid
    · exact same ▸ below
    · exact placed.answered ((kept same).symm.trans found)
  · intro other refused found
    have ne : other ≠ sid := by
      rintro rfl
      nomatch unreceived.symm.trans found
    exact (kept ne).trans (placed.unanswered found)
  · exact fun member => (kept (unhandled _ member)).trans (placed.pending member)

theorem update {st : OutStream} (found : outstreams.get sid = some st) (st' : OutStream) :
    PlacedAt receiving last inflight inflightSids (outstreams.put sid st') := by
  obtain ⟨below, unreceived, _⟩ := placed.of_answered found
  refine placed.answer st' below unreceived fun task member same => ?_
  have silent := placed.pending member
  rw [same, found] at silent
  nomatch silent

/-- The responses change, none is added. -/
theorem fewer {outstreams' : HashMap StreamId OutStream}
    (none : ∀ sid, outstreams.get sid = none → outstreams'.get sid = none) :
    PlacedAt receiving last inflight inflightSids outstreams' := by
  refine { placed with
    answered := ?_
    unanswered := fun found => none _ (placed.unanswered found)
    pending := fun member => none _ (placed.pending member) }
  intro sid st found
  cases before : outstreams.get sid with
  | none => nomatch (none sid before).symm.trans found
  | some => exact placed.answered before

theorem cancel (sid : StreamId) :
    PlacedAt receiving last inflight inflightSids (outstreams.del sid) := by
  refine placed.fewer fun other absent => ?_
  rw [get_del]
  split_ifs
  · rfl
  · exact absent

end

end PlacedAt

namespace Place

def Placed (p : Place) : Prop :=
  PlacedAt p.receiving p.last p.inflight p.inflightSids p.outstreams

theorem Trip.placed {f : Frame} {p p' : Place} (trip : Trip f p p') (placed : p.Placed) :
    p'.Placed := by
  cases trip with
  | opens refused _ _ above =>
    refine PlacedAt.receive placed refused above.le le_rfl ?_ ?_
    · exact fun task member same => absurd (same ▸ placed.handled member) (Nat.not_le.mpr above)
    · cases found : p.outstreams.get f.streamId with
      | none => rfl
      | some => exact absurd (placed.answered found) (Nat.not_le.mpr above)
  | passes _ _ above => exact placed.raise above.le
  | keeps refused found =>
    exact PlacedAt.receive placed refused le_rfl (placed.received found) (placed.unhandled found)
      (placed.unanswered found)
  | drops | rejects => exact PlacedAt.drop placed _
  | dispatches isHead _ found =>
    exact PlacedAt.dispatch placed (HashMap.contains_iff.mpr ⟨_, found⟩) isHead
  | answers => exact (PlacedAt.drop placed _).cancel _
  | resets | aborts => exact ((PlacedAt.drop placed _).abort _).cancel _
  | resetsRunning | abortsRunning => exact (PlacedAt.drop placed _).abort _
  | shifts =>
    refine PlacedAt.fewer placed fun sid absent => ?_
    rw [get_mapValues, absent]
    rfl
  | _ => exact placed

end Place

theorem Link.Acts.placed {l l' : Link} (acts : Acts l l') (placed : l.place.Placed) :
    l'.place.Placed := by
  cases acts with
  | expires sid _ taken =>
    obtain ⟨_, _, same⟩ := l.place_expires sid taken
    rw [same]
    exact PlacedAt.drop placed sid
  | aborts sid => exact PlacedAt.abort placed sid
  | leaves _ _ found => exact (PlacedAt.leave placed found).1
  | responds _ task found running _ _ _ _ shape =>
    obtain ⟨left, others, _⟩ := PlacedAt.leave placed found
    have member : task ∈ l.core.inflight := mem_of_getElem? found
    have received := (placed.of_running (placed.tracked member running)).2.1
    cases shape with
    | headersOnly => exact left
    | register =>
      exact left.answer _ (placed.handled member) received others
  | sends _ _ _ found | ends _ _ found | pulls _ _ found | keeps _ _ found
  | delivers _ _ _ _ found | finishes _ _ _ found
  | fails _ _ _ found | condemns _ _ _ found | credits _ _ _ found =>
    exact PlacedAt.update placed found _
  | retires sid | cancels sid => exact PlacedAt.cancel placed sid
  | overflows sid =>
    rw [l.place_overflows sid]
    exact (PlacedAt.drop placed sid).abort sid
  | _ => exact placed

/-! ## Dispatched once -/

namespace Place

variable {f : Frame} {p p' : Place}

def Served (p : Place) : Prop :=
  (p.dispatched.map Prod.fst).Nodup ∧
    ∀ sid ∈ p.dispatched.map Prod.fst, sid ≤ p.last ∧ p.receiving.get sid = none

theorem Served.drop (served : p.Served) (sid : StreamId) : (p.drop sid).Served := by
  refine ⟨served.1, fun other member => ⟨(served.2 other member).1, ?_⟩⟩
  rw [Place.drop, get_del, (served.2 other member).2, ite_self]

theorem Served.receive (served : p.Served) {last : StreamId} (refused : Bool)
    (raised : p.last ≤ last)
    (new : sid ∉ p.dispatched.map Prod.fst) :
    Served { p with receiving := p.receiving.put sid refused, last := last } := by
  refine ⟨served.1, fun other member => ⟨(served.2 other member).1.trans raised, ?_⟩⟩
  rw [get_put_of_ne _ (ne_of_mem_of_not_mem member new), (served.2 other member).2]

theorem Trip.served (trip : Trip f p p') (placed : p.Placed) (served : p.Served) : p'.Served := by
  have unserved {refused} (found : p.receiving.get f.streamId = some refused) :
      f.streamId ∉ p.dispatched.map Prod.fst := by
    intro member
    cases (served.2 _ member).2.symm.trans found
  cases trip with
  | opens refused _ _ above =>
    exact served.receive refused above.le fun member => Nat.not_le.mpr above (served.2 _ member).1
  | passes _ _ above =>
    exact served.imp_right fun gone sid member => (gone sid member).imp_left above.le.trans'
  | keeps refused found => exact served.receive refused le_rfl (unserved found)
  | drops | rejects | answers | resets | aborts | resetsRunning | abortsRunning =>
    exact served.drop _
  | dispatches _ _ found =>
    refine ⟨?_, fun sid member => ?_⟩
    · rw [map_append]
      exact nodup_append_comm.mp (nodup_cons.mpr ⟨unserved found, served.1⟩)
    · rw [map_append] at member
      rcases mem_append.mp member with before | now
      · exact (served.drop f.streamId).2 sid before
      · rw [mem_singleton.mp now]
        exact ⟨placed.received found, get_del_self ..⟩
  | _ => exact served

end Place

theorem Link.Acts.served {l l' : Link} (acts : Acts l l') (served : l.place.Served) :
    l'.place.Served := by
  cases acts with
  | expires sid _ taken =>
    obtain ⟨_, _, same⟩ := l.place_expires sid taken
    exact same ▸ served.drop sid
  | overflows sid => exact l.place_overflows sid ▸ served.drop sid
  | responds _ _ _ _ _ _ _ _ shape => cases shape <;> exact served
  | _ => exact served

namespace Conn

theorem run_placed (config : Config) (events : List Event) (visits : Nat) :
    ((visited config events visits).link (notes config events)).place.Placed ∧
    ((visited config events visits).link (notes config events)).place.Served :=
  place_invariant (fun p => p.Placed ∧ p.Served) (fun _ _ => True) (fun _ _ => trivial)
    ⟨PlacedAt.fresh, .nil, fun _ member => absurd member not_mem_nil⟩
    (fun holds _ trip => ⟨trip.placed holds.1, trip.served holds.1 holds.2⟩)
    (fun holds acts => ⟨acts.placed holds.1, acts.served holds.2⟩) events
      (Obeys.always events) visits

/-- In every state a run visits, a stream is received, handled or answered, never two of these nor
handled twice, and the client has opened it. -/
theorem run_one_place (config : Config) (events : List Event) (visits : Nat) :
    let c := visited config events visits
    (∀ sid st, c.session.streams.get sid = some st → sid ≤ c.session.recv.lastClientStream ∧
      c.outstreams.get sid = none ∧ ∀ task ∈ c.session.inflight, task.sid ≠ sid) ∧
    (∀ task ∈ c.session.inflight,
      task.sid ≤ c.session.recv.lastClientStream ∧ c.outstreams.get task.sid = none) ∧
    (∀ sid st, c.outstreams.get sid = some st → sid ≤ c.session.recv.lastClientStream) ∧
    c.session.inflight.Pairwise fun first second => first.sid ≠ second.sid := by
  obtain ⟨placed, -⟩ := run_placed config events visits
  refine ⟨fun sid st found => ?_, fun _ member => ⟨placed.handled member, placed.pending member⟩,
    fun _ _ found => placed.answered found, placed.distinct⟩
  have received := (get_mapValues _ StreamState.refused sid).trans (congrArg _ found)
  exact ⟨placed.received received, placed.unanswered received, placed.unhandled received⟩

/-- In every state a run visits, no request was handed to the service twice, and none that was is
received any more. -/
theorem run_dispatches_once (config : Config) (events : List Event) (visits : Nat) :
    let c := visited config events visits
    (c.session.dispatched.map Prod.fst).Nodup ∧
      ∀ request ∈ c.session.dispatched, c.session.streams.get request.1 = none := by
  obtain ⟨-, nodup, gone⟩ := run_placed config events visits
  refine ⟨nodup, fun request member => ?_⟩
  have absent := (gone _ (mem_map_of_mem member)).2
  exact Option.map_eq_none_iff.mp ((get_mapValues ..).symm.trans absent)

end Conn

end HttpJet.H2
