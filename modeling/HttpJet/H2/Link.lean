import HttpJet.H2.Refinement
import HttpJet.H2.Serve

/-!
# The connection machine

A link is the core of a session with its send side: the responses being written, the body pulls
and the windows.  It notes what the send side answers to: credit, and the bodies of responses.

`Feeds` is what the loop does with a frame up to the grant of credit; `Acts` lists everything
else, down to the single DATA frame.
-/

namespace HttpJet.H2

open Hpack Hpack.Integer Hpack.StaticTable Library List

/-- Segments that neither close the connection nor return credit. -/
def Seg.Plain : Seg → Prop
  | .fields .. | .data .. | .body .. | .rstStream .. => True
  | _ => False

def Seg.IsGoaway : Seg → Prop
  | .goaway .. => True
  | _ => False

namespace Core

variable {k k' k0 : Core} {outcome : FrameOutcome} {sid : StreamId} {error : ErrorCode}
  {st : StreamState} {f : Frame} {block data : Octets} {active : Nat} {accepting : Bool}

/-- Body-deadline teardown; an open trailer block goes on in discard mode. -/
def expire (k : Core) (sid : StreamId) : Core :=
  if k.streams.contains sid ∧ k.openHeaderBlock = some sid ∧ k.discarding = false then
    { k with discardBlock := (k.held sid).headerBlock, discarding := true }.drop sid
  else k.drop sid

/-- What the loop does to the core besides handling frames. -/
inductive Moves (k : Core) : Core → Prop
  | writes (segs : List Seg) (plain : ∀ seg ∈ segs, seg.Plain) (inflight : List Task)
      (cancelled inflightSids : List StreamId) :
      Moves k { k with
        out := k.out ++ segs
        inflight := inflight
        cancelled := cancelled
        inflightSids := inflightSids }
  | goaway (error : ErrorCode) : Moves k (k.goaway error)
  | drops (sid : StreamId) (closed : k.openHeaderBlock = none) : Moves k (k.drop sid)
  | expires (sid : StreamId) : Moves k (k.expire sid)

/-- A sequence of moves. -/
abbrev MovesTo : Core → Core → Prop := Relation.ReflTransGen Moves

theorem MovesTo.write (segs : List Seg) (plain : ∀ seg ∈ segs, seg.Plain) :
    MovesTo k { k with out := k.out ++ segs } :=
  .single (.writes segs plain k.inflight k.cancelled k.inflightSids)

theorem MovesTo.flight (inflight : List Task) (cancelled inflightSids : List StreamId) :
    MovesTo k { k with
      inflight := inflight, cancelled := cancelled, inflightSids := inflightSids } := by
  have moves := Moves.writes (k := k) [] (fun seg member => nomatch member) inflight
    cancelled inflightSids
  rw [append_nil] at moves
  exact .single moves

/-! ## The output only grows -/

theorem Moves.out (moves : Moves k k') : k.out <+: k'.out := by
  cases moves with
  | writes | goaway => exact prefix_append ..
  | drops => exact prefix_rfl
  | expires =>
    rw [expire]
    split_ifs
    · exact prefix_rfl
    · exact prefix_rfl

theorem MovesTo.out (moves : MovesTo k k') : k.out <+: k'.out := by
  induction moves with
  | refl => exact prefix_rfl
  | tail _ last ih => exact ih.trans last.out

/-- The output grows, and a frame that stops the reading leaves a GOAWAY. -/
def Grows (k k' : Core) (outcome : FrameOutcome) : Prop :=
  k.out <+: k'.out ∧ (outcome = .stopReading → ∃ seg ∈ k'.out, seg.IsGoaway)

theorem Grows.goaway (grown : k.out <+: k'.out) (error : ErrorCode) (outcome : FrameOutcome) :
    Grows k (k'.goaway error) outcome :=
  ⟨grown.trans (prefix_append ..), fun _ =>
    ⟨.goaway k'.goawayId error, mem_append_right _ (mem_singleton_self _), trivial⟩⟩

theorem Grows.plain (grown : k.out <+: k'.out) (goes : outcome ≠ .stopReading) :
    Grows k k' outcome := ⟨grown, fun stops => absurd stops goes⟩

/-! ## The limits of the connection are constant -/

def SameLimits (k k' : Core) : Prop :=
  k'.maxConcurrent = k.maxConcurrent ∧ k'.ourInitialWindow = k.ourInitialWindow ∧
    k'.bodyBudget = k.bodyBudget

theorem SameLimits.trans {k'' : Core} (first : SameLimits k k') (second : SameLimits k' k'') :
    SameLimits k k'' :=
  ⟨second.1.trans first.1, second.2.1.trans first.2.1, second.2.2.trans first.2.2⟩

/-- The limits and what the peer asked for stay. -/
def Steady (k k' : Core) : Prop := SameLimits k k' ∧ k'.peer = k.peer

theorem Moves.steady (moves : Moves k k') : Steady k k' := by
  cases moves with
  | expires =>
    rw [expire]
    split_ifs <;> exact ⟨⟨rfl, rfl, rfl⟩, rfl⟩
  | _ => exact ⟨⟨rfl, rfl, rfl⟩, rfl⟩

theorem MovesTo.peer (moves : MovesTo k k') : k'.peer = k.peer := by
  induction moves with
  | refl => rfl
  | tail _ last ih => exact last.steady.2.trans ih

/-! ## What the parts of frame processing have in common -/

/-- Outcomes that ask at most for the end of the frame's own stream. -/
def Local (sid : StreamId) : FrameOutcome → Prop
  | .proceed | .stopReading => True
  | .resetStream other => other = sid
  | _ => False

/-- The output grows, the settings stay, and the outcome is about the frame's own stream. -/
def Effect (sid : StreamId) (k k' : Core) (outcome : FrameOutcome) : Prop :=
  Grows k k' outcome ∧ Steady k k' ∧ Local sid outcome

theorem Effect.after (effect : Effect sid k k' outcome) (out : k0.out <+: k.out)
    (steady : Steady k0 k) : Effect sid k0 k' outcome :=
  ⟨⟨out.trans effect.1.1, effect.1.2⟩,
    ⟨steady.1.trans effect.2.1.1, effect.2.1.2.trans steady.2⟩, effect.2.2⟩

theorem Effect.goes (out : k.out <+: k'.out) (steady : Steady k k')
    (goes : outcome ≠ .stopReading) (isLocal : Local sid outcome) : Effect sid k k' outcome :=
  ⟨.plain out goes, steady, isLocal⟩

theorem Effect.goaway (out : k.out <+: k'.out) (steady : Steady k k') (error : ErrorCode) :
    Effect sid k (k'.goaway error) .stopReading :=
  ⟨.goaway out error _, steady, trivial⟩

theorem Resets.effect (resets : Resets sid error k k' outcome) : Effect sid k k' outcome := by
  have written : k.out <+: (k.reset sid error).out := prefix_append ..
  cases resets with
  | counted => exact .goes written ⟨⟨rfl, rfl, rfl⟩, rfl⟩ nofun rfl
  | exhausted => exact .goaway written ⟨⟨rfl, rfl, rfl⟩, rfl⟩ _

theorem Completes.effect (completes : Completes sid k k' outcome) : Effect sid k k' outcome := by
  cases completes with
  | dispatched =>
    exact .goes prefix_rfl ⟨⟨rfl, rfl, rfl⟩, rfl⟩ nofun trivial
  | refuted resets => exact (resets.effect :)

theorem Settles.effect (settles : Settles sid st k k' outcome) : Effect sid k k' outcome := by
  have more (segs : List Seg) : k.out <+: k.out ++ segs := prefix_append ..
  cases settles with
  | garbled => exact .goaway prefix_rfl ⟨⟨rfl, rfl, rfl⟩, rfl⟩ _
  | refused _ resets | malformed resets => exact (resets.effect :)
  | rejected _ _ resets => exact resets.effect.after (more _) ⟨⟨rfl, rfl, rfl⟩, rfl⟩
  | answered =>
    exact .goes (more _) ⟨⟨rfl, rfl, rfl⟩, rfl⟩ nofun rfl
  | completed _ completes => exact completes.effect
  | unaffordable resets => exact resets.effect
  | admitted =>
    exact .goes (more _) ⟨⟨rfl, rfl, rfl⟩, rfl⟩ nofun trivial

theorem Discards.effect (discards : Discards f block k k' outcome) :
    Effect f.streamId k k' outcome := by
  cases discards with
  | finished _ _ resets => exact (resets.effect :)
  | garbled => exact .goaway prefix_rfl ⟨⟨rfl, rfl, rfl⟩, rfl⟩ _
  | continues =>
    exact .goes prefix_rfl ⟨⟨rfl, rfl, rfl⟩, rfl⟩ nofun trivial

theorem replenish_effect (k : Core) : k.out <+: k.replenish.out ∧ Steady k k.replenish := by
  rw [replenish]
  split_ifs
  · exact ⟨prefix_append .., ⟨rfl, rfl, rfl⟩, rfl⟩
  · exact ⟨prefix_rfl, ⟨rfl, rfl, rfl⟩, rfl⟩

theorem buffer_effect (k : Core) (sid : StreamId) (st : StreamState) (data : Octets)
    (lease : Option Nat)
    (ended : Bool) : k.out <+: (k.buffer sid st data lease ended).out ∧
      Steady k (k.buffer sid st data lease ended) := by
  rw [buffer]
  split_ifs
  · exact ⟨prefix_append .., ⟨rfl, rfl, rfl⟩, rfl⟩
  · exact ⟨prefix_rfl, ⟨rfl, rfl, rfl⟩, rfl⟩

theorem Receives.effect (receives : Receives f data st k k' outcome) :
    Effect f.streamId k k' outcome := by
  have more (segs : List Seg) : k.out <+: k.out ++ segs := prefix_append ..
  cases receives with
  | overrun resets => exact (resets.effect :)
  | refuted _ resets => exact resets.effect
  | rejected _ resets => exact resets.effect.after (more _) ⟨⟨rfl, rfl, rfl⟩, rfl⟩
  | answered =>
    exact .goes (more _) ⟨⟨rfl, rfl, rfl⟩, rfl⟩ nofun rfl
  | exhausted => exact .goaway prefix_rfl ⟨⟨rfl, rfl, rfl⟩, rfl⟩ _
  | buffered =>
    obtain ⟨out, steady⟩ := k.buffer_effect ..
    exact .goes out steady nofun trivial
  | completed _ _ completes =>
    obtain ⟨out, steady⟩ := k.buffer_effect ..
    exact completes.effect.after out steady

/-- What a frame does to the output, the limits and the peer's settings. -/
theorem Handles.bounds (handles : Handles active accepting f k k' outcome) :
    Grows k k' outcome ∧ SameLimits k k' ∧ (f.kind ≠ Kind.settings → k'.peer = k.peer) := by
  have more (segs : List Seg) : k.out <+: k.out ++ segs := prefix_append ..
  have advanced : k.out <+: (k.advance f.streamId).out := prefix_rfl
  obtain ⟨out, steady⟩ := (k.spend f.length).replenish_effect
  have own {k' : Core} {outcome : FrameOutcome} (effect : Effect f.streamId k k' outcome) :
      Grows k k' outcome ∧ SameLimits k k' ∧ (f.kind ≠ Kind.settings → k'.peer = k.peer) :=
    ⟨effect.1, effect.2.1.1, fun _ => effect.2.1.2⟩
  cases handles with
  | noted => exact ⟨.plain (more _) nofun, ⟨rfl, rfl, rfl⟩, fun _ => rfl⟩
  | peerGoaway | credit | peerReset | headersOpen
  | continuationOpen =>
    exact ⟨.plain prefix_rfl nofun, ⟨rfl, rfl, rfl⟩, fun _ => rfl⟩
  | settings _ _ _ _ change kind =>
    refine ⟨.plain (more _) ?_, ⟨rfl, rfl, rfl⟩, fun other => absurd kind other⟩
    rw [change]
    split_ifs <;> exact nofun
  | settingsBroken _ _ _ kind =>
    exact ⟨.goaway prefix_rfl .., ⟨rfl, rfl, rfl⟩, fun other => absurd kind other⟩
  | resets _ _ _ resets => exact own resets.effect
  | headersOnClosed _ _ _ _ _ _ discards
  | headersMalformed _ _ _ _ _ discards => exact own discards.effect
  | headersEnd _ _ _ _ _ _ _ _ _ settles
  | continuationEnd _ _ _ _ _ _ _ _ settles =>
    exact own settles.effect
  | headersBroken => exact ⟨.goaway advanced .., ⟨rfl, rfl, rfl⟩, fun _ => rfl⟩
  | headersTooLong =>
    exact ⟨(Grows.goaway advanced .compressionError .stopReading :), ⟨rfl, rfl, rfl⟩, fun _ => rfl⟩
  | continueDiscard _ _ _ discards =>
    refine own (discards.effect.after ?_ ?_)
    · split_ifs <;> exact prefix_rfl
    · split_ifs <;> exact ⟨⟨rfl, rfl, rfl⟩, rfl⟩
  | dataIgnored => exact ⟨.plain out nofun, steady.1, fun _ => steady.2⟩
  | dataIdle => exact ⟨.goaway out .., steady.1, fun _ => steady.2⟩
  | dataOnClosed _ _ _ _ _ resets =>
    exact own (resets.effect.after out steady)
  | data _ _ _ _ _ _ _ receives =>
    exact own (receives.effect.after out steady)
  | _ => exact ⟨.goaway prefix_rfl .., ⟨rfl, rfl, rfl⟩, fun _ => rfl⟩

/-! ## What an outcome tells -/

/-- The outcomes that reach beyond the frame's stream, and the core they come with. -/
inductive Tells (f : Frame) (k k' : Core) : FrameOutcome → Prop
  | own {outcome : FrameOutcome} (isLocal : Local f.streamId outcome) : Tells f k k' outcome
  | peerGoaway (same : k' = k) : Tells f k k' .peerGoaway
  | credit (increment : Nat) (same : k' = k) (control : Control f k) (positive : increment ≠ 0)
      (opened : f.streamId ≠ 0 → k.Opened f.streamId) (kind : f.kind = Kind.windowUpdate) :
      Tells f k k' (.windowUpdate f.streamId increment)
  | shift (peer : PeerSettings) (legal : Legal k.peer → Legal peer)
      (same : k' = { k with peer := peer, out := k.out ++ [.settingsAck] }) :
      Tells f k k' (.initialWindowDelta (peer.initialWindow - k.peer.initialWindow))

theorem Handles.tells (handles : Handles active accepting f k k' outcome) :
    Tells f k k' outcome := by
  cases handles with
  | peerGoaway => exact .peerGoaway rfl
  | settings _ peer _ legal change =>
    rw [change]
    split_ifs
    · exact .shift peer legal rfl
    · exact .own trivial
  | credit control increment positive opened kind =>
    exact .credit increment rfl control positive opened kind
  | resets _ _ _ resets | dataOnClosed _ _ _ _ _ resets =>
    exact .own resets.effect.2.2
  | headersOnClosed _ _ _ _ _ _ discards
  | headersMalformed _ _ _ _ _ discards
  | continueDiscard _ _ _ discards => exact .own discards.effect.2.2
  | headersEnd _ _ _ _ _ _ _ _ _ settles
  | continuationEnd _ _ _ _ _ _ _ _ settles =>
    exact .own settles.effect.2.2
  | data _ _ _ _ _ _ _ receives => exact .own receives.effect.2.2
  | peerReset => exact .own rfl
  | _ => exact .own trivial

end Core

/-! ## The send side -/

open Hpack Hpack.Integer Library
open HttpJet.H2.Core (Moves MovesTo)

/-- What came in that the send side answers to. -/
inductive Note where
  | connCredit (increment : Nat)
  /-- Credit recorded for a stream, before or after its response began. -/
  | credit (sid : StreamId) (increment : Nat)
  /-- Credit for a stream that is not recorded. -/
  | unrecorded (sid : StreamId) (increment : Nat)
  /-- A rejected SETTINGS frame that had moved the initial window by then. -/
  | rejected (delta : Int)
  /-- A response, and the window it is offered before the clamp. -/
  | begins (sid : StreamId) (isHead : Bool) (response : Response) (offered : Int)
  | chunk (sid : StreamId) (data : Octets)
  | finished (sid : StreamId)

structure Link where
  core : Core
  outstreams : HashMap StreamId OutStream
  pulls : List StreamId
  sendConn : Int
  pendingWindow : HashMap StreamId Int
  reading : Bool
  accepting : Bool
  notes : List Note

/-- END_STREAM goes on the header block of a response without a body. -/
def Opening.ended : Opening → Bool
  | .headersOnly => true
  | .register .. => false

variable (l : Link) (sid : StreamId)

namespace Link

/-! ## Actions -/

def write (l : Link) (segs : List Seg) : Link :=
  { l with core := { l.core with out := l.core.out ++ segs } }

def stop (l : Link) : Link := { l with reading := false, accepting := false }

def note (l : Link) (n : Note) : Link := { l with notes := l.notes ++ [n] }

def put (l : Link) (sid : StreamId) (st : OutStream) : Link :=
  { l with outstreams := l.outstreams.put sid st }

def cancel (l : Link) (sid : StreamId) : Link := { l with outstreams := l.outstreams.del sid }

def take (l : Link) (sid : StreamId) : Link := { l with pendingWindow := l.pendingWindow.del sid }

/-- Credit that waits for the response of a stream. -/
def parked (l : Link) (sid : StreamId) : Int := (l.pendingWindow.get sid).getD 0

/-- A request that is being received or handled. -/
def Awaiting (l : Link) (sid : StreamId) : Prop :=
  l.core.streams.contains sid = true ∨ sid ∈ l.core.inflightSids

/-- A handler leaves the flight. -/
def leave (l : Link) (position : Nat) (task : Task) : Link :=
  { l with core := { l.core with
      inflight := l.core.inflight.eraseIdx position
      inflightSids := l.core.inflightSids.erase task.sid
      cancelled := l.core.cancelled.erase task.sid } }

/-- The window a response is offered: the peer's initial window and the early credit. -/
def offered (l : Link) (sid : StreamId) : Int := l.core.peer.initialWindow + l.parked sid

/-- The head of a response goes out, and its body is registered. -/
def respond (l : Link) (sid : StreamId) (heads : List Seg) (isHead : Bool) (response : Response)
    (shape : Opening) : Link :=
  let begun := ((l.write heads).take sid).note (.begins sid isHead response (l.offered sid))
  match shape with
  | .headersOnly => begun
  | .register pending source =>
    begun.put sid
      { pending := pending, body := source, pulling := false, eof := !source, done := false,
        window := min (l.offered sid) maxWindow }

/-- The body deadline of a receiving stream; in an open trailer block the reset waits for its
end. -/
def expire (l : Link) (sid : StreamId) : Link :=
  if l.core.openHeaderBlock = some sid ∧ l.core.discarding = false then
    { l with core := l.core.expire sid }
  else { l with core := (l.core.expire sid).push (.rstStream sid .cancel) }

/-- The note of a SETTINGS frame that is rejected half-way. -/
def rejection (k k' : Core) (outcome : FrameOutcome) : List Note :=
  if outcome = .stopReading ∧ k'.peer.initialWindow ≠ k.peer.initialWindow then
    [.rejected (k'.peer.initialWindow - k.peer.initialWindow)]
  else []

/-- What an outcome does to the send side; credit is granted by later actions. -/
def settle (l : Link) : FrameOutcome → Link
  | .proceed | .windowUpdate .. => l
  | .stopReading => l.stop
  | .peerGoaway => { l with accepting := false }
  | .resetStream sid => (l.cancel sid).take sid
  | .initialWindowDelta delta =>
    { l with
      outstreams := l.outstreams.mapValues fun st => { st with window := st.window + delta } }

/-- A frame goes through frame processing and its outcome takes effect. -/
inductive Feeds (f : Frame) (l : Link) : Link → Prop
  | handled {k : Core} {outcome : FrameOutcome} (reads : l.reading = true)
      (handles : Core.Handles l.outstreams.size l.accepting f l.core k outcome) :
      Feeds f l
        ({ l with core := k, notes := l.notes ++ rejection l.core k outcome }.settle outcome)

/-- What the loop does besides feeding frames. -/
inductive Acts (l : Link) : Link → Prop
  | stops : Acts l l.stop
  /-- A GOAWAY ends the accepting of streams, if not the reading. -/
  | closes (error : ErrorCode) (reads : Bool) (down : reads = true → l.reading = true) :
      Acts l { l with core := l.core.goaway error, reading := reads, accepting := false }
  | expires (sid : StreamId) (known : l.core.streams.contains sid = true) (taken : Bool) :
      Acts l
        { l.expire sid with
          pendingWindow := if taken then l.pendingWindow.del sid else l.pendingWindow }
  | aborts (sid : StreamId) (running : sid ∈ l.core.inflightSids) :
      Acts l { l with core := (l.core.abort sid).push (.rstStream sid .cancel) }
  | clears (gone : ∀ sid, ¬l.Awaiting sid) : Acts l { l with pendingWindow := ∅ }
  | leaves (position : Nat) (task : Task) (found : l.core.inflight[position]? = some task)
      (unwanted : task.aborted = true ∨ task.sid ∈ l.core.cancelled) : Acts l
        (l.leave position task)
  | responds (position : Nat) (task : Task) (found : l.core.inflight[position]? = some task)
      (running : task.aborted = false) (wanted : task.sid ∉ l.core.cancelled)
      (hints : List Seg)
      (interim : ∀ seg ∈ hints, ∃ first rest, seg = .fields task.sid true false first rest)
      (response : Response) (shape : Opening) (opens : opening task.isHead response = shape)
      (first : Octets) (rest : List Octets) :
      Acts l ((l.leave position task).respond task.sid
        (hints ++ [.fields task.sid false shape.ended first rest]) task.isHead response shape)
  /-- A DATA frame with a payload. -/
  | sends (sid : StreamId) (st : OutStream) (n : Nat) (found : l.outstreams.get sid = some st)
      (live : st.done = false) (positive : 0 < n) (held : n ≤ st.pending.length)
      (conn : n ≤ l.sendConn) (window : n ≤ st.window)
      (frame : n ≤ max l.core.peer.maxFrameSize 1) :
      Acts l
        ({ l.write [.data sid n (st.eof && (st.pending.drop n).isEmpty),
            .body (st.pending.take n)] with sendConn := l.sendConn - n }.put sid
          { st with
            pending := st.pending.drop n
            window := st.window - n
            done := st.done || (st.eof && (st.pending.drop n).isEmpty) })
  /-- The empty DATA frame that ends a body whose last byte is out. -/
  | ends (sid : StreamId) (st : OutStream) (found : l.outstreams.get sid = some st)
      (live : st.done = false) (empty : st.pending = []) (eof : st.eof = true) :
      Acts l ((l.write [.data sid 0 true]).put sid { st with done := true })
  | pulls (sid : StreamId) (st : OutStream) (found : l.outstreams.get sid = some st)
      (live : st.done = false) (empty : st.pending = []) (more : st.eof = false)
      (idle : st.pulling = false) (source : st.body = true) :
      Acts l
        ({ l with pulls := l.pulls ++ [sid] }.put sid { st with body := false, pulling := true })
  | keeps (sid : StreamId) (st : OutStream) (found : l.outstreams.get sid = some st) :
      Acts l (l.put sid st)
  | retires (sid : StreamId) (st : OutStream) (found : l.outstreams.get sid = some st)
      (done : st.done = true) : Acts l (l.cancel sid)
  /-- A pull comes back to a stream that is gone. -/
  | loses (sid : StreamId) (absent : l.outstreams.get sid = none) :
      Acts l { l with pulls := l.pulls.erase sid }
  | delivers (sid : StreamId) (st : OutStream) (data : Octets) (waiting : sid ∈ l.pulls)
      (found : l.outstreams.get sid = some st) :
      Acts l (({ l with pulls := l.pulls.erase sid }.put sid
        { st with pulling := false, body := true, pending := st.pending ++ data }).note
          (.chunk sid data))
  | finishes (sid : StreamId) (st : OutStream) (waiting : sid ∈ l.pulls)
      (found : l.outstreams.get sid = some st) :
      Acts l (({ l with pulls := l.pulls.erase sid }.put sid
        { st with pulling := false, eof := true }).note (.finished sid))
  | fails (sid : StreamId) (st : OutStream) (waiting : sid ∈ l.pulls)
      (found : l.outstreams.get sid = some st) :
      Acts l ({ l with pulls := l.pulls.erase sid }.put sid { st with pulling := false })
  /-- A response that cannot go on is reset and left for the next visit to retire. -/
  | condemns (sid : StreamId) (st : OutStream) (error : ErrorCode)
      (found : l.outstreams.get sid = some st) :
      Acts l ((l.write [.rstStream sid error]).put sid { st with done := true })
  | cancels (sid : StreamId) (known : l.outstreams.contains sid = true) :
      Acts l ((l.write [.rstStream sid .cancel]).cancel sid)
  | creditsConn (increment : Nat) :
      Acts l ({ l with sendConn := l.sendConn + increment }.note (.connCredit increment))
  | credits (sid : StreamId) (st : OutStream) (increment : Nat)
      (found : l.outstreams.get sid = some st) :
      Acts l ((l.put sid { st with window := st.window + increment }).note (.credit sid increment))
  | parks (sid : StreamId) (increment : Nat) (absent : l.outstreams.get sid = none)
      (awaiting : l.Awaiting sid) :
      Acts l ({ l with pendingWindow := l.pendingWindow.put sid (l.parked sid + increment) }.note
        (.credit sid increment))
  | ignores (sid : StreamId) (increment : Nat) : Acts l (l.note (.unrecorded sid increment))
  /-- Early credit that overflows the window resets the stream. -/
  | overflows (sid : StreamId) (absent : l.outstreams.get sid = none) (awaiting : l.Awaiting sid)
      (closed : l.core.openHeaderBlock = none) :
      Acts l ({ l with core := l.core.reset sid .flowControlError }.take sid)

/-- A sequence of actions. -/
abbrev ActsTo : Link → Link → Prop := Relation.ReflTransGen Acts

/-! ## Actions on the core -/

@[simp] theorem settle_core (l : Link) (outcome : FrameOutcome) :
    (l.settle outcome).core = l.core := by
  cases outcome <;> rfl

theorem forall_heads {p : Seg → Prop} {hints : List Seg} {sid : StreamId} {ended : Bool}
    {first : Octets}
    {rest : List Octets}
    (interim : ∀ seg ∈ hints, ∃ first rest, seg = .fields sid true false first rest)
    (hint : ∀ first rest, p (.fields sid true false first rest))
    (head : p (.fields sid false ended first rest)) :
    ∀ seg ∈ hints ++ [.fields sid false ended first rest], p seg := by
  refine List.forall_mem_append.mpr ⟨fun seg member => ?_, List.forall_mem_singleton.mpr head⟩
  obtain ⟨first, rest, rfl⟩ := interim seg member
  exact hint first rest

theorem Acts.moves {l l' : Link} (acts : Acts l l') : MovesTo l.core l'.core := by
  have rst (k : Core) (sid : StreamId) (error : ErrorCode) :
      MovesTo k { k with out := k.out ++ [.rstStream sid error] } :=
    .write _ fun _ member => List.mem_singleton.mp member ▸ trivial
  cases acts with
  | closes error => exact .single (.goaway error)
  | expires sid =>
    have expired : MovesTo l.core (l.core.expire sid) := .single (.expires sid)
    change MovesTo l.core (l.expire sid).core
    rw [expire]
    split_ifs
    · exact expired
    · exact expired.trans (rst _ sid .cancel)
  | aborts sid =>
    exact (MovesTo.flight _ _ _ : MovesTo l.core (l.core.abort sid)).trans (rst _ sid .cancel)
  | leaves => exact MovesTo.flight ..
  | responds _ _ _ _ _ _ interim _ shape =>
    cases shape <;>
      exact .single (.writes _ (forall_heads interim (fun _ _ => trivial) trivial) _ ..)
  | sends =>
    refine .write _ fun seg member => ?_
    rcases List.mem_cons.mp member with rfl | member
    · trivial
    · rw [List.mem_singleton.mp member]
      trivial
  | ends => exact .write _ fun _ member => List.mem_singleton.mp member ▸ trivial
  | condemns sid _ error => exact rst _ sid error
  | cancels sid => exact rst _ sid .cancel
  | overflows sid _ _ closed =>
    refine (rst l.core sid .flowControlError).trans (.head (.drops sid closed) ?_)
    exact MovesTo.flight ..
  | _ => exact .refl

/-- The loop never takes up reading or accepting again. -/
theorem Acts.flags {l l' : Link} (acts : Acts l l') :
    (l'.reading = true → l.reading = true) ∧ (l'.accepting = true → l.accepting = true) := by
  cases acts with
  | stops => exact ⟨(nomatch ·), (nomatch ·)⟩
  | closes _ _ down => exact ⟨down, (nomatch ·)⟩
  | expires sid =>
    rw [expire]
    split_ifs <;> exact ⟨id, id⟩
  | responds _ _ _ _ _ _ _ _ shape => cases shape <;> exact ⟨id, id⟩
  | _ => exact ⟨id, id⟩

theorem ActsTo.moves {l l' : Link} (acts : ActsTo l l') : MovesTo l.core l'.core := by
  induction acts with
  | refl => exact .refl
  | tail _ last ih => exact ih.trans last.moves

theorem ActsTo.reading {l l' : Link} (acts : ActsTo l l') (reads : l'.reading = true) :
    l.reading = true := by
  induction acts with
  | refl => exact reads
  | tail _ last ih => exact ih (last.flags.1 reads)

end Link

/-- The machine's view of the loop. -/
def Conn.link (c : Conn) (notes : List Note) : Link where
  core := c.session.core
  outstreams := c.outstreams
  pulls := c.pulls
  sendConn := c.sendConn
  pendingWindow := c.pendingWindow
  reading := c.reading
  accepting := c.accepting
  notes := notes

end HttpJet.H2
