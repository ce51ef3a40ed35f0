import HttpJet.H2.Recv

/-!
# The protocol machine behind frame processing

`Core` keeps what decides what the connection owes its peer: the streams and where each of them
is, the decoder, the output, the windows and the counters.  What the encoder, the memo, the
reset history and the rate limits decide is a choice of the machine.

`Handles` lists everything one frame can do to the core; its sub-relations are the ways a stream
can leave.
-/

namespace HttpJet.H2

open Hpack Hpack.Integer Library

structure Core where
  streams : HashMap StreamId StreamState
  dec : Decoder
  out : List Seg
  peer : PeerSettings
  lastClientStream : StreamId
  goawayLast : Option StreamId
  openHeaderBlock : Option StreamId
  discarding : Bool
  discardBlock : Octets
  maxConcurrent : Nat
  connRecvWindow : Int
  ourInitialWindow : Int
  totalBuffered : Nat
  pendingHeaderBytes : Nat
  bodyBudget : Option Nat
  inflight : List Task
  cancelled : List StreamId
  inflightSids : List StreamId
  dispatched : List (StreamId × Request)
  released : List Release

/-- What the machine keeps of a session. -/
def Session.core (s : Session) : Core where
  streams := s.streams
  dec := s.dec
  out := s.out
  peer := s.peer
  lastClientStream := s.recv.lastClientStream
  goawayLast := s.recv.goawayLast
  openHeaderBlock := s.recv.openHeaderBlock
  discarding := s.recv.discardingHeaderBlock
  discardBlock := s.recv.discardHeaderBlock
  maxConcurrent := s.recv.maxConcurrent
  connRecvWindow := s.recv.connRecvWindow
  ourInitialWindow := s.recv.ourInitialWindow
  totalBuffered := s.recv.totalBuffered
  pendingHeaderBytes := s.recv.pendingHeaderBytes
  bodyBudget := s.recv.bodyBudget
  inflight := s.inflight
  cancelled := s.cancelled
  inflightSids := s.inflightSids
  dispatched := s.dispatched
  released := s.released

namespace Core

/-! ## Actions -/

variable (k : Core)

def push (seg : Seg) : Core := { k with out := k.out ++ [seg] }

/-- The last-stream-id a GOAWAY sent now carries. -/
def goawayId : StreamId :=
  match k.goawayLast with
  | none => k.lastClientStream
  | some previous => min previous k.lastClientStream

def goaway (k : Core) (error : ErrorCode) : Core :=
  { k with out := k.out ++ [.goaway k.goawayId error], goawayLast := some k.goawayId }

/-- The receiving stream of an id, or one that holds nothing. -/
def held (sid : StreamId) : StreamState := (k.streams.get sid).getD {}

/-- Take a receiving stream and what it is charged for off the books. -/
def drop (sid : StreamId) : Core :=
  { k with
    streams := k.streams.del sid
    totalBuffered := k.totalBuffered - (k.held sid).body.length
    pendingHeaderBytes := k.pendingHeaderBytes - (k.held sid).headerCharge
    released := k.released ++
      (k.streams.get sid).toList.map (Release.mk k.totalBuffered k.pendingHeaderBytes) }

/-- Abort the handler of a stream, if one is running. -/
def abort (sid : StreamId) : Core :=
  { k with
    inflightSids := k.inflightSids.erase sid
    inflight :=
      if k.inflightSids.contains sid then
        k.inflight.map fun task => if task.sid = sid then { task with aborted := true } else task
      else k.inflight
    cancelled :=
      if k.inflightSids.contains sid ∧ k.cancelled.length < k.maxConcurrent * 2 then
        k.cancelled.insert sid
      else k.cancelled }

/-- Write RST_STREAM and end the stream wherever it is. -/
def reset (sid : StreamId) (error : ErrorCode) : Core :=
  ((k.push (.rstStream sid error)).drop sid).abort sid

/-- Hand a complete request to the service. -/
def dispatch (sid : StreamId) (isHead : Bool) (request : Request) : Core :=
  { k.drop sid with
    inflight := k.inflight ++ [⟨sid, isHead, false⟩]
    inflightSids := k.inflightSids.insert sid
    dispatched := k.dispatched ++ [(sid, request)] }

/-- Move the last stream id up to a stream that a HEADERS frame opens. -/
def advance (sid : StreamId) : Core :=
  { k with lastClientStream := if k.streams.contains sid then k.lastClientStream else sid }

/-- Decode a complete block for the dynamic table. -/
def decoded (block : Octets) : Core :=
  { k with dec := (k.dec.decodeOctets block).decoder }

/-- The block being discarded is complete. -/
def closeDiscard : Core :=
  { k with openHeaderBlock := none, discarding := false, discardBlock := [] }

def connTarget : Int := max k.ourInitialWindow 65535

/-- Count received octets against the connection window. -/
def spend (n : Nat) : Core := { k with connRecvWindow := k.connRecvWindow - n }

/-- Restore the connection window once half of it is used. -/
def replenish : Core :=
  if k.connRecvWindow ≤ k.connTarget / 2 then
    { k.push (.windowUpdate 0 (k.connTarget - k.connRecvWindow).toNat) with
      connRecvWindow := k.connTarget }
  else k

/-- Buffer request body octets and restore the stream's window once half of it is used. -/
def buffer (sid : StreamId) (st : StreamState) (data : Octets) (lease : Option Nat)
    (ended : Bool) : Core :=
  let st := { st with body := st.body ++ data, bodyLease := lease }
  let k := { k with totalBuffered := k.totalBuffered + data.length }
  if !ended && decide (st.recvWindow ≤ k.ourInitialWindow / 2) then
    { k.push (.windowUpdate sid (k.ourInitialWindow - st.recvWindow).toNat) with
      streams := k.streams.put sid { st with recvWindow := k.ourInitialWindow } }
  else { k with streams := k.streams.put sid st }

/-- What a lease holds after a successful reservation. -/
def leaseAfter (lease : Option Nat) (n : Nat) : Option Nat :=
  match k.bodyBudget with
  | none => lease
  | some _ => some (lease.getD 0 + n)

/-! ## What a frame can do -/

/-- An id that the client has opened. -/
def Opened (sid : StreamId) : Prop := sid % 2 = 1 ∧ sid ≤ k.lastClientStream

/-- A reset, and the GOAWAY when it aborts a handler beyond the reset budget. -/
inductive Resets (sid : StreamId) (error : ErrorCode) (k : Core) : Core → FrameOutcome → Prop
  | counted : Resets sid error k (k.reset sid error) (.resetStream sid)
  | exhausted (running : sid ∈ k.inflightSids) :
      Resets sid error k ((k.reset sid error).goaway .enhanceYourCalm) .stopReading

/-- A stream whose request is complete. -/
inductive Completes (sid : StreamId) (k : Core) : Core → FrameOutcome → Prop
  | dispatched (isHead : Bool) (request : Request) :
      Completes sid k (k.dispatch sid isHead request) .proceed
  | refuted {k' : Core} {outcome : FrameOutcome}
      (resets : Resets sid .protocolError (k.drop sid) k' outcome) : Completes sid k k' outcome

/-- A stream whose header block has just been decoded. -/
inductive Settles (sid : StreamId) (st : StreamState) (k : Core) : Core → FrameOutcome → Prop
  | garbled : Settles sid st k (k.goaway .compressionError) .stopReading
  | refused {k' : Core} {outcome : FrameOutcome} (marked : st.refused = true)
      (resets : Resets sid .refusedStream { k with streams := k.streams.del sid } k' outcome) :
      Settles sid st k k' outcome
  | rejected {k' : Core} {outcome : FrameOutcome} (first : Octets) (rest : List Octets)
      (resets : Resets sid .noError (k.push (.fields sid false true first rest)) k' outcome) :
      Settles sid st k k' outcome
  | answered (first : Octets) (ended : st.endStream = true) :
      Settles sid st k ((k.push (.fields sid false true first [])).drop sid) (.resetStream sid)
  | malformed {k' : Core} {outcome : FrameOutcome}
      (resets : Resets sid .protocolError (k.drop sid) k' outcome) : Settles sid st k k' outcome
  | completed {k' : Core} {outcome : FrameOutcome} (admitted : st.refused = false)
      (completes : Completes sid k k' outcome) : Settles sid st k k' outcome
  | unaffordable {k' : Core} {outcome : FrameOutcome}
      (resets : Resets sid .refusedStream k k' outcome) : Settles sid st k k' outcome
  | admitted (charge : Nat) (interim : List Seg) (done : st.headersDone = true)
      (ongoing : st.endStream = false) (admitted : st.refused = false)
      (announced : ∀ seg ∈ interim, ∃ first, seg = .fields sid true false first []) :
      Settles sid st k
        { k with
          streams := k.streams.put sid
            { st with headerCharge := charge, bodyLease := k.leaseAfter st.bodyLease charge }
          pendingHeaderBytes := k.pendingHeaderBytes + charge
          out := k.out ++ interim } .proceed

/-- A block on a stream that takes no more headers, decoded only for the dynamic table. -/
inductive Discards (f : Frame) (block : Octets) (k : Core) : Core → FrameOutcome → Prop
  | finished {k' : Core} {outcome : FrameOutcome} (error : ErrorCode)
      (ended : f.has Flag.endHeaders = true)
      (resets : Resets f.streamId error (k.decoded block) k' outcome) : Discards f block
        k k' outcome
  | garbled (ended : f.has Flag.endHeaders = true) :
      Discards f block k ((k.decoded block).goaway .compressionError) .stopReading
  | continues (unended : f.has Flag.endHeaders = false) :
      Discards f block k
        { k with
          openHeaderBlock := some f.streamId
          discarding := true
          discardBlock := block } .proceed

/-- The stream a HEADERS frame belongs to: one that ends with it, or a new one. -/
inductive Entry (active : Nat) (accepting : Bool) (f : Frame) (k : Core) : StreamState → Prop
  | trailers {st : StreamState} (found : k.streams.get f.streamId = some st)
      (terminated : st.headersDone = true → f.has Flag.endStream = true) :
      Entry active accepting f k st
  | opened (refused : Bool) (absent : k.streams.get f.streamId = none)
      (odd : f.streamId % 2 = 1) (above : k.lastClientStream < f.streamId)
      (room : refused = false →
        accepting = true ∧ k.streams.size + k.inflight.length + active < k.maxConcurrent) :
      Entry active accepting f k { recvWindow := k.ourInitialWindow, refused := refused }

/-- What decoding a block changes in a stream: the captured request head only. -/
structure Redecoded (st st' : StreamState) : Prop where
  headerBlock : st'.headerBlock = st.headerBlock
  endStream : st'.endStream = st.endStream
  refused : st'.refused = st.refused
  headerCharge : st'.headerCharge = st.headerCharge
  body : st'.body = st.body
  bodyLease : st'.bodyLease = st.bodyLease
  recvWindow : st'.recvWindow = st.recvWindow
  headersDone : st.headersDone = true → st'.headersDone = true

/-- DATA on a receiving stream, already charged to both windows. -/
inductive Receives (f : Frame) (data : Octets) (st : StreamState) (k : Core) :
    Core → FrameOutcome → Prop
  | overrun {k' : Core} {outcome : FrameOutcome}
      (resets : Resets f.streamId .flowControlError (k.drop f.streamId) k' outcome) :
      Receives f data st k k' outcome
  | refuted {k' : Core} {outcome : FrameOutcome} (error : ErrorCode)
      (resets : Resets f.streamId error k k' outcome) : Receives f data st k k' outcome
  | rejected {k' : Core} {outcome : FrameOutcome} (first : Octets)
      (resets : Resets f.streamId .noError (k.push (.fields f.streamId false true first [])) k'
        outcome) : Receives f data st k k' outcome
  | answered (first : Octets) (ended : f.has Flag.endStream = true) :
      Receives f data st k ((k.push (.fields f.streamId false true first [])).drop f.streamId)
        (.resetStream f.streamId)
  | exhausted : Receives f data st k (k.goaway .enhanceYourCalm) .stopReading
  | buffered (within : 0 ≤ st.recvWindow)
      (ongoing : f.has Flag.endStream = true → st.headersDone = false) :
      Receives f data st k
        (k.buffer f.streamId st data (k.leaseAfter st.bodyLease data.length)
          (f.has Flag.endStream)) .proceed
  | completed {k' : Core} {outcome : FrameOutcome} (within : 0 ≤ st.recvWindow)
      (ended : f.has Flag.endStream = true)
      (completes : Completes f.streamId
        (k.buffer f.streamId st data (k.leaseAfter st.bodyLease data.length)
          (f.has Flag.endStream)) k' outcome) : Receives f data st k k' outcome

/-- A frame that carries neither header blocks nor bodies, between header blocks. -/
structure Control (f : Frame) (k : Core) : Prop where
  notHeaders : f.kind ≠ Kind.headers
  notContinuation : f.kind ≠ Kind.continuation
  notData : f.kind ≠ Kind.data
  closed : k.openHeaderBlock = none

/-- Settings within the bounds of RFC 7540 §6.5.2. -/
structure Legal (peer : PeerSettings) : Prop where
  frame : 16384 ≤ peer.maxFrameSize
  nonneg : 0 ≤ peer.initialWindow
  window : peer.initialWindow ≤ 2 ^ 31 - 1

/-- A PRIORITY frame that makes a stream depend on itself. -/
def SelfDependent (f : Frame) : Prop :=
  f.kind = Kind.priority ∧ priorityDependency f false = some f.streamId

/-- Everything that handling one frame can do, with the outcome it is told by. -/
inductive Handles (active : Nat) (accepting : Bool) (f : Frame) (k : Core) :
    Core → FrameOutcome → Prop
  | broken (error : ErrorCode) : Handles active accepting f k (k.goaway error) .stopReading
  | noted (control : Control f k) (answers : List Seg)
      (echo : ∀ seg ∈ answers, seg = .pingAck f.payload) :
      Handles active accepting f k { k with out := k.out ++ answers } .proceed
  | peerGoaway (control : Control f k) : Handles active accepting f k k .peerGoaway
  | settings (control : Control f k) (peer : PeerSettings) (outcome : FrameOutcome)
      (legal : Legal k.peer → Legal peer)
      (change : outcome =
        if peer.initialWindow - k.peer.initialWindow ≠ 0 then
          .initialWindowDelta (peer.initialWindow - k.peer.initialWindow)
        else .proceed)
      (kind : f.kind = Kind.settings) :
      Handles active accepting f k { k with peer := peer, out := k.out ++ [.settingsAck] } outcome
  | settingsBroken (peer : PeerSettings) (error : ErrorCode)
      (legal : Legal k.peer → Legal peer) (kind : f.kind = Kind.settings) :
      Handles active accepting f k ({ k with peer := peer }.goaway error) .stopReading
  | credit (control : Control f k) (increment : Nat) (positive : increment ≠ 0)
      (opened : f.streamId ≠ 0 → k.Opened f.streamId) (kind : f.kind = Kind.windowUpdate) :
      Handles active accepting f k k (.windowUpdate f.streamId increment)
  | resets {k' : Core} {outcome : FrameOutcome} (control : Control f k) (error : ErrorCode)
      (known : k.Opened f.streamId ∨ SelfDependent f)
      (resets : Resets f.streamId error k k' outcome) : Handles active accepting f k k' outcome
  | peerReset (control : Control f k) (opened : k.Opened f.streamId)
      (kind : f.kind = Kind.rstStream) :
      Handles active accepting f k ((k.drop f.streamId).abort f.streamId)
        (.resetStream f.streamId)
  | peerResetExhausted (control : Control f k) (opened : k.Opened f.streamId)
      (running : f.streamId ∈ k.inflightSids) :
      Handles active accepting f k
        (((k.drop f.streamId).abort f.streamId).goaway .enhanceYourCalm) .stopReading
  | headersOnClosed {k' : Core} {outcome : FrameOutcome} (block : Octets)
      (kind : f.kind = Kind.headers) (closed : k.openHeaderBlock = none)
      (stripped : headersBlock f = some block) (absent : k.streams.get f.streamId = none)
      (opened : k.Opened f.streamId) (discards : Discards f block k k' outcome) :
      Handles active accepting f k k' outcome
  | headersBroken (error : ErrorCode)
      (above : k.streams.get f.streamId = none →
        f.streamId % 2 = 1 ∧ k.lastClientStream < f.streamId) :
      Handles active accepting f k ((k.advance f.streamId).goaway error) .stopReading
  | headersMalformed {k' : Core} {outcome : FrameOutcome} (block : Octets)
      (kind : f.kind = Kind.headers) (closed : k.openHeaderBlock = none)
      (stripped : headersBlock f = some block)
      (above : k.streams.get f.streamId = none →
        f.streamId % 2 = 1 ∧ k.lastClientStream < f.streamId)
      (discards : Discards f block ((k.advance f.streamId).drop f.streamId) k' outcome) :
      Handles active accepting f k k' outcome
  | headersTooLong (st : StreamState) (entry : Entry active accepting f k st) :
      Handles active accepting f k
        ({ k.advance f.streamId with streams := k.streams.put f.streamId st }.goaway
          .compressionError) .stopReading
  | headersEnd {k' : Core} {outcome : FrameOutcome} (block : Octets) (st st' : StreamState)
      (kind : f.kind = Kind.headers) (closed : k.openHeaderBlock = none)
      (stripped : headersBlock f = some block) (entry : Entry active accepting f k st)
      (ended : f.has Flag.endHeaders = true)
      (redecoded : Redecoded
        { st with headerBlock := [], endStream := st.endStream || f.has Flag.endStream } st')
      (settles : Settles f.streamId st'
        { (k.advance f.streamId).decoded (st.headerBlock ++ block) with
          streams := k.streams.put f.streamId st'
          openHeaderBlock := none } k' outcome) :
      Handles active accepting f k k' outcome
  | headersOpen (block : Octets) (st : StreamState) (kind : f.kind = Kind.headers)
      (closed : k.openHeaderBlock = none) (stripped : headersBlock f = some block)
      (entry : Entry active accepting f k st) (unended : f.has Flag.endHeaders = false) :
      Handles active accepting f k
        { k.advance f.streamId with
          streams := k.streams.put f.streamId
            { st with
              headerBlock := st.headerBlock ++ block
              endStream := st.endStream || f.has Flag.endStream }
          openHeaderBlock := some f.streamId } .proceed
  | continueDiscard {k' : Core} {outcome : FrameOutcome} (kind : f.kind = Kind.continuation)
      (current : k.openHeaderBlock = some f.streamId) (discarding : k.discarding = true)
      (discards : Discards f (k.discardBlock ++ f.payload)
        (if f.has Flag.endHeaders then k.closeDiscard else k) k' outcome) :
      Handles active accepting f k k' outcome
  | continuationEnd {k' : Core} {outcome : FrameOutcome} (st st' : StreamState)
      (kind : f.kind = Kind.continuation) (current : k.openHeaderBlock = some f.streamId)
      (kept : k.discarding = false) (found : k.streams.get f.streamId = some st)
      (ended : f.has Flag.endHeaders = true)
      (redecoded : Redecoded { st with headerBlock := [] } st')
      (settles : Settles f.streamId st'
        { k.decoded (st.headerBlock ++ f.payload) with
          streams := k.streams.put f.streamId st'
          openHeaderBlock := none } k' outcome) :
      Handles active accepting f k k' outcome
  | continuationOpen (st : StreamState) (kind : f.kind = Kind.continuation)
      (current : k.openHeaderBlock = some f.streamId) (kept : k.discarding = false)
      (found : k.streams.get f.streamId = some st) (unended : f.has Flag.endHeaders = false) :
      Handles active accepting f k
        { k with
          streams := k.streams.put f.streamId
            { st with headerBlock := st.headerBlock ++ f.payload } } .proceed
  | dataOverrun : Handles active accepting f k ((k.spend f.length).goaway .flowControlError)
      .stopReading
  | dataIgnored (kind : f.kind = Kind.data) (closed : k.openHeaderBlock = none)
      (within : 0 ≤ k.connRecvWindow - f.length) (absent : k.streams.get f.streamId = none)
      (opened : k.Opened f.streamId) :
      Handles active accepting f k (k.spend f.length).replenish .proceed
  | dataIdle (error : ErrorCode) :
      Handles active accepting f k ((k.spend f.length).replenish.goaway error) .stopReading
  | dataOnClosed {k' : Core} {outcome : FrameOutcome} (kind : f.kind = Kind.data)
      (closed : k.openHeaderBlock = none) (within : 0 ≤ k.connRecvWindow - f.length)
      (absent : k.streams.get f.streamId = none) (opened : k.Opened f.streamId)
      (resets : Resets f.streamId .streamClosed (k.spend f.length).replenish k' outcome) :
      Handles active accepting f k k' outcome
  | data {k' : Core} {outcome : FrameOutcome} (st : StreamState) (data : Octets)
      (kind : f.kind = Kind.data) (closed : k.openHeaderBlock = none)
      (within : 0 ≤ k.connRecvWindow - f.length) (found : k.streams.get f.streamId = some st)
      (stripped : dataBlock f = some data)
      (receives : Receives f data { st with recvWindow := st.recvWindow - f.length }
        { (k.spend f.length).replenish with
          streams := k.streams.put f.streamId { st with recvWindow := st.recvWindow - f.length } }
        k' outcome) :
      Handles active accepting f k k' outcome

end Core

end HttpJet.H2
