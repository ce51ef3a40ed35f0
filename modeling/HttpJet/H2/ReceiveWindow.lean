import HttpJet.H2.Receiving

/-!
# Receive flow control

The receive windows are what the peer may still send: the initial window, plus the increments
written, minus the DATA octets received, padding included.  Every DATA frame is counted, whatever
becomes of its stream, and both windows are restored before half of them is used.
-/

namespace HttpJet.H2

open Hpack Hpack.Integer Library List
open HashMap

variable {sid : StreamId} {st : StreamState}

/-- The credit a segment gives for a stream, or for the connection under id 0. -/
def Seg.credit (sid : StreamId) : Seg → Nat
  | .windowUpdate other increment => if other = sid then mask31 increment else 0
  | _ => 0

def creditSent (sid : StreamId) (out : List Seg) : Nat := (out.map (Seg.credit sid)).sum

/-- The octets of a DATA frame that count against the windows. -/
def Frame.dataOctets (f : Frame) : Nat := if f.kind = Kind.data then f.length else 0

def dataReceived (frames : List Frame) : Nat := (frames.map Frame.dataOctets).sum

def dataReceivedOn (sid : StreamId) (frames : List Frame) : Nat :=
  (frames.map fun f => if f.streamId = sid then f.dataOctets else 0).sum

theorem creditSent_append (sid : StreamId) (out segs : List Seg) :
    creditSent sid (out ++ segs) = creditSent sid out + creditSent sid segs := by
  rw [creditSent, map_append, sum_append]
  rfl

theorem dataReceived_concat (frames : List Frame) (f : Frame) :
    dataReceived (frames ++ [f]) = dataReceived frames + f.dataOctets := by
  simp [dataReceived]

theorem dataReceivedOn_concat (sid : StreamId) (frames : List Frame) (f : Frame) :
    dataReceivedOn sid (frames ++ [f]) =
      dataReceivedOn sid frames + if f.streamId = sid then f.dataOctets else 0 := by
  simp [dataReceivedOn]

/-- Segments that are no WINDOW_UPDATE. -/
def Creditless (segs : List Seg) : Prop := ∀ sid increment, .windowUpdate sid increment ∉ segs

theorem Creditless.creditSent {segs : List Seg} (creditless : Creditless segs) (sid : StreamId) :
    creditSent sid segs = 0 := by
  refine sum_eq_zero fun credit member => ?_
  obtain ⟨seg, inside, rfl⟩ := mem_map.mp member
  cases seg with
  | windowUpdate other increment => exact absurd inside (creditless other increment)
  | _ => rfl

theorem creditSent_windowUpdate {out : List Seg} {increment : Int} (nonneg : 0 ≤ increment)
    (bound : increment ≤ 2 ^ 31 - 1) :
    (creditSent sid (out ++ [.windowUpdate sid increment.toNat]) : Int) =
      creditSent sid out + increment := by
  have small : increment.toNat % 2 ^ 31 = increment.toNat := Nat.mod_eq_of_lt (by omega)
  rw [creditSent_append]
  simp only [creditSent, map_cons, map_nil, sum_cons, sum_nil, Seg.credit, mask31, if_pos, small]
  omega

theorem creditSent_windowUpdate_of_ne {other : StreamId} (ne : other ≠ sid) (out : List Seg)
    (increment : Nat) :
    creditSent sid (out ++ [.windowUpdate other increment]) = creditSent sid out := by
  simp [creditSent, Seg.credit, ne]

theorem Increments.append {out : List Seg} {increment : Nat}
    (increments : ∀ sid increment, .windowUpdate sid increment ∈ out → 1 ≤ increment ∧
      increment ≤ 2 ^ 31 - 1)
    (lower : 1 ≤ increment) (upper : increment ≤ 2 ^ 31 - 1) :
    ∀ other more, .windowUpdate other more ∈ out ++ [.windowUpdate sid increment] →
      1 ≤ more ∧ more ≤ 2 ^ 31 - 1 := by
  intro other more member
  rcases mem_append.mp member with old | new
  · exact increments other more old
  · cases mem_singleton.mp new
    exact ⟨lower, upper⟩

theorem Creditless.plain {segs : List Seg} (plain : ∀ seg ∈ segs, seg.Plain) : Creditless segs :=
  fun _ _ member => plain _ member

/-- The connection window, of which at most half is outstanding. -/
structure ConnWindow (target : Int) (frames : List Frame) (out : List Seg) (window : Int) :
    Prop where
  honest : window = 65535 + creditSent 0 out - dataReceived frames
  lower : target < 2 * window
  upper : window ≤ target

namespace ConnWindow

variable {target : Int} {frames : List Frame} {f : Frame} {out : List Seg} {window : Int}

section

variable (conn : ConnWindow target frames out window) (kind : f.kind = Kind.data)
include conn kind

theorem spent : window - f.length = 65535 + creditSent 0 out - dataReceived (frames ++ [f]) := by
  rw [dataReceived_concat, Frame.dataOctets, if_pos kind, conn.honest]
  push_cast
  omega

theorem keep (high : ¬window - f.length ≤ target / 2) :
    ConnWindow target (frames ++ [f]) out (window - f.length) where
  honest := conn.spent kind
  lower := by omega
  upper := by
    have := conn.upper
    omega

theorem restore (within : 0 ≤ window - f.length) (low : window - f.length ≤ target / 2)
    (least : 1 ≤ target) (most : target ≤ 2 ^ 31 - 1) : ConnWindow target (frames ++ [f])
      (out ++ [.windowUpdate 0 (target - (window - f.length)).toNat]) target where
  honest := by
    have spent := conn.spent kind
    rw [creditSent_windowUpdate (by omega) (by omega)]
    omega
  lower := by omega
  upper := le_rfl

end

end ConnWindow

/-- The window of one stream, of which less than half is outstanding. -/
structure StreamWindow (initial : Int) (frames : List Frame) (out : List Seg) (sid : StreamId)
    (window : Int) : Prop where
  stream : sid ≠ 0
  honest : window = initial + creditSent sid out - dataReceivedOn sid frames
  lower : initial < 2 * window

/-- The increments a peer accepts. -/
def Increments (out : List Seg) : Prop :=
  ∀ sid increment, .windowUpdate sid increment ∈ out → 1 ≤ increment ∧ increment ≤ 2 ^ 31 - 1

structure WindowsAt (initial : Int) (frames : List Frame) (out : List Seg)
    (streams : HashMap StreamId StreamState) (last : StreamId) (window : Int) : Prop where
  conn : ConnWindow (max initial 65535) frames out window
  streams : streams.All fun sid st => StreamWindow initial frames out sid st.recvWindow
  idle : ∀ sid, last < sid → creditSent sid out = 0 ∧ dataReceivedOn sid frames = 0
  increments : Increments out

namespace WindowsAt

variable {initial : Int} {frames : List Frame} {out segs : List Seg}
  {streams : HashMap StreamId StreamState} {last : StreamId} {window : Int}

theorem put (windows : WindowsAt initial frames out (streams.del sid) last window)
    (stream : StreamWindow initial frames out sid st.recvWindow) :
    WindowsAt initial frames out (streams.put sid st) last window :=
  ⟨windows.conn, HashMap.All.put windows.streams stream, windows.idle, windows.increments⟩

section

variable (windows : WindowsAt initial frames out streams last window)
include windows

theorem congr {frames' : List Frame} {out' : List Seg}
    (data : dataReceived frames' = dataReceived frames)
    (dataOn : ∀ sid, dataReceivedOn sid frames' = dataReceivedOn sid frames)
    (credit : ∀ sid, creditSent sid out' = creditSent sid out) (increments : Increments out') :
    WindowsAt initial frames' out' streams last window where
  conn := ⟨by rw [data, credit]; exact windows.conn.honest, windows.conn.lower, windows.conn.upper⟩
  streams := fun sid st found => by
    have stream := windows.streams sid st found
    exact ⟨stream.stream, by rw [dataOn, credit]; exact stream.honest, stream.lower⟩
  idle := fun sid above => by rw [dataOn, credit]; exact windows.idle sid above
  increments := increments

/-- Frames without a body count for no window. -/
theorem other {f : Frame} (kind : f.kind ≠ Kind.data) :
    WindowsAt initial (frames ++ [f]) out streams last window := by
  have none : f.dataOctets = 0 := if_neg kind
  refine windows.congr ?_ (fun sid => ?_) (fun _ => rfl) windows.increments
  · rw [dataReceived_concat, none, Nat.add_zero]
  · rw [dataReceivedOn_concat, none, ite_self, Nat.add_zero]

theorem writes (creditless : Creditless segs) :
    WindowsAt initial frames (out ++ segs) streams last window := by
  refine windows.congr rfl (fun _ => rfl) (fun sid => ?_) fun sid increment member => ?_
  · rw [creditSent_append, creditless.creditSent, Nat.add_zero]
  · rcases mem_append.mp member with old | new
    · exact windows.increments sid increment old
    · exact absurd new (creditless sid increment)

theorem opened (above : last < sid) (starts : st.recvWindow = initial) (positive : 0 < initial) :
    WindowsAt initial frames out (streams.put sid st) sid window where
  conn := windows.conn
  streams := by
    obtain ⟨credit, data⟩ := windows.idle sid above
    refine HashMap.All.put (HashMap.All.del windows.streams sid)
      ⟨Nat.ne_zero_of_lt above, ?_, by rw [starts]; omega⟩
    rw [starts, credit, data]
    omega
  idle other beyond := windows.idle other (above.trans beyond)
  increments := windows.increments

theorem del (sid : StreamId) : WindowsAt initial frames out (streams.del sid) last window :=
  ⟨windows.conn, HashMap.All.del windows.streams sid, windows.idle, windows.increments⟩

theorem replace {st' : StreamState} (found : streams.get sid = some st)
    (same : st'.recvWindow = st.recvWindow) :
    WindowsAt initial frames out (streams.put sid st') last window :=
  (windows.del sid).put (same ▸ windows.streams sid st found)

theorem raise {last' : StreamId} (le : last ≤ last') :
    WindowsAt initial frames out streams last' window :=
  ⟨windows.conn, windows.streams, fun sid above => windows.idle sid (le.trans_lt above),
    windows.increments⟩

end

theorem restore {left : Int} (windows : WindowsAt initial frames out (streams.del sid) last window)
    (stream : sid ≠ 0) (below : sid ≤ last)
    (honest : left = initial + creditSent sid out - dataReceivedOn sid frames) (within : 0 ≤ left)
    (low : left ≤ initial / 2) (positive : 0 < initial) (bound : initial ≤ 2 ^ 31 - 1)
    (restored : st.recvWindow = initial) :
    WindowsAt initial frames (out ++ [.windowUpdate sid (initial - left).toNat])
      (streams.put sid st) last window := by
  have elsewhere {other : StreamId} (ne : other ≠ sid) (increment : Nat) :
      creditSent other (out ++ [.windowUpdate sid increment]) = creditSent other out :=
    creditSent_windowUpdate_of_ne ne.symm out increment
  constructor
  case conn =>
    refine ⟨?_, windows.conn.lower, windows.conn.upper⟩
    rw [elsewhere stream.symm]
    exact windows.conn.honest
  case streams =>
    refine HashMap.All.put ?_ ⟨stream, ?_, by rw [restored]; omega⟩
    · intro other st' found
      have kept := windows.streams other st' found
      refine ⟨kept.stream, ?_, kept.lower⟩
      rw [elsewhere (get_of_del found).1]
      exact kept.honest
    · rw [creditSent_windowUpdate (by omega) (by omega), restored]
      omega
  case idle =>
    intro other above
    rw [elsewhere (Nat.ne_of_gt (below.trans_lt above))]
    exact windows.idle other above
  case increments => exact Increments.append windows.increments (by omega) (by omega)

end WindowsAt

namespace Core

variable {k k' : Core} {error : ErrorCode} {outcome : FrameOutcome}

def Windows (initial : Int) (frames : List Frame) (k : Core) : Prop :=
  WindowsAt initial frames k.out k.streams k.lastClientStream k.connRecvWindow

/-- A step that receives no octets and returns no credit. -/
structure Untouched (k k' : Core) : Prop where
  out : ∃ segs, k'.out = k.out ++ segs ∧ Creditless segs
  conn : k'.connRecvWindow = k.connRecvWindow
  last : k'.lastClientStream = k.lastClientStream
  streams : ∀ {sid st'}, k'.streams.get sid = some st' →
    ∃ st, k.streams.get sid = some st ∧ st'.recvWindow = st.recvWindow

namespace Untouched

theorem trans {k'' : Core} (first : Untouched k k') (second : Untouched k' k'') :
    Untouched k k'' where
  out := by
    obtain ⟨segs, grown, creditless⟩ := first.out
    obtain ⟨more, grownMore, creditlessMore⟩ := second.out
    refine ⟨segs ++ more, by rw [grownMore, grown, append_assoc], ?_⟩
    intro sid increment member
    rcases mem_append.mp member with here | there
    · exact creditless sid increment here
    · exact creditlessMore sid increment there
  conn := second.conn.trans first.conn
  last := second.last.trans first.last
  streams found := by
    obtain ⟨_, inMiddle, same⟩ := second.streams found
    obtain ⟨st, inFirst, sameFirst⟩ := first.streams inMiddle
    exact ⟨st, inFirst, same.trans sameFirst⟩

theorem windows {initial : Int} {frames : List Frame} (untouched : Untouched k k')
    (windows : Windows initial frames k) : Windows initial frames k' := by
  obtain ⟨_, grown, creditless⟩ := untouched.out
  have written := WindowsAt.writes windows creditless
  rw [Windows, grown, untouched.conn, untouched.last]
  refine ⟨written.conn, ?_, written.idle, written.increments⟩
  intro sid st' found
  obtain ⟨st, inFirst, same⟩ := untouched.streams found
  rw [same]
  exact written.streams sid st inFirst

section

variable (conn : k'.connRecvWindow = k.connRecvWindow)
    (last : k'.lastClientStream = k.lastClientStream)
include conn last

theorem wrote (seg : Seg) (plain : seg.Plain ∨ seg.IsGoaway) (out : k'.out = k.out ++ [seg])
    (streams : k'.streams = k.streams) : Untouched k k' where
  out := by
    refine ⟨[seg], out, fun sid increment member => ?_⟩
    rw [← mem_singleton.mp member] at plain
    exact plain.elim id id
  conn := conn
  last := last
  streams found := ⟨_, streams ▸ found, rfl⟩

theorem still (out : k'.out = k.out)
    (fewer : ∀ {sid st}, k'.streams.get sid = some st → k.streams.get sid = some st) :
    Untouched k k' where
  out := ⟨[], out.trans (append_nil _).symm, fun _ _ member => nomatch member⟩
  conn := conn
  last := last
  streams found := ⟨_, fewer found, rfl⟩

end

theorem drop (k : Core) (sid : StreamId) : Untouched k (k.drop sid) :=
  still rfl rfl rfl fun found => (get_of_del found).2

/-- A reset takes its stream away, so only the others matter. -/
theorem reset (k : Core) (sid : StreamId) (error : ErrorCode) :
    Untouched { k with streams := k.streams.del sid } (k.reset sid error) :=
  wrote rfl rfl (.rstStream sid error) (.inl trivial) rfl rfl

theorem remove (k : Core) (sid : StreamId) : Untouched k { k with streams := k.streams.del sid } :=
  still rfl rfl rfl fun found => (get_of_del found).2

theorem goaway (k : Core) (error : ErrorCode) : Untouched k (k.goaway error) :=
  wrote rfl rfl (.goaway k.goawayId error) (.inr trivial) rfl rfl

end Untouched

theorem Resets.untouched (resets : Resets sid error k k' outcome) :
    Untouched { k with streams := k.streams.del sid } k' := by
  cases resets with
  | counted => exact .reset k sid error
  | exhausted => exact (Untouched.reset k sid error).trans (.goaway ..)

theorem malformed_untouched (resets : Resets sid error (k.drop sid) k' outcome) :
    Untouched { k with streams := k.streams.del sid } k' := by
  refine Untouched.trans ?_ resets.untouched
  exact .still rfl rfl rfl fun found => (get_of_del found).2

theorem Completes.untouched (completes : Completes sid k k' outcome) :
    Untouched { k with streams := k.streams.del sid } k' := by
  cases completes with
  | dispatched => exact .still rfl rfl rfl id
  | refuted resets => exact malformed_untouched resets

/-- A final answer and a reset take the stream away. -/
theorem rejected_untouched {first : Octets} {rest : List Octets}
    (resets : Resets sid error (k.push (.fields sid false true first rest)) k' outcome) :
    Untouched { k with streams := k.streams.del sid } k' := by
  refine Untouched.trans ?_ resets.untouched
  exact .wrote rfl rfl (.fields sid false true first rest) (.inl trivial) rfl rfl

theorem answered_untouched (sid : StreamId) (first : Octets) (k : Core) :
    Untouched { k with streams := k.streams.del sid }
      ((k.push (.fields sid false true first [])).drop sid) :=
  .wrote rfl rfl (.fields sid false true first []) (.inl trivial) rfl rfl

theorem Settles.untouched (settles : Settles sid st k k' outcome)
    (found : k.streams.get sid = some st) : Untouched k k' := by
  have removed := Untouched.remove k sid
  cases settles with
  | garbled => exact .goaway k _
  | refused _ resets => exact (removed.trans (.remove _ sid)).trans resets.untouched
  | rejected _ _ resets => exact removed.trans (rejected_untouched resets)
  | answered first => exact removed.trans (answered_untouched sid first k)
  | malformed resets => exact removed.trans (malformed_untouched resets)
  | completed _ completes => exact removed.trans completes.untouched
  | unaffordable resets => exact removed.trans resets.untouched
  | admitted _ interim _ _ _ announced =>
    exact {
      out := ⟨interim, rfl, fun sid increment member => by
        obtain ⟨_, same⟩ := announced _ member
        cases same⟩
      conn := rfl
      last := rfl
      streams := fun {other st'} found' => by
        rcases get_of_put found' with ⟨rfl, rfl⟩ | ⟨_, found'⟩
        · exact ⟨st, found, rfl⟩
        · exact ⟨st', found', rfl⟩ }

theorem Discards.untouched {f : Frame} {block : Octets} (discards : Discards f block k k' outcome) :
    Untouched k k' := by
  have decoded : Untouched k (k.decoded block) := .still rfl rfl rfl id
  cases discards with
  | finished _ _ resets =>
    exact (decoded.trans (.remove _ f.streamId)).trans resets.untouched
  | garbled => exact decoded.trans (.goaway ..)
  | continues => exact .still rfl rfl rfl id

section

variable {initial : Int} {frames : List Frame}

/-- The stream of a HEADERS frame, new or with its window as it was. -/
theorem Entry.windows {active : Nat} {accepting : Bool} {f : Frame} {st' : StreamState}
    (entry : Entry active accepting f k st) (windows : Windows initial frames k)
    (same : st'.recvWindow = st.recvWindow) (ours : k.ourInitialWindow = initial)
    (positive : 0 < initial) : WindowsAt initial frames k.out (k.streams.put f.streamId st')
      (k.advance f.streamId).lastClientStream k.connRecvWindow := by
  cases entry with
  | trailers found =>
    have kept : (k.advance f.streamId).lastClientStream = k.lastClientStream := by
      rw [advance, HashMap.contains_iff.mpr ⟨_, found⟩]
      rfl
    rw [kept]
    exact WindowsAt.replace windows found same
  | opened _ absent _ above =>
    have raised : (k.advance f.streamId).lastClientStream = f.streamId := by
      rw [advance, contains_eq_false.mpr absent]
      rfl
    rw [raised]
    exact WindowsAt.opened windows above (same.trans ours) positive

section

variable {f : Frame} (windows : Windows initial frames k) (kind : f.kind = Kind.data)
  (within : 0 ≤ k.connRecvWindow - f.length) (ours : k.ourInitialWindow = initial)
  (bound : initial ≤ 2 ^ 31 - 1)
include windows kind within ours bound

theorem Windows.spend :
    ConnWindow (max initial 65535) (frames ++ [f]) (k.spend f.length).replenish.out
        (k.spend f.length).replenish.connRecvWindow ∧
      Increments (k.spend f.length).replenish.out ∧
      ∀ sid, sid ≠ 0 → creditSent sid (k.spend f.length).replenish.out = creditSent sid k.out := by
  have conn := windows.conn
  have target : (k.spend f.length).connTarget = max initial 65535 := by
    rw [← ours]
    rfl
  have least : 65535 ≤ max initial 65535 := le_max_right ..
  have most : max initial 65535 ≤ 2 ^ 31 - 1 := max_le bound (by decide)
  rw [replenish, target]
  generalize max initial 65535 = wide at *
  split_ifs with low
  · have short : k.connRecvWindow - f.length ≤ wide / 2 := low
    refine ⟨conn.restore kind within short (by omega) most, ?_, ?_⟩
    · refine Increments.append windows.increments ?_ ?_
      · change 1 ≤ (wide - (k.connRecvWindow - f.length)).toNat
        omega
      · change (wide - (k.connRecvWindow - f.length)).toNat ≤ 2 ^ 31 - 1
        omega
    · exact fun sid ne => creditSent_windowUpdate_of_ne ne.symm ..
  · exact ⟨conn.keep kind low, windows.increments, fun _ _ => rfl⟩

/-- After DATA the windows of the connection and of the other streams are accounted for. -/
theorem Windows.data (below : f.streamId ≤ k.lastClientStream) :
    WindowsAt initial (frames ++ [f]) (k.spend f.length).replenish.out
      (k.streams.del f.streamId) k.lastClientStream
      (k.spend f.length).replenish.connRecvWindow := by
  obtain ⟨conn, increments, credit⟩ := windows.spend kind within ours bound
  have elsewhere {sid : StreamId} (ne : sid ≠ f.streamId) :
      dataReceivedOn sid (frames ++ [f]) = dataReceivedOn sid frames := by
    rw [dataReceivedOn_concat, if_neg ne.symm, Nat.add_zero]
  refine ⟨conn, ?_, ?_, increments⟩
  · intro sid st found
    obtain ⟨ne, found⟩ := get_of_del found
    have stream := windows.streams sid st found
    refine ⟨stream.stream, ?_, stream.lower⟩
    rw [credit sid stream.stream, elsewhere ne]
    exact stream.honest
  · intro sid above
    rw [credit sid (Nat.ne_zero_of_lt above), elsewhere (Nat.ne_of_gt (below.trans_lt above))]
    exact windows.idle sid above

/-- DATA on a stream that is not receiving still counts against the connection. -/
theorem Windows.data_closed (absent : k.streams.get f.streamId = none)
    (below : f.streamId ≤ k.lastClientStream) :
    Windows initial (frames ++ [f]) (k.spend f.length).replenish := by
  have others := windows.data kind within ours bound below
  obtain ⟨streams, last, _⟩ := (k.spend f.length).replenish_frame
  rw [Windows, streams, last]
  rw [del_of_none absent] at others
  exact others

end

/-- DATA on a receiving stream is charged to its window, which is restored once half of it is
used, unless the stream leaves. -/
theorem Receives.windows {f : Frame} {data : Octets} (receives : Receives f data st k k' outcome)
    (others : WindowsAt initial frames k.out (k.streams.del f.streamId) k.lastClientStream
      k.connRecvWindow)
    (stream : f.streamId ≠ 0) (below : f.streamId ≤ k.lastClientStream)
    (honest : st.recvWindow = initial + creditSent f.streamId k.out -
      dataReceivedOn f.streamId frames)
    (done : st.headersDone = true) (ours : k.ourInitialWindow = initial) (positive : 0 < initial)
    (bound : initial ≤ 2 ^ 31 - 1) (goesOn : outcome ≠ .stopReading) :
    Windows initial frames k' := by
  have rest : Windows initial frames { k with streams := k.streams.del f.streamId } := others
  cases receives with
  | overrun resets => exact (malformed_untouched resets).windows rest
  | refuted _ resets => exact resets.untouched.windows rest
  | rejected _ resets => exact (rejected_untouched resets).windows rest
  | answered first => exact (answered_untouched f.streamId first k).windows rest
  | exhausted => exact absurd rfl goesOn
  | buffered within ongoing =>
    have unended : f.has Flag.endStream = false :=
      Bool.eq_false_iff.mpr fun ended => Bool.false_ne_true ((ongoing ended).symm.trans done)
    rw [buffer, unended, ours, Bool.not_false, Bool.true_and]
    dsimp only
    split_ifs with low
    · rw [decide_eq_true_eq] at low
      exact others.restore stream below honest within low positive bound rfl
    · rw [decide_eq_true_eq] at low
      exact others.put ⟨stream, honest, by dsimp only; omega⟩
  | completed _ ended completes =>
    refine completes.untouched.windows ?_
    rw [ended, Windows]
    change WindowsAt initial frames k.out ((k.streams.put f.streamId _).del f.streamId) _ _
    rw [del_put]
    exact others

/-- One frame that does not stop the connection. -/
theorem Handles.windows {active : Nat} {accepting : Bool} {f : Frame}
    (handles : Handles active accepting f k k' outcome) (framed : Framed k)
    (windows : Windows initial frames k) (ours : k.ourInitialWindow = initial)
    (positive : 0 < initial) (bound : initial ≤ 2 ^ 31 - 1) (goesOn : outcome ≠ .stopReading) :
    Windows initial (frames ++ [f]) k' := by
  have removed := Untouched.remove k f.streamId
  have other (kind : f.kind ≠ Kind.data) : Windows initial (frames ++ [f]) k :=
    WindowsAt.other windows kind
  have headers (kind : f.kind = Kind.headers) := other (by rw [kind]; decide)
  have continuation (kind : f.kind = Kind.continuation) := other (by rw [kind]; decide)
  cases handles with
  | noted control _ echo =>
    refine WindowsAt.writes (other control.notData) fun sid increment member => ?_
    cases echo _ member
  | peerGoaway control | credit control => exact other control.notData
  | settings control =>
    refine WindowsAt.writes (other control.notData) fun sid increment member => ?_
    cases mem_singleton.mp member
  | resets control _ _ resets =>
    exact (removed.trans resets.untouched).windows (other control.notData)
  | peerReset control => exact removed.windows (other control.notData)
  | headersOnClosed _ kind _ _ _ _ discards =>
    exact discards.untouched.windows (headers kind)
  | headersMalformed _ kind _ _ above discards =>
    refine ((Untouched.drop _ f.streamId).trans discards.untouched).windows ?_
    refine WindowsAt.raise (headers kind) ?_
    cases found : k.streams.get f.streamId with
    | none =>
      rw [advance, contains_eq_false.mpr found]
      exact (above found).2.le
    | some st =>
      rw [advance, HashMap.contains_iff.mpr ⟨st, found⟩]
      rfl
  | headersEnd _ _ _ kind _ _ entry _ redecoded settles =>
    refine (settles.untouched (get_put_self ..)).windows ?_
    exact entry.windows (headers kind) redecoded.recvWindow ours positive
  | headersOpen _ _ kind _ _ entry =>
    exact entry.windows (headers kind) rfl ours positive
  | continueDiscard kind _ _ discards =>
    refine discards.untouched.windows ?_
    split_ifs <;> exact continuation kind
  | continuationEnd _ _ kind _ _ found _ redecoded settles =>
    refine (settles.untouched (get_put_self ..)).windows ?_
    exact WindowsAt.replace (continuation kind) found redecoded.recvWindow
  | continuationOpen _ kind _ _ found =>
    exact WindowsAt.replace (continuation kind) found rfl
  | dataIgnored kind _ within absent opened =>
    exact windows.data_closed kind within ours bound absent opened.2
  | dataOnClosed kind _ within absent opened resets =>
    exact ((Untouched.remove _ f.streamId).trans resets.untouched).windows
      (windows.data_closed kind within ours bound absent opened.2)
  | data _ data kind closed within found _ receives =>
    have below := framed.below found
    rw [Framed, closed] at framed
    have done := (framed.finished found).1
    obtain ⟨_, last, _⟩ := (k.spend f.length).replenish_frame
    have limits := (k.spend f.length).replenish_effect.2.1
    have stream := windows.streams _ _ found
    have others := windows.data kind within ours bound below
    have credit := (windows.spend kind within ours bound).2.2 f.streamId stream.stream
    refine receives.windows ?_ stream.stream (last ▸ below) ?_ done (limits.2.1.trans ours)
      positive bound goesOn
    · rw [del_put, last]
      exact others
    · rw [credit, dataReceivedOn_concat, if_pos rfl, Frame.dataOctets, if_pos kind]
      have honest := stream.honest
      push_cast
      omega
  | _ => exact absurd rfl goesOn

theorem Moves.windows (moves : Moves k k') (windows : Windows initial frames k) :
    Windows initial frames k' := by
  cases moves with
  | writes _ plain => exact WindowsAt.writes windows (.plain plain)
  | goaway error => exact (Untouched.goaway k error).windows windows
  | drops sid => exact (Untouched.drop k sid).windows windows
  | expires sid =>
    rw [expire]
    split_ifs
    · exact (Untouched.remove k sid).windows windows
    · exact (Untouched.drop k sid).windows windows

end

end Core

namespace Conn

theorem creditSent_growth (params : List (Nat × Nat)) {excess : Nat} (small : excess < 2 ^ 31)
    (sid : StreamId) (grows : Prop) [Decidable grows] :
    creditSent sid (.settings params :: if grows then [.windowUpdate 0 excess] else []) =
      if sid = 0 ∧ grows then excess else 0 := by
  by_cases conn : sid = 0 <;> by_cases wide : grows
  · simpa [creditSent, Seg.credit, mask31, conn, wide] using small
  · simp [creditSent, Seg.credit, wide]
  · simp [creditSent, Seg.credit, Ne.symm conn, conn, wide]
  · simp [creditSent, Seg.credit, wide]

/-- The preamble makes up for the part of the target that the peer does not know of. -/
theorem creditSent_preamble {config : Config} (most : config.initialWindowSize ≤ 2 ^ 31 - 1)
    (sid : StreamId) : creditSent sid (preamble config) =
      if sid = 0 ∧ 65535 < config.initialWindowSize then config.initialWindowSize - 65535 else 0 :=
  creditSent_growth _ (by omega) sid _

theorem fresh_windows (config : Config) (most : config.initialWindowSize ≤ 2 ^ 31 - 1) :
    (fresh config).session.core.Windows config.initialWindowSize [] := by
  constructor
  case conn =>
    refine ⟨?_, ?_, le_rfl⟩
    · change max (config.initialWindowSize : Int) 65535 =
        65535 + (creditSent 0 (preamble config) : Int) - (0 : Nat)
      rw [creditSent_preamble most]
      by_cases wide : 65535 < config.initialWindowSize
      · rw [if_pos ⟨rfl, wide⟩]
        omega
      · rw [if_neg fun both => wide both.2]
        omega
    · change max (config.initialWindowSize : Int) 65535 < 2 *
        max (config.initialWindowSize : Int) 65535
      omega
  case streams => exact HashMap.All.empty
  case idle =>
    intro sid above
    refine ⟨?_, rfl⟩
    change creditSent sid (preamble config) = 0
    rw [creditSent_preamble most, if_neg fun both => Nat.ne_zero_of_lt above both.1]
  case increments =>
    intro sid increment member
    change .windowUpdate sid increment ∈ preamble config at member
    rw [preamble] at member
    split_ifs at member with wide
    · simp only [mem_cons, not_mem_nil, or_false, reduceCtorEq, false_or,
        Seg.windowUpdate.injEq] at member
      omega
    · simp at member

/-- While the loop is live and the advertised window is a legal one, the windows are exactly
what the peer has left, less than half of each is used, and every increment is legal. -/
theorem run_windows_honest (config : Config) (events : List Event)
    (least : 1 ≤ config.initialWindowSize) (most : config.initialWindowSize ≤ 2 ^ 31 - 1)
    (live : Live (run config events)) :
    WindowsAt config.initialWindowSize (fedFrames config events)
      (run config events).session.out (run config events).session.streams
      (run config events).session.recv.lastClientStream
      (run config events).session.recv.connRecvWindow := by
  refine (live_invariant (fun k frames => k.Framed ∧
    k.ourInitialWindow = config.initialWindowSize ∧
    k.Windows config.initialWindowSize frames) ?_ ?_ ?_ events live).2.2
  · exact ⟨run_framed config [] (.inl rfl), rfl, fresh_windows config most⟩
  · rintro _ _ f _ _ _ _ ⟨framed, ours, windows⟩ handles goesOn
    exact ⟨handles.framed framed goesOn, handles.bounds.2.1.2.1.trans ours,
      handles.windows framed windows ours (by omega) (by omega) goesOn⟩
  · rintro _ _ _ ⟨framed, ours, windows⟩ moves
    exact ⟨moves.framed framed, moves.steady.1.2.1.trans ours, moves.windows windows⟩

/-- A connection with a window of four octets, and a body of three. -/
def tightConfig : Config := { smallConfig with initialWindowSize := 4 }

def tightEvents : List Event := openRequest ++ [inbound Kind.data 0 1 [1, 2, 3]]

theorem run_windows_honest_tight :
    .windowUpdate 1 3 ∈ (run tightConfig tightEvents).session.out ∧
      WindowsAt 4 (fedFrames tightConfig tightEvents)
        (run tightConfig tightEvents).session.out (run tightConfig tightEvents).session.streams
        (run tightConfig tightEvents).session.recv.lastClientStream
        (run tightConfig tightEvents).session.recv.connRecvWindow :=
  ⟨by decide +kernel, run_windows_honest tightConfig tightEvents (by decide) (by decide)
    (.inl (by decide +kernel))⟩

end Conn

end HttpJet.H2
