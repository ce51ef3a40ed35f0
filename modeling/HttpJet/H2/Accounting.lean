import HttpJet.H2.Receiving

/-!
# Receive accounting

The counters of buffered octets and pending header bytes are the sums over the receiving
streams, and each lease holds what its stream is charged for, on every path by which a stream
leaves.  No release takes out more than a counter holds.
-/

namespace HttpJet.H2

open Hpack Hpack.Integer Library
open HashMap

/-- The buffered body octets of all streams. -/
def bodyBytes (streams : HashMap StreamId StreamState) : Nat :=
  HashMap.total (fun _ st => st.body.length) streams

/-- The charges for decoded headers of all streams. -/
def headerBytes (streams : HashMap StreamId StreamState) : Nat :=
  HashMap.total (fun _ st => st.headerCharge) streams

/-- Under a body budget a stream's lease holds its header charge and its body. -/
def Leased (budget : Option Nat) (st : StreamState) : Prop :=
  budget.isSome = true → st.bodyLease.getD 0 = st.headerCharge + st.body.length

/-- A release that takes out no more than the counters hold. -/
def Release.Exact (release : Release) : Prop :=
  release.st.body.length ≤ release.totalBuffered ∧
    release.st.headerCharge ≤ release.pendingHeaderBytes

structure AccountedAt (budget : Option Nat) (streams : HashMap StreamId StreamState)
    (totalBuffered pendingHeaderBytes : Nat) (released : List Release) : Prop where
  buffered : totalBuffered = bodyBytes streams
  charged : pendingHeaderBytes = headerBytes streams
  leases : streams.All fun _ st => Leased budget st
  exact : ∀ release ∈ released, release.Exact

namespace AccountedAt

variable {budget : Option Nat} {streams : HashMap StreamId StreamState} {sid : StreamId}
  {st st' : StreamState} {buffered pending : Nat} {released : List Release}

theorem put (accounted : AccountedAt budget (streams.del sid) buffered pending released)
    (leased : Leased budget st) :
    AccountedAt budget (streams.put sid st) (buffered + st.body.length)
      (pending + st.headerCharge) released where
  buffered := by
    rw [bodyBytes, total_put, accounted.buffered, Nat.add_comm]
    rfl
  charged := by
    rw [headerBytes, total_put, accounted.charged, Nat.add_comm]
    rfl
  leases := HashMap.All.put accounted.leases leased
  exact := accounted.exact

section

variable (accounted : AccountedAt budget streams buffered pending released)
include accounted

theorem covers (found : streams.get sid = some st) : Release.Exact ⟨buffered, pending, st⟩ := by
  have body : st.body.length ≤ bodyBytes streams :=
    @HashMap.le_total _ _ (fun _ st => st.body.length) _ _ _ _ found
  have charge : st.headerCharge ≤ headerBytes streams :=
    @HashMap.le_total _ _ (fun _ st => st.headerCharge) _ _ _ _ found
  exact ⟨accounted.buffered ▸ body, accounted.charged ▸ charge⟩

theorem remove (found : streams.get sid = some st) :
    AccountedAt budget (streams.del sid) (buffered - st.body.length)
      (pending - st.headerCharge) (released ++ [⟨buffered, pending, st⟩]) where
  buffered := by
    have removed : bodyBytes (streams.del sid) + st.body.length = bodyBytes streams :=
      total_del_of_get found
    rw [accounted.buffered]
    omega
  charged := by
    have removed : headerBytes (streams.del sid) + st.headerCharge = headerBytes streams :=
      total_del_of_get found
    rw [accounted.charged]
    omega
  leases := HashMap.All.del accounted.leases sid
  exact := by
    intro release member
    rcases List.mem_append.mp member with old | new
    · exact accounted.exact release old
    · rw [List.mem_singleton.mp new]
      exact accounted.covers found

/-- A stream that holds nothing leaves without a release. -/
theorem remove_empty
      (empty : ∀ st, streams.get sid = some st → st.body = [] ∧ st.headerCharge = 0) :
    AccountedAt budget (streams.del sid) buffered pending released := by
  cases found : streams.get sid with
  | none =>
    rw [del_of_none found]
    exact accounted
  | some st =>
    have removed := accounted.remove found
    rw [(empty st found).1, (empty st found).2] at removed
    exact ⟨removed.buffered, removed.charged, removed.leases, accounted.exact⟩

theorem update (found : streams.get sid = some st) (leased : Leased budget st')
    {buffered' pending' : Nat} (body : buffered' + st.body.length = buffered + st'.body.length)
    (charge : pending' + st.headerCharge = pending + st'.headerCharge) :
    AccountedAt budget (streams.put sid st') buffered' pending' released := by
  have covered := accounted.covers found
  have updated := (accounted.remove found).put leased
  have sameBody : buffered - st.body.length + st'.body.length = buffered' := by
    have := covered.1
    dsimp only at this
    omega
  have sameCharge : pending - st.headerCharge + st'.headerCharge = pending' := by
    have := covered.2
    dsimp only at this
    omega
  rw [sameBody, sameCharge] at updated
  exact ⟨updated.buffered, updated.charged, updated.leases, accounted.exact⟩

theorem replace (found : streams.get sid = some st) (body : st'.body = st.body)
    (charge : st'.headerCharge = st.headerCharge) (lease : st'.bodyLease = st.bodyLease) :
    AccountedAt budget (streams.put sid st') buffered pending released := by
  refine accounted.update found ?_ (by rw [body]) (by rw [charge])
  rw [Leased, body, charge, lease]
  exact accounted.leases _ _ found

end

end AccountedAt

namespace Core

variable {k k' : Core} {outcome : FrameOutcome} {f : Frame} {active : Nat} {accepting : Bool}

def Accounted (k : Core) : Prop :=
  AccountedAt k.bodyBudget k.streams k.totalBuffered k.pendingHeaderBytes k.released

theorem Accounted.drop (accounted : Accounted k) (sid : StreamId) : Accounted (k.drop sid) := by
  cases found : k.streams.get sid with
  | none =>
    have same : k.drop sid = k := by
      simp [Core.drop, held, found, del_of_none found]
    rw [same]
    exact accounted
  | some =>
    have removed := AccountedAt.remove accounted found
    rw [Accounted, Core.drop, held, found]
    exact removed

theorem Resets.accounted {sid : StreamId} {error : ErrorCode}
    (resets : Resets sid error k k' outcome) (accounted : Accounted k) : Accounted k' := by
  have dropped := accounted.drop sid
  cases resets with
  | counted | exhausted => exact dropped

theorem Completes.accounted {sid : StreamId} (completes : Completes sid k k' outcome)
    (accounted : Accounted k) : Accounted k' := by
  cases completes with
  | dispatched => exact accounted.drop sid
  | refuted resets => exact resets.accounted (accounted.drop sid)

/-- A stream without books of its own. -/
def Clean (st : StreamState) : Prop :=
  st.body = [] ∧ st.headerCharge = 0 ∧ st.bodyLease.getD 0 = 0

theorem Settles.accounted {sid : StreamId} {st : StreamState}
    (settles : Settles sid st k k' outcome)
    (accounted : Accounted k) (found : k.streams.get sid = some st)
    (clean : st.refused = true ∨ st.endStream = false → Clean st) : Accounted k' := by
  cases settles with
  | garbled => exact accounted
  | refused marked resets =>
    refine resets.accounted (AccountedAt.remove_empty accounted ?_)
    intro st' found'
    cases found.symm.trans found'
    exact ⟨(clean (.inl marked)).1, (clean (.inl marked)).2.1⟩
  | rejected _ _ resets | unaffordable resets => exact resets.accounted accounted
  | answered => exact Accounted.drop (k := k.push _) accounted sid
  | malformed resets => exact resets.accounted (accounted.drop sid)
  | completed _ completes => exact completes.accounted accounted
  | admitted _ _ _ ongoing =>
    obtain ⟨body, uncharged, lease⟩ := clean (.inr ongoing)
    refine AccountedAt.update accounted found ?_ rfl ?_
    · intro budgeted
      obtain ⟨_, budget⟩ := Option.isSome_iff_exists.mp budgeted
      rw [leaseAfter, budget]
      simp [body, lease]
    · simp [uncharged]

theorem Discards.accounted {block : Octets} (discards : Discards f block k k' outcome)
    (accounted : Accounted k) : Accounted k' := by
  cases discards with
  | finished _ _ resets => exact resets.accounted accounted
  | garbled | continues => exact accounted

/-- Buffered octets are counted once, on the stream, in the total and on the lease. -/
theorem Accounted.buffer {sid : StreamId} {st : StreamState} (accounted : Accounted k)
    (found : k.streams.get sid = some st) (data : Octets) (ended : Bool) :
    Accounted (k.buffer sid st data (k.leaseAfter st.bodyLease data.length) ended) := by
  have leased (window : Int) : Leased k.bodyBudget { st with
      body := st.body ++ data
      bodyLease := k.leaseAfter st.bodyLease data.length
      recvWindow := window } := by
    intro budgeted
    obtain ⟨_, budget⟩ := Option.isSome_iff_exists.mp budgeted
    have before := accounted.leases _ _ found budgeted
    rw [leaseAfter, budget]
    simp only [Option.getD_some, List.length_append, before]
    omega
  have update (window : Int) : AccountedAt k.bodyBudget (k.streams.put sid { st with
      body := st.body ++ data
      bodyLease := k.leaseAfter st.bodyLease data.length
      recvWindow := window }) (k.totalBuffered + data.length) k.pendingHeaderBytes k.released := by
    refine AccountedAt.update accounted found (leased window) ?_ rfl
    simp only [List.length_append]
    omega
  rw [Core.buffer]
  split_ifs
  · exact update _
  · exact update _

theorem Receives.accounted {data : Octets} {st : StreamState}
    (receives : Receives f data st k k' outcome) (accounted : Accounted k)
    (found : k.streams.get f.streamId = some st) : Accounted k' := by
  cases receives with
  | overrun resets => exact resets.accounted (accounted.drop f.streamId)
  | refuted _ resets | rejected _ resets => exact resets.accounted accounted
  | answered => exact Accounted.drop (k := k.push _) accounted f.streamId
  | exhausted => exact accounted
  | buffered => exact accounted.buffer found data _
  | completed _ _ completes => exact completes.accounted (accounted.buffer found data _)

/-- The stream of a HEADERS frame, with whatever changes in it besides its books. -/
theorem Entry.accounted {st st' : StreamState} (entry : Entry active accepting f k st)
    (accounted : Accounted k) (body : st'.body = st.body)
    (charge : st'.headerCharge = st.headerCharge) (lease : st'.bodyLease = st.bodyLease) :
    AccountedAt k.bodyBudget (k.streams.put f.streamId st') k.totalBuffered k.pendingHeaderBytes
      k.released := by
  cases entry with
  | trailers found => exact AccountedAt.replace accounted found body charge lease
  | opened _ absent =>
    have leased : Leased k.bodyBudget st' := by
      rw [Leased, body, charge, lease]
      exact fun _ => rfl
    rw [Accounted, ← del_of_none absent] at accounted
    have added := accounted.put leased
    rw [body, charge] at added
    exact added

theorem Redecoded.clean {st st' : StreamState} (redecoded : Redecoded st st') (clean : Clean st) :
    Clean st' := by
  rw [Clean, redecoded.body, redecoded.headerCharge, redecoded.bodyLease]
  exact clean

/-- A head that opens a stream has no books; trailers end their stream and are never refused. -/
theorem Entry.clean {st : StreamState} (entry : Entry active accepting f k st) (framed : Framed k)
    (closed : k.openHeaderBlock = none)
    (loose : st.refused = true ∨ (st.endStream || f.has Flag.endStream) = false) : Clean st := by
  cases entry with
  | opened => exact ⟨rfl, rfl, rfl⟩
  | trailers found terminated =>
    rw [Framed, closed] at framed
    obtain ⟨done, admitted⟩ := framed.finished found
    rcases loose with refused | ongoing
    · cases admitted.symm.trans refused
    · rw [terminated done, Bool.or_true] at ongoing
      cases ongoing

theorem replenish_books (k : Core) (accounted : Accounted k) (n : Nat) :
    Accounted (k.spend n).replenish := by
  rw [replenish]
  split_ifs <;> exact accounted

/-- Every frame keeps the books, also one that stops the connection. -/
theorem Handles.accounted (handles : Handles active accepting f k k' outcome) (framed : Framed k)
    (accounted : Accounted k) : Accounted k' := by
  cases handles with
  | broken | noted | peerGoaway | settings
  | settingsBroken | credit | headersBroken
  | dataOverrun => exact accounted
  | resets _ _ _ resets => exact resets.accounted accounted
  | peerReset | peerResetExhausted => exact accounted.drop f.streamId
  | headersOnClosed _ _ _ _ _ _ discards =>
    exact discards.accounted accounted
  | headersMalformed _ _ _ _ _ discards =>
    exact discards.accounted (Accounted.drop (k := k.advance f.streamId) accounted f.streamId)
  | headersTooLong _ entry | headersOpen _ _ _ _ _ entry =>
    exact entry.accounted accounted rfl rfl rfl
  | headersEnd _ _ _ _ closed _ entry _ redecoded settles =>
    refine settles.accounted ?_ (get_put_self ..) ?_
    · exact entry.accounted accounted redecoded.body redecoded.headerCharge redecoded.bodyLease
    · intro loose
      rw [redecoded.refused, redecoded.endStream] at loose
      exact redecoded.clean (entry.clean framed closed loose)
  | continueDiscard _ _ _ discards =>
    refine discards.accounted ?_
    split_ifs <;> exact accounted
  | continuationEnd st _ _ current kept found ended redecoded settles =>
    refine settles.accounted ?_ (get_put_self ..) ?_
    · exact AccountedAt.replace accounted found redecoded.body redecoded.headerCharge
        redecoded.bodyLease
    · intro loose
      rw [redecoded.refused, redecoded.endStream] at loose
      have unfinished : st.Unfinished := by
        rcases loose with refused | ongoing
        · exact .inr refused
        · refine .inl (Bool.eq_false_iff.mpr fun done => ?_)
          have ended := framed.trailers current kept found done
          exact Bool.false_ne_true (ongoing.symm.trans ended)
      have clean := framed.clean found unfinished
      exact redecoded.clean clean
  | continuationOpen _ _ _ _ found =>
    exact AccountedAt.replace accounted found rfl rfl rfl
  | dataIgnored | dataIdle => exact k.replenish_books accounted f.length
  | dataOnClosed _ _ _ _ _ resets =>
    exact resets.accounted (k.replenish_books accounted f.length)
  | data _ _ _ _ _ found _ receives =>
    refine receives.accounted ?_ (get_put_self ..)
    have spent := k.replenish_books accounted f.length
    rw [Accounted, (k.spend f.length).replenish_frame.1] at spent
    exact AccountedAt.replace spent found rfl rfl rfl

theorem Moves.accounted (moves : Moves k k') (accounted : Accounted k) : Accounted k' := by
  cases moves with
  | writes | goaway => exact accounted
  | drops sid => exact accounted.drop sid
  | expires sid =>
    rw [expire]
    split_ifs
    · exact Accounted.drop (k := { k with discardBlock := _, discarding := true }) accounted sid
    · exact accounted.drop sid

end Core

namespace Conn

/-- In every run the counters are the sums over the receiving streams, every lease holds what
its stream is charged for, and no release ever took out more than a counter held. -/
theorem run_accounts_exactly (config : Config) (events : List Event) :
    AccountedAt config.bodyBudget (run config events).session.streams
      (run config events).session.recv.totalBuffered
      (run config events).session.recv.pendingHeaderBytes
      (run config events).session.released := by
  have accounted := run_invariant (fun k _ => k.Framed) Core.Accounted (run_framed config)
    ⟨rfl, rfl, HashMap.All.empty, fun _ member => nomatch member⟩
    (fun framed accounted handles => handles.accounted framed accounted)
    (fun accounted moves => moves.accounted accounted) events
  have budget := (run_limits config events).2.2
  rw [Core.Accounted, budget] at accounted
  exact accounted

end Conn

end HttpJet.H2
