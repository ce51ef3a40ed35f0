import HttpJet.H2.Run

/-!
# Receiving streams between frames

While the loop reads, at most one header block is open, every stream with an
unfinished head owns it, and a stream that is refused or whose head is not done
has buffered nothing.
-/

namespace HttpJet.H2

open Hpack Hpack.Integer Library
open HashMap

variable {st : StreamState} {sid : StreamId}

/-- A stream that cannot take DATA yet, or never will. -/
def StreamState.Unfinished (st : StreamState) : Prop := st.headersDone = false ∨ st.refused = true

theorem StreamState.not_unfinished (done : st.headersDone = true) (admitted : st.refused = false) :
    ¬st.Unfinished := by
  rintro (undone | refused)
  · exact Bool.false_ne_true (undone.symm.trans done)
  · exact Bool.false_ne_true (admitted.symm.trans refused)

/-- How the receiving streams stand to the open header block. -/
structure FramedAt (streams : HashMap StreamId StreamState) (last : StreamId)
    (current : Option StreamId) (discarding : Bool) : Prop where
  below : ∀ {sid st}, streams.get sid = some st → sid ≤ last
  unfinished : ∀ {sid st}, streams.get sid = some st → st.Unfinished →
    current = some sid ∧ discarding = false
  clean : ∀ {sid st}, streams.get sid = some st → st.Unfinished →
    st.body = [] ∧ st.headerCharge = 0 ∧ st.bodyLease.getD 0 = 0
  trailers : ∀ {sid st}, current = some sid → discarding = false → streams.get sid = some st →
    st.headersDone = true → st.endStream = true
  opened : ∀ {sid}, current = some sid → sid ≤ last
  discards : discarding = true → current ≠ none

namespace FramedAt

variable {streams : HashMap StreamId StreamState} {last : StreamId} {current : Option StreamId}
  {discarding : Bool}

theorem del (framed : FramedAt streams last current discarding) (sid : StreamId) :
    FramedAt (streams.del sid) last current discarding where
  below found := framed.below (get_of_del found).2
  unfinished found := framed.unfinished (get_of_del found).2
  clean found := framed.clean (get_of_del found).2
  trailers open_ kept found := framed.trailers open_ kept (get_of_del found).2
  opened := framed.opened
  discards := framed.discards

/-- Put a stream beside others that are framed. -/
theorem put (framed : FramedAt (streams.del sid) last current discarding) (below : sid ≤ last)
    (unfinished : st.Unfinished → (current = some sid ∧ discarding = false) ∧ st.body = [] ∧
      st.headerCharge = 0 ∧ st.bodyLease.getD 0 = 0)
    (trailers : current = some sid → st.headersDone = true → st.endStream = true) :
    FramedAt (streams.put sid st) last current discarding := by
  have cases {other : StreamId} {st' : StreamState}
      (found : (streams.put sid st).get other = some st') :
      other = sid ∧ st' = st ∨ (streams.del sid).get other = some st' := by
    rcases get_of_put found with ⟨same, rfl⟩ | ⟨apart, found⟩
    · exact .inl ⟨same, rfl⟩
    · exact .inr ((get_del_of_ne _ apart).trans found)
  constructor
  case below =>
    intro other st' found
    obtain ⟨rfl, rfl⟩ | elsewhere := cases found
    · exact below
    · exact framed.below elsewhere
  case unfinished =>
    intro other st' found pending
    obtain ⟨rfl, rfl⟩ | elsewhere := cases found
    · exact (unfinished pending).1
    · exact framed.unfinished elsewhere pending
  case clean =>
    intro other st' found pending
    obtain ⟨rfl, rfl⟩ | elsewhere := cases found
    · exact (unfinished pending).2
    · exact framed.clean elsewhere pending
  case trailers =>
    intro other st' open_ kept found done
    obtain ⟨rfl, rfl⟩ | elsewhere := cases found
    · exact trailers open_ done
    · exact framed.trailers open_ kept elsewhere done
  case opened => exact framed.opened
  case discards => exact framed.discards

/-- The end of a block: the other streams had nothing open. -/
theorem close (framed : FramedAt streams last (some sid) false) :
    FramedAt (streams.del sid) last none false where
  below found := framed.below (get_of_del found).2
  unfinished found pending := by
    have owner := (framed.unfinished (get_of_del found).2 pending).1
    exact absurd (Option.some.inj owner).symm (get_of_del found).1
  clean found := framed.clean (get_of_del found).2
  trailers open_ := nomatch open_
  opened open_ := nomatch open_
  discards discards := nomatch discards

theorem closeDiscard (framed : FramedAt streams last (some sid) true) :
    FramedAt streams last none false where
  below := framed.below
  unfinished found pending := nomatch (framed.unfinished found pending).2
  clean := framed.clean
  trailers open_ := nomatch open_
  opened open_ := nomatch open_
  discards discards := nomatch discards

section

variable (framed : FramedAt streams last none discarding)
include framed

/-- Between header blocks every stream has its head done and none is refused. -/
theorem finished (found : streams.get sid = some st) :
    st.headersDone = true ∧ st.refused = false := by
  have done : ¬st.Unfinished := fun pending => nomatch (framed.unfinished found pending).1
  rw [StreamState.Unfinished, not_or, Bool.not_eq_false, Bool.not_eq_true] at done
  exact done

theorem not_discarding : discarding = false :=
  Bool.eq_false_iff.mpr fun discards => framed.discards discards rfl

/-- A block that opens for discarding, on a stream that is not receiving. -/
theorem openDiscard (below : sid ≤ last) : FramedAt streams last (some sid) true where
  below := framed.below
  unfinished found pending := nomatch (framed.unfinished found pending).1
  clean := framed.clean
  trailers _ kept := nomatch kept
  opened open_ := Option.some.inj open_ ▸ below
  discards _ := Option.some_ne_none sid

end

/-- The open trailer block of an expired stream goes on in discard mode. -/
theorem expire (framed : FramedAt streams last (some sid) false) :
    FramedAt (streams.del sid) last (some sid) true :=
  framed.close.openDiscard (framed.opened rfl)

theorem raise {last' : StreamId} (framed : FramedAt streams last current discarding)
    (le : last ≤ last') : FramedAt streams last' current discarding where
  below found := (framed.below found).trans le
  unfinished := framed.unfinished
  clean := framed.clean
  trailers := framed.trailers
  opened open_ := (framed.opened open_).trans le
  discards := framed.discards

end FramedAt

namespace Core

variable {k k' : Core} {outcome : FrameOutcome} {f : Frame} {active : Nat} {accepting : Bool}

def Framed (k : Core) : Prop :=
  FramedAt k.streams k.lastClientStream k.openHeaderBlock k.discarding

theorem Resets.framed {error : ErrorCode} (resets : Resets sid error k k' outcome)
    (rest : FramedAt (k.streams.del sid) k.lastClientStream k.openHeaderBlock k.discarding) :
    Framed k' := by
  cases resets with
  | counted => exact rest
  | exhausted => exact rest

theorem Completes.framed (completes : Completes sid k k' outcome)
    (rest : FramedAt (k.streams.del sid) k.lastClientStream k.openHeaderBlock k.discarding) :
    Framed k' := by
  cases completes with
  | dispatched => exact rest
  | refuted resets => exact resets.framed (rest.del sid)

/-- However a stream settles, it has left or its head is done. -/
theorem Settles.framed (settles : Settles sid st k k' outcome) (closed : k.openHeaderBlock = none)
    (rest : FramedAt (k.streams.del sid) k.lastClientStream k.openHeaderBlock k.discarding)
    (below : sid ≤ k.lastClientStream) (goesOn : outcome ≠ .stopReading) : Framed k' := by
  cases settles with
  | garbled => exact absurd rfl goesOn
  | refused _ resets | malformed resets => exact resets.framed (rest.del sid)
  | rejected _ _ resets | unaffordable resets => exact resets.framed rest
  | answered => exact rest
  | completed _ completes => exact completes.framed rest
  | admitted _ _ done _ admitted =>
    refine rest.put below ?_ ?_
    · exact fun pending => absurd pending (StreamState.not_unfinished done admitted)
    · exact fun open_ => nomatch closed.symm.trans open_

theorem Discards.framed {block : Octets} (discards : Discards f block k k' outcome)
    (closed : k.openHeaderBlock = none) (framed : Framed k)
    (below : f.streamId ≤ k.lastClientStream) (goesOn : outcome ≠ .stopReading) : Framed k' := by
  cases discards with
  | finished _ _ resets => exact resets.framed (FramedAt.del framed f.streamId)
  | garbled => exact absurd rfl goesOn
  | continues =>
    rw [Framed, closed] at framed
    exact framed.openDiscard below

theorem buffer_streams (k : Core) (sid : StreamId) (st : StreamState) (data : Octets)
    (lease : Option Nat) (ended : Bool) :
    ∃ window, (k.buffer sid st data lease ended).streams = k.streams.put sid
      { st with body := st.body ++ data, bodyLease := lease, recvWindow := window } := by
  rw [buffer]
  split_ifs <;> exact ⟨_, rfl⟩

theorem buffer_frame (k : Core) (sid : StreamId) (st : StreamState) (data : Octets)
    (lease : Option Nat)
    (ended : Bool) : (k.buffer sid st data lease ended).lastClientStream = k.lastClientStream ∧
      (k.buffer sid st data lease ended).openHeaderBlock = k.openHeaderBlock ∧
      (k.buffer sid st data lease ended).discarding = k.discarding := by
  rw [buffer]
  split_ifs <;> exact ⟨rfl, rfl, rfl⟩

theorem Receives.framed {data : Octets} (receives : Receives f data st k k' outcome)
    (closed : k.openHeaderBlock = none)
    (rest : FramedAt (k.streams.del f.streamId) k.lastClientStream k.openHeaderBlock k.discarding)
    (below : f.streamId ≤ k.lastClientStream)
    (finished : st.headersDone = true ∧ st.refused = false)
    (goesOn : outcome ≠ .stopReading) : Framed k' := by
  obtain ⟨_, streams⟩ := k.buffer_streams f.streamId st data
    (k.leaseAfter st.bodyLease data.length) (f.has Flag.endStream)
  obtain ⟨last, current, discarding⟩ := k.buffer_frame f.streamId st data
    (k.leaseAfter st.bodyLease data.length) (f.has Flag.endStream)
  cases receives with
  | overrun resets => exact resets.framed (rest.del f.streamId)
  | refuted _ resets | rejected _ resets => exact resets.framed rest
  | answered => exact rest
  | exhausted => exact absurd rfl goesOn
  | buffered =>
    rw [Framed, streams, last, current, discarding]
    refine rest.put below ?_ ?_
    · exact fun pending => absurd pending (StreamState.not_unfinished finished.1 finished.2)
    · exact fun open_ => nomatch closed.symm.trans open_
  | completed _ _ completes =>
    refine completes.framed ?_
    rw [streams, last, current, discarding, del_put]
    exact rest

theorem replenish_frame (k : Core) :
    k.replenish.streams = k.streams ∧ k.replenish.lastClientStream = k.lastClientStream ∧
      k.replenish.openHeaderBlock = k.openHeaderBlock ∧ k.replenish.discarding = k.discarding := by
  rw [replenish]
  split_ifs <;> exact ⟨rfl, rfl, rfl, rfl⟩

theorem Framed.replenish (framed : Framed k) (n : Nat) : Framed (k.spend n).replenish := by
  obtain ⟨streams, last, current, discarding⟩ := (k.spend n).replenish_frame
  rw [Framed, streams, last, current, discarding]
  exact framed

theorem Framed.advance (framed : Framed k)
    (above : k.streams.get sid = none → k.lastClientStream < sid) :
    Framed (k.advance sid) ∧ sid ≤ (k.advance sid).lastClientStream := by
  cases found : k.streams.get sid with
  | none =>
    have raised : (k.advance sid).lastClientStream = sid := by
      rw [Core.advance, contains_eq_false.mpr found]
      rfl
    rw [Framed, raised]
    exact ⟨FramedAt.raise framed (above found).le, le_rfl⟩
  | some st =>
    have kept : (k.advance sid).lastClientStream = k.lastClientStream := by
      rw [Core.advance, contains_iff.mpr ⟨st, found⟩]
      rfl
    rw [Framed, kept]
    exact ⟨framed, framed.below found⟩

theorem Entry.above (entry : Entry active accepting f k st) :
    k.streams.get f.streamId = none → k.lastClientStream < f.streamId := by
  cases entry with
  | trailers found => exact fun absent => nomatch absent.symm.trans found
  | opened _ _ _ above => exact fun _ => above

/-- A block that opens: the stream is new and clean, or ends with its trailers. -/
theorem Entry.framed_open {block : Octets} (entry : Entry active accepting f k st)
    (closed : k.openHeaderBlock = none) (framed : Framed k) :
    FramedAt (k.streams.put f.streamId { st with
        headerBlock := st.headerBlock ++ block
        endStream := st.endStream || f.has Flag.endStream })
      (k.advance f.streamId).lastClientStream (some f.streamId) k.discarding := by
  obtain ⟨advanced, below⟩ := framed.advance entry.above
  rw [Framed, show (k.advance f.streamId).openHeaderBlock = none from closed] at advanced
  have kept : k.discarding = false := advanced.not_discarding
  rw [kept]
  have others : FramedAt (k.streams.del f.streamId) (k.advance f.streamId).lastClientStream
      (some f.streamId) false :=
    { below := (advanced.del f.streamId).below
      unfinished := fun found pending =>
        nomatch ((advanced.del f.streamId).unfinished found pending).1
      clean := (advanced.del f.streamId).clean
      trailers := fun open_ _ found =>
        absurd (Option.some.inj open_).symm (get_of_del found).1
      opened := fun open_ => Option.some.inj open_ ▸ below
      discards := nofun }
  refine others.put below ?_ ?_
  · intro pending
    refine ⟨⟨rfl, rfl⟩, ?_⟩
    cases entry with
    | trailers found => exact (framed.clean found pending :)
    | opened => exact ⟨rfl, rfl, rfl⟩
  · intro _ done
    cases entry with
    | trailers _ terminated => simp [terminated done]
    | opened => cases done

theorem Handles.framed (handles : Handles active accepting f k k' outcome) (framed : Framed k)
    (goesOn : outcome ≠ .stopReading) : Framed k' := by
  cases handles with
  | noted | peerGoaway | settings
  | credit => exact framed
  | resets _ _ _ resets => exact resets.framed (FramedAt.del framed f.streamId)
  | peerReset => exact FramedAt.del framed f.streamId
  | headersOnClosed _ _ closed _ _ opened discards =>
    exact discards.framed closed framed opened.2 goesOn
  | headersMalformed _ _ closed _ above discards =>
    obtain ⟨advanced, below⟩ := framed.advance fun absent => (above absent).2
    exact discards.framed closed (FramedAt.del advanced f.streamId) below goesOn
  | headersEnd _ _ _ _ closed _ entry _ _ settles =>
    obtain ⟨advanced, below⟩ := framed.advance entry.above
    refine settles.framed rfl ?_ below goesOn
    rw [Framed, show (k.advance f.streamId).openHeaderBlock = none from closed] at advanced
    rw [del_put]
    exact advanced.del f.streamId
  | headersOpen _ _ _ closed _ entry => exact entry.framed_open closed framed
  | continueDiscard _ current discarding discards =>
    rw [Framed, current, discarding] at framed
    have below := framed.opened rfl
    cases ended : f.has Flag.endHeaders with
    | true =>
      rw [ended, if_pos rfl] at discards
      exact discards.framed rfl framed.closeDiscard below goesOn
    | false =>
      rw [ended] at discards
      cases discards with
      | finished _ ended' => nomatch (ended.symm.trans ended')
      | garbled => exact absurd rfl goesOn
      | continues => exact framed
  | continuationEnd _ _ _ current kept _ _ _ settles =>
    rw [Framed, current, kept] at framed
    refine settles.framed rfl ?_ (framed.opened rfl) goesOn
    have others := framed.close
    rw [← kept] at others
    rw [del_put]
    exact others
  | continuationOpen _ _ _ kept found =>
    refine FramedAt.put (FramedAt.del framed f.streamId) (framed.below found) ?_ ?_
    · exact fun pending => ⟨(framed.unfinished found pending :), (framed.clean found pending :)⟩
    · exact fun open_ done => (framed.trailers open_ kept found done :)
  | dataIgnored => exact framed.replenish f.length
  | dataOnClosed _ _ _ _ _ resets =>
    exact resets.framed (FramedAt.del (framed.replenish f.length) f.streamId)
  | data _ _ _ closed _ found _ receives =>
    have spent := framed.replenish f.length
    obtain ⟨streams, last, current, _⟩ := (k.spend f.length).replenish_frame
    have below := framed.below found
    rw [Framed, closed] at framed
    have finished := framed.finished found
    refine receives.framed (current.trans closed) ?_ (last ▸ below) finished goesOn
    rw [Framed, streams] at spent
    rw [del_put]
    exact spent.del f.streamId
  | _ => exact absurd rfl goesOn

theorem Moves.framed (moves : Moves k k') (framed : Framed k) : Framed k' := by
  cases moves with
  | writes => exact framed
  | goaway => exact framed
  | drops sid => exact FramedAt.del framed sid
  | expires sid =>
    rw [expire]
    split_ifs with converts
    · rw [Framed, converts.2.1, converts.2.2] at framed
      have converted := framed.expire
      rw [← converts.2.1] at converted
      exact converted
    · exact FramedAt.del framed sid

end Core

theorem Conn.run_framed (config : Config) (events : List Event) :
    Live (run config events) → (run config events).session.core.Framed := by
  refine live_invariant (fun k _ => k.Framed) ?_ ?_ ?_ events
  · exact {
      below := (nomatch ·)
      unfinished := (nomatch ·)
      clean := (nomatch ·)
      trailers := (nomatch ·)
      opened := (nomatch ·)
      discards := (nomatch ·) }
  · exact fun framed handles goesOn => handles.framed framed goesOn
  · exact fun framed moves => moves.framed framed

end HttpJet.H2
