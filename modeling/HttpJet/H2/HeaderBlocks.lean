import HttpJet.H2.Receiving

/-!
# Receive-side HPACK synchronisation

`Assembly` puts header blocks together from the frames alone.  The connection's decoder has
decoded exactly the complete blocks, in order, whatever became of their streams.
-/

namespace HttpJet.H2

open Hpack Hpack.Integer Library
open HashMap

variable {f : Frame} {block : Octets} {sid : StreamId} {st : StreamState}

/-- The complete header blocks received so far and the one being received. -/
structure Assembly where
  blocks : List Octets := []
  current : Octets := []
  deriving DecidableEq

namespace Assembly

/-- Take a fragment; the flag tells whether it ends the block. -/
def take (a : Assembly) (fragment : Octets) (ended : Bool) : Assembly :=
  if ended then { blocks := a.blocks ++ [fragment], current := [] }
  else { a with current := fragment }

def feed (a : Assembly) (f : Frame) : Assembly :=
  if f.kind = Kind.headers then
    match headersBlock f with
    | some fragment => a.take fragment (f.has Flag.endHeaders)
    | none => a
  else if f.kind = Kind.continuation then
    a.take (a.current ++ f.payload) (f.has Flag.endHeaders)
  else a

theorem feed_other {a : Assembly} (notHeaders : f.kind ≠ Kind.headers)
    (notContinuation : f.kind ≠ Kind.continuation) : a.feed f = a := by
  rw [feed, if_neg notHeaders, if_neg notContinuation]

theorem feed_headers {a : Assembly} (kind : f.kind = Kind.headers)
    (stripped : headersBlock f = some block) : a.feed f = a.take block (f.has Flag.endHeaders) := by
  rw [feed, if_pos kind, stripped]

theorem feed_continuation {a : Assembly} (kind : f.kind = Kind.continuation) :
    a.feed f = a.take (a.current ++ f.payload) (f.has Flag.endHeaders) := by
  rw [feed, if_neg (by rw [kind]; decide), if_pos kind]

end Assembly

/-- The complete header blocks of a sequence of frames, in wire order. -/
def completedBlocks (frames : List Frame) : List Octets :=
  (frames.foldl Assembly.feed {}).blocks

/-- The decoder that has decoded each of the blocks once. -/
def decodeBlocks (decoder : Decoder) (blocks : List Octets) : Decoder :=
  blocks.foldl (fun decoder block => (decoder.decodeOctets block).decoder) decoder

/-- No stream holds a part of a header block. -/
def Blank (streams : HashMap StreamId StreamState) : Prop :=
  streams.All fun _ st => st.headerBlock = []

/-- The decoder and the open block agree with what the frames assemble to. -/
structure SyncedAt (initial : Decoder) (a : Assembly) (streams : HashMap StreamId StreamState)
    (dec : Decoder) (current : Option StreamId) (discarding : Bool) (discardBlock : Octets) :
    Prop where
  dec : dec = decodeBlocks initial a.blocks
  discarded : ∀ {sid}, current = some sid → discarding = true → a.current = discardBlock
  kept : ∀ {sid}, current = some sid → discarding = false →
    ∃ st, streams.get sid = some st ∧ a.current = st.headerBlock
  blank : ∀ {sid st}, streams.get sid = some st → (current ≠ some sid ∨ discarding = true) →
    st.headerBlock = []

namespace SyncedAt

variable {initial dec : Decoder} {a : Assembly} {streams : HashMap StreamId StreamState}
  {discarding : Bool} {discardBlock : Octets}

theorem isBlank (synced : SyncedAt initial a streams dec none discarding discardBlock) :
    Blank streams := fun _ _ found => synced.blank found (.inl (Option.some_ne_none _).symm)

section

variable (same : dec = decodeBlocks initial a.blocks)
include same

/-- Between blocks there is only the decoder to compare. -/
theorem between (blank : Blank streams) :
    SyncedAt initial a streams dec none discarding discardBlock where
  dec := same
  discarded := (nomatch ·)
  kept := (nomatch ·)
  blank found _ := blank _ _ found

/-- A finished block is decoded where it ends. -/
theorem took (blank : Blank streams) :
    SyncedAt initial (a.take block true) streams (dec.decodeOctets block).decoder none discarding
      discardBlock := by
  refine between ?_ blank
  rw [Assembly.take, if_pos rfl, decodeBlocks, List.foldl_append, same]
  rfl

/-- A stream holds the block that is being received. -/
theorem opened (others : Blank (streams.del sid))
    (kept : discarding = false) (gathered : a.current = st.headerBlock) :
    SyncedAt initial a (streams.put sid st) dec (some sid) discarding discardBlock where
  dec := same
  discarded _ discards := nomatch kept.symm.trans discards
  kept current _ := by
    rw [← Option.some.inj current]
    exact ⟨st, get_put_self .., gathered⟩
  blank found elsewhere := by
    rcases elsewhere with other | discards
    · have ne := fun same => other (congrArg some (Eq.symm same))
      rw [get_put_of_ne _ ne] at found
      exact others _ _ ((get_del_of_ne streams ne).trans found)
    · nomatch kept.symm.trans discards

end

/-- Only the stream that owns the open block holds a part of one. -/
theorem others (synced : SyncedAt initial a streams dec (some sid) discarding discardBlock) :
    Blank (streams.del sid) := by
  intro other st found
  obtain ⟨ne, found⟩ := get_of_del found
  exact synced.blank found (.inl fun same => ne (Option.some.inj same).symm)

end SyncedAt

namespace Core

variable {k k' : Core} {outcome : FrameOutcome} {initial : Decoder} {a : Assembly}

/-- After a block no stream holds a part of one, and the decoder is left alone. -/
structure Quiet (k k' : Core) : Prop where
  dec : k'.dec = k.dec
  current : k'.openHeaderBlock = k.openHeaderBlock
  blank : Blank k'.streams

theorem Resets.quiet {error : ErrorCode} (resets : Resets sid error k k' outcome)
    (rest : Blank (k.streams.del sid)) : Quiet k k' := by
  cases resets with
  | counted | exhausted => exact ⟨rfl, rfl, rest⟩

theorem Completes.quiet (completes : Completes sid k k' outcome)
    (rest : Blank (k.streams.del sid)) :
    Quiet k k' := by
  cases completes with
  | dispatched => exact ⟨rfl, rfl, rest⟩
  | refuted resets =>
    have left := resets.quiet (HashMap.All.del rest sid)
    exact ⟨left.dec, left.current, left.blank⟩

theorem Settles.quiet (settles : Settles sid st k k' outcome) (rest : Blank (k.streams.del sid))
    (empty : st.headerBlock = []) (goesOn : outcome ≠ .stopReading) : Quiet k k' := by
  cases settles with
  | garbled => exact absurd rfl goesOn
  | refused _ resets | malformed resets =>
    have left := resets.quiet (HashMap.All.del rest sid)
    exact ⟨left.dec, left.current, left.blank⟩
  | rejected _ _ resets =>
    have left := resets.quiet rest
    exact ⟨left.dec, left.current, left.blank⟩
  | answered => exact ⟨rfl, rfl, rest⟩
  | completed _ completes => exact completes.quiet rest
  | unaffordable resets => exact resets.quiet rest
  | admitted => exact ⟨rfl, rfl, HashMap.All.put rest empty⟩

theorem Receives.quiet {data : Octets} (receives : Receives f data st k k' outcome)
    (rest : Blank (k.streams.del f.streamId)) (empty : st.headerBlock = [])
    (goesOn : outcome ≠ .stopReading) : Quiet k k' := by
  obtain ⟨_, streams⟩ := k.buffer_streams f.streamId st data
    (k.leaseAfter st.bodyLease data.length) (f.has Flag.endStream)
  have current := (k.buffer_frame f.streamId st data
    (k.leaseAfter st.bodyLease data.length) (f.has Flag.endStream)).2.1
  have dec : (k.buffer f.streamId st data (k.leaseAfter st.bodyLease data.length)
      (f.has Flag.endStream)).dec = k.dec := by
    rw [buffer]
    split_ifs <;> rfl
  cases receives with
  | overrun resets =>
    have left := resets.quiet (HashMap.All.del rest f.streamId)
    exact ⟨left.dec, left.current, left.blank⟩
  | refuted _ resets => exact resets.quiet rest
  | rejected _ resets =>
    have left := resets.quiet rest
    exact ⟨left.dec, left.current, left.blank⟩
  | answered => exact ⟨rfl, rfl, rest⟩
  | exhausted => exact absurd rfl goesOn
  | buffered =>
    refine ⟨dec, current, ?_⟩
    rw [streams]
    exact HashMap.All.put rest empty
  | completed _ _ completes =>
    have left := completes.quiet (by rw [streams, del_put]; exact rest)
    exact ⟨left.dec.trans dec, left.current.trans current, left.blank⟩

theorem Quiet.trans {k'' : Core} (first : Quiet k k') (second : Quiet k' k'') : Quiet k k'' :=
  ⟨second.dec.trans first.dec, second.current.trans first.current, second.blank⟩

theorem spent_quiet (k : Core) (n : Nat) (blank : Blank k.streams) :
    Quiet k (k.spend n).replenish := by
  rw [replenish]
  split_ifs <;> exact ⟨rfl, rfl, blank⟩

def Synced (initial : Decoder) (a : Assembly) (k : Core) : Prop :=
  SyncedAt initial a k.streams k.dec k.openHeaderBlock k.discarding k.discardBlock

theorem Quiet.synced (quiet : Quiet k k')
    (closed : k.openHeaderBlock = none) (same : k.dec = decodeBlocks initial a.blocks) :
    Synced initial a k' := by
  rw [Synced, quiet.current, closed]
  exact .between (quiet.dec.trans same) quiet.blank

/-- A block that ends is decoded once, and its stream settles. -/
theorem Quiet.took (quiet : Quiet (k.decoded block) k')
    (closed : k'.openHeaderBlock = none) (same : k.dec = decodeBlocks initial a.blocks) :
    Synced initial (a.take block true) k' := by
  rw [Synced, closed, quiet.dec]
  exact .took same quiet.blank

theorem Discards.synced (discards : Discards f block k k' outcome)
    (closed : f.has Flag.endHeaders = true → k.openHeaderBlock = none)
    (same : k.dec = decodeBlocks initial a.blocks) (blank : Blank k.streams)
    (goesOn : outcome ≠ .stopReading) :
    Synced initial (a.take block (f.has Flag.endHeaders)) k' := by
  cases discards with
  | finished _ ended resets =>
    have left := resets.quiet (HashMap.All.del blank f.streamId)
    rw [ended]
    exact left.took (left.current.trans (closed ended)) same
  | garbled => exact absurd rfl goesOn
  | continues unended =>
    rw [unended]
    exact {
      dec := same
      discarded := fun _ _ => rfl
      kept := fun _ kept => nomatch kept
      blank := fun found _ => blank _ _ found }

theorem Entry.headerBlock_eq {active : Nat} {accepting : Bool}
    (entry : Entry active accepting f k st) (blank : Blank k.streams) : st.headerBlock = [] := by
  cases entry with
  | trailers found => exact blank _ _ found
  | opened => rfl

/-- One frame: the decoder takes the block the frame completes, and no other. -/
theorem Handles.synced {active : Nat} {accepting : Bool}
    (handles : Handles active accepting f k k' outcome) (framed : Framed k)
    (synced : Synced initial a k)
    (goesOn : outcome ≠ .stopReading) : Synced initial (a.feed f) k' := by
  have same := synced.dec
  have blank (closed : k.openHeaderBlock = none) : Blank k.streams := by
    rw [Synced, closed] at synced
    exact synced.isBlank
  have body (kind : f.kind = Kind.data) : a.feed f = a :=
    Assembly.feed_other (by rw [kind]; decide) (by rw [kind]; decide)
  cases handles with
  | noted control | peerGoaway control | settings control
  | credit control =>
    rw [Assembly.feed_other control.notHeaders control.notContinuation]
    exact synced
  | resets control _ _ resets =>
    rw [Assembly.feed_other control.notHeaders control.notContinuation]
    have left := resets.quiet (HashMap.All.del (blank control.closed) f.streamId)
    exact left.synced control.closed same
  | peerReset control =>
    rw [Assembly.feed_other control.notHeaders control.notContinuation]
    have left : Quiet k ((k.drop f.streamId).abort f.streamId) :=
      ⟨rfl, rfl, HashMap.All.del (blank control.closed) f.streamId⟩
    exact left.synced control.closed same
  | headersOnClosed _ kind closed stripped _ _ discards =>
    rw [Assembly.feed_headers kind stripped]
    exact discards.synced (fun _ => closed) same (blank closed) goesOn
  | headersMalformed _ kind closed stripped _ discards =>
    rw [Assembly.feed_headers kind stripped]
    exact discards.synced (fun _ => closed) same (HashMap.All.del (blank closed) f.streamId) goesOn
  | headersEnd block _ _ kind closed stripped entry ended redecoded settles =>
    rw [Assembly.feed_headers kind stripped, ended]
    rw [entry.headerBlock_eq (blank closed), List.nil_append] at settles
    have left := settles.quiet (by
      rw [del_put]
      exact HashMap.All.del (blank closed) f.streamId) redecoded.headerBlock goesOn
    have taken : Quiet (k.decoded block) k' :=
      ⟨left.dec, left.current.trans closed.symm, left.blank⟩
    exact taken.took left.current same
  | headersOpen _ _ kind closed stripped entry unended =>
    rw [Assembly.feed_headers kind stripped, unended]
    have empty := entry.headerBlock_eq (blank closed)
    rw [Framed, closed] at framed
    refine .opened same (HashMap.All.del (blank closed) f.streamId) framed.not_discarding ?_
    rw [empty, List.nil_append]
    rfl
  | continueDiscard kind current discarding discards =>
    have gathered := synced.discarded current discarding
    have blank : Blank k.streams := fun _ _ found => synced.blank found (.inr discarding)
    rw [Assembly.feed_continuation kind, gathered]
    refine discards.synced ?_ ?_ ?_ goesOn
    · exact fun ended => by rw [if_pos ended]; rfl
    · split_ifs <;> exact same
    · split_ifs <;> exact blank
  | continuationEnd _ _ kind current kept found ended redecoded settles =>
    obtain ⟨owner, owned, gathered⟩ := synced.kept current kept
    cases owned.symm.trans found
    rw [Assembly.feed_continuation kind, gathered, ended]
    rw [Synced, current] at synced
    have left := settles.quiet (by
      rw [del_put]
      exact synced.others) redecoded.headerBlock goesOn
    rw [Synced, left.current, left.dec]
    exact .took same left.blank
  | continuationOpen _ kind current kept found unended =>
    obtain ⟨_, owned, gathered⟩ := synced.kept current kept
    cases owned.symm.trans found
    rw [Assembly.feed_continuation kind, gathered, unended]
    rw [Synced, current] at synced
    rw [Synced, show Core.openHeaderBlock _ = some f.streamId from current]
    exact .opened same synced.others kept rfl
  | dataIgnored kind closed =>
    rw [body kind]
    exact (k.spent_quiet f.length (blank closed)).synced closed same
  | dataOnClosed kind closed _ _ _ resets =>
    rw [body kind]
    have spent := k.spent_quiet f.length (blank closed)
    have left := resets.quiet (HashMap.All.del spent.blank f.streamId)
    exact (spent.trans left).synced closed same
  | data _ _ kind closed _ found _ receives =>
    rw [body kind]
    have spent := k.spent_quiet f.length (blank closed)
    have empty := blank closed _ _ found
    have left := receives.quiet (by
      rw [del_put]
      exact HashMap.All.del (blank closed) f.streamId) empty goesOn
    have both : Quiet k k' :=
      ⟨left.dec.trans spent.dec, left.current.trans spent.current, left.blank⟩
    exact both.synced closed same
  | _ => exact absurd rfl goesOn

theorem Moves.synced (moves : Moves k k')
    (synced : Synced initial a k) : Synced initial a k' := by
  have same := synced.dec
  cases moves with
  | writes => exact synced
  | goaway => exact synced
  | drops sid closed =>
    rw [Synced, closed] at synced
    have left : Quiet k (k.drop sid) := ⟨rfl, rfl, HashMap.All.del synced.isBlank sid⟩
    exact left.synced closed same
  | expires sid =>
    rw [expire]
    split_ifs with converts
    · obtain ⟨_, current, kept⟩ := converts
      obtain ⟨st, found, gathered⟩ := synced.kept current kept
      have held : k.held sid = st := by rw [Core.held, found, Option.getD_some]
      rw [Synced, current] at synced
      exact {
        dec := same
        discarded := fun _ _ => gathered.trans (congrArg StreamState.headerBlock held.symm)
        kept := fun _ kept => by cases kept
        blank := fun found _ => synced.others _ _ found }
    · exact {
        dec := same
        discarded := synced.discarded
        kept := fun {other} current kept => by
          obtain ⟨st, found, gathered⟩ := synced.kept current kept
          have ne : other ≠ sid := by
            rintro rfl
            exact converts ⟨contains_iff.mpr ⟨st, found⟩, current, kept⟩
          exact ⟨st, (get_del_of_ne _ ne).trans found, gathered⟩
        blank := fun found => synced.blank (get_of_del found).2 }

end Core

namespace Conn

/-- A request whose block is split over two frames and whose stream expires in between. -/
def splitTrailers : List Event :=
  openRequest ++ [inbound Kind.headers Flag.endStream 1 [0x40, 0x01, 0x61], .expire 1,
      inbound Kind.continuation Flag.endHeaders 1 [0x01, 0x62]]

end Conn

end HttpJet.H2
