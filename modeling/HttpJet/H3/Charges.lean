import HttpJet.Library.Runs
import HttpJet.H3.Requests

/-!
# The accounts of a connection

In every run the bytes that a connection counts are the charges of its tracked streams and of the
guards that are alive.  Its maps know the same streams, and the deadlines are those of the streams
that have a timeout.
-/

namespace HttpJet.H3

open List Option

open Hpack.Integer (Octets)
open Library
open HashMap

variable {id : Nat}

/-! ## Deadlines -/

namespace DeadlineKey

variable {key : DeadlineKey} {keys : List DeadlineKey}

theorem mem_insert (fresh : ∀ other ∈ keys, key.same other = false) (other : DeadlineKey) :
    other ∈ key.insert keys ↔ other = key ∨ other ∈ keys := by
  induction keys with
  | nil => exact mem_singleton.trans (or_iff_left (fun listed => nomatch listed)).symm
  | cons first _ ih =>
    rw [insert, if_neg (by rw [fresh first mem_cons_self]; exact Bool.false_ne_true)]
    split_ifs
    · exact mem_cons
    · rw [mem_cons, ih fun other listed => fresh other (mem_cons_of_mem _ listed), mem_cons]
      exact or_left_comm

theorem mem_remove (other : DeadlineKey) :
    other ∈ key.remove keys ↔ other ∈ keys ∧ key.same other = false := by
  rw [remove, mem_filter, Bool.not_eq_true']

theorem same_eq_false :
    ∀ {other : DeadlineKey}, key.sequence ≠ other.sequence → key.same other = false := by
  intro other ne
  rw [same, beq_false_of_ne ne, Bool.and_false]

theorem same_self (key : DeadlineKey) : key.same key = true := by
  rw [same, beq_self_eq_true, beq_self_eq_true]
  rfl

end DeadlineKey

/-- The deadlines are those of the snapshots, each with a number of its own. -/
structure Deadlines (armed : Nat) (snapshots : HashMap Nat RequestSnapshot)
    (keys : List DeadlineKey)
    (next : Nat) : Prop where
  mem : ∀ key, key ∈ keys ↔
    ∃ snapshot, snapshots.get key.stream = some snapshot ∧ snapshot.deadline = some key
  stream : ∀ id snapshot key, snapshots.get id = some snapshot → snapshot.deadline = some key →
    key.stream = id
  timeout : ∀ id snapshot, snapshots.get id = some snapshot →
    snapshot.deadline.isSome = snapshot.config.timeout.isSome
  sequence : ∃ count ≤ armed, next = count % 2 ^ 64 ∧ ∀ key ∈ keys, key.sequence < count
  distinct : ∀ key ∈ keys, ∀ other ∈ keys, key.sequence = other.sequence → key = other

namespace Deadlines

variable {armed next : Nat} {snapshots : HashMap Nat RequestSnapshot} {keys : List DeadlineKey}

section

variable (deadlines : Deadlines armed snapshots keys next)
include deadlines

theorem more : Deadlines (armed + 1) snapshots keys next := by
  obtain ⟨count, _, rest⟩ := deadlines.sequence
  exact ⟨deadlines.mem, deadlines.stream, deadlines.timeout, ⟨count, by omega, rest⟩,
    deadlines.distinct⟩

/-- A stream without a timeout. -/
theorem unarmed (absent : snapshots.get id = none) {config : RequestConfig}
    (none : config.timeout = none) :
    Deadlines armed (snapshots.put id ⟨config, .none, .none⟩) keys next := by
  refine ⟨fun key => ?_, fun other snapshot key found => ?_, fun other snapshot found => ?_,
    deadlines.sequence, deadlines.distinct⟩
  · rw [deadlines.mem, get_put]
    split_ifs with same
    · rw [same, absent]
      refine iff_of_false (fun ⟨_, found, _⟩ => nomatch found) ?_
      rintro ⟨snapshot, found, armed⟩
      obtain rfl := some.inj found
      nomatch armed
    · exact Iff.rfl
  · rcases get_of_put found with ⟨_, rfl⟩ | ⟨_, found⟩
    · exact fun armed => nomatch armed
    · exact deadlines.stream other snapshot key found
  · rcases get_of_put found with ⟨_, rfl⟩ | ⟨_, found⟩
    · rw [none]
      rfl
    · exact deadlines.timeout other snapshot found

theorem put (absent : snapshots.get id = none) (snapshot : RequestSnapshot) {key : DeadlineKey}
    (given : snapshot.deadline = some key) (stream : key.stream = id)
    (timeout : snapshot.config.timeout.isSome = true) (armed' next' : Nat)
    (fresh : ∀ other ∈ keys, key.sequence ≠ other.sequence)
    (counted : ∃ count ≤ armed', next' = count % 2 ^ 64 ∧ key.sequence < count ∧ ∀ other ∈ keys,
      other.sequence < count) :
    Deadlines armed' (snapshots.put id snapshot) (key.insert keys) next' := by
  have inserted :=
    DeadlineKey.mem_insert fun other listed => DeadlineKey.same_eq_false (fresh other listed)
  refine ⟨fun other => ?_, fun other current => ?_, fun other current => ?_, ?_, ?_⟩
  · rw [inserted, deadlines.mem, get_put]
    split_ifs with same
    · rw [same, absent]
      constructor
      · rintro (rfl | ⟨_, found, _⟩)
        · exact ⟨snapshot, rfl, given⟩
        · nomatch found
      · rintro ⟨_, found, armed⟩
        obtain rfl := some.inj found
        exact .inl (some.inj (armed.symm.trans given))
    · refine or_iff_right ?_
      rintro rfl
      exact same stream
  · intro other' found armed
    rcases get_of_put found with ⟨same, rfl⟩ | ⟨_, found⟩
    · rw [same, ← stream, some.inj (armed.symm.trans given)]
    · exact deadlines.stream other current other' found armed
  · intro found
    rcases get_of_put found with ⟨_, rfl⟩ | ⟨_, found⟩
    · rw [given, timeout]
      rfl
    · exact deadlines.timeout other current found
  · obtain ⟨count, few, value, below, others⟩ := counted
    refine ⟨count, few, value, fun other listed => ?_⟩
    rcases (inserted other).mp listed with rfl | old
    · exact below
    · exact others other old
  · intro first listed second other same
    rcases (inserted first).mp listed with rfl | old
    · rcases (inserted second).mp other with rfl | old'
      · rfl
      · exact absurd same (fresh second old')
    · rcases (inserted second).mp other with rfl | old'
      · exact absurd same.symm (fresh first old)
      · exact deadlines.distinct first old second old' same

theorem del (id : Nat) : Deadlines armed (snapshots.del id)
      (match (snapshots.get id).bind RequestSnapshot.deadline with
        | some key => key.remove keys
        | none => keys) next := by
  have listed : ∀ key, (key ∈ match (snapshots.get id).bind RequestSnapshot.deadline with
      | some key => key.remove keys
      | none => keys) ↔ key ∈ keys ∧ key.stream ≠ id := by
    intro key
    cases leaving : (snapshots.get id).bind RequestSnapshot.deadline with
    | none =>
      refine (and_iff_left_of_imp fun listed same => ?_).symm
      obtain ⟨snapshot, found, armed⟩ := (deadlines.mem key).mp listed
      rw [← same, found, bind_some, armed] at leaving
      nomatch leaving
    | some old =>
      obtain ⟨snapshot, found, armed⟩ := bind_eq_some_iff.mp leaving
      have stream := deadlines.stream id snapshot old found armed
      have oldListed := (deadlines.mem old).mpr ⟨snapshot, stream ▸ found, armed⟩
      rw [DeadlineKey.mem_remove]
      refine and_congr_right fun keyListed => ?_
      constructor
      · intro other same
        obtain ⟨_, found', armed'⟩ := (deadlines.mem key).mp keyListed
        rw [same, found] at found'
        obtain rfl := some.inj found'
        obtain rfl := some.inj (armed.symm.trans armed')
        rw [DeadlineKey.same_self] at other
        nomatch other
      · intro other
        refine DeadlineKey.same_eq_false fun same => other ?_
        rw [← deadlines.distinct old oldListed key keyListed same, stream]
  obtain ⟨count, few, value, below⟩ := deadlines.sequence
  refine ⟨fun key => ?_, fun other snapshot key found => ?_, fun other snapshot found => ?_,
    ⟨count, few, value, fun key kept => below key ((listed key).mp kept).1⟩,
    fun key kept other kept' =>
      deadlines.distinct key ((listed key).mp kept).1 other ((listed other).mp kept').1⟩
  · rw [listed, deadlines.mem, get_del]
    split_ifs with same
    · exact iff_of_false (fun both => both.2 same) (fun ⟨_, found, _⟩ => nomatch found)
    · exact and_iff_left same
  · exact deadlines.stream other snapshot key (get_of_del found).2
  · exact deadlines.timeout other snapshot (get_of_del found).2

/-- Only the deadlines and the timeouts of the snapshots matter. -/
theorem congr {old : RequestSnapshot} (found : snapshots.get id = some old)
    (snapshot : RequestSnapshot)
    (deadline : snapshot.deadline = old.deadline) (config : snapshot.config = old.config) :
    Deadlines armed (snapshots.put id snapshot) keys next := by
  refine ⟨fun key => ?_, fun other current key same => ?_, fun other current same => ?_,
    deadlines.sequence, deadlines.distinct⟩
  · rw [deadlines.mem, get_put]
    split_ifs with same
    · rw [same, found]
      simp only [some.injEq, exists_eq_left', deadline]
    · exact Iff.rfl
  · rcases get_of_put same with ⟨equal, rfl⟩ | ⟨_, same⟩
    · rw [deadline, equal]
      exact deadlines.stream id old key found
    · exact deadlines.stream other current key same
  · rcases get_of_put same with ⟨_, rfl⟩ | ⟨_, same⟩
    · rw [deadline, config]
      exact deadlines.timeout id old found
    · exact deadlines.timeout other current same

end

theorem empty {count : Nat} (few : count ≤ armed) : Deadlines armed ∅ [] (count % 2 ^ 64) :=
  ⟨fun _ => iff_of_false nofun (fun ⟨_, found, _⟩ => nomatch found), nofun, nofun,
    ⟨count, few, rfl, nofun⟩, nofun⟩

end Deadlines

/-! ## The counter leaves its charge alone -/

namespace FrameCounter

variable (qpack : Qpack) (limits : RequestLimits)

section

variable (counter : FrameCounter)
include counter

theorem consumeVarint_charged (input : Octets) :
    (counter.consumeVarint input).1.charged = counter.charged := by
  induction input generalizing counter with
  | nil => rfl
  | cons _ _ ih =>
    rw [consumeVarint]
    split_ifs
    · rfl
    · exact ih _
    · rfl
    · exact ih _

theorem decodeHead_charged : (counter.decodeHead qpack limits).charged = counter.charged := by
  rw [decodeHead]
  split <;> rfl

theorem dataFrame_charged (length : Nat) :
    (counter.dataFrame qpack limits length).1.charged = counter.charged := by
  rw [dataFrame]
  split
  · exact decodeHead_charged qpack limits counter
  · split
    · split_ifs <;> exact decodeHead_charged qpack limits counter
    · split_ifs <;> exact decodeHead_charged qpack limits counter
    · split_ifs <;> exact decodeHead_charged qpack limits counter

theorem placePayload_charged (length : Nat) :
    (counter.placePayload qpack limits length).1.charged = counter.charged := by
  rw [placePayload]
  split
  · rw [headersFrame]
    dsimp only
    split_ifs <;> rfl
  split
  · have kept := dataFrame_charged qpack limits counter length
    rw [bodyFrame]
    revert kept
    rcases counter.dataFrame qpack limits length with ⟨_, e | u⟩
    · exact id
    · intro kept
      dsimp only
      split_ifs <;> exact kept
  · rfl

theorem frameLength_charged (length : Nat) :
    (counter.frameLength qpack limits length).1.charged = counter.charged := by
  have counted : (counter.countIdle length).charged = counter.charged := by
    rw [countIdle]
    split_ifs <;> rfl
  rw [frameLength]
  split
  · rfl
  split
  · exact counted
  · have kept := placePayload_charged qpack limits (counter.countIdle length) length
    rw [counted] at kept
    revert kept
    rcases (counter.countIdle length).placePayload qpack limits length with ⟨_, e | _⟩
    · exact id
    · exact id

theorem deposit_charged (body : Octets) (sink : PayloadSink) (payload : Octets) :
    (counter.deposit body sink payload).1.charged = counter.charged := by
  cases sink <;> rfl

end

theorem consumeLoop_charged (fuel : Nat) (counter : FrameCounter) (body input : Octets) :
    (consumeLoop qpack limits fuel counter body input).1.charged = counter.charged := by
  induction fuel generalizing counter body input with
  | zero => rfl
  | succ _ ih =>
    rw [consumeLoop]
    split
    · rfl
    have number := counter.consumeVarint_charged input
    split
    · revert number
      rcases counter.consumeVarint input with ⟨next, rest, value | value⟩
      · exact id
      · exact fun number => (ih _ _ _).trans number
    · revert number
      rcases counter.consumeVarint input with ⟨next, _, value | value⟩
      · exact id
      · intro number
        dsimp only
        have kept := frameLength_charged qpack limits next value
        revert kept
        rcases next.frameLength qpack limits value with ⟨_, e | u⟩
        · exact fun kept => kept.trans number
        · exact fun kept => (ih _ _ _).trans (kept.trans number)
    · exact (ih _ _ _).trans (counter.deposit_charged _ _ _)

end FrameCounter

/-! ## The accounts -/

/-- The bytes that a stream has been charged. -/
def State.charged (s : State) (id : Nat) : Nat := (s.reqFrames.get id).elim 0 FrameCounter.charged

/-- What remains of the charges without a stream. -/
theorem State.total_del_charged (s : State) (id : Nat) :
    (s.reqFrames.del id).total (fun _ frames => frames.charged) + s.charged id =
      s.reqFrames.total fun _ frames => frames.charged :=
  total_del (fun _ => FrameCounter.charged) s.reqFrames id

/-- The accounts balance but for `taken` bytes, which are neither those of a tracked stream
nor those of a guard yet. -/
structure Accounted (armed most taken : Nat) (s : State) : Prop where
  charges : s.totalReqBytes =
    s.reqFrames.total (fun _ frames => frames.charged) + s.guards.sum + taken
  bounded : s.totalReqBytes ≤ most
  exact : s.saturated = false
  leases : ∀ capacity, s.bodyBudget = some capacity → ∀ id,
    (s.bodyLeases.get id).getD 0 = s.charged id
  frames : ∀ id, s.reqFrames.contains id = true → s.requests.contains id = true
  buffers : ∀ id, s.reqBuf.contains id = s.requests.contains id
  snapshots : ∀ id, s.requestSnapshots.contains id = s.requests.contains id
  limits : ∀ id snapshot, s.requestSnapshots.get id = some snapshot →
    snapshot.config.limits.maxConnectionBytes ≤ most
  deadlines : Deadlines armed s.requestSnapshots s.requestDeadlines s.nextRequestDeadlineSequence

namespace Accounted

variable {armed most taken : Nat} {s : State}

theorem initial (budget : Option Nat) : Accounted 0 most 0 { bodyBudget := budget } where
  charges := rfl
  bounded := Nat.zero_le _
  exact := rfl
  leases _ _ _ := rfl
  frames _ found := nomatch found
  buffers _ := rfl
  snapshots _ := rfl
  limits _ _ found := nomatch found
  deadlines := .empty (Nat.le_refl 0)

theorem take (accounted : Accounted armed most 0 s) (id : Nat) :
    Accounted armed most (s.takeRequestForDispatch id).2.frames.charged
      (s.takeRequestForDispatch id).1 where
  charges := by
    have removed := s.total_del_charged id
    have same : (s.takeRequestForDispatch id).2.frames.charged = s.charged id := by
      rw [State.takeRequestForDispatch, State.charged]
      cases s.reqFrames.get id <;> rfl
    have total := accounted.charges
    change s.totalReqBytes = (s.reqFrames.del id).total (fun _ frames => frames.charged) +
      s.guards.sum + _
    omega
  bounded := accounted.bounded
  exact := accounted.exact
  leases capacity budget other := by
    have held := accounted.leases capacity budget other
    simp only [State.charged, State.takeRequestForDispatch, get_del] at held ⊢
    split_ifs
    · rfl
    · exact held
  frames other := by
    have known := accounted.frames other
    simp only [State.takeRequestForDispatch, contains_del, Bool.and_eq_true]
    exact fun both => ⟨both.1, known both.2⟩
  buffers other := by
    simp only [State.takeRequestForDispatch, contains_del, accounted.buffers]
  snapshots other := by
    simp only [State.takeRequestForDispatch, contains_del, accounted.snapshots]
  limits other snapshot found := by
    simp only [State.takeRequestForDispatch, get_del] at found
    split_ifs at found
    exact accounted.limits other snapshot found
  deadlines := accounted.deadlines.del id

section

variable (accounted : Accounted armed most taken s)
include accounted

theorem more : Accounted (armed + 1) most taken s :=
  { accounted with deadlines := accounted.deadlines.more }

theorem release : Accounted armed most 0 (s.releaseRequestCharge taken) :=
  { accounted with
    charges := by
      have total := accounted.charges
      simp only [State.releaseRequestCharge]
      omega
    bounded := (Nat.sub_le _ _).trans accounted.bounded
    exact := by
      have total := accounted.charges
      simp only [State.releaseRequestCharge, accounted.exact, Bool.false_or,
        decide_eq_false_iff_not]
      omega }

theorem guard : Accounted armed most 0 { s with guards := taken :: s.guards } :=
  { accounted with
    charges := by
      have total := accounted.charges
      simp only [sum_cons]
      omega }

end

section

variable (accounted : Accounted armed most 0 s)
include accounted

theorem reclaim (id : Nat) : Accounted armed most 0 (s.reclaimRequest id) :=
  (accounted.take id).release

theorem reclaimBuffered : Accounted armed most 0 s.reclaimBufferedRequests := by
  have emptied : Accounted armed most (s.reqFrames.total fun _ frames => frames.charged) { s with
      requests := ∅
      requestDeadlines := []
      requestSnapshots := ∅
      reqFrames := ∅
      reqBuf := ∅
      bodyLeases := ∅ } :=
    { charges := by
        have total := accounted.charges
        simp only [HashMap.total_empty]
        omega
      bounded := accounted.bounded
      exact := accounted.exact
      leases := fun _ _ _ => rfl
      frames := fun _ found => nomatch found
      buffers := fun _ => rfl
      snapshots := fun _ => rfl
      limits := fun _ _ found => nomatch found
      deadlines := by
        obtain ⟨count, few, value, -⟩ := accounted.deadlines.sequence
        exact value ▸ .empty few }
  exact emptied.release

theorem reclaimExpired (now fuel : Nat) :
    Accounted armed most 0 (State.reclaimExpiredLoop now fuel s).1 := by
  induction fuel generalizing s with
  | zero => exact accounted
  | succ fuel ih =>
    rw [State.reclaimExpiredLoop]
    split
    · exact accounted
    · rename_i id expired
      exact ih (accounted.reclaim id)

theorem dispatch (id : Nat) (shed : Bool) : Accounted armed most 0 (s.dispatch id shed) := by
  have took := accounted.take id
  rw [State.dispatch]
  dsimp only
  split
  · exact took.release
  · exact took.guard

theorem dropGuard (index : Nat) : Accounted armed most 0 (s.dropGuard index) := by
  rw [State.dropGuard]
  split
  · exact accounted
  · rename_i bytes found
    have without : Accounted armed most bytes { s with guards := s.guards.eraseIdx index } :=
      { accounted with
        charges := by
          have total := accounted.charges
          obtain ⟨inside, same⟩ := List.getElem?_eq_some_iff.mp found
          have removed := (getElem_cons_eraseIdx_perm inside).sum_eq
          rw [sum_cons, same] at removed
          change s.totalReqBytes =
            s.reqFrames.total (fun _ frames => frames.charged) +
              (s.guards.eraseIdx index).sum + bytes
          omega }
    exact without.release

theorem track (few : armed < 2 ^ 64) (id acceptedAt : Nat) {config : RequestConfig}
    (within : config.limits.maxConnectionBytes ≤ most) :
    Accounted (armed + 1) most 0 (s.trackRequestStream id acceptedAt config) := by
  rw [State.trackRequestStream]
  split
  · exact accounted.more
  rename_i unknown
  rw [Bool.not_eq_true] at unknown
  have absent : s.requestSnapshots.get id = none :=
    contains_eq_false.mp ((accounted.snapshots id).trans unknown)
  have known : ∀ (snapshot : RequestSnapshot) (keys : List DeadlineKey) (next : Nat),
      snapshot.config = config →
        Deadlines (armed + 1) (s.requestSnapshots.put id snapshot) keys next →
      Accounted (armed + 1) most 0 { s with
        requests := s.requests.put id ()
        reqBuf := s.reqBuf.put id ((s.reqBuf.get id).getD [])
        requestDeadlines := keys
        nextRequestDeadlineSequence := next
        requestSnapshots := s.requestSnapshots.put id snapshot } := by
    intro snapshot keys next same deadlines
    refine ⟨accounted.charges, accounted.bounded, accounted.exact, accounted.leases,
      fun other found => ?_,
      fun other => ?_, fun other => ?_, fun other current found => ?_, deadlines⟩
    · rw [contains_put, accounted.frames other found, Bool.or_true]
    · rw [contains_put, contains_put, accounted.buffers]
    · rw [contains_put, contains_put, accounted.snapshots]
    · rcases get_of_put found with ⟨_, rfl⟩ | ⟨_, found⟩
      · rw [same]
        exact within
      · exact accounted.limits other current found
  cases timeout : config.timeout with
  | none =>
    simp only [State.arm, timeout]
    exact known _ _ _ rfl (accounted.deadlines.unarmed absent timeout).more
  | some =>
    simp only [State.arm, timeout]
    refine known _ _ _ rfl (accounted.deadlines.put absent _ rfl rfl ?_ _ _ ?_ ?_)
    · rw [timeout]
      rfl
    · intro other listed
      obtain ⟨count, small, value, below⟩ := accounted.deadlines.sequence
      have older := below other listed
      dsimp only
      rw [value, Nat.mod_eq_of_lt (by omega)]
      omega
    · obtain ⟨count, _, value, below⟩ := accounted.deadlines.sequence
      have next :
          s.nextRequestDeadlineSequence = count := by rw [value, Nat.mod_eq_of_lt (by omega)]
      refine ⟨count + 1, by omega, by rw [← next], ?_, fun other listed => ?_⟩
      · dsimp only
        omega
      · have older := below other listed
        omega

/-- Only the snapshot of a stream and its deadline change. -/
theorem resnap {old : RequestSnapshot} (found : s.requestSnapshots.get id = some old)
    (snapshot : RequestSnapshot) (config : snapshot.config = old.config) {keys : List DeadlineKey}
    (deadlines : Deadlines armed (s.requestSnapshots.put id snapshot) keys
      s.nextRequestDeadlineSequence) :
    Accounted armed most 0 { s with
      requestDeadlines := keys
      requestSnapshots := s.requestSnapshots.put id snapshot } := by
  refine ⟨accounted.charges, accounted.bounded, accounted.exact, accounted.leases, accounted.frames,
    accounted.buffers, fun other => ?_, fun other current same => ?_, deadlines⟩
  · rw [contains_put_of_contains (HashMap.contains_iff.mpr ⟨old, found⟩)]
    exact accounted.snapshots other
  · rcases get_of_put same with ⟨_, rfl⟩ | ⟨_, same⟩
    · rw [config]
      exact accounted.limits id old found
    · exact accounted.limits other current same

theorem extend (id buffered now : Nat) :
    Accounted armed most 0 (s.extendRequestDeadline id buffered now) := by
  rw [State.extendRequestDeadline]
  split
  · exact accounted
  rename_i snapshot found
  split
  · rename_i timeout key progress hasTimeout hasKey hasProgress
    split
    · rename_i later stays
      exact accounted.resnap found { snapshot with progress := some later } rfl
        (accounted.deadlines.congr found _ rfl rfl)
    · rename_i later when moves
      refine accounted.resnap found
        { snapshot with progress := some later, deadline := some { key with when := when } } rfl ?_
      have left := accounted.deadlines.del id
      rw [found, bind_some, hasKey] at left
      have listed : key ∈ s.requestDeadlines := by
        have stream := accounted.deadlines.stream id snapshot key found hasKey
        exact (accounted.deadlines.mem key).mpr ⟨snapshot, stream ▸ found, hasKey⟩
      rw [← put_del]
      refine left.put (get_del_self _ id)
        { snapshot with progress := some later, deadline := some { key with when := when } } rfl
        (accounted.deadlines.stream id snapshot key found hasKey) ?_ _ _ ?_ ?_
      · rw [hasTimeout]
        rfl
      · intro other kept same
        have different := (DeadlineKey.mem_remove other).mp kept
        have equal := accounted.deadlines.distinct key listed other different.1 same
        rw [equal, DeadlineKey.same_self] at different
        exact absurd different.2 (Bool.noConfusion)
      · obtain ⟨count, small, value, below⟩ := accounted.deadlines.sequence
        exact ⟨count, small, value, below key listed,
          fun other kept => below other ((DeadlineKey.mem_remove other).mp kept).1⟩
  · exact accounted

end

theorem charged_put (s : State) (id other : Nat) (frames : FrameCounter) :
    ((s.reqFrames.put id frames).get other).elim 0 FrameCounter.charged =
      if other = id then frames.charged else s.charged other := by
  rw [get_put]
  split_ifs <;> rfl

section

variable (accounted : Accounted armed most 0 s)
include accounted

theorem frames_put (tracked : s.requests.contains id = true) {other : Nat} {frames : FrameCounter}
    (found : (s.reqFrames.put id frames).contains other = true) :
    s.requests.contains other = true := by
  rw [contains_put, Bool.or_eq_true, decide_eq_true_iff] at found
  rcases found with rfl | found
  · exact tracked
  · exact accounted.frames other found

/-- The counter and the buffer of a tracked stream change, not its charge. -/
theorem store (tracked : s.requests.contains id = true) {frames : FrameCounter}
    (same : frames.charged = s.charged id) (body : Octets) : Accounted armed most 0 { s with
      reqFrames := s.reqFrames.put id frames
      reqBuf := s.reqBuf.put id body } := by
  refine ⟨?_, accounted.bounded, accounted.exact, fun capacity budget other => ?_,
    fun other found => ?_,
    fun other => ?_, accounted.snapshots, accounted.limits, accounted.deadlines⟩
  · have total := accounted.charges
    have removed := s.total_del_charged id
    dsimp only
    rw [total_put]
    omega
  · rw [State.charged, charged_put]
    have held := accounted.leases capacity budget other
    split_ifs with equal
    · rw [same, ← equal]
      exact held
    · exact held
  · exact accounted.frames_put tracked found
  · rw [contains_put_of_contains ((accounted.buffers id).trans tracked)]
    exact accounted.buffers other

theorem reserve_refused {charge inFlight : Nat} {later : State}
    (refused : s.reserve id charge inFlight = (later, false)) : Accounted armed most 0 later := by
  rw [State.reserve] at refused
  split at refused
  · nomatch congrArg Prod.snd refused
  · dsimp only at refused
    split at refused
    · nomatch congrArg Prod.snd refused
    · obtain rfl : _ = later := congrArg Prod.fst refused
      refine { accounted with leases := fun capacity budget other => ?_ }
      have held := accounted.leases capacity budget other
      rw [get_put]
      split_ifs with equal
      · rw [equal] at held
        rw [getD_some, equal]
        exact held
      · exact held

theorem charge {charge inFlight : Nat} {later : State}
    (reserved : s.reserve id charge inFlight = (later, true)) {frames : FrameCounter}
    (found : s.reqFrames.get id = some frames) {charged : FrameCounter}
    (sum : charged.charged = frames.charged + charge) (within : s.totalReqBytes + charge ≤ most) :
    Accounted armed most 0 { later with
      reqFrames := later.reqFrames.put id charged
      totalReqBytes := s.totalReqBytes + charge } := by
  have total := accounted.charges
  have replaced :
      (s.reqFrames.put id charged).total (fun _ frames => frames.charged) + frames.charged =
      charged.charged + s.reqFrames.total fun _ frames => frames.charged :=
        total_put_of_get found charged
  have tracked : s.requests.contains id = true :=
    accounted.frames id (HashMap.contains_iff.mpr ⟨frames, found⟩)
  have framed : ∀ other, (s.reqFrames.put id charged).contains other = true →
      s.requests.contains other = true := fun _ => accounted.frames_put tracked
  rw [State.reserve] at reserved
  split at reserved
  · rename_i none
    obtain rfl : s = later := congrArg Prod.fst reserved
    refine ⟨?_, within, accounted.exact, fun capacity budget => ?_, framed, accounted.buffers,
      accounted.snapshots, accounted.limits, accounted.deadlines⟩
    · dsimp only
      omega
    · rw [none] at budget
      nomatch budget
  · dsimp only at reserved
    split at reserved
    · obtain rfl : _ = later := congrArg Prod.fst reserved
      refine ⟨?_, within, accounted.exact, fun capacity budget other => ?_, framed,
        accounted.buffers,
        accounted.snapshots, accounted.limits, accounted.deadlines⟩
      · dsimp only
        omega
      · have held := accounted.leases capacity budget other
        rw [State.charged, charged_put, get_put]
        split_ifs with equal
        · rw [equal, State.charged, found] at held
          rw [getD_some, sum, held]
          rfl
        · exact held
    · nomatch congrArg Prod.snd reserved

end

variable (qpack : Qpack)

theorem append (accounted : Accounted armed most 0 s) (tracked : s.requests.contains id = true)
    {limits : RequestLimits} (within : limits.maxConnectionBytes ≤ most) (bytes : Octets)
    (inFlight : Nat) :
    Accounted armed most 0 (s.appendRequestBytes qpack id bytes limits inFlight).1 := by
  rw [State.appendRequestBytes]
  dsimp only
  split
  · exact accounted
  have same : (((s.reqFrames.get id).getD {}).consume qpack limits ((s.reqBuf.get id).getD [])
      bytes).1.charged = _ := FrameCounter.consumeLoop_charged ..
  have before : ((s.reqFrames.get id).getD {}).charged = s.charged id := by
    rw [State.charged]
    cases s.reqFrames.get id <;> rfl
  rw [before] at same
  revert same
  rcases ((s.reqFrames.get id).getD {}).consume qpack limits ((s.reqBuf.get id).getD []) bytes with
    ⟨frames, body, e | u⟩
  · exact fun same => accounted.store tracked same body
  intro same
  have stored := accounted.store tracked same body
  dsimp only
  split
  · exact stored
  rename_i fits
  rw [not_or, Nat.not_lt] at fits
  split
  · rename_i later refused
    exact stored.reserve_refused refused
  · rename_i later reserved
    have sum : s.totalReqBytes + bytes.length + (bytes.length +
        (frames.headFootprint - ((s.reqFrames.get id).getD {}).headFootprint) - bytes.length) =
        s.totalReqBytes + (bytes.length +
          (frames.headFootprint - ((s.reqFrames.get id).getD {}).headFootprint)) := by
      omega
    rw [sum] at fits ⊢
    exact stored.charge reserved (get_put_self _ id frames) rfl (fits.2.trans within)

theorem reserve_requests (s : State) (id charge inFlight : Nat) :
    (s.reserve id charge inFlight).1.requests = s.requests := by
  rw [State.reserve]
  split
  · rfl
  · split_ifs <;> rfl

theorem append_requests (s : State) (id : Nat) (bytes : Octets) (limits : RequestLimits)
    (inFlight : Nat) :
    (s.appendRequestBytes qpack id bytes limits inFlight).1.requests = s.requests := by
  rw [State.appendRequestBytes]
  dsimp only
  split
  · rfl
  rcases ((s.reqFrames.get id).getD {}).consume qpack limits ((s.reqBuf.get id).getD []) bytes with
    ⟨frames, body, e | u⟩
  · rfl
  dsimp only
  split
  · rfl
  have kept := reserve_requests
    { s with reqFrames := s.reqFrames.put id frames, reqBuf := s.reqBuf.put id body } id
    (bytes.length + (frames.headFootprint - ((s.reqFrames.get id).getD {}).headFootprint)) inFlight
  split
  · rename_i later refused
    rw [refused] at kept
    exact kept
  · rename_i later reserved
    rw [reserved] at kept
    exact kept

theorem appendChunks (accounted : Accounted armed most 0 s)
    (tracked : s.requests.contains id = true)
    {limits : RequestLimits} (within : limits.maxConnectionBytes ≤ most) (buffered : Option Nat)
    (chunks : List (Octets × Nat)) :
    Accounted armed most 0 (s.appendChunks qpack id limits buffered chunks).1 := by
  induction chunks generalizing s buffered with
  | nil => exact accounted
  | cons chunk _ ih =>
    obtain ⟨bytes, inFlight⟩ := chunk
    have appended := accounted.append qpack tracked within bytes inFlight
    have kept := append_requests qpack s id bytes limits inFlight
    rw [State.appendChunks]
    revert appended kept
    rcases s.appendRequestBytes qpack id bytes limits inFlight with ⟨_, e | length⟩
    · exact fun appended _ => appended
    · exact fun appended kept => ih appended (kept ▸ tracked) (some length)

/-- A snapshot is that of a tracked stream, under limits within the bound. -/
theorem snapshot (accounted : Accounted armed most taken s) {snapshot : RequestSnapshot}
    (found : s.requestSnapshots.get id = some snapshot) :
    s.requests.contains id = true ∧ snapshot.config.limits.maxConnectionBytes ≤ most := by
  refine ⟨?_, accounted.limits id snapshot found⟩
  rw [← accounted.snapshots]
  exact HashMap.contains_iff.mpr ⟨snapshot, found⟩

theorem receive (accounted : Accounted armed most 0 s) (id : Nat) (chunks : List (Octets × Nat))
    (readEnd : ReadEnd) (now : Nat) :
    Accounted armed most 0 (s.receiveRequestStream qpack id chunks readEnd now).1 := by
  rw [State.receiveRequestStream]
  split
  · split_ifs
    · exact accounted.reclaim id
    · exact accounted
  rename_i snapshot found
  obtain ⟨tracked, within⟩ := accounted.snapshot found
  have appended := accounted.appendChunks qpack tracked within none chunks
  revert appended
  rcases s.appendChunks qpack id snapshot.config.limits none chunks with ⟨_, e | _⟩
  · exact fun appended => appended.reclaim id
  intro appended
  cases readEnd with
  | gone => exact appended.reclaim id
  | fin => exact appended
  | opened =>
    dsimp only
    split
    · split_ifs
      · exact appended.extend id _ now
      · exact appended
    · exact appended

end Accounted

/-! ## Runs -/

/-- The number of streams that an event accepts. -/
def State.Event.accepts : State.Event → Nat
  | .track _ _ _ => 1
  | _ => 0

/-- The number of streams that a run accepts. -/
def accepted (events : List State.Event) : Nat := (events.map State.Event.accepts).sum

section runs

variable (qpack : Qpack) {armed most : Nat} {s : State}

theorem Accounted.step (accounted : Accounted armed most 0 s) {e : State.Event}
    (few : armed + e.accepts ≤ 2 ^ 64)
    (within : ∀ id acceptedAt config, e = .track id acceptedAt config →
      config.limits.maxConnectionBytes ≤ most) :
    Accounted (armed + e.accepts) most 0 (s.step qpack e) := by
  cases e with
  | track id acceptedAt config =>
    exact accounted.track few id acceptedAt (within id acceptedAt config rfl)
  | append id bytes inFlight =>
    rw [State.step, State.append]
    split
    · exact accounted
    · rename_i snapshot found
      obtain ⟨tracked, fits⟩ := accounted.snapshot found
      exact accounted.append qpack tracked fits bytes inFlight
  | receive id chunks readEnd now => exact accounted.receive qpack id chunks readEnd now
  | extend id buffered now => exact accounted.extend id buffered now
  | reclaim id => exact accounted.reclaim id
  | expire now => exact accounted.reclaimExpired now _
  | reclaimBuffered => exact accounted.reclaimBuffered
  | dispatch id shed => exact accounted.dispatch id shed
  | dropGuard index => exact accounted.dropGuard index

theorem Accounted.run (accounted : Accounted armed most 0 s) {events : List State.Event}
    (few : armed + accepted events ≤ 2 ^ 64)
    (within : ∀ id acceptedAt config, .track id acceptedAt config ∈ events →
      config.limits.maxConnectionBytes ≤ most) :
    Accounted (armed + accepted events) most 0 (s.run qpack events) := by
  induction events generalizing s armed with
  | nil => exact accounted
  | cons e events ih =>
    have split : accepted (e :: events) = e.accepts + accepted events := sum_cons
    rw [split, ← Nat.add_assoc] at few ⊢
    have first := accounted.step qpack (e := e) (by omega)
      fun id acceptedAt config same => within id acceptedAt config (same ▸ mem_cons_self)
    exact ih first few fun id acceptedAt config listed =>
      within id acceptedAt config (mem_cons_of_mem _ listed)

/-- The accounts of a connection are exact. -/
structure Exact (most : Nat) (s : State) : Prop where
  total : s.totalReqBytes = (s.requests.keys.map s.charged).sum + s.guards.sum
  bounded : s.totalReqBytes ≤ most
  leases : ∀ capacity, s.bodyBudget = some capacity → ∀ id, s.requests.contains id = true →
    (s.bodyLeases.get id).getD 0 = s.charged id
  buffers : ∀ id, s.reqBuf.contains id = s.requests.contains id
  snapshots : ∀ id, s.requestSnapshots.contains id = s.requests.contains id
  deadlines : ∀ id, (∃ key ∈ s.requestDeadlines, key.stream = id) ↔
    ∃ snapshot, s.requestSnapshots.get id = some snapshot ∧ snapshot.config.timeout ≠ none
  unsaturated : s.saturated = false

theorem Accounted.deadline (accounted : Accounted armed most 0 s) (id : Nat) :
    (∃ key ∈ s.requestDeadlines, key.stream = id) ↔
      ∃ snapshot, s.requestSnapshots.get id = some snapshot ∧ snapshot.config.timeout ≠ none := by
  constructor
  · rintro ⟨key, listed, rfl⟩
    obtain ⟨snapshot, found, given⟩ := (accounted.deadlines.mem key).mp listed
    refine ⟨snapshot, found, ?_⟩
    rw [ne_none_iff_isSome, ← accounted.deadlines.timeout _ snapshot found, given]
    rfl
  · rintro ⟨snapshot, found, timeout⟩
    rw [ne_none_iff_isSome, ← accounted.deadlines.timeout id snapshot found] at timeout
    obtain ⟨key, given⟩ := isSome_iff_exists.mp timeout
    have stream := accounted.deadlines.stream id snapshot key found given
    exact ⟨key, (accounted.deadlines.mem key).mpr ⟨snapshot, stream ▸ found, given⟩, stream⟩

theorem Accounted.exact_state (accounted : Accounted armed most 0 s) : Exact most s where
  total := by
    have total := accounted.charges
    have sum :
        s.reqFrames.total (fun _ frames => frames.charged) = (s.requests.keys.map s.charged).sum :=
      total_eq_sum_of_contains (fun _ => FrameCounter.charged) accounted.frames
    omega
  bounded := accounted.bounded
  leases capacity budget id _ := accounted.leases capacity budget id
  buffers := accounted.buffers
  snapshots := accounted.snapshots
  deadlines := accounted.deadline
  unsaturated := accounted.exact

/-- In every run of a connection the accounts are exact; `most` bounds the connection limits of
its streams. -/
theorem run_accounts_exact (budget : Option Nat) (most : Nat) (events : List State.Event)
    (few : accepted events ≤ 2 ^ 64)
    (within : ∀ id acceptedAt config, .track id acceptedAt config ∈ events →
      config.limits.maxConnectionBytes ≤ most) :
    Exact most (State.run qpack { bodyBudget := budget } events) :=
  ((Accounted.initial budget).run qpack (by omega) within).exact_state

end runs

/-- A stream is accepted, charged, dispatched behind a guard and its guard dropped. -/
def guardedRequest : List State.Event :=
  [.track 0 7 ⟨.new 100 100, some 30, 900⟩, .append 0 [0x01, 0x00, 0x00, 0x01, 0x78] 0,
    .dispatch 0 false, .dropGuard 0]

theorem guardedRequest_exact :
    accepted guardedRequest ≤ 2 ^ 64 ∧
      (∀ id acceptedAt config, .track id acceptedAt config ∈ guardedRequest →
        config.limits.maxConnectionBytes ≤ (RequestLimits.new 100 100).maxConnectionBytes) ∧
      Exact (RequestLimits.new 100 100).maxConnectionBytes
        (State.run refusingQpack { bodyBudget := some 1000 } guardedRequest) := by
  have within : ∀ id acceptedAt config, .track id acceptedAt config ∈ guardedRequest →
      config.limits.maxConnectionBytes ≤ (RequestLimits.new 100 100).maxConnectionBytes := by
    intro id acceptedAt config listed
    simp only [guardedRequest, mem_cons, State.Event.track.injEq, reduceCtorEq, not_mem_nil,
      or_false] at listed
    rw [listed.2.2]
  exact ⟨by decide, within,
    run_accounts_exact refusingQpack (some 1000) _ guardedRequest (by decide) within⟩

/-- A stream without a timeout is tracked and has no deadline. -/
theorem untimed_unarmed :
    (State.run refusingQpack {} [.track 0 7 ⟨.new 100 100, none, 900⟩]).requests.contains 0 = true ∧
      (State.run refusingQpack {} [.track 0 7 ⟨.new 100 100, none, 900⟩]).requestDeadlines = [] :=
  ⟨rfl, rfl⟩

end HttpJet.H3
