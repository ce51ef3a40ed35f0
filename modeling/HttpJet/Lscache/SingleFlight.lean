import HttpJet.Library.HashMap

/-!
# Single flight

`InflightRegistry` collapses the concurrent misses of a page into one render; `RefreshRegistry`
bounds the background refreshes.  Each operation on a map, an atomic, a semaphore or a `Notify` is a
step.  A `Notify` is the number of its `notify_waiters` calls: a `Notified` is ready once there was
one after it.
-/

namespace HttpJet.Lscache

open Library
open HashMap

abbrev StateId := Nat
abbrev FollowerId := Nat

/-! ## Leaders and followers -/

/-- The last step of an `InflightLeader`'s drop that is over. -/
inductive Stage where
  | leading
  | removed
  | completed
  | dropped
  deriving DecidableEq

/-- An `InflightState` and the one leader it was made for. -/
structure Flight where
  keyHash : UInt64
  tag : UInt64
  registered : Bool
  completed : Bool := false
  /-- Calls of `notify_waiters`. -/
  calls : Nat := 0
  stage : Stage := .leading
  deriving DecidableEq

/-- Where a call of `wait` stands; a `Notified` future keeps the calls made before it. -/
inductive Wait where
  | started
  | checked
  | notified (calls : Nat)
  | enabled (calls : Nat)
  | awaiting (calls : Nat)
  | returned
  deriving DecidableEq

structure InflightFollower where
  state : StateId
  /-- The tag of the request that follows. -/
  tag : UInt64
  wait : Wait
  deriving DecidableEq

/-- The next step of `wait`, if it is not pending or over. -/
def Wait.next (flight : Flight) : Wait → Option Wait
  | .started => some (if flight.completed then .returned else .checked)
  | .checked => some (.notified flight.calls)
  | .notified calls => some (.enabled calls)
  | .enabled calls => some (if flight.completed then .returned else .awaiting calls)
  | .awaiting calls => if flight.calls = calls then none else some .returned
  | .returned => none

structure InflightRegistry where
  map : HashMap UInt64 StateId
  flights : HashMap StateId Flight
  followers : HashMap FollowerId InflightFollower

namespace InflightRegistry

/-- `enter`: a new state, or a new follower of the state under the key. -/
def enter (s : InflightRegistry) (keyHash tag : UInt64) (state : StateId) (who : FollowerId) :
    InflightRegistry :=
  match s.map.get keyHash with
  | some other =>
    if (s.flights.get other).map Flight.tag = some tag then
      { s with followers := s.followers.put who ⟨other, tag, .started⟩ }
    else { s with flights := s.flights.put state { keyHash, tag, registered := false } }
  | none =>
    { s with
      map := s.map.put keyHash state
      flights := s.flights.put state { keyHash, tag, registered := true } }

/-- The next step of a leader's `drop`. -/
def drop (s : InflightRegistry) (state : StateId) (flight : Flight) : InflightRegistry :=
  match flight.stage with
  | .leading =>
    { s with
      map := if flight.registered then s.map.del flight.keyHash else s.map
      flights := s.flights.put state { flight with stage := .removed } }
  | .removed =>
    { s with flights := s.flights.put state { flight with completed := true, stage := .completed } }
  | .completed =>
    { s with
      flights := s.flights.put state { flight with calls := flight.calls + 1, stage := .dropped } }
  | .dropped => s

inductive Step (s : InflightRegistry) : InflightRegistry → Prop
  | enters (keyHash tag : UInt64) (state : StateId) (who : FollowerId)
      (fresh : s.flights.get state = none) : Step s (s.enter keyHash tag state who)
  | drops (state : StateId) (flight : Flight) (found : s.flights.get state = some flight) :
      Step s (s.drop state flight)
  | waits (who : FollowerId) (follower : InflightFollower) (flight : Flight) (next : Wait)
      (found : s.followers.get who = some follower)
      (led : s.flights.get follower.state = some flight)
      (goes : follower.wait.next flight = some next) :
      Step s { s with followers := s.followers.put who { follower with wait := next } }
  /-- The follower or a clone of it calls `wait` anew. -/
  | again (who other : FollowerId) (follower : InflightFollower)
      (found : s.followers.get who = some follower) :
      Step s { s with followers := s.followers.put other { follower with wait := .started } }

def Reachable : InflightRegistry → Prop := Relation.ReflTransGen Step ⟨∅, ∅, ∅⟩

/-- A leader whose drop has not begun and that owns a slot. -/
def Live (s : InflightRegistry) (keyHash : UInt64) (state : StateId) : Prop :=
  ∃ flight, s.flights.get state = some flight ∧ flight.keyHash = keyHash ∧
    flight.registered = true ∧ flight.stage = .leading

end InflightRegistry

open InflightRegistry

variable {s s' : InflightRegistry} {state : StateId} {flight flight' : Flight}

/-- What a drop has told the followers. -/
def Stage.told : Stage → Bool × Nat
  | .leading | .removed => (false, 0)
  | .completed => (true, 0)
  | .dropped => (true, 1)

/-- A future that is awaited was made before the leader completed. -/
def Wait.Fits (flight : Flight) : Wait → Prop
  | .notified calls | .enabled calls => calls ≤ flight.calls
  | .awaiting calls => calls = 0
  | _ => True

structure Sound (s : InflightRegistry) : Prop where
  map : ∀ keyHash state, s.map.get keyHash = some state ↔ s.Live keyHash state
  told : ∀ {state flight}, s.flights.get state = some flight →
    (flight.completed, flight.calls) = flight.stage.told
  follows : ∀ {who follower}, s.followers.get who = some follower →
    ∃ flight, s.flights.get follower.state = some flight ∧ flight.tag = follower.tag ∧
      follower.wait.Fits flight

theorem Wait.Fits.mono {wait : Wait} (fits : wait.Fits flight)
    (more : flight.calls ≤ flight'.calls) :
    wait.Fits flight' := by
  cases wait with
  | notified | enabled => exact Nat.le_trans fits more
  | _ => exact fits

namespace Sound

section

variable (sound : Sound s)
include sound

/-- A state is new or its drop goes on. -/
theorem put {map : HashMap UInt64 StateId}
    (told : (flight'.completed, flight'.calls) = flight'.stage.told)
    (grows : ∀ flight, s.flights.get state = some flight → flight'.tag = flight.tag ∧
      flight.calls ≤ flight'.calls)
    (slots : ∀ keyHash id, map.get keyHash = some id ↔
      if id = state then flight'.keyHash = keyHash ∧ flight'.registered = true ∧
        flight'.stage = .leading else s.map.get keyHash = some id) :
    Sound { s with map := map, flights := s.flights.put state flight' } where
  map keyHash id := by
    rw [slots, Live, get_put]
    split_ifs with same
    · simp
    · exact sound.map keyHash id
  told found := by
    rcases get_of_put found with ⟨_, rfl⟩ | ⟨_, found⟩
    · exact told
    · exact sound.told found
  follows {who follower} found := by
    obtain ⟨flight, led, tagged, fits⟩ := sound.follows found
    by_cases same : follower.state = state
    · obtain ⟨tag, more⟩ := grows flight (same ▸ led)
      exact ⟨flight', same ▸ get_put_self .., tag.trans tagged, fits.mono more⟩
    · exact ⟨flight, (get_put_of_ne _ same _).trans led, tagged, fits⟩

/-- A call of `wait` starts or goes on. -/
theorem follow (who : FollowerId) {follower : InflightFollower}
    (led : s.flights.get follower.state = some flight) (tagged : flight.tag = follower.tag)
    (fits : follower.wait.Fits flight) :
    Sound { s with followers := s.followers.put who follower } where
  map := sound.map
  told := sound.told
  follows found := by
    rcases get_of_put found with ⟨_, rfl⟩ | ⟨_, found⟩
    · exact ⟨flight, led, tagged, fits⟩
    · exact sound.follows found

theorem enter (keyHash tag : UInt64) (who : FollowerId) (fresh : s.flights.get state = none) :
    Sound (s.enter keyHash tag state who) := by
  have new (keyHash : UInt64) : s.map.get keyHash ≠ some state := by
    intro slot
    obtain ⟨_, found, -⟩ := (sound.map ..).mp slot
    nomatch fresh.symm.trans found
  rw [InflightRegistry.enter]
  split
  · split_ifs with same
    · obtain ⟨flight, led, rfl⟩ := Option.map_eq_some_iff.mp same
      exact sound.follow who led rfl trivial
    · refine sound.put rfl (fun _ found => nomatch fresh.symm.trans found) fun key id => ?_
      split_ifs with here
      · simp [here, new]
      · rfl
  · rename_i vacant
    refine sound.put rfl (fun _ found => nomatch fresh.symm.trans found) fun key id => ?_
    rw [get_put]
    split_ifs with same here here
    · simp [same, here]
    · simp [same, Ne.symm here, vacant]
    · simp [here, new, Ne.symm same]
    · rfl

theorem drop (found : s.flights.get state = some flight) : Sound (s.drop state flight) := by
  have told := sound.told found
  have only (flight' : Flight) (found' : s.flights.get state = some flight') : flight' = flight :=
    Option.some.inj (found'.symm.trans found)
  have own (key : UInt64) : s.map.get key = some state ↔
      flight.keyHash = key ∧ flight.registered = true ∧ flight.stage = .leading := by
    rw [sound.map, Live, found]
    simp
  rw [InflightRegistry.drop]
  cases stage : flight.stage with
  | leading =>
    rw [stage] at told own
    refine sound.put told (fun _ found' => only _ found' ▸ ⟨rfl, le_rfl⟩) fun key id => ?_
    cases registered : flight.registered with
    | true =>
      rw [if_pos rfl, get_del]
      split_ifs with same here here
      · simp
      · simp [same, (own flight.keyHash).mpr ⟨rfl, registered, rfl⟩, Ne.symm here]
      · simp [here, own, Ne.symm same]
      · rfl
    | false =>
      rw [if_neg Bool.false_ne_true]
      split_ifs with here
      · simp [here, own, registered]
      · rfl
  | removed | completed =>
    rw [stage] at told own
    obtain ⟨completed, calls⟩ := Prod.mk.inj told
    refine sound.put (by simp [Stage.told, completed, calls])
      (fun _ found' => only _ found' ▸ ⟨rfl, by simp⟩) fun key id => ?_
    split_ifs with here
    · simp [here, own]
    · rfl
  | dropped => exact sound

/-- A `wait` goes on by itself. -/
theorem waits {who : FollowerId} {follower : InflightFollower} {next : Wait}
    (found : s.followers.get who = some follower) (led : s.flights.get follower.state = some flight)
    (goes : follower.wait.next flight = some next) :
    Sound { s with followers := s.followers.put who { follower with wait := next } } := by
  obtain ⟨flight', led', tagged, fits⟩ := sound.follows found
  obtain rfl := Option.some.inj (led'.symm.trans led)
  refine sound.follow who led tagged ?_
  have told := sound.told led
  generalize follower.wait = wait at goes fits
  cases wait with
  | started =>
    cases goes
    split_ifs <;> trivial
  | checked =>
    cases goes
    exact Nat.le_refl flight'.calls
  | notified =>
    cases goes
    exact fits
  | enabled =>
    cases goes
    split_ifs with completed
    · trivial
    · refine Nat.le_zero.mp (Nat.le_trans fits ?_)
      cases stage : flight'.stage <;> simp_all [Stage.told]
  | awaiting =>
    rw [Wait.next] at goes
    split_ifs at goes
    cases goes
    trivial
  | returned => cases goes

end

end Sound

theorem InflightRegistry.Reachable.sound (reached : Reachable s) : Sound s := by
  induction reached with
  | refl =>
    refine ⟨fun key state => ⟨nofun, ?_⟩, nofun, nofun⟩
    rintro ⟨flight, found, -⟩
    cases found
  | tail _ step ih =>
    cases step with
    | enters keyHash tag _ who fresh => exact ih.enter keyHash tag who fresh
    | drops _ _ found => exact ih.drop found
    | waits _ _ _ _ found led goes => exact ih.waits found led goes
    | again _ other _ found =>
      obtain ⟨_, led, tagged, -⟩ := ih.follows found
      exact ih.follow other led tagged trivial

/-- Nothing changes a state whose leader is gone. -/
theorem InflightRegistry.Step.get_dropped (step : Step s s')
    (found : s.flights.get state = some flight)
    (gone : flight.stage = .dropped) : s'.flights.get state = some flight := by
  cases step with
  | enters _ _ other _ fresh =>
    have apart : state ≠ other := by
      rintro rfl
      nomatch fresh.symm.trans found
    rw [enter]
    split
    · split_ifs
      · exact found
      · exact (get_put_of_ne _ apart _).trans found
    · exact (get_put_of_ne _ apart _).trans found
  | drops other _ found' =>
    rw [drop]
    by_cases same : state = other
    · subst same
      obtain rfl := Option.some.inj (found.symm.trans found')
      rw [gone]
      exact found
    · split <;> first | exact (get_put_of_ne _ same _).trans found | exact found
  | waits | again => exact found

/-- After the drop of its leader no step of a `wait` is pending, and three are enough. -/
theorem Wait.Fits.returns {wait : Wait} (fits : wait.Fits flight)
    (told : (flight.completed, flight.calls) = Stage.told .dropped) :
    ∃ n ≤ 3, (· >>= Wait.next flight)^[n] (some wait) = some .returned := by
  obtain ⟨completed, calls⟩ := Prod.mk.inj told
  cases wait with
  | started => exact ⟨1, by decide, by simp [Wait.next, completed]⟩
  | checked => exact ⟨3, by decide, by simp [Wait.next, completed]⟩
  | notified => exact ⟨2, by decide, by simp [Wait.next, completed]⟩
  | enabled => exact ⟨1, by decide, by simp [Wait.next, completed]⟩
  | awaiting =>
    refine ⟨1, by decide, ?_⟩
    rw [Wait.Fits] at fits
    simp [Wait.next, calls, fits]
  | returned => exact ⟨0, by decide, rfl⟩

/-! ## Background refreshes -/

inductive RefreshStart where
  | started
  | duplicate
  | saturated
  | unavailable
  deriving DecidableEq

/-- What a permit is held for: a call of `try_begin`, a guard, or nothing more. -/
inductive Hold where
  | permitted
  | live
  | over
  deriving DecidableEq

structure RefreshRegistry where
  inflight : HashMap UInt64 Unit
  /-- The permits that are free. -/
  permits : Nat
  holders : HashMap Nat (UInt64 × Hold)

namespace RefreshRegistry

def new (maxConcurrent : Nat) : RefreshRegistry := ⟨∅, max maxConcurrent 1, ∅⟩

/-- `try_acquire_owned` -/
def acquire (r : RefreshRegistry) (id : Nat) (keyHash : UInt64) : Option RefreshRegistry :=
  if r.permits = 0 then none
  else some { r with permits := r.permits - 1, holders := r.holders.put id (keyHash, .permitted) }

def claim (r : RefreshRegistry) (id : Nat) (keyHash : UInt64) : RefreshRegistry × RefreshStart :=
  if r.inflight.contains keyHash then
    ({ r with holders := r.holders.put id (keyHash, .over) }, .duplicate)
  else
    ({ r with
        inflight := r.inflight.put keyHash ()
        holders := r.holders.put id (keyHash, .live) }, .started)

/-- A guard's drop frees the slot before the permit. -/
def remove (r : RefreshRegistry) (id : Nat) (keyHash : UInt64) : RefreshRegistry :=
  { r with inflight := r.inflight.del keyHash, holders := r.holders.put id (keyHash, .over) }

def release (r : RefreshRegistry) (id : Nat) : RefreshRegistry :=
  { r with permits := r.permits + 1, holders := r.holders.del id }

/-- `try_begin_detailed`, if no other thread takes a step during it. -/
def tryBeginDetailed (r : RefreshRegistry) (id : Nat) (keyHash : UInt64) :
    RefreshRegistry × RefreshStart :=
  match r.acquire id keyHash with
  | none => (r, .saturated)
  | some r =>
    match r.claim id keyHash with
    | (r, .started) => (r, .started)
    | (r, start) => (r.release id, start)

inductive Step (r : RefreshRegistry) : RefreshRegistry → Prop
  | acquires (id : Nat) (keyHash : UInt64) (r' : RefreshRegistry) (fresh : r.holders.get id = none)
      (taken : r.acquire id keyHash = some r') : Step r r'
  | claims (id : Nat) (keyHash : UInt64) (found : r.holders.get id = some (keyHash, .permitted)) :
      Step r (r.claim id keyHash).1
  | removes (id : Nat) (keyHash : UInt64) (found : r.holders.get id = some (keyHash, .live)) :
      Step r (r.remove id keyHash)
  | releases (id : Nat) (keyHash : UInt64) (found : r.holders.get id = some (keyHash, .over)) :
      Step r (r.release id)

def Reachable (maxConcurrent : Nat) : RefreshRegistry → Prop :=
  Relation.ReflTransGen Step (new maxConcurrent)

/-- Every permit is free or held, and a live guard owns the slot of its key. -/
structure Sound (maxConcurrent : Nat) (r : RefreshRegistry) : Prop where
  balance : r.permits + r.holders.size = max maxConcurrent 1
  slots : ∀ {id keyHash}, r.holders.get id = some (keyHash, .live) →
    r.inflight.contains keyHash = true
  alone : ∀ {id id' keyHash}, r.holders.get id = some (keyHash, .live) →
    r.holders.get id' = some (keyHash, .live) → id = id'

variable {maxConcurrent : Nat} {r r' : RefreshRegistry}

/-- No guard begins, and those left keep their slots. -/
theorem Sound.quiet (sound : Sound maxConcurrent r)
    (balance : r'.permits + r'.holders.size = r.permits + r.holders.size)
    (kept : ∀ {id keyHash}, r'.holders.get id = some (keyHash, .live) →
      r.holders.get id = some (keyHash, .live) ∧ r'.inflight.contains keyHash = true) :
    Sound maxConcurrent r' where
  balance := balance.trans sound.balance
  slots found := (kept found).2
  alone found found' := sound.alone (kept found).1 (kept found').1

theorem live_of_put {id other : Nat} {keyHash keyHash' : UInt64} {hold : Hold}
    (found : (r.holders.put id (keyHash, hold)).get other = some (keyHash', .live))
    (dead : hold ≠ .live) : other ≠ id ∧ r.holders.get other = some (keyHash', .live) := by
  rcases get_of_put found with ⟨-, same⟩ | known
  · exact absurd (Prod.mk.inj same).2 dead
  · exact known

theorem Sound.claim (sound : Sound maxConcurrent r) {id : Nat} {keyHash : UInt64}
    (found : r.holders.get id = some (keyHash, .permitted)) :
    Sound maxConcurrent (r.claim id keyHash).1 := by
  rw [RefreshRegistry.claim]
  split_ifs with occupied
  · have size := size_put_of_get found (keyHash, Hold.over)
    refine sound.quiet (congrArg (r.permits + ·) size) fun found' => ?_
    have known := (live_of_put found' (by simp)).2
    exact ⟨known, sound.slots known⟩
  · have size := size_put_of_get found (keyHash, Hold.live)
    refine ⟨(congrArg (r.permits + ·) size).trans sound.balance, fun found => ?_,
      fun found found' => ?_⟩
    · rw [contains_put]
      rcases get_of_put found with ⟨-, same⟩ | ⟨-, found⟩
      · cases same
        simp
      · simp [sound.slots found]
    · rcases get_of_put found with ⟨rfl, same⟩ | ⟨-, found⟩
      · cases same
        rcases get_of_put found' with ⟨rfl, -⟩ | ⟨-, found'⟩
        · rfl
        · exact absurd (sound.slots found') occupied
      · rcases get_of_put found' with ⟨-, same⟩ | ⟨-, found'⟩
        · cases same
          exact absurd (sound.slots found) occupied
        · exact sound.alone found found'

theorem Step.sound (step : Step r r') (sound : Sound maxConcurrent r) : Sound maxConcurrent r' := by
  cases step with
  | acquires _ keyHash _ fresh taken =>
    rw [acquire] at taken
    split_ifs at taken with none
    cases taken
    have size := size_put_of_none fresh (keyHash, Hold.permitted)
    refine sound.quiet (by dsimp only; omega) fun found => ?_
    have known := (live_of_put found nofun).2
    exact ⟨known, sound.slots known⟩
  | claims _ _ found => exact sound.claim found
  | removes _ keyHash found =>
    have size := size_put_of_get found (keyHash, Hold.over)
    refine sound.quiet (congrArg (r.permits + ·) size) fun {other key} found' => ?_
    obtain ⟨apart, known⟩ := live_of_put found' nofun
    have free : key ≠ keyHash := by
      rintro rfl
      exact apart (sound.alone known found)
    exact ⟨known, by simp [remove, contains_del, free, sound.slots known]⟩
  | releases _ _ found =>
    have size := size_del_of_get found
    refine sound.quiet (by dsimp only [release]; omega) fun found => ?_
    have known := (get_of_del found).2
    exact ⟨known, sound.slots known⟩

theorem Reachable.sound (reached : Reachable maxConcurrent r) : Sound maxConcurrent r := by
  induction reached with
  | refl => exact ⟨rfl, nofun, nofun⟩
  | tail _ step ih => exact step.sound ih

theorem tryBeginDetailed_refused {id : Nat} {keyHash : UInt64} (fresh : r.holders.get id = none)
    (refused : (r.tryBeginDetailed id keyHash).2 ≠ .started) :
    (r.tryBeginDetailed id keyHash).1 = r := by
  rw [tryBeginDetailed, acquire] at refused ⊢
  split_ifs at refused ⊢ with none
  · rfl
  · dsimp only [RefreshRegistry.claim] at refused ⊢
    split_ifs at refused ⊢
    · dsimp only [release]
      rw [del_put, del_put, del_of_none fresh, Nat.sub_add_cancel (Nat.pos_of_ne_zero none)]
    · exact absurd rfl refused

end RefreshRegistry

/-- At most one registered leader for a key; a request follows its own tag and does not hang;
background refreshes stay within their slots and permits. -/
theorem single_flight {maxConcurrent : Nat} {r : RefreshRegistry} (reached : s.Reachable)
    (refreshes : r.Reachable maxConcurrent) :
    (∀ keyHash state state', s.Live keyHash state → s.Live keyHash state' → state = state') ∧
    (∀ keyHash state, s.map.get keyHash = some state ↔ s.Live keyHash state) ∧
    (∀ who follower, s.followers.get who = some follower →
      ∃ flight, s.flights.get follower.state = some flight ∧ flight.tag = follower.tag ∧
        (flight.stage = .dropped →
          (∃ n ≤ 3, (· >>= Wait.next flight)^[n] (some follower.wait) = some .returned) ∧
          ∀ s', Relation.ReflTransGen Step s s' → s'.flights.get follower.state = some flight)) ∧
    (∀ state flight, s.flights.get state = some flight → flight.registered = false →
      (s.drop state flight).map = s.map) ∧
    (∀ id id' keyHash, r.holders.get id = some (keyHash, .live) →
      r.holders.get id' = some (keyHash, .live) → id = id') ∧
    r.holders.size ≤ max maxConcurrent 1 ∧
    (∀ id keyHash, r.holders.get id = none → (r.tryBeginDetailed id keyHash).2 ≠ .started →
      (r.tryBeginDetailed id keyHash).1 = r) ∧
    ∀ id keyHash, (r.claim id keyHash).2 ≠ .started →
      (r.claim id keyHash).1.inflight = r.inflight ∧
        (r.claim id keyHash).1.permits = r.permits := by
  have sound := reached.sound
  have refreshing := RefreshRegistry.Reachable.sound refreshes
  refine ⟨fun key state state' live live' => ?_, sound.map, fun who follower found => ?_,
    fun state flight found unregistered => ?_, fun id id' key => refreshing.alone,
    Nat.le_trans (Nat.le_add_left ..) refreshing.balance.le,
    fun id key => RefreshRegistry.tryBeginDetailed_refused, fun id key refused => ?_⟩
  · exact Option.some.inj (((sound.map ..).mpr live).symm.trans ((sound.map ..).mpr live'))
  · obtain ⟨flight, led, tagged, fits⟩ := sound.follows found
    refine ⟨flight, led, tagged, fun gone =>
      ⟨fits.returns (gone ▸ sound.told led), fun s' run => ?_⟩⟩
    induction run with
    | refl => exact led
    | tail _ step ih => exact step.get_dropped ih gone
  · rw [InflightRegistry.drop, unregistered]
    cases flight.stage <;> rfl
  · rw [RefreshRegistry.claim] at refused ⊢
    split_ifs at refused ⊢
    · exact ⟨rfl, rfl⟩
    · exact absurd rfl refused

/-- The drop falls between the last check of a `wait` and its end. -/
theorem single_flight_awaiting : ∃ s flight, InflightRegistry.Reachable s ∧
    s.followers.get 0 = some ⟨0, 9, .awaiting 0⟩ ∧ s.flights.get 0 = some flight ∧
    flight.stage = .dropped ∧ ∃ n ≤ 3,
      (· >>= Wait.next flight)^[n] (some (.awaiting 0)) = some .returned := by
  have led : Reachable _ := .tail .refl (.enters 7 9 0 0 rfl)
  have followed := led.tail (.enters 7 9 1 0 rfl)
  have checked := followed.tail (.waits 0 ⟨0, 9, .started⟩ _ _ rfl rfl rfl)
  have notified := checked.tail (.waits 0 ⟨0, 9, .checked⟩ _ _ rfl rfl rfl)
  have enabled := notified.tail (.waits 0 ⟨0, 9, .notified 0⟩ _ _ rfl rfl rfl)
  have awaiting := enabled.tail (.waits 0 ⟨0, 9, .enabled 0⟩ _ _ rfl rfl rfl)
  have removed := awaiting.tail (.drops 0 _ rfl)
  have completed := removed.tail (.drops 0 _ rfl)
  have dropped := completed.tail (.drops 0 _ rfl)
  obtain ⟨flight, found, -, wakes⟩ :=
    (single_flight dropped (.refl : RefreshRegistry.Reachable 1 _)).2.2.1 0 ⟨0, 9, .awaiting 0⟩ rfl
  have gone : flight.stage = .dropped := by
    cases found
    rfl
  exact ⟨_, flight, dropped, rfl, found, gone, (wakes gone).1⟩

/-- `RefreshRegistry::new(0)` has one permit. -/
theorem guard_without_maxConcurrent : ∃ r : RefreshRegistry, r.Reachable 0 ∧
    r.holders.get 0 = some (5, .live) :=
  ⟨_, .tail (.tail .refl (.acquires 0 5 _ rfl rfl)) (.claims 0 5 rfl), rfl⟩

end HttpJet.Lscache
