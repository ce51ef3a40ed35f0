import HttpJet.Library.HashMap
import HttpJet.Library.Runs

/-!
# The memory budgets of bridged responses

A chunk of a bridged response is charged to the server and to the share of its connection.
A file response waits for the share and, holding it, for the server; another one takes the
server's bytes at once and, holding them, waits for the share.  Waiters of a budget are served
in order.  Each operation on a budget is a step.
-/

namespace HttpJet.Bridge

open Library
open HashMap

abbrev ConnId := Nat
abbrev TaskId := Nat

/-- `none` is the server-wide budget, `some conn` the share of a connection. -/
abbrev BudgetId := Option ConnId

/-- `FRAME_CLAIM` -/
def frameClaim : Nat := 64 * 1024

/-- Bytes held on both budgets of a response. -/
structure ResponseLease where
  conn : ConnId
  share : Nat
  bytes : Nat
  deriving DecidableEq

def ResponseLease.on (lease : ResponseLease) (b : BudgetId) : Nat :=
  (if b = none then lease.bytes else 0) + if b = some lease.conn then lease.share else 0

/-- Where a response task stands. -/
inductive Phase where
  /-- Without a lease: between chunks, waiting for a queue slot, or ended. -/
  | idle
  /-- `pump_body` waits for a frame's worth of the share. -/
  | claiming (claim : Nat)
  /-- `pump_body` waits for a frame. -/
  | pulling (claim : Nat)
  /-- A frame or a whole body is charged to the server, not yet to the connection. -/
  | charged (n claimed : Nat)
  /-- `send_full` and `send_leased` wait for the share, holding none of it. -/
  | sharing (n : Nat)
  /-- `reserve_queue_bytes` waits for the share. -/
  | wanting (want : Nat)
  /-- `reserve_queue_bytes` waits for the server. -/
  | widening (want : Nat)
  | reading (want : Nat)
  deriving DecidableEq

structure Task where
  conn : ConnId
  /-- Runs `forward_file`, not `send_full`, `send_leased_chunk` or `pump_body`. -/
  file : Bool
  phase : Phase
  deriving DecidableEq

/-- Bytes held of the connection's share. -/
@[simp] def Phase.share : Phase → Nat
  | .pulling claim => claim
  | .charged _ claimed => claimed
  | .widening want | .reading want => want
  | _ => 0

/-- Bytes held of the server-wide budget. -/
@[simp] def Phase.bytes : Phase → Nat
  | .charged n _ | .sharing n => n
  | .reading want => want
  | _ => 0

@[simp] def Task.lease (t : Task) : ResponseLease := ⟨t.conn, t.phase.share, t.phase.bytes⟩

@[simp] theorem ResponseLease.on_mk (conn share bytes : Nat) (b : BudgetId) :
    (⟨conn, share, bytes⟩ : ResponseLease).on b =
      (if b = none then bytes else 0) + if b = some conn then share else 0 := rfl

structure Budgets where
  tasks : HashMap TaskId Task
  inFlight : BudgetId → Nat
  /-- The tasks in `reserve_wait`, in order of arrival. -/
  waiters : BudgetId → List TaskId
  /-- What the queued chunks hold. -/
  queued : List ResponseLease

namespace Budgets

def new (tasks : HashMap TaskId Task) : Budgets := ⟨tasks, fun _ => 0, fun _ => [], []⟩

@[simp] def move (s : Budgets) (id : TaskId) (t : Task) (phase : Phase) : Budgets :=
  { s with tasks := s.tasks.put id { t with phase := phase } }

@[simp] def reserve (s : Budgets) (b : BudgetId) (n : Nat) : Budgets :=
  { s with inFlight := fun other => s.inFlight other + if other = b then n else 0 }

@[simp] def release (s : Budgets) (b : BudgetId) (n : Nat) : Budgets :=
  { s with inFlight := fun other => s.inFlight other - if other = b then n else 0 }

@[simp] def wait (s : Budgets) (b : BudgetId) (id : TaskId) : Budgets :=
  { s with waiters := fun other => s.waiters other ++ if other = b then [id] else [] }

@[simp] def leave (s : Budgets) (id : TaskId) : Budgets :=
  { s with waiters := fun b => (s.waiters b).erase id }

@[simp] def send (s : Budgets) (lease : ResponseLease) : Budgets :=
  { s with queued := s.queued ++ [lease] }

end Budgets

/-- The capacities of the budgets.  A capacity of zero would switch the accounting off. -/
structure Capacities where
  of : BudgetId → Nat
  positive : ∀ b, 0 < of b

instance : CoeFun Capacities fun _ => BudgetId → Nat := ⟨Capacities.of⟩

section

variable (cap : Capacities)

def connectionShare (conn : ConnId) (n : Nat) : Nat := min n (cap (some conn))

/-- The reservation a task waits for. -/
@[simp] def Task.asks (t : Task) : Option (BudgetId × Nat) :=
  match t.phase with
  | .claiming claim => some (some t.conn, claim)
  | .sharing n => some (some t.conn, connectionShare cap t.conn n)
  | .wanting want => some (some t.conn, want)
  | .widening want => some (none, want)
  | _ => none

/-- A task goes on with the reservation it waited for. -/
@[simp] def Budgets.resume (s : Budgets) (id : TaskId) (t : Task) : Budgets :=
  match t.phase with
  | .claiming claim => s.move id t (.pulling claim)
  | .sharing n => (s.move id t .idle).send ⟨t.conn, connectionShare cap t.conn n, n⟩
  | .wanting want => (s.move id t (.widening want)).wait none id
  | .widening want => s.move id t (.reading want)
  | _ => s

/-- A charged chunk is queued if the connection covers it, and waits for the share otherwise. -/
@[simp] def Budgets.settle (s : Budgets) (id : TaskId) (t : Task) (n claimed : Nat) : Budgets :=
  let share := connectionShare cap t.conn n
  if share ≤ claimed then
    ((s.release (some t.conn) (claimed - share)).move id t .idle).send ⟨t.conn, share, n⟩
  else if s.inFlight (some t.conn) + (share - claimed) ≤ cap (some t.conn) then
    ((s.reserve (some t.conn) (share - claimed)).move id t .idle).send ⟨t.conn, share, n⟩
  else ((s.release (some t.conn) claimed).move id t (.sharing n)).wait (some t.conn) id

inductive Step (s : Budgets) : Budgets → Prop
  | claims (id : TaskId) (t : Task) (found : s.tasks.get id = some t) (stream : t.file = false)
      (idle : t.phase = .idle) :
      Step s
        ((s.move id t (.claiming (connectionShare cap t.conn frameClaim))).wait (some t.conn) id)
  /-- The chunk size is capped to what both budgets can hold. -/
  | wants (id : TaskId) (t : Task) (found : s.tasks.get id = some t) (isFile : t.file = true)
      (idle : t.phase = .idle) (want : Nat) (sized : want ≤ min (cap none) (cap (some t.conn))) :
      Step s ((s.move id t (.wanting want)).wait (some t.conn) id)
  | granted (b : BudgetId) (id : TaskId) (rest : List TaskId) (t : Task) (n : Nat)
      (first : s.waiters b = id :: rest) (found : s.tasks.get id = some t)
      (asks : t.asks cap = some (b, n)) (fits : s.inFlight b + n ≤ cap b) :
      Step s (((s.leave id).reserve b n).resume cap id t)
  /-- A body or a frame is charged to the server, or else refused. -/
  | charges (id : TaskId) (t : Task) (found : s.tasks.get id = some t) (stream : t.file = false)
      (n claimed : Nat) (ready : t.phase = .idle ∧ claimed = 0 ∨ t.phase = .pulling claimed)
      (fits : s.inFlight none + n ≤ cap none) :
      Step s ((s.reserve none n).move id t (.charged n claimed))
  | settles (id : TaskId) (t : Task) (n claimed : Nat) (found : s.tasks.get id = some t)
      (phase : t.phase = .charged n claimed) : Step s (s.settle cap id t n claimed)
  | reads (id : TaskId) (t : Task) (want n : Nat) (found : s.tasks.get id = some t)
      (phase : t.phase = .reading want) (within : n ≤ want) :
      Step s ((((s.release (some t.conn) (want - n)).release none (want - n)).move id t
        .idle).send ⟨t.conn, n, n⟩)
  /-- An error, the end of the body, a refused frame, or a receiver that is gone. -/
  | ends (id : TaskId) (t : Task) (found : s.tasks.get id = some t) :
      Step s
        ((((s.release (some t.conn) t.lease.share).release none t.lease.bytes).leave id).move id
        t .idle)
  | drains (before after : List ResponseLease) (lease : ResponseLease)
      (held : s.queued = before ++ lease :: after) :
      Step s { ((s.release (some lease.conn) lease.share).release none lease.bytes) with
        queued := before ++ after }

/-- What any set of responses can reach. -/
def Reachable (s : Budgets) : Prop :=
  ∃ tasks : HashMap TaskId Task, HashMap.All (fun _ t => t.phase = .idle) tasks ∧
    Relation.ReflTransGen (Step cap) (Budgets.new tasks) s

end

variable {cap : Capacities} {s s' : Budgets} {id : TaskId} {t t' : Task} {b : BudgetId} {n : Nat}

/-! ## What holds in every run -/

/-- What tasks and queued chunks hold of a budget. -/
def Budgets.held (s : Budgets) (b : BudgetId) : Nat :=
  HashMap.total (fun _ t => t.lease.on b) s.tasks + (s.queued.map fun lease => lease.on b).sum

variable (cap) in
/-- A task is in the phases of its kind, and a file chunk fits the server. -/
@[simp] def Task.suits (t : Task) : Bool :=
  match t.phase with
  | .idle => true
  | .wanting want => t.file && want ≤ cap none
  | .widening _ | .reading _ => t.file
  | _ => !t.file

variable (cap) in
structure Sound (s : Budgets) : Prop where
  ledger : ∀ b, s.inFlight b = s.held b
  listed : ∀ b id, id ∈ s.waiters b ↔ ∃ t n, s.tasks.get id = some t ∧ t.asks cap = some (b, n)
  nodup : ∀ b, (s.waiters b).Nodup
  small : ∀ {id t b n}, s.tasks.get id = some t → t.asks cap = some (b, n) → n ≤ cap b
  suits : ∀ {id t}, s.tasks.get id = some t → t.suits cap = true

theorem Sound.new {tasks : HashMap TaskId Task}
    (idle : HashMap.All (fun _ t => t.phase = .idle) tasks) :
    Sound cap (Budgets.new tasks) where
  ledger b := by
    have none : HashMap.total (fun _ t => t.lease.on b) tasks = 0 :=
      total_eq_zero fun id t found => by simp [idle id t found]
    exact none.symm
  listed b id := by
    simp only [Budgets.new, List.not_mem_nil, false_iff]
    rintro ⟨t, n, found, asks⟩
    simp [idle _ t found] at asks
  nodup _ := List.nodup_nil
  small {id t _ _} found asks := by simp [idle id t found] at asks
  suits {id t} found := by simp [idle id t found]

section

variable (sound : Sound cap s) (found : s.tasks.get id = some t)
include sound found

/-- A lease is part of what its budgets have in flight. -/
theorem Sound.lease_le (b : BudgetId) : t.lease.on b ≤ s.inFlight b := by
  have part := @HashMap.le_total _ _ (fun _ t => t.lease.on b) _ _ _ _ found
  rw [sound.ledger, Budgets.held]
  omega

/-- A task changes: it leaves the queue it was in for the one of the budget it asks. -/
theorem Sound.change (tasks : s'.tasks = s.tasks.put id t')
    (ledger : ∀ b, s'.inFlight b + t.lease.on b + (s.queued.map fun lease => lease.on b).sum =
      s.inFlight b + t'.lease.on b + (s'.queued.map fun lease => lease.on b).sum)
    (waiters : ∀ b,
      s'.waiters b = (s.waiters b).erase id ++ if (t'.asks cap).any (b = ·.1) then [id] else [])
    (small : ∀ {b n}, t'.asks cap = some (b, n) → n ≤ cap b) (suits : t'.suits cap = true) :
    Sound cap s' where
  ledger b := by
    have total := @total_put_of_get _ _ (fun _ t => t.lease.on b) _ _ _ _ found t'
    have before := sound.ledger b
    have here := ledger b
    rw [Budgets.held] at before ⊢
    rw [tasks]
    omega
  listed b other := by
    rw [waiters, tasks, List.mem_append, (sound.nodup b).mem_erase_iff, sound.listed]
    by_cases same : other = id
    · subst same
      cases asks : t'.asks cap with
      | none => simp [-Task.asks, asks]
      | some pair =>
        cases pair
        simp [-Task.asks, asks, eq_comm]
    · rw [get_put_of_ne _ same]
      split_ifs <;> simp [same]
  nodup b := by
    rw [waiters]
    refine ((sound.nodup b).erase id).append (by split_ifs <;> simp) ?_
    split_ifs
    · simpa using (sound.nodup b).not_mem_erase
    · simp
  small found' asks := by
    rcases get_of_put (tasks ▸ found') with ⟨_, rfl⟩ | ⟨_, found'⟩
    · exact small asks
    · exact sound.small found' asks
  suits found' := by
    rcases get_of_put (tasks ▸ found') with ⟨_, rfl⟩ | ⟨_, found'⟩
    · exact suits
    · exact sound.suits found'

/-- A task that asks for nothing is in no queue. -/
theorem Sound.erase_waiters (asks : t.asks cap = none) (b : BudgetId) :
    (s.waiters b).erase id = s.waiters b := by
  refine List.erase_of_not_mem fun member => ?_
  obtain ⟨_, n, found', asks'⟩ := (sound.listed b id).mp member
  rw [found] at found'
  cases found'
  rw [asks] at asks'
  cases asks'

end

theorem Step.sound (step : Step cap s s') (sound : Sound cap s) : Sound cap s' := by
  cases step with
  | claims _ _ found stream idle =>
    have alone := sound.erase_waiters found (by simp [idle])
    refine sound.change found rfl ?_ ?_ ?_ ?_
    · simp [idle]
    · simp [alone]
    · simp [connectionShare]
    · simp [stream]
  | wants _ _ found isFile idle _ sized =>
    have alone := sound.erase_waiters found (by simp [idle])
    obtain ⟨server, share⟩ := le_min_iff.mp sized
    refine sound.change found rfl ?_ ?_ ?_ ?_
    · simp [idle]
    · simp [alone]
    · simpa using share
    · simpa [isFile] using server
  | granted b _ _ t _ _ found asks =>
    have suits := sound.suits found
    obtain ⟨_, _, phase⟩ := t
    cases phase with
    | claiming =>
      cases asks
      refine sound.change found rfl ?_ ?_ ?_ suits
      · simp
      · simp
      · simp
    | sharing =>
      cases asks
      refine sound.change found rfl ?_ ?_ ?_ rfl
      · simp
        omega
      · simp
      · simp
    | wanting =>
      cases asks
      refine sound.change found rfl ?_ ?_ ?_ ?_
      · simp
      · simp
      · simp_all
      · simp_all
    | widening =>
      cases asks
      refine sound.change found rfl ?_ ?_ ?_ suits
      · simp
        omega
      · simp
      · simp
    | _ => cases asks
  | charges _ _ found stream _ _ ready =>
    have alone :=
      sound.erase_waiters found (by rcases ready with ⟨phase, _⟩ | phase <;> simp [phase])
    refine sound.change found rfl ?_ ?_ ?_ ?_
    · rcases ready with ⟨phase, rfl⟩ | phase
      · simp [phase]
      · simp [phase]
        omega
    · simp [alone]
    · simp
    · simp [stream]
  | settles _ _ _ _ found phase =>
    have alone := sound.erase_waiters found (by simp [phase])
    have held := sound.lease_le found
    have suits := sound.suits found
    simp only [phase, Task.lease, ResponseLease.on_mk, Phase.share, Phase.bytes] at held
    rw [Budgets.settle]
    split_ifs with enough fits
    · refine sound.change found rfl ?_ ?_ ?_ rfl
      · intro b
        have held := held b
        simp [phase]
        split_ifs at held ⊢ <;> omega
      · simp [alone]
      · simp
    · refine sound.change found rfl ?_ ?_ ?_ rfl
      · intro b
        simp [phase]
        split_ifs <;> omega
      · simp [alone]
      · simp
    · refine sound.change found rfl ?_ ?_ ?_ ?_
      · intro b
        have held := held b
        simp [phase]
        split_ifs at held ⊢ <;> omega
      · simp [alone]
      · simp [connectionShare]
      · simpa [phase] using suits
  | reads _ _ _ _ found phase =>
    have alone := sound.erase_waiters found (by simp [phase])
    have held := sound.lease_le found
    refine sound.change found rfl ?_ ?_ ?_ rfl
    · intro b
      have held := held b
      simp [phase] at held ⊢
      split_ifs at held ⊢ <;> omega
    · simp [alone]
    · simp
  | ends _ _ found =>
    have held := sound.lease_le found
    refine sound.change found rfl ?_ ?_ ?_ rfl
    · intro b
      have held := held b
      simp at held ⊢
      split_ifs at held ⊢ <;> omega
    · simp
    · simp
  | drains _ _ _ held =>
    refine ⟨fun b => ?_, sound.listed, sound.nodup, sound.small, sound.suits⟩
    have ledger := sound.ledger b
    simp [Budgets.held, held, ResponseLease.on] at ledger ⊢
    split_ifs at ledger ⊢ <;> omega

theorem Reachable.sound (reached : Reachable cap s) : Sound cap s := by
  obtain ⟨_, idle, steps⟩ := reached
  induction steps with
  | refl => exact Sound.new idle
  | tail _ step ih => exact step.sound ih

/-! ## States in which nothing but a reservation is waited for -/

/-- Neither a frame nor a file nor an operation on a budget is on its way. -/
def Phase.resting : Phase → Bool
  | .pulling _ | .charged .. | .reading _ => false
  | _ => true

structure AtRest (s : Budgets) : Prop where
  drained : s.queued = []
  resting : HashMap.All (fun _ t => t.phase.resting = true) s.tasks

variable (cap) in
/-- Some waiter at the head of its queue fits. -/
def Grantable (s : Budgets) : Prop :=
  ∃ b id rest t n, s.waiters b = id :: rest ∧ s.tasks.get id = some t ∧
    t.asks cap = some (b, n) ∧ s.inFlight b + n ≤ cap b

variable (cap) in
/-- Some task waits for a reservation. -/
def Waiting (s : Budgets) : Prop := ∃ id t, s.tasks.get id = some t ∧ (t.asks cap).isSome = true

/-- No connection has a file response under way beside another one. -/
def Separate (s : Budgets) : Prop :=
  ∀ id id' t t', s.tasks.get id = some t → s.tasks.get id' = some t' → t.phase ≠ .idle →
    t'.phase ≠ .idle → t.conn = t'.conn → t.file = t'.file

/-- A budget of which no task holds anything grants its first waiter. -/
theorem Sound.grantable (sound : Sound cap s) (rest : AtRest s) (found : s.tasks.get id = some t)
    (asks : t.asks cap = some (b, n))
    (free : ∀ id t, s.tasks.get id = some t → t.lease.on b = 0) : Grantable cap s := by
  have unused : s.inFlight b = 0 := by
    rw [sound.ledger, Budgets.held, rest.drained, total_eq_zero free]
    rfl
  have listed := (sound.listed b id).mpr ⟨t, n, found, asks⟩
  cases queue : s.waiters b with
  | nil =>
    rw [queue] at listed
    cases listed
  | cons first others =>
    obtain ⟨t', n', found', asks'⟩ := (sound.listed b first).mp (queue ▸ List.mem_cons_self)
    refine ⟨b, first, others, t', n', queue, found', asks', ?_⟩
    rw [unused, Nat.zero_add]
    exact sound.small found' asks'

theorem Sound.grantable_of_waiting (sound : Sound cap s) (rest : AtRest s) (separate : Separate s)
    (waits : Waiting cap s) : Grantable cap s := by
  by_cases streams : ∃ id t, s.tasks.get id = some t ∧ t.file = false ∧ (t.asks cap).isSome = true
  · obtain ⟨id, t, found, _, asks⟩ := streams
    have suits := sound.suits found
    have busy : t.phase ≠ .idle := by
      intro idle
      simp [idle] at asks
    -- no task of the connection is a file task, so none holds a share while it waits
    have free : ∀ id' t', s.tasks.get id' = some t' → t'.lease.on (some t.conn) = 0 := by
      intro id' t' found'
      have resting := rest.resting id' t' found'
      have suits' := sound.suits found'
      have alike := separate id id' t t' found found' busy
      obtain ⟨conn, file, phase⟩ := t'
      cases phase <;> simp_all [Phase.resting]
    obtain ⟨conn, file, phase⟩ := t
    cases phase with
    | claiming | sharing => exact sound.grantable rest found rfl free
    | _ => simp_all
  · push Not at streams
    by_cases wide : ∃ id t want, s.tasks.get id = some t ∧ t.phase = .widening want
    · obtain ⟨id, t, want, found, phase⟩ := wide
      have asks : t.asks cap = some (none, want) := by simp [phase]
      refine sound.grantable rest found asks fun id' t' found' => ?_
      have resting := rest.resting id' t' found'
      have suits' := sound.suits found'
      have quiet := streams id' t' found'
      obtain ⟨conn, file, phase'⟩ := t'
      cases phase' <;> simp_all [Phase.resting]
    · obtain ⟨id, t, found, _⟩ := waits
      have suits := sound.suits found
      have quiet := streams id t found
      push Not at wide
      have free : ∀ id' t', s.tasks.get id' = some t' → t'.lease.on (some t.conn) = 0 := by
        intro id' t' found'
        have resting := rest.resting id' t' found'
        have narrow := wide id' t'
        obtain ⟨conn, file, phase⟩ := t'
        cases phase <;> simp_all [Phase.resting]
      obtain ⟨_, _, phase⟩ := t
      cases phase with
      | wanting => exact sound.grantable rest found rfl free
      | widening want => exact absurd rfl (wide id _ want found)
      | _ => simp_all

variable (cap) in
/-- The file's chunk holds the share and waits for the server; the body holds the server and
waits for the share. -/
def blocked (tasks : HashMap TaskId Task) (conn : ConnId) (id other : TaskId) (want : Nat) :
    Budgets where
  tasks := (tasks.put id ⟨conn, true, .widening want⟩).put other ⟨conn, false, .sharing (cap none)⟩
  inFlight b := (if b = none then cap none else 0) + if b = some conn then want else 0
  waiters b := if b = none then [id] else if b = some conn then [other] else []
  queued := []

section

variable {tasks : HashMap TaskId Task} {conn : ConnId} {other : TaskId} {want : Nat}

theorem blocked_reachable (file : tasks.get id = some ⟨conn, true, .idle⟩)
    (body : tasks.get other = some ⟨conn, false, .idle⟩) (positive : 0 < want)
    (sized : want ≤ min (cap none) (cap (some conn))) (narrow : cap (some conn) ≤ cap none) :
    Relation.ReflTransGen (Step cap) (Budgets.new tasks)
      (blocked cap tasks conn id other want) := by
  have apart : other ≠ id := by
    rintro rfl
    cases file.symm.trans body
  have idle : HashMap.get ((tasks.put id ⟨conn, true, .wanting want⟩).put id
      ⟨conn, true, .widening want⟩) other = some ⟨conn, false, .idle⟩ := by
    rw [get_put_of_ne _ apart, get_put_of_ne _ apart, body]
  have steps : Relation.ReflTransGen (Step cap) (Budgets.new tasks) _ :=
    .head (.wants id ⟨conn, true, .idle⟩ file rfl rfl want sized) <|
    .head (.granted (some conn) id [] ⟨conn, true, .wanting want⟩ want (by simp [Budgets.new])
      (get_put_self ..) rfl (by simpa [Budgets.new] using (le_min_iff.mp sized).2)) <|
    .head (.charges other ⟨conn, false, .idle⟩ idle rfl (cap none) 0 (.inl ⟨rfl, rfl⟩)
      (by simp [Budgets.new])) <|
    .head (.settles other ⟨conn, false, .charged (cap none) 0⟩ (cap none) 0 (get_put_self ..) rfl)
      .refl
  have share : connectionShare cap conn (cap none) = cap (some conn) := min_eq_right narrow
  have some := cap.positive (some conn)
  rw [Budgets.settle, share, if_neg (by omega), if_neg (by simp [Budgets.new]; omega)] at steps
  refine (congrArg (Relation.ReflTransGen (Step cap) (Budgets.new tasks)) ?_).mp steps
  simp only [Budgets.move, Budgets.wait, Budgets.release, Budgets.reserve, Budgets.resume,
    Budgets.leave, Budgets.new, put_put, blocked, Budgets.mk.injEq, and_true, true_and]
  refine ⟨funext fun b => ?_, funext fun b => ?_⟩
  · split_ifs <;> simp_all
  · split_ifs <;> simp_all

theorem blocked_rests (idle : HashMap.All (fun _ t => t.phase = .idle) tasks) :
    AtRest (blocked cap tasks conn id other want) := by
  refine ⟨rfl, fun id' t found => ?_⟩
  rcases get_of_put found with ⟨_, rfl⟩ | ⟨_, found⟩
  · rfl
  · rcases get_of_put found with ⟨_, rfl⟩ | ⟨_, found⟩
    · rfl
    · rw [idle id' t found]
      rfl

theorem blocked_waiting : Waiting cap (blocked cap tasks conn id other want) :=
  ⟨other, _, get_put_self .., rfl⟩

theorem blocked_stuck (apart : id ≠ other) (positive : 0 < want)
    (narrow : cap (some conn) ≤ cap none) :
    ¬Grantable cap (blocked cap tasks conn id other want) := by
  have share : connectionShare cap conn (cap none) = cap (some conn) := min_eq_right narrow
  rintro ⟨b, first, rest, t, n, queue, found, asks, fits⟩
  dsimp only [blocked] at queue found fits
  split_ifs at queue with server conn'
  · cases queue
    rw [get_put_of_ne _ apart, get_put_self] at found
    cases found
    cases asks
    rw [if_pos rfl] at fits
    omega
  · cases queue
    rw [get_put_self] at found
    cases found
    cases asks
    rw [if_neg server, if_pos rfl] at fits
    change 0 + want + connectionShare cap conn (cap none) ≤ cap (some conn) at fits
    omega

end

/-- Where no connection mixes file and other responses, the budgets never block each other.  Where a
connection whose share is within the server's budget mixes them, they can. -/
theorem Reachable.grantable_of_separate (cap : Capacities) :
    (∀ s, Reachable cap s → AtRest s → Separate s → Waiting cap s → Grantable cap s) ∧
    ∀ (tasks : HashMap TaskId Task) (conn : ConnId) (id other : TaskId),
      HashMap.All (fun _ t => t.phase = .idle) tasks → tasks.get id = some ⟨conn, true, .idle⟩ →
      tasks.get other = some ⟨conn, false, .idle⟩ → cap (some conn) ≤ cap none →
      ∃ s, Relation.ReflTransGen (Step cap) (Budgets.new tasks) s ∧ AtRest s ∧ Waiting cap s ∧
        ¬Grantable cap s := by
  refine ⟨fun s reached => reached.sound.grantable_of_waiting, ?_⟩
  intro tasks conn id other idle file body narrow
  have sized : 1 ≤ min (cap none) (cap (some conn)) := le_min (cap.positive _) (cap.positive _)
  exact ⟨_, blocked_reachable file body Nat.one_pos sized narrow, blocked_rests idle,
    blocked_waiting, blocked_stuck (by rintro rfl; cases file.symm.trans body) Nat.one_pos narrow⟩

/-- The capacities of the shipped configuration. -/
def shipped : Capacities where
  of
    | none => 512 * 1024 * 1024
    | some _ => 32 * 1024 * 1024
  positive
    | none => by decide
    | some _ => (by decide : 0 < 32 * 1024 * 1024)

/-- A file response and another one. -/
def pair (conn : ConnId) : HashMap TaskId Task :=
  HashMap.put (HashMap.put ∅ 0 ⟨0, true, .idle⟩) 1 ⟨conn, false, .idle⟩

theorem pair_idle (conn : ConnId) : HashMap.All (fun _ t => t.phase = .idle) (pair conn) := by
  intro id t found
  rw [pair, get_put, get_put] at found
  split_ifs at found <;> cases found <;> rfl

/-- The responses of a pair on two connections do not block each other. -/
theorem grantable_pair : ∃ s, Waiting shipped s ∧ Grantable shipped s := by
  have reached : Reachable shipped _ :=
    ⟨_, pair_idle 1, .head (.wants 0 _ rfl rfl rfl (1024 * 1024) (by decide)) .refl⟩
  refine ⟨_, ⟨0, _, rfl, rfl⟩,
    (Reachable.grantable_of_separate shipped).1 _ reached ⟨rfl, ?_⟩ ?_ ⟨0, _, rfl, rfl⟩⟩
  · intro id t found
    simp only [Budgets.move, Budgets.wait, Budgets.new, pair, get_put, get_empty] at found
    split_ifs at found <;> cases found <;> rfl
  · intro id id' t t' found found' _ _ same
    simp only [Budgets.move, Budgets.wait, Budgets.new, pair, get_put, get_empty]
      at found found'
    split_ifs at found found' <;> cases found <;> cases found' <;> first | rfl | cases same

/-- A file response with a chunk of 1 MiB and a body of 512 MiB on one connection. -/
theorem file_blocks_body :
    ∃ s, Reachable shipped s ∧ AtRest s ∧ Waiting shipped s ∧ ¬Grantable shipped s := by
  have file : (pair 0).get 0 = some ⟨0, true, .idle⟩ := rfl
  have body : (pair 0).get 1 = some ⟨0, false, .idle⟩ := rfl
  exact ⟨blocked shipped (pair 0) 0 0 1 (1024 * 1024),
    ⟨_, pair_idle 0, blocked_reachable file body (by decide) (by decide) (by decide)⟩,
    blocked_rests (pair_idle 0), blocked_waiting,
    blocked_stuck (by decide) (by decide) (by decide)⟩

/-! ## Capacity -/

section

variable (within : ∀ b, s.inFlight b ≤ cap b)
include within

theorem reserve_within (fits : s.inFlight b + n ≤ cap b) (other : BudgetId) :
    (s.reserve b n).inFlight other ≤ cap other := by
  dsimp only [Budgets.reserve]
  split_ifs with same
  · exact same ▸ fits
  · exact within other

theorem step_within (step : Step cap s s') (b : BudgetId) : s'.inFlight b ≤ cap b := by
  cases step with
  | claims | wants => exact within b
  | granted _ id _ t _ _ _ _ fits =>
    have kept (s : Budgets) : (s.resume cap id t).inFlight = s.inFlight := by
      rw [Budgets.resume]
      split <;> rfl
    rw [kept]
    exact reserve_within within fits b
  | charges _ _ _ _ _ _ _ fits => exact reserve_within within fits b
  | settles =>
    rw [Budgets.settle]
    split_ifs with _ fits
    · exact (Nat.sub_le ..).trans (within b)
    · exact reserve_within within fits b
    · exact (Nat.sub_le ..).trans (within b)
  | reads | ends | drains => exact ((Nat.sub_le ..).trans (Nat.sub_le ..)).trans (within b)

end

/-- In every reachable state a budget has in flight what tasks and queued chunks hold, within its
capacity, and each task that waits for it is in its queue once. -/
theorem Reachable.within_capacity (reached : Reachable cap s) (b : BudgetId) :
    s.inFlight b = s.held b ∧ s.held b ≤ cap b ∧ (s.waiters b).Nodup ∧
      ∀ id, id ∈ s.waiters b ↔ ∃ t n, s.tasks.get id = some t ∧ t.asks cap = some (b, n) := by
  have sound := reached.sound
  obtain ⟨_, _, steps⟩ := reached
  have within := Runs.steps_invariant (fun _ _ step within => step_within within step) steps
    fun _ => Nat.zero_le _
  exact ⟨sound.ledger b, sound.ledger b ▸ within b, sound.nodup b, sound.listed b⟩

/-- Two tasks wait for each other, and the server's budget is used up. -/
theorem within_capacity_pair : ∃ s : Budgets, s.waiters none = [0] ∧ s.waiters (some 0) = [1] ∧
    s.inFlight none = shipped none ∧ s.inFlight none = s.held none ∧
      s.held none ≤ shipped none := by
  have reached : Reachable shipped (blocked shipped (pair 0) 0 0 1 (1024 * 1024)) :=
    ⟨_, pair_idle 0, blocked_reachable rfl rfl (by decide) (by decide) (by decide)⟩
  obtain ⟨ledger, within, _⟩ := reached.within_capacity none
  exact ⟨_, rfl, rfl, rfl, ledger, within⟩

end HttpJet.Bridge
