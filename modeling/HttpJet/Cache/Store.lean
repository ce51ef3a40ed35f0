import HttpJet.Library.HashMap
import HttpJet.Library.LinkedList

/-!
# The sharded cache

A shard is a map of nodes threaded by two recency lists, one for every node and one for those with
a disk weight, with byte counters and a heap of deadlines.  A critical section accesses one locked
shard; what happens to the values is logged.  A lookup that the source expects to succeed yields
`none` where it does not.
-/

namespace HttpJet.Cache

open Library

/-- The number of shards. -/
def shardCount : Nat := 256

abbrev Instant := Nat

/-- A key, with the terminator of the recency lists and the shard it lives in. -/
class ShardKey (K : Type) where
  nil : K
  shardIndex : K → Fin shardCount

open ShardKey (nil shardIndex)

/-- A value with its byte weights, its deadline and its freshness. -/
class CacheValue (V : Type) where
  ramWeight : V → Nat
  diskWeight : V → Nat
  deadline : V → Option Instant
  isFresh : V → Instant → Bool

/-- The bytes an entry takes in memory and on disk. -/
structure Weights where
  ram : Nat
  disk : Nat
  deriving DecidableEq

def CacheValue.weights {V : Type} [CacheValue V] (value : V) : Weights :=
  ⟨ramWeight value, diskWeight value⟩

inductive EvictCause where
  | size
  | disk
  | expired
  | explicit
  deriving DecidableEq

/-- An element of the deadline heap. -/
structure DeadlineEntry (K : Type) where
  deadline : Instant
  generation : Nat
  key : K
  deriving DecidableEq

/-- A value with its links and the weights recorded for it. -/
structure Node (K V : Type) where
  value : V
  ram : Link K
  disk : Link K
  ramWeight : Nat
  diskWeight : Nat
  generation : Nat

structure Shard (K V : Type) where
  map : HashMap K (Node K V)
  ram : Ends K
  disk : Ends K
  ramUsed : Nat
  diskUsed : Nat
  /-- The heap, as the list of its elements. -/
  expiry : List (DeadlineEntry K)
  nextGen : Nat

/-! ## The two recency lists -/

/-- The list every node is on, and the list of the nodes with a disk weight. -/
inductive Strand where
  | ram
  | disk
  deriving DecidableEq

def Node.link {K V : Type} (n : Node K V) : Strand → Link K
  | .ram => n.ram
  | .disk => n.disk

def Node.setLink {K V : Type} (n : Node K V) (strand : Strand) (link : Link K) : Node K V :=
  match strand with
  | .ram => { n with ram := link }
  | .disk => { n with disk := link }

def Node.weights {K V : Type} (n : Node K V) : Weights := ⟨n.ramWeight, n.diskWeight⟩

def Weights.on (w : Weights) : Strand → Nat
  | .ram => w.ram
  | .disk => w.disk

/-- Why a node at the end of a list is torn down. -/
def Strand.cause : Strand → EvictCause
  | .ram => .size
  | .disk => .disk

namespace Shard

def ends {K V : Type} (s : Shard K V) : Strand → Ends K
  | .ram => s.ram
  | .disk => s.disk

def setEnds {K V : Type} (s : Shard K V) (strand : Strand) (pair : Ends K) : Shard K V :=
  match strand with
  | .ram => { s with ram := pair }
  | .disk => { s with disk := pair }

def used {K V : Type} (s : Shard K V) : Strand → Nat
  | .ram => s.ramUsed
  | .disk => s.diskUsed

end Shard

/-- How the nodes of a shard thread one of its lists. -/
def threading {K : Type} (V : Type) [DecidableEq K] (strand : Strand) :
    Threading (Shard K V) K where
  cell s id := (s.map.get id).map fun node => node.link strand
  setCell s id link := { s with map := s.map.modify id fun node => node.setLink strand link }
  ends s := s.ends strand
  setEnds s pair := s.setEnds strand pair
  cell_setCell s key link other := by
    rw [HashMap.get_modify]
    split_ifs
    · rw [Option.map_map, Option.map_map]
      exact congrArg (Option.map · _) (funext fun node => by cases strand <;> rfl)
    · rfl
  ends_setCell _ _ _ := by cases strand <;> rfl
  cell_setEnds _ _ := by cases strand <;> rfl
  ends_setEnds _ _ := by cases strand <;> rfl

namespace Shard

section Lists

variable {K V : Type} [DecidableEq K] [ShardKey K]

def new : Shard K V where
  map := ∅
  ram := ⟨nil, nil⟩
  disk := ⟨nil, nil⟩
  ramUsed := 0
  diskUsed := 0
  expiry := []
  nextGen := 0

def pushFront (s : Shard K V) (strand : Strand) (id : K) : Option (Shard K V) :=
  (threading V strand).pushFront nil s id

def unlink (s : Shard K V) (strand : Strand) (id : K) : Option (Shard K V) :=
  (threading V strand).unlink nil s id

def touch (s : Shard K V) (strand : Strand) (id : K) : Option (Shard K V) :=
  (threading V strand).touch nil s id

variable (s : Shard K V)

def ramPushFront (id : K) : Option (Shard K V) := s.pushFront .ram id

def ramUnlink (id : K) : Option (Shard K V) := s.unlink .ram id

def ramTouch (id : K) : Option (Shard K V) := s.touch .ram id

def diskPushFront (id : K) : Option (Shard K V) := s.pushFront .disk id

def diskUnlink (id : K) : Option (Shard K V) := s.unlink .disk id

def diskTouch (id : K) : Option (Shard K V) := s.touch .disk id

end Lists

/-! ## The deadline heap -/

variable {K V : Type}

def pushDeadline (s : Shard K V) (id : K) (deadline : Option Instant) (generation : Nat) :
    Shard K V :=
  match deadline with
  | none => s
  | some deadline => { s with expiry := ⟨deadline, generation, id⟩ :: s.expiry }

/-- A generation for a node version; the counter has 32 bits. -/
def bumpGen (s : Shard K V) : Shard K V := { s with nextGen := (s.nextGen + 1) % 2 ^ 32 }

/-- The order of the heap: by deadline, then by generation. -/
def sooner (a b : DeadlineEntry K) : Bool :=
  decide (a.deadline < b.deadline) ||
    (decide (a.deadline = b.deadline) && decide (a.generation ≤ b.generation))

/-- An earliest element of the heap with the others. -/
def popExpiry : List (DeadlineEntry K) → Option (DeadlineEntry K × List (DeadlineEntry K))
  | [] => none
  | entry :: rest =>
    match popExpiry rest with
    | none => some (entry, [])
    | some (least, others) =>
      if sooner entry least then some (entry, rest) else some (least, entry :: others)

end Shard

/-! ## The shared reservation -/

/-- `u64::checked_add`. -/
def checkedAdd (a b : Nat) : Option Nat := if a + b < 2 ^ 64 then some (a + b) else none

structure GlobalBudget where
  ramUsed : Nat
  diskUsed : Nat
  ramMax : Nat
  diskMax : Nat
  deriving DecidableEq

namespace GlobalBudget

variable (g : GlobalBudget)

def used : Strand → Nat
  | .ram => g.ramUsed
  | .disk => g.diskUsed

def max : Strand → Nat
  | .ram => g.ramMax
  | .disk => g.diskMax

/-- Swap one reservation for another, if the caps allow it. -/
def tryReplace (old new : Weights) : Option GlobalBudget := do
  let nextRam ← checkedAdd (g.ramUsed - old.ram) new.ram
  let nextDisk ← checkedAdd (g.diskUsed - old.disk) new.disk
  if g.ramMax < nextRam ∨ g.diskMax < nextDisk then none
  else some { g with ramUsed := nextRam, diskUsed := nextDisk }

def release (freed : Weights) : GlobalBudget :=
  { g with ramUsed := g.ramUsed - freed.ram, diskUsed := g.diskUsed - freed.disk }

/-- Whether a sum overflows or exceeds a cap. -/
def beyond (sum : Option Nat) (max : Nat) : Bool :=
  match sum with
  | none => true
  | some next => decide (max < next)

/-- Which caps stand in the way of a replacement. -/
def replacementPressure (old new : Weights) : Bool × Bool :=
  (beyond (checkedAdd (g.ramUsed - old.ram) new.ram) g.ramMax,
    beyond (checkedAdd (g.diskUsed - old.disk) new.disk) g.diskMax)

/-- The list to take a victim from: the disk list first. -/
def pressed (old new : Weights) : Option Strand :=
  let (ramOver, diskOver) := g.replacementPressure old new
  if diskOver then some .disk else if ramOver then some .ram else none

end GlobalBudget

/-! ## Access to a locked shard -/

/-- What happened to a value. -/
inductive Event (K V : Type) where
  | accepted (key : K) (value : V)
  | rejected (key : K) (value : V)
  | changed (key : K) (before after : V)
  /-- A call of `on_evict`. -/
  | evicted (key : K) (value : V) (cause : EvictCause)

structure Access (K V : Type) where
  shard : Shard K V
  ramBudgetPerShard : Nat
  diskBudgetPerShard : Nat
  globalBudget : GlobalBudget
  /-- Whether the hook was called in this section. -/
  evicted : Bool
  events : List (Event K V)

variable {K V : Type} [DecidableEq K] [ShardKey K]

namespace Shard

variable (s : Shard K V)

/-- The last key of a list, or the one before it where the last is spared. -/
def victim (strand : Strand) (spared : K) : K :=
  let tail := (s.ends strand).tail
  if tail = spared then
    match s.map.get tail with
    | none => nil
    | some node => (node.link strand).prev
  else tail

/-- Whether a key has a node with a disk weight. -/
def onDisk (id : K) : Bool :=
  match s.map.get id with
  | none => false
  | some node => decide (0 < node.diskWeight)

/-- The weights recorded for a key. -/
def recorded (id : K) : Weights :=
  match s.map.get id with
  | none => ⟨0, 0⟩
  | some node => node.weights

/-- Take a node off its lists and its weights out of the counters. -/
def detach (id : K) (w : Weights) : Option (Shard K V) := do
  let s ← s.ramUnlink id
  let s ← (if 0 < w.disk then s.diskUnlink id else some s)
  some { s with ramUsed := s.ramUsed - w.ram, diskUsed := s.diskUsed - w.disk }

/-- Put a node at the front of its lists and its weights into the counters. -/
def attach (id : K) (node : Node K V) : Option (Shard K V) := do
  let s := { s with map := s.map.put id node }
  let s ← s.ramPushFront id
  let s ← (if 0 < node.diskWeight then s.diskPushFront id else some s)
  some { s with ramUsed := s.ramUsed + node.ramWeight, diskUsed := s.diskUsed + node.diskWeight }

/-- Record new weights for a node whose reservation has been replaced. -/
def reweigh (id : K) (old new : Weights) : Option (Shard K V) := do
  let _ ← s.map.get id
  let s := { s with map := s.map.modify id fun node =>
    { node with ramWeight := new.ram, diskWeight := new.disk } }
  let s ← (if 0 < old.disk ∧ new.disk = 0 then s.diskUnlink id
    else if old.disk = 0 ∧ 0 < new.disk then s.diskPushFront id
    else some s)
  some { s with ramUsed := s.ramUsed - old.ram + new.ram, diskUsed := s.diskUsed -
    old.disk + new.disk }

end Shard

namespace Access

variable (a : Access K V)

def touch (id : K) : Option (Access K V) :=
  match a.shard.map.get id with
  | none => some a
  | some _ => do
      let shard ← a.shard.ramTouch id
      let shard ← (if shard.onDisk id then shard.diskTouch id else some shard)
      some { a with shard := shard }

def touchRam (id : K) : Option (Access K V) :=
  match a.shard.map.get id with
  | none => some a
  | some _ => do
      let shard ← a.shard.ramTouch id
      some { a with shard := shard }

def touchDisk (id : K) : Option (Access K V) := do
  let shard ← (if a.shard.onDisk id then a.shard.diskTouch id else some a.shard)
  some { a with shard := shard }

def teardownInner (id : K) (cause : EvictCause) (releaseGlobal : Bool) : Option (Access K V) :=
  match a.shard.map.get id with
  | none => some a
  | some n => do
      let shard ← a.shard.detach id n.weights
      let node ← shard.map.get id
      some { a with
        shard := { shard with map := shard.map.del id }
        globalBudget := if releaseGlobal then a.globalBudget.release n.weights else a.globalBudget
        evicted := true
        events := a.events ++ [.evicted id node.value cause] }

def teardown (id : K) (cause : EvictCause) : Option (Access K V) :=
  a.teardownInner id cause true

/-- The loop of `reserve_replacing`, at most `fuel` rounds of it. -/
def reserveLoop (id : K) (old new : Weights) : Nat → Access K V → Option (Access K V × Bool)
  | 0, _ => none
  | fuel + 1, a =>
    match a.globalBudget.tryReplace old new with
    | some budget => some ({ a with globalBudget := budget }, true)
    | none =>
      if a.globalBudget.ramMax < new.ram ∨ a.globalBudget.diskMax < new.disk then some (a, false)
      else
        match a.globalBudget.pressed old new with
        | none => some (a, false)
        | some strand =>
          let victim := a.shard.victim strand id
          if victim = nil then some (a, false)
          else do
            let a ← a.teardown victim strand.cause
            reserveLoop id old new fuel a

/-- Each round that goes on removes a node, so that many rounds are enough. -/
def reserveReplacing (id : K) (old new : Weights) : Option (Access K V × Bool) :=
  reserveLoop id old new (a.shard.map.size + 1) a

/-- One of the loops of `enforce_budgets`. -/
def enforceLoop (strand : Strand) (budget : Nat) (protect : K) :
    Nat → Access K V → Option (Access K V)
  | 0, _ => none
  | fuel + 1, a =>
    if budget < a.shard.used strand then
      let victim := a.shard.victim strand protect
      if victim = nil then some a
      else do
        let a ← a.teardown victim strand.cause
        enforceLoop strand budget protect fuel a
    else some a

def enforceBudgets (protect : K) : Option (Access K V) := do
  let a ← enforceLoop .ram a.ramBudgetPerShard protect (a.shard.map.size + 1) a
  enforceLoop .disk a.diskBudgetPerShard protect (a.shard.map.size + 1) a

variable [CacheValue V]

open CacheValue (weights deadline isFresh)

/-- Put a value under a key that has none, its bytes reserved. -/
def place (a : Access K V) (id : K) (value : V) : Option (Access K V) := do
  let new := weights value
  let shard := a.shard.bumpGen
  let generation := shard.nextGen
  let shard ← shard.attach id ⟨value, ⟨nil, nil⟩, ⟨nil, nil⟩, new.ram, new.disk, generation⟩
  let node ← shard.map.get id
  let shard := shard.pushDeadline id (deadline node.value) generation
  some { a with shard := shard, events := a.events ++ [.accepted id value] }

def insertReplacing (a : Access K V) (id : K) (value : V) : Option (Access K V × Bool) := do
  let (a, reserved) ← a.reserveReplacing id (a.shard.recorded id) (weights value)
  if reserved then
    let a ← a.teardownInner id .explicit false
    let a ← a.place id value
    some (a, true)
  else some ({ a with events := a.events ++ [.rejected id value] }, false)

/-- Write a value in place, its weights left as they were recorded. -/
def rewrite (a : Access K V) (id : K) (value : V) : Access K V :=
  match a.shard.map.get id with
  | none => a
  | some n => { a with
      shard :=
        { a.shard with map := a.shard.map.modify id fun node => { node with value := value } }
      events := a.events ++ [.changed id n.value value] }

/-- Record the weights of a node anew, or evict it where they do not fit. -/
def charge (a : Access K V) (id : K) (old new : Weights)
    (settle : Access K V → Option (Access K V)) :
    Option (Access K V × Bool) := do
  let (a, reserved) ← a.reserveReplacing id old new
  if reserved then
    let shard ← a.shard.reweigh id old new
    let a ← settle { a with shard := shard }
    some (a, true)
  else
    let a ← a.teardown id .size
    some (a, false)

/-- A node's next version: a generation and its deadline. -/
def renew (a : Access K V) (id : K) (deadline : Option Instant) : Access K V :=
  let shard := a.shard.bumpGen
  let generation := shard.nextGen
  let shard :=
    { shard with map := shard.map.modify id fun node => { node with generation := generation } }
  { a with shard := shard.pushDeadline id deadline generation }

def mutate (a : Access K V) (id : K) (f : V → V × Bool) : Option (Access K V × Bool) :=
  match a.shard.map.get id with
  | none => some (a, false)
  | some n =>
    let (value, committed) := f n.value
    let a := a.rewrite id value
    if committed then
      a.charge id n.weights (weights value) fun a => (a.renew id (deadline value)).enforceBudgets id
    else some (a, false)

def reconcileWeights (a : Access K V) (id protect : K) : Option (Access K V × Bool) :=
  match a.shard.map.get id with
  | none => some (a, false)
  | some n => a.charge id n.weights (weights n.value) fun a => a.enforceBudgets protect

/-- The closure of `ShardedCache::get`. -/
def getFresh (a : Access K V) (now : Instant) (id : K) : Option (Access K V × Option V) :=
  match a.shard.map.get id with
  | none => some (a, none)
  | some n =>
    if !isFresh n.value now then do
      let a ← a.teardown id .expired
      some (a, none)
    else do
      let shard ← a.shard.ramTouch id
      let shard ← (if 0 < n.diskWeight then shard.diskTouch id else some shard)
      some ({ a with shard := shard }, some n.value)

/-- The closure of `ShardedCache::insert`. -/
def insert (a : Access K V) (id : K) (value : V) : Option (Access K V) := do
  let (a, inserted) ← a.insertReplacing id value
  if inserted then a.enforceBudgets id else some a

/-- The loop of `sweep_expired` over one shard, at most `fuel` rounds of it. -/
def sweepLoop (now : Instant) : Nat → Access K V → Option (Access K V)
  | 0, _ => none
  | fuel + 1, a =>
    match Shard.popExpiry a.shard.expiry with
    | none => some a
    | some (top, others) =>
      if now < top.deadline then some a
      else
        let a := { a with shard := { a.shard with expiry := others } }
        let due := match a.shard.map.get top.key with
          | none => false
          | some n => decide (n.generation = top.generation) && !isFresh n.value now
        if due then do
          let a ← a.teardown top.key .expired
          sweepLoop now fuel a
        else sweepLoop now fuel a

/-- Each round takes an element from the heap. -/
def sweepExpired (a : Access K V) (now : Instant) : Option (Access K V) :=
  sweepLoop now (a.shard.expiry.length + 1) a

/-- Tear down the given keys in turn. -/
def teardownAll (cause : EvictCause) : List K → Access K V → Option (Access K V)
  | [], a => some a
  | id :: ids, a => do
      let a ← a.teardown id cause
      teardownAll cause ids a

end Access

/-! ## Operations -/

structure ShardCacheConfig where
  maxRamBytes : Nat
  maxDiskBytes : Nat
  deriving DecidableEq

/-- A critical section that has ended. -/
structure Section (K V : Type) where
  shard : Fin shardCount
  events : List (Event K V)
  /-- Whether `after_unlock` was called. -/
  notified : Bool

structure ShardedCache (K V : Type) where
  shards : Fin shardCount → Shard K V
  ramBudgetPerShard : Nat
  diskBudgetPerShard : Nat
  globalBudget : GlobalBudget
  sections : List (Section K V)

/-- An order in which a hash map is walked. -/
structure Walk (K : Type) where
  arrange : List K → List K
  perm : ∀ keys, (arrange keys).Perm keys

/-- A key of an entry: not the terminator of the lists. -/
abbrev RealKey (K : Type) [ShardKey K] := { key : K // key ≠ nil }

/-- What a closure does with a locked shard. -/
inductive AccessOp (K V : Type) [ShardKey K] where
  | touch (id : RealKey K)
  | touchRam (id : RealKey K)
  | touchDisk (id : RealKey K)
  | teardown (id : RealKey K) (cause : EvictCause)
  | insertReplacing (id : RealKey K) (value : V)
  | mutate (id : RealKey K) (f : V → V × Bool)
  /-- A value's interior state changes without the shard's knowledge. -/
  | interior (id : RealKey K) (change : V → V)
  | reconcileWeights (id protect : RealKey K)
  | enforceBudgets (protect : RealKey K)

variable [CacheValue V]

def AccessOp.exec : AccessOp K V → Access K V → Option (Access K V)
  | .touch id, a => a.touch id
  | .touchRam id, a => a.touchRam id
  | .touchDisk id, a => a.touchDisk id
  | .teardown id cause, a => a.teardown id cause
  | .insertReplacing id value, a => (a.insertReplacing id value).map Prod.fst
  | .mutate id f, a => (a.mutate id f).map Prod.fst
  | .interior id change, a =>
    match a.shard.map.get id with
    | none => some a
    | some n => some (a.rewrite id (change n.value))
  | .reconcileWeights id protect, a => (a.reconcileWeights id protect).map Prod.fst
  | .enforceBudgets protect, a => a.enforceBudgets protect

/-- A closure, as what it comes to do. -/
def AccessOp.execAll : List (AccessOp K V) → Access K V → Option (Access K V)
  | [], a => some a
  | op :: ops, a => do
      let a ← op.exec a
      execAll ops a

namespace ShardedCache

def new (config : ShardCacheConfig) : ShardedCache K V :=
  let diskTotal := if 0 < config.maxDiskBytes then config.maxDiskBytes else config.maxRamBytes
  { shards := fun _ => Shard.new
    ramBudgetPerShard := max (config.maxRamBytes / shardCount) 1
    diskBudgetPerShard := max (diskTotal / shardCount) 1
    globalBudget := ⟨0, 0, config.maxRamBytes, diskTotal⟩
    sections := [] }

variable (c : ShardedCache K V)

/-- Lock a shard. -/
def lock (index : Fin shardCount) : Access K V where
  shard := c.shards index
  ramBudgetPerShard := c.ramBudgetPerShard
  diskBudgetPerShard := c.diskBudgetPerShard
  globalBudget := c.globalBudget
  evicted := false
  events := []

/-- Unlock it, calling `after_unlock` if the section called the hook. -/
def unlock (index : Fin shardCount) (a : Access K V) : ShardedCache K V :=
  { c with
    shards := Function.update c.shards index a.shard
    globalBudget := a.globalBudget
    sections := c.sections ++ [⟨index, a.events, a.evicted⟩] }

/-- Run a critical section. -/
def within (index : Fin shardCount) (body : Access K V → Option (Access K V)) :
    Option (ShardedCache K V) := do
  let a ← body (c.lock index)
  some (c.unlock index a)

/-- One section for each of the given shards, in turn. -/
def withinEach (body : Fin shardCount → Access K V → Option (Access K V)) :
    List (Fin shardCount) → ShardedCache K V → Option (ShardedCache K V)
  | [], c => some c
  | index :: indices, c => do
      let c ← c.within index (body index)
      withinEach body indices c

def withShard (id : RealKey K) (body : List (AccessOp K V)) : Option (ShardedCache K V) :=
  c.within (shardIndex id.val) (AccessOp.execAll body)

/-- The keys by shard, a run for each shard. -/
def groups (ids : List (RealKey K)) : List (List (RealKey K)) :=
  (ids.mergeSort fun a b => decide (shardIndex a.val ≤ shardIndex b.val)).splitBy
    fun a b => decide (shardIndex a.val = shardIndex b.val)

/-- The closure run on each group, with the group's shard locked. -/
def withGroups (body : List (RealKey K) → List (AccessOp K V)) :
    List (List (RealKey K)) → ShardedCache K V → Option (ShardedCache K V)
  | [], c => some c
  | [] :: rest, c => withGroups body rest c
  | (id :: ids) :: rest, c => do
      let c ← c.withShard id (body (id :: ids))
      withGroups body rest c

def withShardGroups (ids : List (RealKey K))
    (body : List (RealKey K) → List (AccessOp K V)) : Option (ShardedCache K V) :=
  withGroups body (groups ids) c

def get (now : Instant) (id : RealKey K) : Option (ShardedCache K V) :=
  c.within (shardIndex id.val) fun a => (a.getFresh now id).map Prod.fst

def insert (c : ShardedCache K V) (id : RealKey K) (value : V) : Option (ShardedCache K V) :=
  c.within (shardIndex id.val) fun a => a.insert id value

def remove (id : RealKey K) : Option (ShardedCache K V) :=
  c.within (shardIndex id.val) fun a => a.teardown id .explicit

def sweepExpired (c : ShardedCache K V) (now : Instant) : Option (ShardedCache K V) :=
  withinEach (fun _ a => a.sweepExpired now) (List.finRange shardCount) c

/-- The keys a purge removes from a shard. -/
def toRemove (predicate : K → V → Bool) (walk : Walk K) (s : Shard K V) : List K :=
  (walk.arrange s.map.keys).filter fun id =>
    match s.map.get id with
    | none => false
    | some node => predicate id node.value

def purgeIf (predicate : K → V → Bool) (walk : Fin shardCount → Walk K) :
    Option (ShardedCache K V) :=
  withinEach (fun index a => a.teardownAll .explicit (toRemove predicate (walk index) a.shard))
    (List.finRange shardCount) c

/-- The calls of the hook for the nodes drained from a shard. -/
def drained (walk : Walk K) (s : Shard K V) : List (Event K V) :=
  (walk.arrange s.map.keys).filterMap fun id =>
    (s.map.get id).map fun node => .evicted id node.value .explicit

/-- Empty a shard, which does not go through the teardown. -/
def drain (walk : Walk K) (a : Access K V) : Access K V :=
  { a with
    shard := { Shard.new with nextGen := a.shard.nextGen }
    globalBudget := a.globalBudget.release ⟨a.shard.ramUsed, a.shard.diskUsed⟩
    evicted := decide (a.shard.map.keys ≠ [])
    events := a.events ++ drained walk a.shard }

def clear (walk : Fin shardCount → Walk K) : Option (ShardedCache K V) :=
  withinEach (fun index a => some (drain (walk index) a)) (List.finRange shardCount) c

end ShardedCache

/-- A call on the cache. -/
inductive Op (K V : Type) [ShardKey K] where
  | withShard (id : RealKey K) (body : List (AccessOp K V))
  | withShardGroups (ids : List (RealKey K)) (body : List (RealKey K) → List (AccessOp K V))
  | get (now : Instant) (id : RealKey K)
  | insert (id : RealKey K) (value : V)
  | remove (id : RealKey K)
  | sweepExpired (now : Instant)
  | purgeIf (predicate : K → V → Bool) (walk : Fin shardCount → Walk K)
  | clear (walk : Fin shardCount → Walk K)

namespace ShardedCache

def step (c : ShardedCache K V) : Op K V → Option (ShardedCache K V)
  | .withShard id body => c.withShard id body
  | .withShardGroups ids body => c.withShardGroups ids body
  | .get now id => c.get now id
  | .insert id value => c.insert id value
  | .remove id => c.remove id
  | .sweepExpired now => c.sweepExpired now
  | .purgeIf predicate walk => c.purgeIf predicate walk
  | .clear walk => c.clear walk

/-- A run of calls. -/
def run : List (Op K V) → ShardedCache K V → Option (ShardedCache K V)
  | [], c => some c
  | op :: ops, c => do
      let c ← c.step op
      run ops c

end ShardedCache

end HttpJet.Cache
