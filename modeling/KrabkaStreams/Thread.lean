import KrabkaStreams.Global
import KrabkaStreams.Topology

/-!
# A stream thread

The thread reconciles its tasks to an assignment, polls them and commits them: each on its own under
at-least-once, in one transaction over all of them under exactly-once, with an abort and a rollback on
an error.
-/

namespace KrabkaStreams

open Effect StateStore

abbrev TaskKey := String × Int

structure TaskAssignment where
  subtopologyId : String
  partitions : List Int
  sourceTopicPartitions : List TopicPartition
  deriving DecidableEq, Repr

structure StreamsAssignment where
  active : List TaskAssignment
  standby : List TaskAssignment
  warmup : List TaskAssignment
  deriving DecidableEq, Repr

/-- The barrier group a thread aligns on, the cut it waits for and the last epoch it committed. -/
structure ThreadBarrier where
  group : String
  pending : Option BarrierCut
  lastEpoch : Int
  deriving DecidableEq, Repr

structure StreamThread (P M S V : Type) where
  tasks : OrdMap TaskKey (StreamTask P M S V)
  applicationId : String
  globals : StoreRegistry S
  globalTopics : OrdMap String Topic
  globalsReady : Bool
  globalOffsets : OrdMap (Topic × Int) Int
  guarantee : ProcessingGuarantee
  initialized : Bool
  inTxn : Bool
  cacheMaxBytes : Nat
  barrier : Option ThreadBarrier

abbrev ThreadState (E P M S V : Type) := Shared (StreamThread P M S V) (World E)

abbrev ThreadM (E P M S V : Type) := Eff (ThreadState E P M S V) Event StreamsClientError

namespace StreamThread

variable {E P M S V : Type} [Broker E] [StateStore S V] [Processor P M S V] (th : StreamThread P M S V)
  (key : TaskKey) (a : StreamsAssignment) (cut : BarrierCut)

def new (applicationId : String) (cacheMaxBytes : Nat) (barrierGroup : Option String) :
    StreamThread P M S V where
  tasks := []
  applicationId := applicationId
  globals := []
  globalTopics := []
  globalsReady := false
  globalOffsets := []
  guarantee := .atLeastOnce
  initialized := false
  inTxn := false
  cacheMaxBytes := cacheMaxBytes
  barrier := barrierGroup.map fun g => ⟨g, none, -1⟩

def current : ThreadM E P M S V (StreamThread P M S V) := do return (← get).own

def update (f : StreamThread P M S V → StreamThread P M S V) : ThreadM E P M S V Unit :=
  modify fun s => { s with own := f s.own }

def setTasks (tasks : OrdMap TaskKey (StreamTask P M S V)) : StreamThread P M S V :=
  { th with tasks := tasks }

def forTasks (m : TaskKey → TaskM E P M S V Unit) : ThreadM E P M S V Unit :=
  fun s =>
    let r := Eff.each m ⟨s.own.tasks, s.world⟩
    (r.1, ⟨s.own.setTasks r.2.1.own, r.2.1.world⟩, r.2.2)

def onTask (m : TaskM E P M S V Unit) : ThreadM E P M S V Unit :=
  fun s =>
    match s.own.tasks.get? key with
    | none => (.ok (), s, [])
    | some t =>
      let r := m ⟨t, s.world⟩
      (r.1, ⟨s.own.setTasks (s.own.tasks.insert key r.2.1.own), r.2.1.world⟩, r.2.2)

def lendGlobals : StreamThread P M S V :=
  th.setTasks (th.tasks.map fun e =>
    (e.1, e.2.setGraph { e.2.graph with globals := th.globals }))

def setGlobals (globals : StoreRegistry S) : ThreadM E P M S V Unit :=
  update fun th => { th with globals := globals }.lendGlobals

def onGlobals {α : Type} (m : GlobalM E S α) : ThreadM E P M S V α :=
  fun s =>
    let r := m ⟨⟨s.own.globals, s.own.globalTopics, s.own.globalOffsets⟩, s.world⟩
    let th := { s.own with globals := r.2.1.own.stores, globalOffsets := r.2.1.own.offsets }
    (r.1, ⟨th.lendGlobals, r.2.1.world⟩, r.2.2)

def ensureGlobals (topology : BuiltTopology P M S V) : ThreadM E P M S V Unit := do
  let th ← current
  if th.globalsReady then pure ()
  else if topology.globalStoreFactories.isEmpty then
    update fun th => { th with globalsReady := true }
  else do
    update fun th => { th with globalTopics := topology.globalStoreTopics }
    setGlobals (topology.globalStoreFactories.map fun e => (e.1, e.2.make e.1 ""))
    onGlobals Globals.bootstrap
    update fun th => { th with globalsReady := true }

def pollGlobals : ThreadM E P M S V Unit := do
  let th ← current
  onGlobals (Globals.pollOnce th.globalOffsets.keys)

/-- The desired tasks; a later role of the same task wins. -/
def desired : OrdMap TaskKey (TaskRole × TaskAssignment) :=
  let add (role : TaskRole) (m : OrdMap TaskKey (TaskRole × TaskAssignment)) (ta : TaskAssignment) :=
    ta.partitions.foldl (fun m p => m.insert (ta.subtopologyId, p) (role, ta)) m
  a.warmup.foldl (add .warmup) (a.standby.foldl (add .standby) (a.active.foldl (add .active) []))

def retire : TaskM E P M S V Unit := do
  let s ← get
  .tell (.closing s.own.ref s.world.begun (s.own.drained && s.own.clean) s.own.pending.isEmpty)
  StreamTask.closeProcessors
  StreamTask.commit

def removeTask : ThreadM E P M S V Unit :=
  fun s =>
    match s.own.tasks.get? key with
    | none => (.ok (), s, [])
    | some t =>
      let th := s.own.setTasks (s.own.tasks.erase key)
      if t.role = .active then
        let r := retire ⟨t, s.world⟩
        (r.1, ⟨th, r.2.1.world⟩, r.2.2)
      else (.ok (), ⟨th, s.world⟩, [])

def promote : TaskM E P M S V Unit := do
  StreamTask.restore
  StreamTask.seekToStart
  StreamTask.init

def leaveRole (old new : TaskRole) : TaskM E P M S V Unit :=
  if new = .active then promote
  else if old = .active then retire
  else pure ()

def changeRole (role : TaskRole) : TaskM E P M S V Unit := do
  let t ← StreamTask.current
  if t.role = role then pure ()
  else do
    leaveRole t.role role
    StreamTask.update fun t => { t with role := role }

def sourcesOf (ta : TaskAssignment) (partition : Int) : List TopicPartition :=
  ta.sourceTopicPartitions.filter fun tp => tp.partition = partition

def startTask : TaskM E P M S V Unit := do
  StreamTask.seekToStart
  StreamTask.restore
  StreamTask.init

/-- Create the task at `key`, over a graph of the whole topology. A task that cannot start is
dropped. -/
def addTask (topology : BuiltTopology P M S V) (key : TaskKey) (role : TaskRole)
    (ta : TaskAssignment) : ThreadM E P M S V Unit := do
  let th ← current
  if th.tasks.contains key then pure ()
  else
    match topology.instantiate th.applicationId th.cacheMaxBytes with
    | .error e => throw (.processor e)
    | .ok g =>
      let task := StreamTask.new key.1 { g with globals := th.globals }
        (sourcesOf ta key.2) role th.guarantee
      fun s =>
        match (if role = .active then startTask else pure ()) ⟨task, s.world⟩ with
        | (.ok (), s', evs) =>
          (.ok (), ⟨s.own.setTasks (s.own.tasks.insert key s'.own), s'.world⟩, evs)
        | (.error e, s', evs) => (.error e, ⟨s.own, s'.world⟩, evs)

def ensureInitialized : ThreadM E P M S V Unit := do
  let th ← current
  if th.guarantee = .exactlyOnceV2 ∧ !th.initialized then do
    (World.call Broker.initTransactions).onWorld
    update fun th => { th with initialized := true }
  else pure ()

def toRemove : List TaskKey :=
  th.tasks.keys.filter fun k => !(desired a).contains k

def applyAssignment (topology : BuiltTopology P M S V) (guarantee : ProcessingGuarantee) :
    ThreadM E P M S V Unit := do
  update fun th => { th with guarantee := guarantee }
  ensureInitialized
  ensureGlobals topology
  let th ← current
  (th.toRemove a).forM removeTask
  (desired a).forM fun e => onTask e.1 (changeRole e.2.1)
  (desired a).forM fun e => addTask topology e.1 e.2.1 e.2.2

def beginBarrier (th : StreamThread P M S V) : StreamThread P M S V :=
  th.setTasks (th.tasks.map fun e =>
    (e.1, if e.2.role = .active then { e.2 with pendingCut := some cut } else e.2))

/-- Adopt the next complete cut of the group when none is pending. -/
def refreshBarrier : ThreadM E P M S V Unit := do
  let th ← current
  match th.barrier with
  | none => pure ()
  | some b =>
    match b.pending with
    | some _ => pure ()
    | none =>
      let cuts ← (World.call fun e => Broker.completeCutsAfter e b.group b.lastEpoch).onWorld
      match cuts with
      | [] => pure ()
      | cut :: _ =>
        update fun th => { th with barrier := some { b with pending := some cut } }.beginBarrier cut

def pendingBarrier : Option BarrierCut :=
  th.barrier.bind (·.pending)

def activeTasks : OrdMap TaskKey (StreamTask P M S V) :=
  th.tasks.filter fun e => e.2.role = .active

def barrierReady : Bool :=
  th.pendingBarrier.isSome && !th.activeTasks.isEmpty &&
    th.activeTasks.all fun e => e.2.barrierReached

def taskId : String := s!"{key.1}-{key.2}"

def activeTaskKeys : List TaskKey :=
  th.activeTasks.keys.insertionSort fun a b => a.1 < b.1 ∨ (a.1 = b.1 ∧ a.2 ≤ b.2)

def noteFlush : TaskM E P M S V Unit := do
  let t ← StreamTask.current
  .tell (.flushing t.ref (t.drained && t.clean))

def snapshotTask : TaskM E P M S V Unit := do
  noteFlush
  let _ ← StreamTask.snapshotAtBarrier
  pure ()

def snapshotLoop : List TaskKey → List (String × TaskSnapshot) →
    ThreadM E P M S V (List (String × TaskSnapshot))
  | [], acc => pure acc
  | key :: keys, acc => do
    onTask key snapshotTask
    let th ← current
    let snap := match th.tasks.get? key with
      | none => []
      | some t => t.graph.snapshotStores
    snapshotLoop keys (acc ++ [(taskId key, snap)])

def takeBarrierSnapshots :
    ThreadM E P M S V (Option (BarrierCut × List (String × TaskSnapshot))) := do
  let th ← current
  if th.barrierReady then
    match th.pendingBarrier with
    | none => pure none
    | some cut =>
      let snaps ← snapshotLoop th.activeTaskKeys []
      pure (some (cut, snaps))
  else pure none

def persistBarrier (snaps : List (String × TaskSnapshot)) : ThreadM E P M S V Unit := do
  let th ← current
  match th.barrier with
  | none => pure ()
  | some b => snaps.forM fun s =>
      (World.call fun e => Broker.saveSnapshot e ⟨s.1, b.group, cut.epoch⟩ s.2).onWorld

def finishBarrier : ThreadM E P M S V Unit :=
  update fun th =>
    { th with
      tasks := th.tasks.map fun e => (e.1, { e.2 with pendingCut := none })
      barrier := th.barrier.map fun b => { b with pending := none, lastEpoch := cut.epoch } }

def fireBarrier : ThreadM E P M S V Unit := do
  match ← takeBarrierSnapshots with
  | none => pure ()
  | some (cut, snaps) =>
    persistBarrier cut snaps
    let th ← current
    th.activeTaskKeys.forM fun key => onTask key do
      let _ ← StreamTask.commitPending
      pure ()
    finishBarrier cut

def setInTxn (b : Bool) : ThreadM E P M S V Unit :=
  modify fun s => ⟨{ s.own with inTxn := b }, { s.world with begun := b }⟩

def rollbackAll : ThreadM E P M S V Unit := do
  forTasks fun _ => StreamTask.rollback
  .tell .recovered

/-- Abort the transaction and roll every task back. Only a fenced abort stops the rollback. -/
def abortAndRollback : ThreadM E P M S V Unit := do
  let r ← World.abortTransaction.onWorld.attempt
  setInTxn false
  match r with
  | .error e => if e.isProducerFenced then throw e else rollbackAll
  | .ok () => rollbackAll

def processOrStep : TaskM E P M S V Unit := do
  let t ← StreamTask.current
  if t.role = .active then StreamTask.processOnce true else StreamTask.restoreStep

/-- Process every active task and step every standby. The gate opens the transaction, and the
thread learns of it on both outcomes. -/
def eosBeginAndProcess : ThreadM E P M S V Unit := do
  let th ← current
  setInTxn th.inTxn
  let r ← (forTasks fun _ => processOrStep).attempt
  modify fun s => ⟨{ s.own with inTxn := s.world.begun }, s.world⟩
  match r with
  | .ok () => pure ()
  | .error e => throw e

def processAny : TaskM E P M S V Unit := do
  let t ← StreamTask.current
  .tell (.polling t.ref t.held)
  StreamTask.processOnce false

/-- Turn an error of an exactly-once cycle into an abort and a rollback; a fence is fatal. -/
def recover (e : StreamsClientError) : ThreadM E P M S V Unit :=
  if e.isProducerFenced then do
    setInTxn false
    throw e
  else abortAndRollback

def tick (now : Int) : TaskM E P M S V Unit := do
  let s ← get
  if s.own.role = .active then do
    .tell (.ticking s.own.ref s.world.begun (s.own.drained && !s.own.wallClockDue now))
    StreamTask.punctuateWallClock now
  else pure ()

def finishPoll : ThreadM E P M S V Unit := do
  let now ← (World.call fun e => ((.ok (Broker.nowMs e).1 : Except StreamsClientError Int),
    (Broker.nowMs e).2)).onWorld
  forTasks fun _ => tick now
  let th ← current
  (if th.guarantee = .atLeastOnce then fireBarrier else pure ())
  forTasks fun _ => do
    let _ ← StreamTask.computeChangelogOffsets
    pure ()

def pollAll : ThreadM E P M S V Unit := do
  let th ← current
  (if th.globalOffsets.isEmpty then pure () else pollGlobals)
  refreshBarrier
  match th.guarantee with
  | .atLeastOnce =>
    forTasks fun _ => processAny
    finishPoll
  | .exactlyOnceV2 =>
    match ← eosBeginAndProcess.attempt with
    | .error e => recover e
    | .ok () => finishPoll

def flushTask : TaskM E P M S V Unit := do
  noteFlush
  StreamTask.flushCaches .flush

def commitTask : TaskM E P M S V Unit := do
  noteFlush
  StreamTask.commit

def eosSendOffsetsAndCommit : ThreadM E P M S V Unit := do
  let barrier ← takeBarrierSnapshots
  let th ← current
  (World.sendOffsetsToTransaction (th.tasks.map fun e => (e.2.ref, e.2.pendingOffsets))).onWorld
  World.commitTransaction.onWorld
  match barrier with
  | none => pure ()
  | some (cut, snaps) =>
    persistBarrier cut snaps
    finishBarrier cut

def eosCommitOpen : ThreadM E P M S V Unit := do
  match ← (forTasks fun _ => flushTask).attempt with
  | .error e => recover e
  | .ok () =>
    match ← eosSendOffsetsAndCommit.attempt with
    | .error e => recover e
    | .ok () =>
      forTasks fun _ => StreamTask.clearPending
      setInTxn false

def commitAll : ThreadM E P M S V Unit := do
  let th ← current
  match th.guarantee with
  | .atLeastOnce => forTasks fun _ => commitTask
  | .exactlyOnceV2 =>
    if th.inTxn then eosCommitOpen
    else if th.barrierReady then
      match ← World.beginTransaction.onWorld.attempt with
      | .error e => if e.isProducerFenced then throw e else abortAndRollback
      | .ok () =>
        setInTxn true
        eosCommitOpen
    else pure ()

inductive Call (P M S V : Type) [StateStore S V]
  | applyAssignment (a : StreamsAssignment) (topology : BuiltTopology P M S V)
  | pollAll
  | commitAll

def perform (guarantee : ProcessingGuarantee) : Call P M S V → ThreadM E P M S V Unit
  | .applyAssignment a topology => applyAssignment a topology guarantee
  | .pollAll => pollAll
  | .commitAll => commitAll

/-- A run: the supervisor logs the error of a call and makes the next one. The result is the state
after it and its history. -/
def run (guarantee : ProcessingGuarantee) (calls : List (Call P M S V))
    (s : ThreadState E P M S V) : ThreadState E P M S V × List Event :=
  Eff.runAll (perform guarantee) calls s

end StreamThread

end KrabkaStreams
