import KrabkaStreams.Graph
import KrabkaStreams.Io

/-!
# A stream task

One task `(subtopology, partition)`. Its methods are computations over the task and the world it shares
with the other tasks of the thread; a failed method keeps what it had done.
-/

namespace KrabkaStreams

open Effect StateStore

structure StreamTask (P M S V : Type) where
  subtopologyId : String
  graph : Graph P M S V
  partition : Int
  positions : OrdMap (Topic × Int) Int
  sourceTopics : List Topic
  pending : OrdMap (Topic × Int) Int
  role : TaskRole
  changelogOffsets : OrdMap Topic Int
  guarantee : ProcessingGuarantee
  pendingCut : Option BarrierCut

abbrev TaskState (E P M S V : Type) := Shared (StreamTask P M S V) (World E)

abbrev TaskM (E P M S V : Type) := Eff (TaskState E P M S V) Event StreamsClientError

/-- The record a sink output becomes: `send` takes no timestamp. -/
def sinkRecord (out : OutputRecord) : ProducerRecord := ⟨out.topic, none, out.key, out.value, none⟩

def pinnedRecord (partition : Int) (r : ChangelogRecord) : ProducerRecord :=
  ⟨r.topic, some partition, some r.entry.key, r.entry.value, r.entry.timestamp⟩

namespace StreamTask

variable {E P M S V : Type} [Broker E] [StateStore S V] [Processor P M S V] (t : StreamTask P M S V)
  (tp : Topic × Int) (name : String) (topic : Topic) (gated : Bool)

def new (subtopologyId : String) (graph : Graph P M S V) (sources : List TopicPartition)
    (role : TaskRole) (guarantee : ProcessingGuarantee) : StreamTask P M S V where
  subtopologyId := subtopologyId
  graph := graph
  partition := match sources with
    | [] => 0
    | tp :: _ => tp.partition
  positions := sources.foldl (fun m tp => m.insert (tp.topic, tp.partition) 0) []
  sourceTopics := sources.map (·.topic)
  pending := []
  role := role
  changelogOffsets := []
  guarantee := guarantee
  pendingCut := none

def ref : TaskRef := ⟨t.subtopologyId, t.partition, t.role⟩

def buffered : List ProducerRecord :=
  t.graph.output.map sinkRecord ++
    (t.graph.stores.flatMap fun e => Graph.changelogRecords t.sourceTopics e.2).map
      (pinnedRecord t.partition)

def gainedRecords (reuse : List Topic) (s s' : S) : List ChangelogRecord :=
  (Graph.changelogRecords reuse s').drop (Graph.changelogRecords reuse s).length

def emittedBy (g : Graph P M S V) : List ProducerRecord :=
  (g.output.drop t.graph.output.length).map sinkRecord ++
    ((t.graph.stores.zip g.stores).flatMap fun e =>
      gainedRecords t.sourceTopics e.1.2 e.2.2).map (pinnedRecord t.partition)

def setGraph (g : Graph P M S V) : StreamTask P M S V :=
  { t with graph := g }

def emptied : StreamTask P M S V :=
  t.setGraph ((t.graph.takeOutput.2).drainChangelogs t.sourceTopics).2

def current : TaskM E P M S V (StreamTask P M S V) := do return (← get).own

def update (f : StreamTask P M S V → StreamTask P M S V) : TaskM E P M S V Unit :=
  modify fun s => { s with own := f s.own }

def log (ev : TaskRef → Event) : TaskM E P M S V Unit := do
  let t ← current
  .tell (ev t.ref)

def span {α : Type} (step : TaskStep) (m : TaskM E P M S V α) : TaskM E P M S V α := do
  match ← m.attempt with
  | .ok a => pure a
  | .error e =>
    log (.failed · step)
    throw e

def runGraph (kind : EmitKind) (op : Graph P M S V → Except ProcessorError Unit × Graph P M S V) :
    TaskM E P M S V Unit := do
  let t ← current
  update (·.setGraph (op t.graph).2)
  log (.emitted · kind (t.emittedBy (op t.graph).2))
  match (op t.graph).1 with
  | .ok () => pure ()
  | .error e => throw (.processor e)

def sendAll (records : List ProducerRecord) : TaskM E P M S V Unit :=
  records.forM fun r => do
    let t ← current
    (World.send t.ref r).onWorld

def sendOutput : TaskM E P M S V Unit := do
  let t ← current
  update (·.setGraph t.graph.takeOutput.2)
  sendAll (t.graph.takeOutput.1.map sinkRecord)

def sendChangelogs : TaskM E P M S V Unit := do
  let t ← current
  update (·.setGraph (t.graph.drainChangelogs t.sourceTopics).2)
  sendAll ((t.graph.drainChangelogs t.sourceTopics).1.map (pinnedRecord t.partition))

def drainPunctuationOutput : TaskM E P M S V Unit := do
  sendOutput
  sendChangelogs

def punctuateStreamTime : TaskM E P M S V Unit :=
  span .punctuateStreamTime do
    runGraph .records fun g => g.punctuateStreamTime g.streamTime
    drainPunctuationOutput

def punctuateWallClock (now : Int) : TaskM E P M S V Unit :=
  span .punctuateWallClock do
    runGraph .wallClock fun g => g.punctuateWallClock now
    drainPunctuationOutput

def flushCaches (kind : EmitKind) : TaskM E P M S V Unit :=
  span (.flushCaches kind) do
    runGraph kind Graph.flushCaches
    drainPunctuationOutput

def init : TaskM E P M S V Unit := runGraph .init fun g => (.ok (), g.initProcessors)

/-- Close the task: a failed flush is dropped, and the processors are closed after it. -/
def closeProcessors : TaskM E P M S V Unit := do
  let _ ← (flushCaches .close).attempt
  update fun t => t.setGraph t.graph.closeProcessors

def isolation : IsolationLevel :=
  match t.guarantee with
  | .exactlyOnceV2 => .readCommitted
  | .atLeastOnce => .readUncommitted

def fetchChangelog (offset : Int) : TaskM E P M S V FetchBatch := do
  let t ← current
  log (.changelogFetched · topic t.partition offset)
  (World.call fun e => Broker.fetch e topic t.partition offset t.isolation).onWorld

def applyBatch (name : String) (offset : Int) : List FetchedRec → TaskM E P M S V Int
  | [] => pure offset
  | r :: rs => do
    update fun t => t.setGraph (t.graph.restoreApply name (r.key.getD []) r.value r.timestamp)
    applyBatch name (max offset (r.offset + 1)) rs

def restoreLoop (name : String) (topic : Topic) : Nat → Int → TaskM E P M S V Int
  | 0, _ => throw .outOfBudget
  | n + 1, offset => do
    let batch ← fetchChangelog topic offset
    match batch.records with
    | [] => pure offset
    | r :: rs =>
      let next ← applyBatch name offset (r :: rs)
      if offset < next then restoreLoop name topic n next else pure next

def changelogTopicOf : Topic :=
  match t.graph.stores.get? name with
  | none => ""
  | some s => changelogTopic s

def savedOffset : Int :=
  (t.changelogOffsets.get? topic).getD 0

def saveOffset (offset : Int) : TaskM E P M S V Unit :=
  update fun t => { t with changelogOffsets := t.changelogOffsets.insert topic offset }

def setLogging (on : Bool) : TaskM E P M S V Unit :=
  update fun t => t.setGraph (t.graph.setLogging on)

def restoreStore : TaskM E P M S V Unit := do
  let t ← current
  let topic := t.changelogTopicOf name
  saveOffset topic (t.savedOffset topic)
  let offset ← restoreLoop name topic (← get).world.budget (t.savedOffset topic)
  saveOffset topic offset

def restore : TaskM E P M S V Unit :=
  span .restore do
    setLogging false
    let t ← current
    (StoreRegistry.names t.graph.stores).forM restoreStore
    setLogging true

def restoreStoreStep : TaskM E P M S V Unit := do
  let t ← current
  let topic := t.changelogTopicOf name
  saveOffset topic (t.savedOffset topic)
  let batch ← fetchChangelog topic (t.savedOffset topic)
  let next ← applyBatch name (t.savedOffset topic) batch.records
  saveOffset topic next

def restoreStep : TaskM E P M S V Unit :=
  span .restoreStep do
    setLogging false
    let t ← current
    (StoreRegistry.names t.graph.stores).forM restoreStoreStep
    setLogging true

def computeChangelogOffsets : TaskM E P M S V (Int × Int) :=
  span .computeChangelogOffsets do
    let t ← current
    (StoreRegistry.names t.graph.stores).foldlM
      (fun sums name => do
        let t ← current
        let topic := t.changelogTopicOf name
        let stop ← (World.call fun e => Broker.latest e topic t.partition).onWorld
        if t.role = .active then pure (sums.1 + stop, sums.2 + stop)
        else do
          saveOffset topic (t.savedOffset topic)
          pure (sums.1 + t.savedOffset topic, sums.2 + stop))
      (0, 0)

def setPosition (offset : Int) : TaskM E P M S V Unit :=
  update fun t => { t with positions := t.positions.insert tp offset }

def advance (offset : Int) : TaskM E P M S V Unit :=
  update fun t =>
    { t with
      positions := t.positions.insert tp offset
      pending := t.pending.insert tp offset }

def seekPartition : TaskM E P M S V Unit := do
  match ← (World.call fun e => Broker.committed e tp.1 tp.2).onWorld with
  | some o => setPosition tp o
  | none =>
    let o ← (World.call fun e => Broker.earliest e tp.1 tp.2).onWorld
    setPosition tp o

def seekToStart : TaskM E P M S V Unit :=
  span .seekToStart do
    let t ← current
    t.positions.keys.forM seekPartition

def clearPending : TaskM E P M S V Unit := update fun t => { t with pending := [] }

def rollback : TaskM E P M S V Unit :=
  span .rollback do
    clearPending
    seekToStart
    update fun t => t.setGraph t.graph.clearStores
    restore

def cutOffset : Option Int :=
  t.pendingCut.bind fun cut => cut.offset tp.1 tp.2

/-- The records of a batch below the cut, and the offset the partition moves to. -/
def splitAtCut (batch : FetchBatch) (cut : Option Int) (offset : Int) : List FetchedRec × Int :=
  match cut with
  | none => (batch.records, batch.nextOffset offset)
  | some c =>
    let below := batch.records.takeWhile fun r => r.offset < c
    (below, if below.length < batch.records.length then c else batch.nextOffset offset)

/-- Pipe one record and send what it made the sinks emit. A tombstone is piped as no bytes. -/
def pipeRecord (r : FetchedRec) : TaskM E P M S V Unit := do
  log (.piped · tp.1 tp.2 r.offset)
  runGraph .records fun g => g.pipe tp.1 tp.2 r.offset r.key (r.value.getD []) r.timestamp
  sendOutput

def openGate : TaskM E P M S V Unit :=
  if gated then World.ensureBegun.onWorld else pure ()

def processRecords (tp : Topic × Int) (records : List FetchedRec) : TaskM E P M S V Unit := do
  openGate gated
  records.forM (pipeRecord tp)
  sendChangelogs
  punctuateStreamTime

/-- One source partition of `process_once`: a partition at its cut fetches nothing, and a batch
without records below the cut opens no transaction. -/
def processPartition (tp : Topic × Int) : TaskM E P M S V Unit := do
  let t ← current
  let offset := (t.positions.get? tp).getD 0
  let cut := t.cutOffset tp
  if cut.any (· ≤ offset) then pure ()
  else do
    log (.sourceFetched · tp.1 tp.2 offset)
    let batch ← (World.call fun e => Broker.fetch e tp.1 tp.2 offset .readUncommitted).onWorld
    let next := (splitAtCut batch cut offset).2
    match (splitAtCut batch cut offset).1 with
    | [] => if offset < next then advance tp next else pure ()
    | r :: rs => do
      processRecords gated tp (r :: rs)
      advance tp next

/-- One batch per source partition. `gated` is whether a transaction must be open first. -/
def processOnce : TaskM E P M S V Unit :=
  span .processOnce do
    let t ← current
    t.positions.keys.forM (processPartition gated)

def pendingOffsets : Offsets :=
  t.pending.map fun e => (e.1.1, e.1.2, e.2)

def storeCommit (offsets : Offsets) : TaskM E P M S V Unit := do
  match ← (World.call fun e => Broker.commit e offsets).onWorld.attempt with
  | .ok () => log (.offsetsCommitted · offsets true)
  | .error e =>
    log (.offsetsCommitted · offsets false)
    throw e

def commitPending : TaskM E P M S V Offsets := do
  let t ← current
  if t.pending = [] then pure []
  else do
    storeCommit t.pendingOffsets
    clearPending
    pure t.pendingOffsets

def commit : TaskM E P M S V Unit :=
  span .commit do
    flushCaches .close
    World.flush.onWorld
    let _ ← commitPending
    pure ()

def barrierReached : Bool :=
  match t.pendingCut with
  | none => false
  | some cut => t.positions.all fun e => cut.reached e.1.1 e.1.2 e.2

def snapshotAtBarrier : TaskM E P M S V TaskSnapshot :=
  span .snapshotAtBarrier do
    flushCaches .flush
    World.flush.onWorld
    let t ← current
    pure t.graph.snapshotStores

def drained : Bool := t.buffered.isEmpty

def clean : Bool := t.graph.stores.all fun e => !isDirty e.2

def held : Bool :=
  t.positions.all fun e => (t.cutOffset e.1).any (· ≤ e.2)

def wallClockDue (now : Int) : Bool :=
  t.graph.schedules.any (t.graph.isDue .wallClockTime now)

end StreamTask

end KrabkaStreams
