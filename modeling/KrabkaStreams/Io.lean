import KrabkaStreams.Lib.Effect
import KrabkaStreams.Lib.OrdMap
import KrabkaStreams.Record

/-!
# The world of a task

`Broker` gives the answers of everything a task talks to as transition functions of an arbitrary
environment `E`, so a statement over all environments covers every pattern of answers and failures. A
run leaves the history of the calls that matter to a delivery guarantee.
-/

namespace KrabkaStreams

open Effect

inductive TaskRole
  | active
  | standby
  | warmup
  deriving DecidableEq, Repr

structure TaskRef where
  subtopologyId : String
  partition : Int
  role : TaskRole
  deriving DecidableEq, Repr

/-- What the Kafka client takes; without a partition it hashes the key, without a timestamp it
stamps the wall clock. -/
structure ProducerRecord where
  topic : Topic
  partition : Option Int
  key : Option Bytes
  value : Option Bytes
  timestampMs : Option Int
  deriving DecidableEq, Repr

abbrev Offsets := List (Topic × Int × Int)

structure BarrierCut where
  group : String
  epoch : Int
  offsets : OrdMap (Topic × Int) Int
  deriving DecidableEq, Repr

def BarrierCut.offset (c : BarrierCut) (topic : Topic) (partition : Int) : Option Int :=
  c.offsets.get? (topic, partition)

def BarrierCut.reached (c : BarrierCut) (topic : Topic) (partition position : Int) : Bool :=
  match c.offset topic partition with
  | none => true
  | some o => o ≤ position

abbrev TaskSnapshot := OrdMap String Bytes

structure SnapshotKey where
  task : String
  group : String
  epoch : Int
  deriving DecidableEq, Repr

class Broker (E : Type) where
  fetch : E → Topic → Int → Int → IsolationLevel → Except StreamsClientError FetchBatch × E
  partitions : E → Topic → Except StreamsClientError (List Int) × E
  committed : E → Topic → Int → Except StreamsClientError (Option Int) × E
  earliest : E → Topic → Int → Except StreamsClientError Int × E
  latest : E → Topic → Int → Except StreamsClientError Int × E
  commit : E → Offsets → Except StreamsClientError Unit × E
  /-- `Producer::enqueue`; the handle of a record is its number among the accepted ones. -/
  enqueue : E → ProducerRecord → Except StreamsClientError Unit × E
  flushInner : E → Except StreamsClientError Unit × E
  awaitDelivery : E → Nat → Except StreamsClientError Unit × E
  initTransactions : E → Except StreamsClientError Unit × E
  beginTransaction : E → Except StreamsClientError Unit × E
  sendOffsets : E → Offsets → Except StreamsClientError Unit × E
  commitTransaction : E → Except StreamsClientError Unit × E
  abortTransaction : E → Except StreamsClientError Unit × E
  completeCutsAfter : E → String → Int → Except StreamsClientError (List BarrierCut) × E
  saveSnapshot : E → SnapshotKey → TaskSnapshot → Except StreamsClientError Unit × E
  nowMs : E → Int × E

/-- Why a graph operation ran: for source records, at a wall-clock pass, to flush the caches for a
commit of the thread, to flush them for a task that commits on its own or closes, or at `init`. -/
inductive EmitKind
  | records
  | wallClock
  | flush
  | close
  | init
  deriving DecidableEq, Repr

inductive TaskStep
  | restore
  | restoreStep
  | rollback
  | seekToStart
  | processOnce
  | punctuateStreamTime
  | punctuateWallClock
  | flushCaches (kind : EmitKind)
  | commit
  | snapshotAtBarrier
  | computeChangelogOffsets
  deriving DecidableEq, Repr

inductive Event
  | sourceFetched (task : TaskRef) (topic : Topic) (partition offset : Int)
  | changelogFetched (task : TaskRef) (topic : Topic) (partition offset : Int)
  | piped (task : TaskRef) (topic : Topic) (partition offset : Int)
  /-- What a graph operation appended to the sink output and to the changelog buffers. -/
  | emitted (task : TaskRef) (kind : EmitKind) (records : List ProducerRecord)
  /-- A `send` or `send_with_timestamp`; an accepted record gets a delivery handle. -/
  | sent (task : TaskRef) (record : ProducerRecord) (handle : Option Nat)
  | flushed (handles : List Nat)
  | deliveryFailed (handle : Nat)
  | offsetsCommitted (task : TaskRef) (offsets : Offsets) (ok : Bool)
  | txnBegun (ok : Bool)
  /-- The offsets each task put into the transaction. -/
  | txnOffsetsSent (parts : List (TaskRef × Offsets)) (ok : Bool)
  | txnCommitted (ok : Bool)
  | txnAborted (ok : Bool)
  | fenced
  | failed (task : TaskRef) (step : TaskStep)
  /-- The transaction was aborted and every task of the thread was rolled back. -/
  | recovered
  /-- A removed or demoted task closes: whether a transaction is open, whether its buffers and its
  caches are empty, and whether no offset waits for a commit. -/
  | closing (task : TaskRef) (inTxn quiet settled : Bool)
  /-- A wall-clock pass begins: whether a transaction is open, and whether the buffers are empty and
  no punctuator is due. -/
  | ticking (task : TaskRef) (inTxn quiet : Bool)
  /-- An at-least-once poll reaches a task: whether all its partitions are held at a cut. -/
  | polling (task : TaskRef) (held : Bool)
  /-- The thread flushes the caches of a task for a commit or a snapshot: whether its buffers and its
  caches are empty. -/
  | flushing (task : TaskRef) (quiet : Bool)
  deriving DecidableEq, Repr

/-- `BrokerProducer` keeps the handles it has not awaited; `BrokerTransactionalProducer` keeps the
guard of the open transaction. -/
inductive ProducerState
  | broker (pending : List Nat)
  | transactional (txn : Bool)
  deriving DecidableEq, Repr

structure World (E : Type) where
  env : E
  producer : ProducerState
  /-- The `begun` flag of the gate that `process_once` opens transactions through. -/
  begun : Bool
  nextHandle : Nat
  /-- The bound of the model on the batches one restore loop reads. -/
  budget : Nat

def World.start {E : Type} (env : E) (producer : ProducerState) (budget : Nat) : World E where
  env := env
  producer := producer
  begun := false
  nextHandle := 0
  budget := budget

abbrev WorldM (E : Type) := Eff (World E) Event StreamsClientError

namespace World

variable {E : Type} {α : Type}

def fencedEvent : Except StreamsClientError α → List Event
  | .error e => if e.isProducerFenced then [.fenced] else []
  | .ok _ => []

def call (op : E → Except StreamsClientError α × E) : WorldM E α :=
  fun w => ((op w.env).1, { w with env := (op w.env).2 }, fencedEvent (op w.env).1)

variable [Broker E]

def beginTransaction : WorldM E Unit := do
  match ← (call Broker.beginTransaction).attempt with
  | .ok () =>
    modify fun w => { w with producer := .transactional true }
    .tell (.txnBegun true)
  | .error e =>
    .tell (.txnBegun false)
    throw e

def noOpenTransaction : StreamsClientError :=
  .runtime "called without an open transaction"

def holdsGuard (w : World E) : Bool :=
  match w.producer with
  | .transactional txn => txn
  | .broker _ => false

/-- End the open transaction with `op`. A failure keeps the guard, so that an abort can follow. -/
def endTransaction (op : E → Except StreamsClientError Unit × E) (ev : Bool → Event) :
    WorldM E Unit := do
  if (← get).holdsGuard then
    match ← (call op).attempt with
    | .ok () =>
      modify fun w => { w with producer := .transactional false }
      .tell (ev true)
    | .error e =>
      .tell (ev false)
      throw e
  else
    .tell (ev false)
    throw noOpenTransaction

def commitTransaction : WorldM E Unit := endTransaction Broker.commitTransaction .txnCommitted

def abortTransaction : WorldM E Unit := endTransaction Broker.abortTransaction .txnAborted

def sendOffsetsToTransaction (parts : List (TaskRef × Offsets)) : WorldM E Unit := do
  match ← (call fun e => Broker.sendOffsets e (parts.flatMap Prod.snd)).attempt with
  | .ok () => .tell (.txnOffsetsSent parts true)
  | .error e =>
    .tell (.txnOffsetsSent parts false)
    throw e

/-- `send` and `send_with_timestamp` of both producers: the plain one keeps the handle, the
transactional one drops it. -/
def send (task : TaskRef) (record : ProducerRecord) : WorldM E Unit := do
  match ← (call fun e => Broker.enqueue e record).attempt with
  | .ok () =>
    let h := (← get).nextHandle
    modify fun w =>
      { w with
        nextHandle := h + 1
        producer := match w.producer with
          | .broker pending => .broker (pending ++ [h])
          | .transactional txn => .transactional txn }
    .tell (.sent task record (some h))
  | .error e =>
    .tell (.sent task record none)
    throw e

def awaitAll : List Nat → WorldM E Unit
  | [] => pure ()
  | h :: hs => do
    match ← (call fun e => Broker.awaitDelivery e h).attempt with
    | .ok () => awaitAll hs
    | .error e =>
      .tell (.deliveryFailed h)
      throw e

/-- `flush`: the plain producer drains its buffer, takes all handles out and awaits them one by
one, so a failed delivery drops the handles after it. The transactional one has nothing to do. -/
def flush : WorldM E Unit := do
  match (← get).producer with
  | .transactional _ => pure ()
  | .broker _ =>
    call Broker.flushInner
    match (← get).producer with
    | .transactional _ => pure ()
    | .broker pending =>
      modify fun w => { w with producer := .broker [] }
      awaitAll pending
      .tell (.flushed pending)

def ensureBegun : WorldM E Unit := do
  if (← get).begun then
    pure ()
  else
    beginTransaction
    modify fun w => { w with begun := true }

end World

end KrabkaStreams
