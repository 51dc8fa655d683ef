import KrabkaStreams.Lib.Effect
import KrabkaStreams.Store
import Mathlib.Data.List.Sort

/-!
# The processor graph

One runnable graph. A processor is code outside it: `Processor` gives its transition functions over a
memory `M` that all processors of a task share, and a call returns an `Outcome`. `drain` serves the
forward buffer first in, first out; its loop has no bound in the source, here `budget` bounds it.
-/

namespace KrabkaStreams

open Effect StateStore

inductive PunctuationType
  | streamTime
  | wallClockTime
  deriving DecidableEq, Repr

/-- A call of `ProcessorContext::schedule`; `cancel` names the flag of the returned handle. -/
structure ScheduleRequest (P : Type) where
  interval : Int
  ty : PunctuationType
  punctuator : P
  cancel : Nat

structure ScheduleEntry (P : Type) where
  nodeIdx : Nat
  interval : Int
  ty : PunctuationType
  nextTime : Int
  punctuator : P
  cancel : Nat

structure ProcessorContext (S : Type) where
  recordCtx : RecordContext
  stores : StoreRegistry S
  globals : StoreRegistry S

structure Outcome (P M S V : Type) where
  mem : M
  stores : StoreRegistry S
  forwards : List (ErasedRecord V)
  schedules : List (ScheduleRequest P)
  cancels : List Nat

/-- The processors and punctuators `P` of a topology, over a shared memory `M`. -/
class Processor (P M S V : Type) where
  init : P → M → ProcessorContext S → Outcome P M S V
  process : P → M → ProcessorContext S → ErasedRecord V → Except ProcessorError (Outcome P M S V)
  close : P → M → M
  punctuate : P → M → ProcessorContext S → Int → Outcome P M S V

/-- The processors reach the stores through their typed surface only. -/
class LawfulProcessor (P M S V : Type) [StateStore S V] [Processor P M S V] : Prop where
  init_stores : ∀ (p : P) (m : M) (c : ProcessorContext S),
    StoreRegistry.Rel Evolves c.stores (Processor.init (V := V) p m c).stores
  process_stores : ∀ (p : P) (m : M) (c : ProcessorContext S) (r : ErasedRecord V) o,
    Processor.process p m c r = .ok o → StoreRegistry.Rel Evolves c.stores o.stores
  punctuate_stores : ∀ (p : P) (m : M) (c : ProcessorContext S) (t : Int),
    StoreRegistry.Rel Evolves c.stores (Processor.punctuate (V := V) p m c t).stores

inductive ErasedNode (P V : Type)
  | processorNode (inner : P)
  | sinkNode (topic : Topic) (serialize : ErasedRecord V → Except ProcessorError (Option Bytes × Bytes))

/-- A source: the node it comes from, its topic, its deserializer for `(key, value, timestamp)` and
the nodes it feeds. -/
structure GraphSource (V : Type) where
  node : String
  topic : Topic
  deserialize : Option Bytes → Bytes → Int → Except ProcessorError (ErasedRecord V)
  children : List Nat

structure Graph (P M S V : Type) where
  nodes : List (ErasedNode P V)
  children : List (List Nat)
  sources : List (GraphSource V)
  output : List OutputRecord
  stores : StoreRegistry S
  globals : StoreRegistry S
  schedules : List (ScheduleEntry P)
  cancelled : List Nat
  streamTime : Int
  wallClock : Int
  cacheOwner : OrdMap String Nat
  mem : M
  budget : Nat

namespace Graph

variable {P M S V : Type} [StateStore S V] [Processor P M S V] (g : Graph P M S V) (rc : RecordContext)
  (idx : Nat)

def fanOut (children : List Nat) (recs : List (ErasedRecord V)) : List (Nat × ErasedRecord V) :=
  recs.flatMap fun r => children.map fun c => (c, r)

def childrenOf : List Nat := g.children.getD idx []

def context : ProcessorContext S :=
  ⟨rc, g.stores, g.globals⟩

def newSchedule (q : ScheduleRequest P) : ScheduleEntry P :=
  let base := match q.ty with
    | .streamTime => g.streamTime
    | .wallClockTime => g.wallClock
  ⟨idx, q.interval, q.ty, saturatingAdd base q.interval, q.punctuator, q.cancel⟩

def absorb (o : Outcome P M S V) : Graph P M S V :=
  { g with
    mem := o.mem
    stores := o.stores
    schedules := g.schedules ++ o.schedules.map (g.newSchedule idx)
    cancelled := g.cancelled ++ o.cancels }

def dispatch (rec : ErasedRecord V) : Except ProcessorError (List (Nat × ErasedRecord V) × Graph P M S V) :=
  match g.nodes[idx]? with
  | none => .error .panicked
  | some (.sinkNode topic serialize) =>
    match serialize rec with
    | .error e => .error e
    | .ok (k, v) => .ok ([], { g with output := g.output ++ [⟨topic, k, some v, rec.timestamp⟩] })
  | some (.processorNode p) =>
    match Processor.process p g.mem (g.context rc) rec with
    | .error e => .error e
    | .ok o => .ok (fanOut (g.childrenOf idx) o.forwards, g.absorb idx o)

/-- `drain` with a bound on the dispatches. An error drops the rest of the buffer. -/
def drainLoop (rc : RecordContext) :
    Nat → List (Nat × ErasedRecord V) → Graph P M S V →
      Except ProcessorError Unit × Graph P M S V
  | _, [], g => (.ok (), g)
  | 0, _ :: _, g => (.error .outOfBudget, g)
  | n + 1, (idx, rec) :: buffer, g =>
    match g.dispatch rc idx rec with
    | .error e => (.error e, g)
    | .ok (queued, g') => drainLoop rc n (buffer ++ queued) g'

def drain (buffer : List (Nat × ErasedRecord V)) : Except ProcessorError Unit × Graph P M S V :=
  drainLoop rc g.budget buffer g

def seed (topic : Topic) (key : Option Bytes) (value : Bytes) (timestamp : Int) :
    List (GraphSource V) → Except ProcessorError (List (Nat × ErasedRecord V))
  | [] => .ok []
  | src :: srcs =>
    if src.topic = topic then do
      let here ← src.children.mapM fun c => do
        let rec ← src.deserialize key value timestamp
        pure (c, rec)
      let rest ← seed topic key value timestamp srcs
      pure (here ++ rest)
    else seed topic key value timestamp srcs

def pipe (topic : Topic) (partition offset : Int) (key : Option Bytes) (value : Bytes) (timestamp : Int) :
    Except ProcessorError Unit × Graph P M S V :=
  let g' := { g with streamTime := max g.streamTime timestamp }
  match seed topic key value timestamp g.sources with
  | .error e => (.error e, g')
  | .ok buffer => g'.drain ⟨topic, partition, offset, timestamp⟩ buffer

def syntheticContext (timestamp : Int) : RecordContext := ⟨"", -1, -1, timestamp⟩

def fireSchedule (i : Nat) (ts : Int) : Except ProcessorError Unit × Graph P M S V :=
  match g.schedules[i]? with
  | none => (.error .panicked, g)
  | some e =>
    let rc := syntheticContext ts
    let o : Outcome P M S V := Processor.punctuate e.punctuator g.mem (g.context rc) ts
    (g.absorb e.nodeIdx o).drain rc (fanOut (g.childrenOf e.nodeIdx) o.forwards)

def resync (next interval now : Int) : Int :=
  if saturatingAdd next interval ≤ now then saturatingAdd now interval
  else saturatingAdd next interval

def setNextTime (i : Nat) (t : Int) : Graph P M S V :=
  { g with schedules := g.schedules.modify i fun e => { e with nextTime := t } }

def isDue (ty : PunctuationType) (now : Int) (e : ScheduleEntry P) : Bool :=
  e.ty == ty && !g.cancelled.contains e.cancel && decide (e.nextTime ≤ now)

def punctuateLoop (ty : PunctuationType) (now : Int) :
    List Nat → Graph P M S V → Except ProcessorError Unit × Graph P M S V
  | [], g => (.ok (), g)
  | i :: is, g =>
    match g.schedules[i]? with
    | none => (.error .panicked, g)
    | some e =>
      if g.isDue ty now e then
        match g.fireSchedule i now with
        | (.error err, g') => (.error err, g')
        | (.ok (), g') => punctuateLoop ty now is (g'.setNextTime i (resync e.nextTime e.interval now))
      else punctuateLoop ty now is g

def punctuate (ty : PunctuationType) (now : Int) : Except ProcessorError Unit × Graph P M S V :=
  let live := g.schedules.filter fun e => !g.cancelled.contains e.cancel
  punctuateLoop ty now (List.range live.length) { g with schedules := live }

def punctuateStreamTime (streamTime : Int) : Except ProcessorError Unit × Graph P M S V :=
  let now := max g.streamTime streamTime
  { g with streamTime := now }.punctuate .streamTime now

def punctuateWallClock (now : Int) : Except ProcessorError Unit × Graph P M S V :=
  { g with wallClock := now }.punctuate .wallClockTime now

/-- The cached stores with their owning nodes, in ascending node order. -/
def cacheOwners : List (String × Nat) :=
  g.cacheOwner.insertionSort fun a b => a.2 ≤ b.2

def flushStore (name : String) (idx : Nat) (rc : RecordContext) :
    Except ProcessorError Unit × Graph P M S V :=
  match g.stores.get? name with
  | none => g.drain rc []
  | some s =>
    let g' := { g with stores := g.stores.insert name (flushCacheInto s).2 }
    match (flushCacheInto s).1 with
    | .ok changes => g'.drain rc (fanOut (g.childrenOf idx) changes)
    | .error e => if g.childrenOf idx = [] then g'.drain rc [] else (.error e, g')

def flushLoop (rc : RecordContext) :
    List (String × Nat) → Graph P M S V → Except ProcessorError Unit × Graph P M S V
  | [], g => (.ok (), g)
  | (name, idx) :: rest, g =>
    match g.flushStore name idx rc with
    | (.error e, g') => (.error e, g')
    | (.ok (), g') => flushLoop rc rest g'

def flushCaches : Except ProcessorError Unit × Graph P M S V :=
  flushLoop (syntheticContext g.streamTime) g.cacheOwners g

def takeOutput : List OutputRecord × Graph P M S V :=
  (g.output, { g with output := [] })

/-- `init` at one node: a sink has none, and what a processor forwards is dropped. -/
def initNode : ErasedNode P V → Graph P M S V
  | .sinkNode _ _ => g
  | .processorNode p =>
    g.absorb idx (Processor.init (V := V) p g.mem (g.context (syntheticContext (-1))))

def initProcessors : Graph P M S V :=
  g.nodes.zipIdx.foldl (fun g n => g.initNode n.2 n.1) g

def closeNode (m : M) : ErasedNode P V → M
  | .sinkNode _ _ => m
  | .processorNode p => Processor.close (S := S) (V := V) p m

def closeProcessors : Graph P M S V :=
  { g with mem := g.nodes.foldl (closeNode (S := S)) g.mem }

def changelogRecords (reuse : List Topic) (s : S) : List ChangelogRecord :=
  if changelogTopic s ∈ reuse then []
  else (changelog s).map fun e => ⟨changelogTopic s, e⟩

/-- Drain every changelog buffer; a reuse-source store is drained and never re-produced. -/
def drainChangelogs (reuse : List Topic) : List ChangelogRecord × Graph P M S V :=
  (g.stores.flatMap fun e => changelogRecords reuse e.2,
    { g with stores := StoreRegistry.mapStores (fun s => (takeChangelogTs s).2) g.stores })

def restoreApply (name : String) (key : Bytes) (value : Option Bytes) (timestamp : Int) : Graph P M S V :=
  { g with stores := OrdMap.modify g.stores name fun s => applyChangelogTs s key value timestamp }

def setLogging (on : Bool) : Graph P M S V :=
  { g with stores := StoreRegistry.mapStores (StateStore.setLogging · on) g.stores }

def clearStores : Graph P M S V :=
  { g with stores := StoreRegistry.mapStores StateStore.clear g.stores }

def snapshotStores : OrdMap String Bytes :=
  g.stores.map fun e => (e.1, StateStore.snapshot e.2)

end Graph

end KrabkaStreams
