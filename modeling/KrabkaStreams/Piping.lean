import KrabkaStreams.Construction
import KrabkaStreams.Lib.Worklist

/-!
# Piping a record, dispatch by dispatch

`Graph::drain` as a work queue. `serve` is the body of its loop, with the child list moved out while the
node runs; a pending record remembers the node that forwarded it.
-/

namespace KrabkaStreams

/-- An entry of the forward buffer; a record that a source seeded has no origin. -/
structure Pending (V : Type) where
  origin : Option Nat
  node : Nat
  record : ErasedRecord V
  deriving DecidableEq, Repr

abbrev Dispatched (V : Type) := Worklist.Served (Pending V) (List (ErasedRecord V))

namespace Graph

variable {P M S V : Type} [Processor P M S V] (g : Graph P M S V)

def pendingFrom (node : Nat) (children : List Nat) (recs : List (ErasedRecord V)) : List (Pending V) :=
  (fanOut children recs).map fun q => ⟨some node, q.1, q.2⟩

def processNode (rc : RecordContext) (idx : Nat) (rec : ErasedRecord V) :
    Except ProcessorError (List (ErasedRecord V)) × Graph P M S V :=
  match g.nodes[idx]? with
  | none => (.error .panicked, g)
  | some (.sinkNode topic serialize) =>
    match serialize rec with
    | .error e => (.error e, g)
    | .ok (k, v) => (.ok [], { g with output := g.output ++ [⟨topic, k, some v, rec.timestamp⟩] })
  | some (.processorNode p) =>
    match Processor.process p g.mem (g.context rc) rec with
    | .error e => (.error e, g)
    | .ok o => (.ok o.forwards, g.absorb idx o)

def setChildren (idx : Nat) (children : List Nat) : Graph P M S V :=
  { g with children := g.children.set idx children }

def serve (rc : RecordContext) (g : Graph P M S V) (q : Pending V) :
    Except ProcessorError (List (ErasedRecord V) × List (Pending V)) × Graph P M S V :=
  let children := g.childrenOf q.node
  let (res, g') := (g.setChildren q.node []).processNode rc q.node q.record
  (res.map fun recs => (recs, pendingFrom q.node children recs), g'.setChildren q.node children)

def pipeServed (n : Nat) (topic : Topic) (partition offset : Int) (key : Option Bytes) (value : Bytes)
    (timestamp : Int) : List (Dispatched V) × Except ProcessorError Unit × Graph P M S V :=
  let g' := { g with streamTime := max g.streamTime timestamp }
  match seed topic key value timestamp g.sources with
  | .error e => ([], .error e, g')
  | .ok buffer =>
    Worklist.run (serve ⟨topic, partition, offset, timestamp⟩) .outOfBudget n (buffer.map fun q => ⟨none, q.1, q.2⟩) g'

/-- Every node feeds nodes with larger indices only. -/
def Forward : Prop := ∀ i, ∀ c ∈ g.childrenOf i, i < c

/-- Every forward was processed once for each entry of the child list, in the order of the forwards. -/
structure Delivered (seeds : List (Nat × ErasedRecord V)) (log : List (Dispatched V)) : Prop where
  served : log.map (·.item) = (seeds.map fun q => ⟨none, q.1, q.2⟩) ++
    log.flatMap fun d => pendingFrom d.item.node (g.childrenOf d.item.node) d.made
  inOrder : ∀ p c, (log.filter fun d => d.item.origin = some p ∧ d.item.node = c).map (·.item.record) =
    (log.filter fun d => d.item.node = p).flatMap fun d =>
      d.made.flatMap fun r => List.replicate ((g.childrenOf p).count c) r

/-- Piping comes to an end, the same for every bound that is large enough; it keeps the child lists, and when it returns
it has delivered every forward. -/
def PipesThrough (topic : Topic) (partition offset : Int) (key : Option Bytes) (value : Bytes)
    (timestamp : Int) : Prop :=
  ∃ n log r, (∀ m, n ≤ m → g.pipeServed m topic partition offset key value timestamp = (log, r)) ∧
    r.2.children = g.children ∧
    (r.1 = .ok () → ∃ seeds, seed topic key value timestamp g.sources = .ok seeds ∧ g.Delivered seeds log)

end Graph

end KrabkaStreams
