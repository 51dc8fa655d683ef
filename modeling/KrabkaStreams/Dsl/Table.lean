import KrabkaStreams.Stores.Table

/-!
# The nodes of a table

A table passes changes from node to node. A filter and a mapping apply to both sides of a change; a node
with a cached store leaves its forwards to the flush.
-/

namespace KrabkaStreams

def Change.map {V V' : Type} (c : Change V) (f : V → V') : Change V' := ⟨c.old.map f, c.new.map f⟩

def TableStore.reconcile {K V : Type} (s : TableStore K V) (key : K) :
    Option V → Except ProcessorError (TableStore K V)
  | some v => .ok (s.put key v)
  | none => do
    let (_, s) ← s.delete key
    return s

structure KTableSourceProcessor where
  forwarder : TupleForwarder

def KTableSourceProcessor.process {K V : Type} (p : KTableSourceProcessor) (store : TableStore K V)
    (rc : RecordContext) (r : Record K V) :
    Except ProcessorError (TableStore K V × List (Record K (Change V))) := do
  let some key := r.key | throw .panicked
  let store := store.setRecordContext rc
  let old ← store.get key
  let store := store.put key r.value
  return (store, p.forwarder.maybeForwardChange key (.update old r.value) r.timestamp)

structure KTableMapValuesProcessor (V V' : Type) where
  f : V → V'
  forwarder : TupleForwarder

variable {K V V' : Type}

def KTableMapValuesProcessor.process (p : KTableMapValuesProcessor V V') (store : TableStore K V')
    (rc : RecordContext) (r : Record K (Change V)) :
    Except ProcessorError (TableStore K V' × List (Record K (Change V'))) := do
  let some key := r.key | throw .panicked
  let mapped := r.value.map p.f
  let store ← (store.setRecordContext rc).reconcile key mapped.new
  return (store, p.forwarder.maybeForwardChange key mapped r.timestamp)

structure KTableMapValuesViewProcessor (V V' : Type) where
  f : V → V'

def KTableMapValuesViewProcessor.process (p : KTableMapValuesViewProcessor V V') (r : Record K (Change V)) :
    List (Record K (Change V')) :=
  [⟨r.key, r.value.map p.f, r.timestamp⟩]

structure KTableFilterProcessor (K V : Type) where
  predicate : K → V → Bool
  forwarder : TupleForwarder

/-- A side that does not satisfy the predicate is absent; a change without a side is not forwarded. -/
def KTableFilterProcessor.process {K V : Type} (p : KTableFilterProcessor K V) (store : TableStore K V)
    (rc : RecordContext) (r : Record K (Change V)) :
    Except ProcessorError (TableStore K V × List (Record K (Change V))) := do
  let some key := r.key | throw .panicked
  let old := r.value.old.filter (p.predicate key)
  let new := r.value.new.filter (p.predicate key)
  let store ← (store.setRecordContext rc).reconcile key new
  if new.isSome || old.isSome then
    return (store, p.forwarder.maybeForwardChange key ⟨old, new⟩ r.timestamp)
  else return (store, [])

inductive TableNode (K : Type) : Type → Type → Type 1
  | filter {V : Type} (p : KTableFilterProcessor K V) (store : TableStore K V) : TableNode K V V
  | mapValues {V V' : Type} (p : KTableMapValuesProcessor V V') (store : TableStore K V') : TableNode K V V'
  | mapValuesView {V V' : Type} (p : KTableMapValuesViewProcessor V V') : TableNode K V V'

def TableNode.process (rc : RecordContext) (r : Record K (Change V)) :
    TableNode K V V' → Except ProcessorError (TableNode K V V' × List (Record K (Change V')))
  | .filter p store => match p.process store rc r with
    | .error e => .error e
    | .ok (store, out) => .ok (.filter p store, out)
  | .mapValues p store => match p.process store rc r with
    | .error e => .error e
    | .ok (store, out) => .ok (.mapValues p store, out)
  | .mapValuesView p => .ok (.mapValuesView p, p.process r)

def TableNode.processAll (rc : RecordContext) (node : TableNode K V V') :
    List (Record K (Change V)) → Except ProcessorError (TableNode K V V' × List (Record K (Change V')))
  | [] => .ok (node, [])
  | r :: rs => match node.process rc r with
    | .error e => .error e
    | .ok (node, out) => match node.processAll rc rs with
      | .error e => .error e
      | .ok (node, rest) => .ok (node, out ++ rest)

inductive TableChain (K : Type) : Type → Type → Type 1
  | nil {V : Type} : TableChain K V V
  | cons {V V' V'' : Type} (node : TableNode K V V') (rest : TableChain K V' V'') : TableChain K V V''

def TableChain.process {K V V' : Type} (rc : RecordContext) :
    TableChain K V V' → List (Record K (Change V)) →
      Except ProcessorError (TableChain K V V' × List (Record K (Change V')))
  | .nil, rs => .ok (.nil, rs)
  | .cons node rest, rs => match node.processAll rc rs with
    | .error e => .error e
    | .ok (node, out) => match rest.process rc out with
      | .error e => .error e
      | .ok (rest, out) => .ok (.cons node rest, out)

end KrabkaStreams
