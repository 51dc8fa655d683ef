import KrabkaStreams.Dsl.Changed
import KrabkaStreams.Dsl.Table

/-!
# The aggregate of a grouped table

A change is split by the groups of its two sides and goes through the repartition topic to the
aggregate. Its two messages may be read in either order.
-/

namespace KrabkaStreams

structure KTableRepartitionMapProcessor (K V KR VR : Type) where
  mapper : K → V → KR × VR

def KTableRepartitionMapProcessor.process {K V KR VR : Type} [DecidableEq KR]
    (p : KTableRepartitionMapProcessor K V KR VR) (r : Record K (Change V)) :
    Except ProcessorError (List (Record KR (Change VR))) := do
  let some key := r.key | throw .panicked
  let subtract (o : KR × VR) : Record KR (Change VR) := ⟨some o.1, ⟨some o.2, none⟩, r.timestamp⟩
  let add (n : KR × VR) : Record KR (Change VR) := ⟨some n.1, ⟨none, some n.2⟩, r.timestamp⟩
  match r.value.old.map (p.mapper key), r.value.new.map (p.mapper key) with
  | some o, some n =>
    if o.1 = n.1 then return [⟨some n.1, ⟨some o.2, some n.2⟩, r.timestamp⟩]
    else return [subtract o, add n]
  | old, new => return old.toList.map subtract ++ new.toList.map add

structure KTableAggregateProcessor (KR VR T : Type) where
  init : T
  adder : KR → VR → T → T
  subtractor : KR → VR → T → T
  forwarder : TupleForwarder

namespace KTableAggregateProcessor

variable {KR VR T : Type}

def apply (p : KTableAggregateProcessor KR VR T) (key : KR) (c : Change VR) (agg : T) : T :=
  let agg := match c.old with
    | some ov => p.subtractor key ov agg
    | none => agg
  match c.new with
  | some nv => p.adder key nv agg
  | none => agg

def process (p : KTableAggregateProcessor KR VR T) (store : TableStore KR T) (rc : RecordContext)
    (r : Record KR (Change VR)) :
    Except ProcessorError (TableStore KR T × List (Record KR (Change T))) := do
  let some key := r.key | throw .panicked
  let store := store.setRecordContext rc
  let prior ← store.get key
  let agg := p.apply key r.value (prior.getD p.init)
  return (store.put key agg, p.forwarder.maybeForwardChange key (.update prior agg) r.timestamp)

end KTableAggregateProcessor

/-- A grouping and its aggregate, with the serdes and the names of the repartition hop: the sink passes
the topic to the serdes, the source its own name. -/
structure GroupedTable (K V KR VR T : Type) where
  select : KTableRepartitionMapProcessor K V KR VR
  aggregate : KTableAggregateProcessor KR VR T
  keySerde : Serde KR
  valueSerde : Serde VR
  topic : Topic
  sourceName : String

structure RepartitionRecord where
  key : Option Bytes
  value : Bytes
  timestamp : Int

structure Reading where
  swapped : Bool
  context : RepartitionRecord → RecordContext

namespace GroupedTable

variable {K V KR VR T : Type}

def send (g : GroupedTable K V KR VR T) (r : Record KR (Change VR)) :
    Except ProcessorError RepartitionRecord := do
  let value ← Changed.serialize g.valueSerde g.topic r.value
  return ⟨r.key.map (g.keySerde.serialize g.topic), value, r.timestamp⟩

def receive (g : GroupedTable K V KR VR T) (m : RepartitionRecord) :
    Except ProcessorError (Record KR (Change VR)) := do
  let key ← match m.key with
    | none => .ok none
    | some kb => match g.keySerde.deserialize g.sourceName kb with
      | .ok k => .ok (some k)
      | .error message => .error (.serde g.sourceName message)
  match Changed.deserialize g.valueSerde g.sourceName m.value with
  | .ok c => return ⟨key, c, m.timestamp⟩
  | .error message => .error (.serde g.sourceName message)

def read (g : GroupedTable K V KR VR T) (reading : Reading) :
    List RepartitionRecord → TableStore KR T → Except ProcessorError (TableStore KR T)
  | [], store => .ok store
  | m :: ms, store => do
    let r ← g.receive m
    let (store, _) ← g.aggregate.process store (reading.context m) r
    g.read reading ms store

def feed [DecidableEq KR] (g : GroupedTable K V KR VR T) (reading : Reading) (r : Record K (Change V))
    (store : TableStore KR T) : Except ProcessorError (TableStore KR T) := do
  let messages ← (← g.select.process r).mapM g.send
  g.read reading (if reading.swapped then messages.reverse else messages) store

def feedAll [DecidableEq KR] (g : GroupedTable K V KR VR T) (reading : Reading) :
    List (Record K (Change V)) → TableStore KR T → Except ProcessorError (TableStore KR T)
  | [], store => .ok store
  | r :: rs, store => do
    let store ← g.feed reading r store
    g.feedAll reading rs store

end GroupedTable

end KrabkaStreams
