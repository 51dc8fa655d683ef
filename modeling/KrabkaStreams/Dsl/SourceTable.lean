import KrabkaStreams.Dsl.Table
import KrabkaStreams.GlobalTopics
import KrabkaStreams.Processes

/-!
# A source table in a task

The node of a table over a source topic, in a graph whose other nodes are arbitrary. `Graph.HasTable` is
what the DSL wires for it, `Graph.pipeForwards` what one node forwards while a record is piped.
-/

namespace KrabkaStreams

open Effect StateStore

variable {P M A : Type}

namespace SourceNode

def deserializeKey (node : String) (keySerde : Serde A) : Option Bytes → Except ProcessorError (Option (Value A))
  | none => .ok none
  | some kb =>
    match keySerde.deserialize node kb with
    | .ok k => .ok (some (.atom k))
    | .error message => .error (.serde node message)

def deserialize (node : String) (keySerde valueSerde : Serde A) (key : Option Bytes) (value : Bytes)
    (timestamp : Int) : Except ProcessorError (ErasedRecord (Value A)) := do
  let k ← deserializeKey node keySerde key
  match valueSerde.deserialize node value with
  | .ok v => pure ⟨k, .atom v, timestamp⟩
  | .error message => throw (.serde node message)

end SourceNode

inductive WithTables (P : Type)
  | table (node store : String)
  | other (p : P)

structure TableMemory (M : Type) where
  forwarders : OrdMap String TupleForwarder
  rest : M

def TableMemory.forwarder (m : TableMemory M) (node : String) : TupleForwarder :=
  (m.forwarders.get? node).getD ⟨false⟩

namespace WithTables

def lift (m : TableMemory M) {S V : Type} (o : Outcome P M S V) : Outcome (WithTables P) (TableMemory M) S V where
  mem := { m with rest := o.mem }
  stores := o.stores
  forwards := o.forwards
  schedules := o.schedules.map fun q => ⟨q.interval, q.ty, .other q.punctuator, q.cancel⟩
  cancels := o.cancels

def processTable (node store : String) (m : TableMemory M) (c : ProcessorContext (KeyValueBytesStore A))
    (rec : ErasedRecord (Value A)) :
    Except ProcessorError (Outcome (WithTables P) (TableMemory M) (KeyValueBytesStore A) (Value A)) := do
  let some value := rec.value.asAtom | throw (.downcast node)
  let some key := rec.key | throw .panicked
  let some key := key.asAtom | throw (.downcast node)
  let some s := c.stores.get? store | throw .panicked
  let s := s.setRecordContext c.recordCtx
  let old ← s.get key
  let forwards := if (m.forwarder node).cached then [] else
    [⟨some (.atom key), .change old (some value), rec.timestamp⟩]
  return ⟨m, c.stores.insert store (s.put key value), forwards, [], []⟩

end WithTables

instance [Processor P M (KeyValueBytesStore A) (Value A)] :
    Processor (WithTables P) (TableMemory M) (KeyValueBytesStore A) (Value A) where
  init p m c :=
    match p with
    | .table node store =>
      let cached := (c.stores.get? store).any KeyValueBytesStore.isCached
      ⟨{ m with forwarders := m.forwarders.insert node ⟨cached⟩ }, c.stores, [], [], []⟩
    | .other p => WithTables.lift m (Processor.init p m.rest c)
  process p m c rec :=
    match p with
    | .table node store => WithTables.processTable node store m c rec
    | .other p => (Processor.process p m.rest c rec).map (WithTables.lift m)
  close p m :=
    match p with
    | .table _ _ => m
    | .other p => { m with rest := Processor.close (KeyValueBytesStore A) (Value A) p m.rest }
  punctuate p m c now :=
    match p with
    | .table _ _ => ⟨m, c.stores, [], [], []⟩
    | .other p => WithTables.lift m (Processor.punctuate p m.rest c now)

namespace Graph

variable {S V : Type}

section Forwards

variable [StateStore S V] [Processor P M S V]

def nodeForwards (g : Graph P M S V) (rc : RecordContext) (idx : Nat) (rec : ErasedRecord V) : List (ErasedRecord V) :=
  match g.nodes[idx]? with
  | some (.processorNode p) =>
    match Processor.process p g.mem (g.context rc) rec with
    | .ok o => o.forwards
    | .error _ => []
  | _ => []

def forwardsLoop (idx : Nat) (rc : RecordContext) : Nat → List (Nat × ErasedRecord V) → Graph P M S V → List (ErasedRecord V)
  | _, [], _ => []
  | 0, _ :: _, _ => []
  | n + 1, (i, rec) :: buffer, g =>
    match g.dispatch rc i rec with
    | .error _ => []
    | .ok (queued, g') =>
      (if i = idx then g.nodeForwards rc idx rec else []) ++ forwardsLoop idx rc n (buffer ++ queued) g'

def pipeForwards (idx : Nat) (g : Graph P M S V) (tp : Topic × Int) (r : FetchedRec) : List (ErasedRecord V) :=
  match seed tp.1 r.key (r.value.getD []) r.timestamp g.sources with
  | .error _ => []
  | .ok buffer => forwardsLoop idx ⟨tp.1, tp.2, r.offset, r.timestamp⟩ g.budget buffer
      { g with streamTime := max g.streamTime r.timestamp }

end Forwards

end Graph

/-- A source table: the names of its source and its node, its store, the topic it reads, the changelog topic of the
store, the serdes and the place of the node in the graph. -/
structure SourceTable (A : Type) where
  source : String
  node : String
  store : String
  topic : Topic
  changelog : Topic
  keySerde : Serde A
  valueSerde : Serde A
  idx : Nat

/-- The wiring of a source table: one source with its serdes feeds the node, no node does, and no other table has
its store. -/
structure Graph.HasTable {S : Type} (tb : SourceTable A) (g : Graph (WithTables P) (TableMemory M) S (Value A)) :
    Prop where
  placed : g.nodes[tb.idx]? = some (.processorNode (.table tb.node tb.store))
  fed : ∀ src ∈ g.sources, tb.idx ∈ src.children →
    src.topic = tb.topic ∧ src.deserialize = SourceNode.deserialize tb.source tb.keySerde tb.valueSerde
  once : (g.sources.flatMap fun src => src.children).count tb.idx = 1
  unfed : ∀ children ∈ g.children, tb.idx ∉ children
  alone : ∀ i node, g.nodes[i]? = some (.processorNode (.table node tb.store)) → i = tb.idx

structure Leaves (P M : Type) (A : Type) [Processor P M (KeyValueBytesStore A) (Value A)] (name : String) : Prop where
  init : ∀ (p : P) (m : M) (c : ProcessorContext (KeyValueBytesStore A)),
    (Processor.init (V := Value A) p m c).stores.get? name = c.stores.get? name
  process : ∀ (p : P) (m : M) (c : ProcessorContext (KeyValueBytesStore A)) (r : ErasedRecord (Value A)) o,
    Processor.process p m c r = .ok o → o.stores.get? name = c.stores.get? name
  punctuate : ∀ (p : P) (m : M) (c : ProcessorContext (KeyValueBytesStore A)) (t : Int),
    (Processor.punctuate (V := Value A) p m c t).stores.get? name = c.stores.get? name

namespace SourceTable

variable (tb : SourceTable A)

def keyBytes (k : A) : Bytes := tb.keySerde.serialize tb.changelog k

def valueBytes (v : A) : Bytes := tb.valueSerde.serialize tb.changelog v

def decodeRow : Option Bytes → Except ProcessorError (Option A)
  | none => .ok none
  | some vb =>
    match tb.valueSerde.deserialize tb.changelog vb with
    | .ok v => .ok (some v)
    | .error _ => .error .panicked

/-- What the table does with a record of its topic: it reads the old value of the row, puts the new one and forwards
the change. -/
def Feeds (m : SortedMap Bytes Bytes) (r : FetchedRec) (forwards : List (ErasedRecord (Value A)))
    (m' : SortedMap Bytes Bytes) : Prop :=
  ∃ kb k v old, r.key = some kb ∧ tb.keySerde.deserialize tb.source kb = .ok k ∧
    tb.valueSerde.deserialize tb.source (r.value.getD []) = .ok v ∧ tb.decodeRow (m.get? (tb.keyBytes k)) = .ok old ∧
    forwards = [⟨some (.atom k), .change old (some v), r.timestamp⟩] ∧
    m' = m.insert (tb.keyBytes k) (tb.valueBytes v)

end SourceTable

/-- The bytes `b`, read under `source` and written again under `changelog`. -/
def Serde.rewrite (serde : Serde A) (source changelog : String) (b : Bytes) : Bytes :=
  match serde.deserialize source b with
  | .ok a => serde.serialize changelog a
  | .error _ => b

namespace SourceTable

/-- A record with its key and its value as the store of the table writes them. -/
def rewritten (tb : SourceTable A) (r : FetchedRec) : FetchedRec :=
  { r with
    key := r.key.map (tb.keySerde.rewrite tb.source tb.changelog)
    value := r.value.map (tb.valueSerde.rewrite tb.source tb.changelog) }

/-- Rows written by the serdes of the table and rows taken from the log as they are come to the same table. It is so
when each serde writes the bytes it has read. -/
def KeepsBytes (tb : SourceTable A) (log : List FetchedRec) : Prop :=
  foldRecords .empty (log.map tb.rewritten) = foldRecords .empty log

end SourceTable

/-- The store of the table holds the rows `m`, without a cache. -/
structure SourceTable.Rows (tb : SourceTable A) (m : SortedMap Bytes Bytes) (s : KeyValueBytesStore A) : Prop where
  plain : s.backing = .plain m
  keys : s.keySerde = tb.keySerde
  values : s.valueSerde = tb.valueSerde
  changelog : s.changelogTopic = tb.changelog

structure Graph.TableAt (tb : SourceTable A) (m : SortedMap Bytes Bytes)
    (g : Graph (WithTables P) (TableMemory M) (KeyValueBytesStore A) (Value A)) : Prop where
  wired : g.HasTable tb
  rows : ∃ s, g.stores.get? tb.store = some s ∧ tb.Rows m s
  atOnce : (g.mem.forwarder tb.node).cached = false

inductive SourceTable.FeedsAll (tb : SourceTable A) : SortedMap Bytes Bytes → List FetchedRec → SortedMap Bytes Bytes → Prop
  | nil (m : SortedMap Bytes Bytes) : FeedsAll tb m [] m
  | cons {m m' m'' : SortedMap Bytes Bytes} {r : FetchedRec} {recs : List FetchedRec}
    {forwards : List (ErasedRecord (Value A))} : tb.Feeds m r forwards m' → FeedsAll tb m' recs m'' →
    FeedsAll tb m (r :: recs) m''

/-- On the way of a task from `t` to `t'` the table became what a restore makes of `log`, and the change to no value was
forwarded for each record of the log without one. -/
structure SourceTable.FoldsTopic [Processor P M (KeyValueBytesStore A) (Value A)] (tb : SourceTable A)
    (log : List FetchedRec) (t t' : StreamTask (WithTables P) (TableMemory M) (KeyValueBytesStore A) (Value A)) :
    Prop where
  content : ∃ s, t'.graph.stores.get? tb.store = some s ∧ ∀ kb, s.backing.get kb = (rebuilt s log).backing.get kb
  tombstones : ∀ recs outs g g' r recs' outs', Graph.Pass t.graph recs outs g →
    g.pipe tb.topic t.partition r.offset r.key (r.value.getD []) r.timestamp = (.ok (), g') →
    Graph.Pass g' recs' outs' t'.graph → r ∈ log → r.value = none →
    ∃ s k old, g.stores.get? tb.store = some s ∧ s.get k = .ok old ∧
      g.pipeForwards tb.idx (tb.topic, t.partition) r = [⟨some (.atom k), .change old none, r.timestamp⟩]

end KrabkaStreams
