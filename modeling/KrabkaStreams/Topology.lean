import KrabkaStreams.Graph

/-!
# Topologies

A topology under construction is a registry of nodes in insertion order, their factories, and the first
error of a builder call. `build` groups the nodes with a union-find pass; `instantiateNodes` makes a
runnable graph.
-/

namespace KrabkaStreams

open StateStore

inductive NodeKind
  | source (topics : List Topic)
  | processor (predecessors : List String)
  | sink (topic : Topic) (predecessors : List String)
  deriving DecidableEq, Repr

structure Node where
  name : String
  kind : NodeKind
  deriving DecidableEq, Repr

namespace Node

def predecessors (n : Node) : List String :=
  match n.kind with
  | .source _ => []
  | .processor ps => ps
  | .sink _ ps => ps

def sourceTopics (n : Node) : List Topic :=
  match n.kind with
  | .source ts => ts
  | _ => []

def isSource (n : Node) : Bool :=
  match n.kind with
  | .source _ => true
  | _ => false

end Node

/-- Which topic configuration the changelog of a store gets. Extents are milliseconds. -/
inductive ChangelogKind
  | kv
  | aggWindow (retention : Int)
  | joinWindow (retention : Int)
  | versioned (minCompactionLag : Int)
  deriving DecidableEq, Repr

structure StoreEntry where
  name : String
  processors : List String
  changelogOverride : Option Topic
  changelogKind : ChangelogKind
  deriving DecidableEq, Repr

inductive TopologyError
  | duplicateNode (name : String)
  | unknownPredecessor (node predecessor : String)
  | empty
  deriving DecidableEq, Repr

structure NodeRegistry where
  nodes : List Node
  stores : List StoreEntry
  repartitionTopics : List Topic
  globalSourceTopics : List Topic
  copartitionGroups : List (List Topic)
  deriving DecidableEq, Repr

variable (reg : NodeRegistry) (node : Node)

namespace NodeRegistry

def index (name : String) : Option Nat :=
  reg.nodes.findIdx? (·.name = name)

def insert : Except TopologyError NodeRegistry :=
  match reg.index node.name with
  | some _ => .error (.duplicateNode node.name)
  | none => .ok { reg with nodes := reg.nodes ++ [node] }

def missingPredecessor (predecessors : List String) : Option String :=
  predecessors.find? fun p => (reg.index p).isNone

/-- Add a node. A forward reference is refused, so the graph has no cycle. -/
def addNode : Except TopologyError NodeRegistry :=
  match reg.missingPredecessor node.predecessors with
  | some p => .error (.unknownPredecessor node.name p)
  | none => reg.insert node

def validatePredecessors : Except TopologyError Unit :=
  match reg.nodes.findSome? fun n => (reg.missingPredecessor n.predecessors).map (n.name, ·) with
  | some (n, p) => .error (.unknownPredecessor n p)
  | none => .ok ()

end NodeRegistry

abbrev QuickUnion := List Nat

namespace QuickUnion

def parentOf (uf : QuickUnion) (x : Nat) : Nat := uf.getD x x

def findLoop : Nat → QuickUnion → Nat → Nat × QuickUnion
  | 0, uf, x => (x, uf)
  | n + 1, uf, x =>
    if uf.parentOf x = x then (x, uf)
    else
      let grand := uf.parentOf (uf.parentOf x)
      findLoop n (uf.set x grand) grand

def find (uf : QuickUnion) (x : Nat) : Nat × QuickUnion := findLoop uf.length uf x

def unite (uf : QuickUnion) (a b : Nat) : QuickUnion :=
  let (ra, uf₁) := uf.find a
  let (rb, uf₂) := uf₁.find b
  if ra = rb then uf₂ else uf₂.set ra rb

end QuickUnion

/-- One subtopology: its nodes, the topics it reads, the repartition topics it writes, the stores
with a changelog, and the copartition groups it carries. -/
structure GroupTopics where
  id : String
  nodes : List String
  sourceTopics : List Topic
  repartitionSourceTopics : List Topic
  repartitionSinkTopics : List Topic
  changelogStores : List (String × Option Topic × ChangelogKind)
  copartitionGroups : List (List Topic)
  deriving DecidableEq, Repr

/-- Every member is an external or a repartition topic the group reads. -/
def GroupTopics.readsAll (g : GroupTopics) (members : List Topic) : Bool :=
  members.all fun m => m ∈ g.sourceTopics ∨ m ∈ g.repartitionSourceTopics

def GroupTopics.readsNothing (g : GroupTopics) : Bool :=
  g.sourceTopics.isEmpty && g.repartitionSourceTopics.isEmpty

namespace NodeRegistry

/-- The pairs of node indices the grouping unites: a node with its predecessors, and the
processors of a store with the first of them. -/
def unions : List (Nat × Nat) :=
  (reg.nodes.zipIdx.flatMap fun n =>
    n.1.predecessors.filterMap fun p => (reg.index p).map (n.2, ·)) ++
  reg.stores.flatMap fun s =>
    match s.processors.filterMap reg.index with
    | [] => []
    | first :: others => others.map (first, ·)

def unionFind : QuickUnion :=
  reg.unions.foldl (fun uf e => uf.unite e.1 e.2) (List.range reg.nodes.length)

structure Grouping where
  rootToId : OrdMap Nat Nat
  nextId : Nat
  groups : OrdMap Nat GroupTopics

def Grouping.empty : Grouping := ⟨[], 0, []⟩

def readTopics : List Topic × List Topic :=
  let topics := node.sourceTopics.filter fun t => t ∉ reg.globalSourceTopics
  (topics.filter fun t => t ∉ reg.repartitionTopics, topics.filter fun t => t ∈ reg.repartitionTopics)

def writtenTopics : List Topic :=
  match node.kind with
  | .sink topic _ => if topic ∈ reg.repartitionTopics then [topic] else []
  | _ => []

def Grouping.groupOf (acc : Grouping) (id : Nat) : GroupTopics :=
  (acc.groups.get? id).getD ⟨toString id, [], [], [], [], [], []⟩

def Grouping.idOf (acc : Grouping) (root : Nat) : Nat × OrdMap Nat Nat × Nat :=
  match acc.rootToId.get? root with
  | some id => (id, acc.rootToId, acc.nextId)
  | none => (acc.nextId, acc.rootToId.insert root acc.nextId, acc.nextId + 1)

def Grouping.addNode (acc : Grouping) (node : Node) (root : Nat) : Grouping :=
  let (id, rootToId, nextId) := acc.idOf root
  let g := acc.groupOf id
  let (external, repartition) := reg.readTopics node
  { rootToId := rootToId
    nextId := nextId
    groups := acc.groups.insert id
      { g with
        nodes := g.nodes ++ [node.name]
        sourceTopics := g.sourceTopics ++ external
        repartitionSourceTopics := g.repartitionSourceTopics ++ repartition
        repartitionSinkTopics := g.repartitionSinkTopics ++ reg.writtenTopics node } }

def groupLoop (reg : NodeRegistry) :
    List (Node × Nat) → QuickUnion → Grouping → Grouping × QuickUnion
  | [], uf, acc => (acc, uf)
  | (node, i) :: rest, uf, acc =>
    let (root, uf') := uf.find i
    groupLoop reg rest uf' (acc.addNode reg node root)

def Grouping.addChangelog (acc : Grouping × QuickUnion) (store : StoreEntry) : Grouping × QuickUnion :=
  match store.processors.head?.bind reg.index with
  | none => acc
  | some first =>
    let (root, uf) := acc.2.find first
    match acc.1.rootToId.get? root with
    | none => (acc.1, uf)
    | some id =>
      ({ acc.1 with
          groups := acc.1.groups.modify id fun g =>
            { g with
              changelogStores := g.changelogStores ++
                [(store.name, store.changelogOverride, store.changelogKind)] } }, uf)

def groupsById (reg : NodeRegistry) : OrdMap Nat GroupTopics :=
  (reg.stores.foldl (Grouping.addChangelog reg) (groupLoop reg reg.nodes.zipIdx reg.unionFind .empty)).1.groups

/-- A copartition group goes to the first group that reads all its members. The groups are the
values of a hash map, which `visit` lists the ids of in the order it is walked. -/
def attachCopartition (visit : List Nat) (groups : OrdMap Nat GroupTopics) (members : List Topic) :
    OrdMap Nat GroupTopics :=
  match visit.find? fun id => (groups.get? id).any (·.readsAll members) with
  | none => groups
  | some id => groups.modify id fun g => { g with copartitionGroups := g.copartitionGroups ++ [members] }

/-- The subtopologies in id order; a group that reads nothing is dropped but keeps its id. -/
def groupNodes (visit : List Nat) : List GroupTopics :=
  (OrdMap.values (reg.copartitionGroups.foldl (attachCopartition visit) reg.groupsById)).filter fun g =>
    !g.readsNothing

def globalNodes : List String :=
  reg.nodes.foldl
    (fun acc n =>
      let isGlobal := match n.kind with
        | .source topics => topics.any (· ∈ reg.globalSourceTopics)
        | .processor ps => ps.any (· ∈ acc)
        | .sink _ ps => ps.any (· ∈ acc)
      if isGlobal then acc ++ [n.name] else acc)
    []

end NodeRegistry

structure NodeFactory (P V : Type) where
  makeNode : Option (ErasedNode P V)
  makeDeser : Option (Option Bytes → Bytes → Int → Except ProcessorError (ErasedRecord V))

structure Topology (P M S V : Type) [StateStore S V] where
  reg : NodeRegistry
  error : Option TopologyError
  factories : OrdMap String (NodeFactory P V)
  storeFactories : OrdMap String (Option Topic × StoreFactory S)
  globalStoreFactories : OrdMap String (StoreFactory S)
  globalStoreTopics : OrdMap String Topic
  cachingStores : List String
  initialMem : M
  budget : Nat

structure BuiltTopology (P M S V : Type) [StateStore S V] where
  sourceTopics : OrdMap String (List Topic)
  subtopologyNodes : OrdMap String (List String)
  nodeSpecs : List Node
  factories : OrdMap String (NodeFactory P V)
  storeFactories : OrdMap String (Option Topic × StoreFactory S)
  globalStoreFactories : OrdMap String (StoreFactory S)
  globalStoreTopics : OrdMap String Topic
  cachingStores : List String
  storeProcessors : OrdMap String (List String)
  initialMem : M
  budget : Nat

namespace Topology

variable {P M S V : Type} [StateStore S V] (t : Topology P M S V) (name : String) (factory : StoreFactory S)

def new (initialMem : M) (budget : Nat) : Topology P M S V where
  reg := ⟨[], [], [], [], []⟩
  error := none
  factories := []
  storeFactories := []
  globalStoreFactories := []
  globalStoreTopics := []
  cachingStores := []
  initialMem := initialMem
  budget := budget

def record : Except TopologyError NodeRegistry → Topology P M S V
  | .ok reg => { t with reg := reg }
  | .error e => { t with error := t.error.or (some e) }

def addSource (topics : List Topic)
    (deser : Option Bytes → Bytes → Int → Except ProcessorError (ErasedRecord V)) : Topology P M S V :=
  let t' := t.record (t.reg.addNode ⟨name, .source topics⟩)
  { t' with factories := t'.factories.insert name ⟨none, some deser⟩ }

def addProcessor (supplier : P) (parents : List String) : Topology P M S V :=
  let t' := t.record (t.reg.addNode ⟨name, .processor parents⟩)
  { t' with factories := t'.factories.insert name ⟨some (.processorNode supplier), none⟩ }

def addSink (topic : Topic) (parents : List String)
    (serialize : ErasedRecord V → Except ProcessorError (Option Bytes × Bytes)) : Topology P M S V :=
  let t' := t.record (t.reg.addNode ⟨name, .sink topic parents⟩)
  { t' with factories := t'.factories.insert name ⟨some (.sinkNode topic serialize), none⟩ }

/-- Register a store with its changelog: the family of the `add_*_store` calls. -/
def addLoggedStore (kind : ChangelogKind) (name : String) (factory : StoreFactory S)
    (processors : List String) (changelogOverride : Option Topic) : Topology P M S V :=
  { t with
    reg := { t.reg with stores := t.reg.stores ++ [⟨name, processors, changelogOverride, kind⟩] }
    storeFactories := t.storeFactories.insert name (changelogOverride, factory) }

def addStateStore (processors : List String) (changelogOverride : Option Topic) : Topology P M S V :=
  t.addLoggedStore .kv name factory processors changelogOverride

def changelogAdditionalRetention : Int := 86400000

def addWindowStore (retentionBasis grace : Int) (processors : List String) : Topology P M S V :=
  t.addLoggedStore (.aggWindow (retentionBasis + grace + changelogAdditionalRetention)) name factory
    processors none

def addJoinWindowStore (before after grace : Int) (processors : List String) : Topology P M S V :=
  t.addLoggedStore (.joinWindow (before + after + grace + changelogAdditionalRetention)) name factory
    processors none

/-- A session store has the changelog of a window store. -/
def addSessionStore (gap grace : Int) (processors : List String) : Topology P M S V :=
  t.addLoggedStore (.aggWindow (gap + grace + changelogAdditionalRetention)) name factory processors none

def addVersionedStore (historyRetention : Int) (processors : List String) (changelogOverride : Option Topic) :
    Topology P M S V :=
  t.addLoggedStore (.versioned (historyRetention + changelogAdditionalRetention)) name factory
    processors changelogOverride

/-- A store without a changelog topic: the grouping does not see it. -/
def addStateStoreNoChangelog : Topology P M S V :=
  { t with storeFactories := t.storeFactories.insert name (none, factory) }

def addGlobalStore (store source : String) (topic : Topic) (processor : String) (factory : StoreFactory S) :
    Topology P M S V :=
  let t₁ := t.record (t.reg.addNode ⟨source, .source [topic]⟩)
  let t₂ := t₁.record (t₁.reg.addNode ⟨processor, .processor [source]⟩)
  { t₂ with
    reg := { t₂.reg with globalSourceTopics := t₂.reg.globalSourceTopics ++ [topic] }
    globalStoreTopics := t₂.globalStoreTopics.insert store topic
    globalStoreFactories := t₂.globalStoreFactories.insert store factory }

def connectFirst (processor store : String) : List StoreEntry → List StoreEntry
  | [] => []
  | s :: rest =>
    if s.name = store then
      (if processor ∈ s.processors then s else { s with processors := s.processors ++ [processor] })
        :: rest
    else s :: connectFirst processor store rest

def connectProcessorStore (processor store : String) : Topology P M S V :=
  { t with reg := { t.reg with stores := connectFirst processor store t.reg.stores } }

def markStoreCaching (on : Bool) : Topology P M S V :=
  if on ∧ name ∉ t.cachingStores then { t with cachingStores := t.cachingStores ++ [name] } else t

def addRepartitionTopic (name : Topic) : Topology P M S V :=
  { t with reg := { t.reg with repartitionTopics := t.reg.repartitionTopics ++ [name] } }

def addCopartitionGroup (topics : List Topic) : Topology P M S V :=
  { t with reg := { t.reg with copartitionGroups := t.reg.copartitionGroups ++ [topics] } }

/-- Group the nodes, and leave the nodes of global tables out of what a task runs. The copartition
groups only reach the wire topology, so the order of their search does not matter here. -/
def build : Except TopologyError (BuiltTopology P M S V) :=
  match t.error with
  | some e => .error e
  | none => do
    t.reg.validatePredecessors
    let groups := t.reg.groupNodes []
    if groups.isEmpty then .error .empty
    else
      let globals := t.reg.globalNodes
      .ok
        { sourceTopics := groups.map fun g => (g.id, g.sourceTopics ++ g.repartitionSourceTopics)
          subtopologyNodes := groups.map fun g => (g.id, g.nodes.filter (· ∉ globals))
          nodeSpecs := t.reg.nodes.filter fun n => n.name ∉ globals
          factories := t.factories
          storeFactories := t.storeFactories
          globalStoreFactories := t.globalStoreFactories
          globalStoreTopics := t.globalStoreTopics
          cachingStores := t.cachingStores
          storeProcessors := t.reg.stores.foldl (fun m s => m.insert s.name s.processors) []
          initialMem := t.initialMem
          budget := t.budget }

end Topology

namespace BuiltTopology

variable {P M S V : Type} [StateStore S V] (b : BuiltTopology P M S V) (scope : Option (List String))
  (specs : List Node) (appId : String)

def sourceTopicsFor (id : String) : List Topic :=
  (b.sourceTopics.get? id).getD []

def keeps (name : String) : Bool :=
  scope.all fun names => name ∈ names

def nonSource : List Node :=
  b.nodeSpecs.filter fun n => !n.isSource && keeps scope n.name

def makeNode (n : Node) : Except ProcessorError (ErasedNode P V) :=
  match b.factories.get? n.name with
  | none => .error (.serde n.name "factory missing")
  | some f =>
    match f.makeNode with
    | none => .error (.serde n.name "make_node missing")
    | some node => .ok node

def childIndices (parent : String) : List Nat :=
  specs.zipIdx.flatMap fun n => (n.1.predecessors.filter (· = parent)).map fun _ => n.2

def graphSources (n : Node) : List (GraphSource V) :=
  match b.factories.get? n.name with
  | none => []
  | some f =>
    match f.makeDeser with
    | none => []
    | some deser =>
      let children := (specs.zipIdx.filter fun s => n.name ∈ s.1.predecessors).map (·.2)
      n.sourceTopics.map fun topic => ⟨n.name, topic, deser, children⟩

def connected (store : String) : Bool :=
  scope.isNone || ((b.storeProcessors.get? store).getD []).any (keeps scope)

def changelogName (appId store : String) (changelogOverride : Option Topic) : Topic :=
  changelogOverride.getD s!"{appId}-{store}-changelog"

def storeRegistry (scope : Option (List String)) : StoreRegistry S :=
  (b.storeFactories.filter fun e => b.connected scope e.1).map fun e =>
    (e.1, e.2.2.make e.1 (changelogName appId e.1 e.2.1))

/-- The node that owns a cached store: the first processor connected to it. -/
def cacheOwnerIdx (store : String) : Option Nat :=
  match b.storeProcessors.get? store with
  | some (p :: _) => specs.findIdx? (·.name = p)
  | _ => none

def wireCache (acc : StoreRegistry S × OrdMap String Nat) (store : String) :
    StoreRegistry S × OrdMap String Nat :=
  match b.cacheOwnerIdx specs store, acc.1.get? store with
  | some idx, some s =>
    match enableCache s with
    | some s' => (acc.1.insert store s', acc.2.insert store idx)
    | none => acc
  | _, _ => acc

def wireRecordCaches (stores : StoreRegistry S) (cacheMaxBytes : Nat) : StoreRegistry S × OrdMap String Nat :=
  if cacheMaxBytes = 0 then (stores, [])
  else b.cachingStores.foldl (b.wireCache specs) (stores, [])

def instantiateNodes (cacheMaxBytes : Nat) (scope : Option (List String)) :
    Except ProcessorError (Graph P M S V) := do
  let specs := b.nonSource scope
  let nodes ← specs.mapM b.makeNode
  let wired := b.wireRecordCaches specs (b.storeRegistry appId scope) cacheMaxBytes
  pure
    { nodes := nodes
      children := specs.map fun n => childIndices specs n.name
      sources := (b.nodeSpecs.filter fun n => n.isSource && keeps scope n.name).flatMap
        (b.graphSources specs)
      output := []
      stores := wired.1
      globals := []
      schedules := []
      cancelled := []
      streamTime := i64Min
      wallClock := 0
      cacheOwner := wired.2
      mem := b.initialMem
      budget := b.budget }

/-- The graph of every subtopology, which is what a task of a stream thread runs. -/
def instantiate (cacheMaxBytes : Nat) : Except ProcessorError (Graph P M S V) :=
  b.instantiateNodes appId cacheMaxBytes none

/-- The graph of one subtopology, which is what an embedded task runs. -/
def instantiateSubtopology (cacheMaxBytes : Nat) (id : String) : Except ProcessorError (Graph P M S V) :=
  match b.subtopologyNodes.get? id with
  | none => .error (.unknownSubtopology id)
  | some scope => b.instantiateNodes appId cacheMaxBytes (some scope)

end BuiltTopology

end KrabkaStreams
