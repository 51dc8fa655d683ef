import KrabkaStreams.Lib.SortedMap
import KrabkaStreams.Topology

/-!
# The logical graph of the DSL

A call of the DSL adds a node with a thunk that lowers it into the topology `T`. Two passes rewrite the
graph before the driver runs the thunks in id order: the repartitions of one node share the topic of the
first, and a table takes its source topic as its changelog.
-/

namespace KrabkaStreams

abbrev NodeId := Nat

/-- The kinds that the passes tell from the others. -/
inductive GraphNodeKind
  | repartition (topic : Topic) (partitions : Option Int)
  | tableSource (topic : Topic) (storeName : String) (reuseSourceForChangelog : Bool)
  | other
  deriving DecidableEq, Repr

def GraphNodeKind.isRepartition : GraphNodeKind → Bool
  | .repartition _ _ => true
  | _ => false

/-- The topology under construction, and the name each node was lowered to. -/
structure LowerState (T : Type) where
  topology : T
  handleName : SortedMap NodeId String
  reuseChangelog : SortedMap NodeId Topic

abbrev LowerFn (T : Type) := LowerState T → Except ProcessorError (LowerState T)

structure GraphNode (T : Type) where
  id : NodeId
  kind : GraphNodeKind
  predecessors : List NodeId
  lower : Option (LowerFn T)

structure LogicalGraph (T : Type) where
  nodes : List (GraphNode T)
  aliases : SortedMap NodeId NodeId

namespace LogicalGraph

variable {T : Type} (g : LogicalGraph T)

def empty : LogicalGraph T := ⟨[], .empty⟩

/-- `add`, with the thunk the caller attaches. A predecessor that is not there panics. -/
def add (kind : GraphNodeKind) (predecessors : List NodeId) (lower : Option (LowerFn T)) :
    Except ProcessorError (LogicalGraph T) :=
  if ∀ p ∈ predecessors, p < g.nodes.length then
    .ok { g with nodes := g.nodes ++ [⟨g.nodes.length, kind, predecessors, lower⟩] }
  else .error .panicked

def groupRepartition (byPred : SortedMap NodeId (List NodeId)) (n : GraphNode T) : SortedMap NodeId (List NodeId) :=
  match n.kind.isRepartition, n.predecessors with
  | true, [pred] => byPred.insert pred ((byPred.get? pred).getD [] ++ [n.id])
  | _, _ => byPred

/-- The first of the repartitions of a node keeps its topic for the others. -/
def aliasGroup (aliases : SortedMap NodeId NodeId) (ids : List NodeId) : SortedMap NodeId NodeId :=
  if ids.length < 2 then aliases
  else match ids.insertionSort (· ≤ ·) with
    | keeper :: redundant => redundant.foldl (fun aliases b => aliases.insert b keeper) aliases
    | [] => aliases

def mergeRepartitionTopics : LogicalGraph T :=
  { g with aliases := (g.nodes.foldl groupRepartition .empty).entries.foldl (fun a e => aliasGroup a e.2) g.aliases }

def reuseSource (n : GraphNode T) : GraphNode T :=
  match n.kind with
  | .tableSource topic storeName _ => { n with kind := .tableSource topic storeName true }
  | _ => n

def reuseKtableSourceTopics : LogicalGraph T :=
  { g with nodes := g.nodes.map reuseSource }

def reuseChangelog : SortedMap NodeId Topic :=
  g.nodes.foldl (fun m n => match n.kind with
    | .tableSource topic _ true => m.insert n.id topic
    | _ => m) .empty

/-- The round of one node. An aliased node takes over the name of its keeper, which has to be there. -/
def lowerNode (aliases : SortedMap NodeId NodeId) (state : LowerState T) (n : GraphNode T) :
    Except ProcessorError (LowerState T) :=
  match aliases.get? n.id with
  | some target =>
    if target < n.id then
      match state.handleName.get? target with
      | some name => .ok { state with handleName := state.handleName.insert n.id name }
      | none => .error .panicked
    else .error .panicked
  | none => match n.lower with
    | some thunk => thunk state
    | none => .ok state

def lower (topology : T) : Except ProcessorError (LowerState T) :=
  g.nodes.foldlM (lowerNode g.aliases) ⟨topology, .empty, g.reuseChangelog⟩

/-- `build` and `build_optimized` up to the lowered topology. -/
def lowerWith (optimized : Bool) (topology : T) : Except ProcessorError (LowerState T) :=
  if optimized then g.mergeRepartitionTopics.reuseKtableSourceTopics.lower topology else g.lower topology

/-- The graph of some calls of the DSL. -/
def ofCalls (calls : List (GraphNodeKind × List NodeId × Option (LowerFn T))) : Except ProcessorError (LogicalGraph T) :=
  calls.foldlM (fun g c => g.add c.1 c.2.1 c.2.2) empty

/-- `b` is a repartition of the stream of `p` alone. -/
def Repartitions (b p : NodeId) : Prop :=
  ∃ n ∈ g.nodes, n.id = b ∧ n.kind.isRepartition ∧ n.predecessors = [p]

end LogicalGraph

section Thunks

variable {P M S V : Type} [StateStore S V] (id upstream : NodeId) (name appId base sinkName sourceName : String)
  (deser : Option Bytes → Bytes → Int → Except ProcessorError (ErasedRecord V))
  (serialize : ErasedRecord V → Except ProcessorError (Option Bytes × Bytes))

/-- The thunk of `stream`. -/
def streamThunk (topics : List Topic) : LowerFn (Topology P M S V) := fun state =>
  .ok { state with
    topology := state.topology.addSource name topics deser
    handleName := state.handleName.insert id name }

/-- The thunk of a repartition: a sink to the internal topic, and a source that reads it back. -/
def repartitionThunk : LowerFn (Topology P M S V) := fun state =>
  match state.handleName.get? upstream with
  | none => .error .panicked
  | some parent =>
    let topic := appId ++ "-" ++ base ++ "-repartition"
    .ok { state with
      topology := ((state.topology.addSink sinkName topic [parent] serialize).addRepartitionTopic topic).addSource
        sourceName [topic] deser
      handleName := state.handleName.insert id sourceName }

end Thunks

/-- A reading of topologies: what the nodes of a topology carry and which names are taken, what each node of a
graph means, which names its thunk mints, and whether it leaves a handle to read from. -/
structure Plan (T D : Type) where
  used : T → String → Prop
  carries : T → String → D → Prop
  mints : NodeId → List String
  meaning : NodeId → List D → D
  yields : NodeId → Prop

namespace Plan

variable {T D : Type} (P : Plan T D)

def Handles (state : LowerState T) (id : NodeId) (d : D) : Prop :=
  ∃ name ∈ state.handleName.get? id, P.carries state.topology name d

/-- What the thunk of a node is for: once its predecessors are lowered and its names are free, it extends the
topology, and its own handle carries what the node means. -/
def Lowers (n : GraphNode T) : Prop :=
  ∀ state ds, (∀ name ∈ P.mints n.id, ¬ P.used state.topology name) → List.Forall₂ (P.Handles state) n.predecessors ds →
    ∃ state', LogicalGraph.lowerNode .empty state n = .ok state' ∧
      (∀ name, P.used state'.topology name → P.used state.topology name ∨ name ∈ P.mints n.id) ∧
      (∀ name d, P.carries state.topology name d → P.carries state'.topology name d) ∧
      (∀ id ≠ n.id, state'.handleName.get? id = state.handleName.get? id) ∧
      (P.yields n.id → P.Handles state' n.id (P.meaning n.id ds))

/-- `stream` solves the equations of a graph whose thunks do what they are for. The names of two nodes differ, and
the repartitions of one node mean the same. -/
structure Streams (g : LogicalGraph T) (stream : NodeId → D) : Prop where
  solves : ∀ n ∈ g.nodes, stream n.id = P.meaning n.id (n.predecessors.map stream)
  lowers : ∀ n ∈ g.nodes, P.Lowers n
  mints : ∀ n ∈ g.nodes, ∀ m ∈ g.nodes, n.id ≠ m.id → (P.mints n.id).Disjoint (P.mints m.id)
  reads : ∀ n ∈ g.nodes, ∀ p ∈ n.predecessors, P.yields p
  repartition : ∀ a b p, g.Repartitions a p → g.Repartitions b p → P.meaning a = P.meaning b ∧ P.yields a

end Plan

end KrabkaStreams
