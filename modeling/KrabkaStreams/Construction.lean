import KrabkaStreams.Topology

/-!
# Constructed topologies

The topologies that calls of the builder make from an empty one, and the order in which they register nodes: a node is
added after its predecessors.
-/

namespace KrabkaStreams

inductive Topology.Constructed {P M S V : Type} [StateStore S V] : Topology P M S V → Prop
  | new (initialMem : M) (budget : Nat) : Constructed (.new initialMem budget)
  | addSource {t : Topology P M S V} (name : String) (topics : List Topic)
    (deser : Option Bytes → Bytes → Int → Except ProcessorError (ErasedRecord V)) :
    Constructed t → Constructed (t.addSource name topics deser)
  | addProcessor {t : Topology P M S V} (name : String) (supplier : P) (parents : List String) :
    Constructed t → Constructed (t.addProcessor name supplier parents)
  | addSink {t : Topology P M S V} (name : String) (topic : Topic) (parents : List String)
    (serialize : ErasedRecord V → Except ProcessorError (Option Bytes × Bytes)) :
    Constructed t → Constructed (t.addSink name topic parents serialize)
  | addLoggedStore {t : Topology P M S V} (kind : ChangelogKind) (name : String) (factory : StoreFactory S)
    (processors : List String) (changelogOverride : Option Topic) :
    Constructed t → Constructed (t.addLoggedStore kind name factory processors changelogOverride)
  | addStateStoreNoChangelog {t : Topology P M S V} (name : String) (factory : StoreFactory S) :
    Constructed t → Constructed (t.addStateStoreNoChangelog name factory)
  | addGlobalStore {t : Topology P M S V} (store source : String) (topic : Topic) (processor : String)
    (factory : StoreFactory S) : Constructed t → Constructed (t.addGlobalStore store source topic processor factory)
  | connectProcessorStore {t : Topology P M S V} (processor store : String) :
    Constructed t → Constructed (t.connectProcessorStore processor store)
  | markStoreCaching {t : Topology P M S V} (name : String) (on : Bool) :
    Constructed t → Constructed (t.markStoreCaching name on)
  | addRepartitionTopic {t : Topology P M S V} (name : Topic) : Constructed t → Constructed (t.addRepartitionTopic name)
  | addCopartitionGroup {t : Topology P M S V} (topics : List Topic) :
    Constructed t → Constructed (t.addCopartitionGroup topics)

theorem Topology.Constructed.addStateStore {P M S V : Type} [StateStore S V] {t : Topology P M S V} (name : String)
    (factory : StoreFactory S) (processors : List String) (changelogOverride : Option Topic) (h : t.Constructed) :
    (t.addStateStore name factory processors changelogOverride).Constructed :=
  h.addLoggedStore .kv name factory processors changelogOverride

/-- No node is a predecessor of itself or of one before it, and no two have one name. -/
structure Node.Ordered (nodes : List Node) : Prop where
  later : nodes.Pairwise fun n m => m.name ∉ n.predecessors ∧ n.name ≠ m.name
  self : ∀ n ∈ nodes, n.name ∉ n.predecessors

/-- The registry holds the predecessors of its nodes, before them. -/
structure NodeRegistry.Ordered (reg : NodeRegistry) : Prop extends Node.Ordered reg.nodes where
  known : ∀ n ∈ reg.nodes, ∀ p ∈ n.predecessors, ∃ m ∈ reg.nodes, m.name = p

end KrabkaStreams
