import KrabkaStreams.Dsl.Optimizer
import KrabkaStreams.Stores.KeyValue
import KrabkaStreams.Wire

/-!
# The partition counts of explicit repartitions

A configured count stays in the graph. The wire topology leaves the partitions of every internal topic to the broker
(`partitions_eq_zero`), whatever the lowering built.
-/

namespace KrabkaStreams

open LogicalGraph

/-- Every explicit repartition count of a graph reaches the broker, with the records of its stream. -/
def CountsReach {P M S V : Type} [StateStore S V] (g : LogicalGraph (Topology P M S V)) (optimized : Bool)
    (topology : Topology P M S V) (visit : List Nat) (app : String) : Prop :=
  ∃ state, g.lowerWith optimized topology = .ok state ∧
    ∀ n ∈ g.nodes, ∀ topic count, n.kind = .repartition topic (some count) →
      ∃ s ∈ (state.topology.wire visit app).subtopologies, ∃ info ∈ s.repartitionSourceTopics,
        info.name = app ++ "-" ++ topic ∧ info.partitions = count ∧
          (∃ source ∈ state.handleName.get? n.id, ⟨source, .source [info.name]⟩ ∈ state.topology.reg.nodes) ∧
          ∃ sink, ∃ p ∈ n.predecessors, ∃ parent ∈ state.handleName.get? p,
            ⟨sink, .sink info.name [parent]⟩ ∈ state.topology.reg.nodes

theorem partitions_eq_zero {P M S V : Type} [StateStore S V] {t : Topology P M S V} {visit : List Nat} {app : String}
    {s : Wire.Subtopology} (hs : s ∈ (t.wire visit app).subtopologies) {info : Wire.TopicInfo}
    (hi : info ∈ s.repartitionSourceTopics) : info.partitions = 0 := by
  simp only [Topology.wire, Wire.toWire, List.mem_insertionSort, List.mem_map] at hs
  obtain ⟨group, -, rfl⟩ := hs
  simp only [Wire.subtopology, List.mem_insertionSort, List.mem_map] at hi
  obtain ⟨name, -, rfl⟩ := hi
  rfl

theorem CountsReach.eq_zero {P M S V : Type} [StateStore S V] {g : LogicalGraph (Topology P M S V)} {optimized : Bool}
    {topology : Topology P M S V} {visit : List Nat} {app : String} (h : CountsReach g optimized topology visit app)
    {n : GraphNode (Topology P M S V)} (hn : n ∈ g.nodes) {topic : Topic} {count : Int}
    (hk : n.kind = .repartition topic (some count)) : count = 0 := by
  obtain ⟨state, -, hreach⟩ := h
  obtain ⟨s, hs, info, hi, -, hcount, -⟩ := hreach n hn topic count hk
  rw [← hcount, partitions_eq_zero hs hi]

theorem not_countsReach {P M S V : Type} [StateStore S V] {g : LogicalGraph (Topology P M S V)}
    {n : GraphNode (Topology P M S V)} (hn : n ∈ g.nodes) {topic : Topic} {count : Int}
    (hk : n.kind = .repartition topic (some count)) (hcount : count ≠ 0) (optimized : Bool) (topology : Topology P M S V)
    (visit : List Nat) (app : String) : ¬ CountsReach g optimized topology visit app :=
  fun h => hcount (h.eq_zero hn hk)

/-- `stream("in").repartition(Repartitioned::with(..).with_name("rp").num_partitions(4))`. -/
def counted : List (GraphNodeKind × List NodeId ×
    Option (LowerFn (Topology Unit Unit (KeyValueBytesStore Unit) (Value Unit)))) :=
  let deser := fun _ _ _ => .error .panicked
  [(.other, [], some (streamThunk 0 "KSTREAM-SOURCE-0000000000" deser ["in"])),
    (.repartition "rp-repartition" (some 4), [0], some (repartitionThunk 1 0 "app" "rp" "KSTREAM-SINK-0000000001"
      "KSTREAM-SOURCE-0000000002" deser fun _ => .error .panicked))]

theorem exists_counted {g : LogicalGraph _} (hg : ofCalls counted = .ok g) :
    ∃ n ∈ g.nodes, n.kind = .repartition "rp-repartition" (some 4) := by
  cases hg
  exact ⟨_, List.mem_append_right _ List.mem_cons_self, rfl⟩

theorem not_countsReach_counted : ∃ g, ofCalls counted = .ok g ∧ ¬ CountsReach g true (.new () 0) [0] "app" := by
  obtain ⟨g, hg⟩ : ∃ g, ofCalls counted = .ok g := ⟨_, rfl⟩
  obtain ⟨n, hn, hk⟩ := exists_counted hg
  exact ⟨g, hg, not_countsReach hn hk (by decide) true (.new () 0) [0] "app"⟩

theorem lowered_counted_leaves_count : ∃ g state, ofCalls counted = .ok g ∧ g.lowerWith false (.new () 0) = .ok state ∧
    ¬ CountsReach g false (.new () 0) [0] "app" := by
  refine ⟨_, _, rfl, rfl, fun h => ?_⟩
  obtain ⟨n, hn, hk⟩ := exists_counted rfl
  exact absurd (h.eq_zero hn hk) (by decide)

end KrabkaStreams
