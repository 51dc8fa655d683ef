import KrabkaStreams.Construction
import KrabkaStreams.Proofs.GraphInvariant
import KrabkaStreams.Lib.Runs

/-!
# The order of the nodes

`addNode` refuses a node whose predecessors are not registered yet, so a constructed topology is ordered
(`Topology.Constructed.ordered`), and in the graph of any scope of it a child has a larger index than its parent
(`BuiltTopology.instantiateNodes_forward`).
-/

namespace KrabkaStreams

theorem Node.Ordered.sublist {nodes nodes' : List Node} (h : Node.Ordered nodes) (hsub : nodes'.Sublist nodes) :
    Node.Ordered nodes' :=
  ⟨h.later.sublist hsub, fun n hn => h.self n (hsub.mem hn)⟩

namespace NodeRegistry

theorem index_eq_none {reg : NodeRegistry} {name : String} : reg.index name = none ↔ ∀ n ∈ reg.nodes, n.name ≠ name := by
  simp [index, List.findIdx?_eq_none_iff]

theorem exists_of_index_ne_none {reg : NodeRegistry} {name : String} (h : reg.index name ≠ none) :
    ∃ n ∈ reg.nodes, n.name = name := by
  by_contra hnot
  exact h (index_eq_none.mpr fun n hn heq => hnot ⟨n, hn, heq⟩)

theorem addNode_ok {reg reg' : NodeRegistry} {node : Node} (h : reg.addNode node = .ok reg') :
    (∀ p ∈ node.predecessors, reg.index p ≠ none) ∧ reg.index node.name = none ∧
      reg' = { reg with nodes := reg.nodes ++ [node] } := by
  unfold addNode at h
  rcases hmissing : reg.missingPredecessor node.predecessors with _ | p
  · simp only [hmissing] at h
    refine ⟨fun p hp hnone => ?_, ?_⟩
    · have hp' := List.find?_eq_none.mp hmissing p hp
      rw [hnone] at hp'
      exact hp' rfl
    · unfold insert at h
      rcases hindex : reg.index node.name with _ | i <;> simp only [hindex] at h
      · cases h
        exact ⟨rfl, rfl⟩
      · cases h
  · simp [hmissing] at h

theorem Ordered.addNode {reg reg' : NodeRegistry} {node : Node} (h : reg.Ordered) (hadd : reg.addNode node = .ok reg') :
    reg'.Ordered := by
  obtain ⟨hpreds, hname, rfl⟩ := addNode_ok hadd
  have hname := index_eq_none.mp hname
  refine ⟨⟨?_, ?_⟩, ?_⟩
  · refine List.pairwise_append.mpr ⟨h.later, List.pairwise_singleton _ _, fun n hn m hm => ?_⟩
    rw [List.mem_singleton.mp hm]
    refine ⟨fun hmem => ?_, hname n hn⟩
    obtain ⟨k, hk, hkname⟩ := h.known n hn node.name hmem
    exact hname k hk hkname
  · intro n hn
    rcases List.mem_append.mp hn with hn | hn
    · exact h.self n hn
    · rw [List.mem_singleton.mp hn]
      intro hmem
      obtain ⟨k, hk, hkname⟩ := exists_of_index_ne_none (hpreds node.name hmem)
      exact hname k hk hkname
  · intro n hn p hp
    have hold : ∃ m ∈ reg.nodes, m.name = p := by
      rcases List.mem_append.mp hn with hn | hn
      · exact h.known n hn p hp
      · rw [List.mem_singleton.mp hn] at hp
        exact exists_of_index_ne_none (hpreds p hp)
    obtain ⟨m, hm, hmname⟩ := hold
    exact ⟨m, List.mem_append_left _ hm, hmname⟩

end NodeRegistry

namespace Topology

variable {P M S V : Type} [StateStore S V] {t : Topology P M S V}

theorem record_ordered (h : t.reg.Ordered) (node : Node) : (t.record (t.reg.addNode node)).reg.Ordered := by
  rcases hadd : t.reg.addNode node with e | reg'
  · exact h
  · exact h.addNode hadd

theorem Constructed.ordered (h : t.Constructed) : t.reg.Ordered := by
  induction h with
  | new initialMem budget =>
    exact ⟨⟨.nil, fun n hn => absurd hn List.not_mem_nil⟩, fun n hn => absurd hn List.not_mem_nil⟩
  | addSource _ _ _ _ ih => exact record_ordered ih _
  | addProcessor _ _ _ _ ih => exact record_ordered ih _
  | addSink _ _ _ _ _ ih => exact record_ordered ih _
  | addLoggedStore _ _ _ _ _ _ ih => exact ⟨ih.toOrdered, ih.known⟩
  | addStateStoreNoChangelog _ _ _ ih => exact ih
  | addGlobalStore store source topic processor factory _ ih =>
    have h := record_ordered (record_ordered ih ⟨source, .source [topic]⟩) ⟨processor, .processor [source]⟩
    exact ⟨h.toOrdered, h.known⟩
  | connectProcessorStore _ _ _ ih => exact ⟨ih.toOrdered, ih.known⟩
  | markStoreCaching name on _ ih =>
    unfold Topology.markStoreCaching
    split
    · exact ih
    · exact ih
  | addRepartitionTopic _ _ ih => exact ⟨ih.toOrdered, ih.known⟩
  | addCopartitionGroup _ _ ih => exact ⟨ih.toOrdered, ih.known⟩

theorem Constructed.nodeSpecs_ordered {b : BuiltTopology P M S V} (h : t.Constructed) (hb : t.build = .ok b) :
    Node.Ordered b.nodeSpecs := by
  unfold build at hb
  split at hb
  · cases hb
  · obtain ⟨_, -, hb⟩ := Runs.bind_eq_ok.mp hb
    dsimp only at hb
    split at hb
    · cases hb
    · cases hb
      exact h.ordered.toOrdered.sublist List.filter_sublist

end Topology

namespace BuiltTopology

variable {P M S V : Type} [StateStore S V]

theorem mem_childIndices {specs : List Node} {parent : String} {c : Nat} (h : c ∈ childIndices specs parent) :
    ∃ n, specs[c]? = some n ∧ parent ∈ n.predecessors := by
  obtain ⟨⟨n, i⟩, hn, hc⟩ := List.mem_flatMap.mp h
  obtain ⟨p, hp, rfl⟩ := List.mem_map.mp hc
  obtain ⟨hp, hparent⟩ := List.mem_filter.mp hp
  exact ⟨n, List.mem_zipIdx_iff_getElem?.mp hn, of_decide_eq_true hparent ▸ hp⟩

theorem lt_of_mem_childIndices {specs : List Node} (h : Node.Ordered specs) {i c : Nat} {n : Node}
    (hi : specs[i]? = some n) (hc : c ∈ childIndices specs n.name) : i < c := by
  obtain ⟨m, hm, hmem⟩ := mem_childIndices hc
  obtain ⟨hilt, rfl⟩ := List.getElem?_eq_some_iff.mp hi
  obtain ⟨hclt, rfl⟩ := List.getElem?_eq_some_iff.mp hm
  by_contra hle
  rcases Nat.lt_or_eq_of_le (not_lt.mp hle) with hlt | rfl
  · exact (List.pairwise_iff_getElem.mp h.later c i hclt hilt hlt).1 hmem
  · exact h.self _ (List.getElem_mem hilt) hmem

theorem instantiateNodes_ok {b : BuiltTopology P M S V} {appId : String} {cacheMaxBytes : Nat}
    {scope : Option (List String)} {g : Graph P M S V} (hg : b.instantiateNodes appId cacheMaxBytes scope = .ok g) :
    (b.nonSource scope).mapM b.makeNode = .ok g.nodes ∧
      g.children = (b.nonSource scope).map (fun n => childIndices (b.nonSource scope) n.name) ∧
      g.cacheOwner = (b.wireRecordCaches (b.nonSource scope) (b.storeRegistry appId scope) cacheMaxBytes).2 := by
  obtain ⟨nodes, hnodes, hg⟩ := Runs.bind_eq_ok.mp hg
  cases hg
  exact ⟨hnodes, rfl, rfl⟩

theorem instantiateNodes_forward {b : BuiltTopology P M S V} (hordered : Node.Ordered b.nodeSpecs) {appId : String}
    {cacheMaxBytes : Nat} {scope : Option (List String)} {g : Graph P M S V}
    (hg : b.instantiateNodes appId cacheMaxBytes scope = .ok g) (i : Nat) : ∀ c ∈ g.childrenOf i, i < c := by
  intro c hc
  obtain ⟨-, hchildren, -⟩ := instantiateNodes_ok hg
  unfold Graph.childrenOf at hc
  rw [hchildren, List.getD_eq_getElem?_getD, List.getElem?_map] at hc
  rcases hi : (b.nonSource scope)[i]? with _ | n <;> rw [hi] at hc
  · exact absurd hc List.not_mem_nil
  · exact lt_of_mem_childIndices (hordered.sublist List.filter_sublist) hi hc

end BuiltTopology

end KrabkaStreams
