import KrabkaStreams.Dsl.Optimizer
import KrabkaStreams.Lib.Runs
import KrabkaStreams.Proofs.Construction
import KrabkaStreams.Stores.KeyValue

/-!
# The optimizer keeps the streams of a graph

The pass makes the first repartition of a node the keeper of the later ones (`get?_merged`). So an aliased node means
what its keeper means, and its keeper was lowered before it (`lowered_prefix`).
-/

namespace KrabkaStreams

open Runs

namespace LogicalGraph

variable {T D : Type} {g : LogicalGraph T}

/-- Ids are positions, and a node comes after its predecessors. -/
def Ordered (nodes : List (GraphNode T)) : Prop :=
  ∀ (i : Nat) (n : GraphNode T), nodes[i]? = some n → n.id = i ∧ ∀ p ∈ n.predecessors, p < i

theorem ordered_ofCalls {calls : List (GraphNodeKind × List NodeId × Option (LowerFn T))} :
    ∀ {g : LogicalGraph T}, ofCalls calls = .ok g → Ordered g.nodes ∧ g.aliases = .empty := by
  unfold ofCalls
  induction calls using List.reverseRecOn with
  | nil =>
    rintro g ⟨⟩
    exact ⟨fun i n h => by simp [empty] at h, rfl⟩
  | append_singleton calls c ih =>
    intro g h
    rw [List.foldlM_append, bind_eq_ok] at h
    obtain ⟨g₀, h₀, h⟩ := h
    obtain ⟨ho, ha⟩ := ih h₀
    simp only [List.foldlM_cons, List.foldlM_nil, add] at h
    split_ifs at h with hp
    · cases h
      refine ⟨fun i n hn => ?_, ha⟩
      rw [List.getElem?_append] at hn
      split_ifs at hn with hi
      · exact ho i n hn
      · obtain ⟨hi', rfl⟩ := List.getElem?_eq_some_iff.mp hn
        obtain rfl : i = g₀.nodes.length := by simp at hi'; omega
        simpa using hp
    · cases h

/-- The repartitions of `p`, in id order. -/
def repartitionsOf (nodes : List (GraphNode T)) (p : NodeId) : List NodeId :=
  (nodes.filter fun n => n.kind.isRepartition && n.predecessors == [p]).map (·.id)

theorem mem_repartitionsOf {b p : NodeId} : b ∈ repartitionsOf g.nodes p ↔ g.Repartitions b p := by
  simp only [repartitionsOf, List.mem_map, List.mem_filter, Bool.and_eq_true, beq_iff_eq, Repartitions]
  exact exists_congr fun n => by tauto

theorem pairwise_repartitionsOf (h : Ordered g.nodes) (p : NodeId) : (repartitionsOf g.nodes p).Pairwise (· < ·) := by
  refine List.pairwise_map.mpr (List.Pairwise.filter _ (List.pairwise_iff_getElem.mpr fun i j hi hj hij => ?_))
  rw [(h i _ (List.getElem?_eq_getElem hi)).1, (h j _ (List.getElem?_eq_getElem hj)).1]
  exact hij

theorem groupRepartition_eq (m : SortedMap NodeId (List NodeId)) (n : GraphNode T) (p : NodeId) :
    ((groupRepartition m n).get? p).getD [] = (m.get? p).getD [] ++ repartitionsOf [n] p := by
  unfold groupRepartition repartitionsOf
  split
  next pred hk hp =>
    rw [SortedMap.get?_insert]
    by_cases h : pred = p <;> simp [hk, hp, h]
  next h =>
    have : (n.kind.isRepartition && n.predecessors == [p]) = false := by
      simpa using fun hk => h p hk
    simp [this]

theorem byPred_eq (p : NodeId) : ∀ nodes : List (GraphNode T),
    ((nodes.foldl groupRepartition .empty).get? p).getD [] = repartitionsOf nodes p := by
  intro nodes
  induction nodes using List.reverseRecOn with
  | nil => rfl
  | append_singleton nodes n ih =>
    rw [List.foldl_append, List.foldl_cons, List.foldl_nil, groupRepartition_eq, ih]
    simp [repartitionsOf]

theorem get?_insertAll (keeper b : NodeId) : ∀ (l : List NodeId) (m : SortedMap NodeId NodeId),
    (l.foldl (fun m r => m.insert r keeper) m).get? b = if b ∈ l then some keeper else m.get? b
  | [], m => by simp
  | r :: l, m => by
    rw [List.foldl_cons, get?_insertAll keeper b l, SortedMap.get?_insert]
    by_cases h : b = r <;> by_cases hb : b ∈ l <;> simp [h, hb, Ne.symm]

theorem get?_aliasGroup {ids : List NodeId} (h : ids.Pairwise (· < ·)) (m : SortedMap NodeId NodeId) (b : NodeId) :
    (aliasGroup m ids).get? b = if b ∈ ids.tail then ids.head? else m.get? b := by
  unfold aliasGroup
  rw [(h.imp Nat.le_of_lt).insertionSort_eq]
  rcases ids with _ | ⟨a, _ | ⟨b', l⟩⟩
  · simp
  · simp
  · rw [if_neg (by simp)]
    exact get?_insertAll a b (b' :: l) m

theorem get?_aliasGroups {b a : NodeId} : ∀ {es : List (NodeId × List NodeId)}, (∀ e ∈ es, e.2.Pairwise (· < ·)) →
    (es.Pairwise fun e f => ∀ b ∈ e.2, b ∉ f.2) →
    ((es.foldl (fun m e => aliasGroup m e.2) .empty).get? b = some a ↔ ∃ e ∈ es, e.2.head? = some a ∧ b ∈ e.2.tail) := by
  intro es
  induction es using List.reverseRecOn with
  | nil => simp
  | append_singleton es e ih =>
    intro hs hd
    obtain ⟨hd, -, hde⟩ := List.pairwise_append.mp hd
    rw [List.foldl_append, List.foldl_cons, List.foldl_nil, get?_aliasGroup (hs e (by simp))]
    have ih := ih (fun e he => hs e (List.mem_append_left _ he)) hd
    split_ifs with hb
    · constructor
      · exact fun h => ⟨e, by simp, h, hb⟩
      · rintro ⟨f, hf, hfa, hfb⟩
        rcases List.mem_append.mp hf with hf | hf
        · exact absurd (List.mem_of_mem_tail hb) (hde f hf e (by simp) b (List.mem_of_mem_tail hfb))
        · rwa [List.mem_singleton.mp hf] at hfa
    · rw [ih]
      constructor
      · rintro ⟨f, hf, h⟩
        exact ⟨f, List.mem_append_left _ hf, h⟩
      · rintro ⟨f, hf, hfa, hfb⟩
        rcases List.mem_append.mp hf with hf | hf
        · exact ⟨f, hf, hfa, hfb⟩
        · exact absurd (List.mem_singleton.mp hf ▸ hfb) hb

theorem head_tail_iff {l : List Nat} (h : l.Pairwise (· < ·)) {a b : Nat} :
    l.head? = some a ∧ b ∈ l.tail ↔ a < b ∧ a ∈ l ∧ b ∈ l ∧ ∀ c ∈ l, a ≤ c := by
  rcases l with _ | ⟨k, l⟩
  · simp
  · have hk : ∀ x ∈ l, k < x := fun x hx => List.rel_of_pairwise_cons h hx
    simp only [List.head?_cons, Option.some.injEq, List.tail_cons, List.mem_cons, forall_eq_or_imp]
    grind

/-- The keeper of `b` is the first repartition of its node, if `b` is a later one. -/
theorem get?_merged (ho : Ordered g.nodes) (ha : g.aliases = .empty) {a b : NodeId} :
    g.mergeRepartitionTopics.aliases.get? b = some a ↔
      ∃ p, a < b ∧ g.Repartitions a p ∧ g.Repartitions b p ∧ ∀ c, g.Repartitions c p → a ≤ c := by
  simp only [← mem_repartitionsOf, ← head_tail_iff (pairwise_repartitionsOf ho _)]
  have hmem : ∀ e ∈ (g.nodes.foldl groupRepartition .empty).entries, e.2 = repartitionsOf g.nodes e.1 := by
    intro e he
    rw [← byPred_eq, (SortedMap.get?_eq_some_iff _ _ _).mpr he]
    rfl
  rw [mergeRepartitionTopics, ha, get?_aliasGroups]
  · constructor
    · rintro ⟨e, he, h⟩
      exact ⟨e.1, hmem e he ▸ h⟩
    · rintro ⟨p, hp⟩
      refine ⟨(p, repartitionsOf g.nodes p), ?_, hp⟩
      rw [← SortedMap.get?_eq_some_iff]
      rcases hg : (g.nodes.foldl groupRepartition .empty).get? p with _ | l
      · simp [← byPred_eq, hg] at hp
      · simp [← byPred_eq, hg]
  · exact fun e he => hmem e he ▸ pairwise_repartitionsOf ho e.1
  · refine (SortedMap.sorted _).imp_of_mem fun {e f} he hf hlt b hb hb' => ?_
    rw [hmem e he, mem_repartitionsOf] at hb
    rw [hmem f hf, mem_repartitionsOf] at hb'
    obtain ⟨n, hn, hid, -, hp⟩ := hb
    obtain ⟨n', hn', hid', -, hp'⟩ := hb'
    obtain ⟨i, hi⟩ := List.getElem?_of_mem hn
    obtain ⟨j, hj⟩ := List.getElem?_of_mem hn'
    obtain rfl : i = j := by rw [← (ho i n hi).1, ← (ho j n' hj).1, hid, hid']
    obtain rfl : n = n' := by simpa [hi] using hj
    exact absurd hlt (by simp [List.singleton_inj.mp (hp.symm.trans hp')])

theorem lowerNode_reuseSource (aliases : SortedMap NodeId NodeId) (state : LowerState T) (n : GraphNode T) :
    lowerNode aliases state (reuseSource n) = lowerNode aliases state n := by
  unfold reuseSource
  split <;> rfl

end LogicalGraph

namespace Plan

open LogicalGraph

variable {T D : Type} {P : Plan T D} {g : LogicalGraph T} {stream : NodeId → D}

theorem Streams.stream_repartition (h : P.Streams g stream) {a b p : NodeId} (ha : g.Repartitions a p)
    (hb : g.Repartitions b p) : stream a = stream b := by
  have hm := (h.repartition a b p ha hb).1
  obtain ⟨n, hn, rfl, -, hp⟩ := ha
  obtain ⟨m, hm', rfl, -, hp'⟩ := hb
  rw [h.solves n hn, h.solves m hm', hp, hp', hm]

/-- After the rounds of some nodes: the names taken are theirs, and their handles carry their streams. -/
structure Carrying (P : Plan T D) (stream : NodeId → D) (nodes : List (GraphNode T)) (state : LowerState T) : Prop where
  used : ∀ name, P.used state.topology name → ∃ n ∈ nodes, name ∈ P.mints n.id
  handles : ∀ n ∈ nodes, P.yields n.id → P.Handles state n.id (stream n.id)

/-- A round that runs the thunk of its node. -/
theorem Streams.carrying_thunk (h : P.Streams g stream) {nodes : List (GraphNode T)} {n : GraphNode T}
    (hn : n ∈ g.nodes) (hsub : nodes ⊆ g.nodes) (hid : ∀ m ∈ nodes, m.id ≠ n.id)
    (hp : ∀ p ∈ n.predecessors, ∃ m ∈ nodes, m.id = p) {state : LowerState T} (hc : P.Carrying stream nodes state) :
    ∃ state', lowerNode .empty state n = .ok state' ∧ P.Carrying stream (nodes ++ [n]) state' := by
  obtain ⟨state', hrun, hused, hcarries, hkept, hown⟩ := h.lowers n hn state (n.predecessors.map stream)
    (fun name hname hu => by
      obtain ⟨m, hm, hmint⟩ := hc.used name hu
      exact h.mints m (hsub hm) n hn (hid m hm) hmint hname)
    (List.forall₂_map_right_iff.mpr (List.forall₂_same.mpr fun p hpn => by
      obtain ⟨m, hm, rfl⟩ := hp p hpn
      exact hc.handles m hm (h.reads n hn m.id hpn)))
  refine ⟨state', hrun, fun name hu => ?_, fun m hm hy => ?_⟩
  · rcases hused name hu with hu | hmint
    · obtain ⟨m, hm, hmint⟩ := hc.used name hu
      exact ⟨m, List.mem_append_left _ hm, hmint⟩
    · exact ⟨n, by simp, hmint⟩
  · rcases List.mem_append.mp hm with hm | hm
    · obtain ⟨name, hname, hd⟩ := hc.handles m hm hy
      exact ⟨name, by rwa [hkept m.id (hid m hm)], hcarries name _ hd⟩
    · obtain rfl := List.mem_singleton.mp hm
      exact h.solves m hn ▸ hown hy

/-- A round that gives a repartition the handle of an earlier one of the same node. -/
theorem Carrying.alias {nodes : List (GraphNode T)} {state : LowerState T} (hc : P.Carrying stream nodes state)
    {n keeper : GraphNode T} (hid : ∀ m ∈ nodes, m.id ≠ n.id) (hk : keeper ∈ nodes) (hlt : keeper.id < n.id)
    (hy : P.yields keeper.id) (hs : stream n.id = stream keeper.id)
    {aliases : SortedMap NodeId NodeId} (ha : aliases.get? n.id = some keeper.id) :
    ∃ state', lowerNode aliases state n = .ok state' ∧ P.Carrying stream (nodes ++ [n]) state' := by
  obtain ⟨name, hname, hd⟩ := hc.handles keeper hk hy
  refine ⟨{ state with handleName := state.handleName.insert n.id name }, ?_, fun name hu => ?_, fun m hm hym => ?_⟩
  · simp only [lowerNode, ha, if_pos hlt, Option.mem_def.mp hname]
  · obtain ⟨m, hm, hmint⟩ := hc.used name hu
    exact ⟨m, List.mem_append_left _ hm, hmint⟩
  · rcases List.mem_append.mp hm with hm | hm
    · obtain ⟨name', hname', hd'⟩ := hc.handles m hm hym
      exact ⟨name', by rwa [SortedMap.get?_insert_of_ne (hid m hm).symm], hd'⟩
    · obtain rfl := List.mem_singleton.mp hm
      exact ⟨name, by simp, hs ▸ hd⟩

/-- The rounds of the nodes up to any of them return, with or without aliases. -/
theorem Streams.lowered_prefix (h : P.Streams g stream) (ho : Ordered g.nodes) {aliases : SortedMap NodeId NodeId}
    (ha : ∀ a b, aliases.get? b = some a → ∃ p, a < b ∧ g.Repartitions a p ∧ g.Repartitions b p)
    {state : LowerState T} (hnew : ∀ name, ¬ P.used state.topology name) :
    ∀ nodes, nodes <+: g.nodes → ∃ state', nodes.foldlM (lowerNode aliases) state = .ok state' ∧ P.Carrying stream nodes state' := by
  intro nodes
  induction nodes using List.reverseRecOn with
  | nil => exact fun _ => ⟨state, rfl, fun name hu => absurd hu (hnew name), by simp⟩
  | append_singleton nodes n ih =>
    rintro ⟨rest, hrest⟩
    obtain ⟨mid, hmid, hc⟩ := ih ⟨n :: rest, by simpa using hrest⟩
    have hat : ∀ (i : Nat) m, nodes[i]? = some m → g.nodes[i]? = some m := by
      intro i m hi
      rw [← hrest, List.append_assoc, List.getElem?_append_left (List.getElem?_eq_some_iff.mp hi).1, hi]
    have hn : g.nodes[nodes.length]? = some n := by simp [← hrest]
    -- the node at position `i` has the id `i`, so the earlier nodes are those with smaller ids
    have hbefore : ∀ i, i < n.id → ∃ m ∈ nodes, m.id = i := by
      intro i hi
      rw [(ho _ n hn).1] at hi
      exact ⟨nodes[i], List.getElem_mem hi, (ho i _ (hat i _ (List.getElem?_eq_getElem hi))).1⟩
    have hid : ∀ m ∈ nodes, m.id ≠ n.id := by
      intro m hm
      obtain ⟨i, hi⟩ := List.getElem?_of_mem hm
      rw [(ho i m (hat i m hi)).1, (ho _ n hn).1]
      exact Nat.ne_of_lt (List.getElem?_eq_some_iff.mp hi).1
    have hmem : n ∈ g.nodes := List.mem_of_getElem? hn
    have hsub : nodes ⊆ g.nodes := fun m hm => by simp [← hrest, hm]
    rw [List.foldlM_append, hmid]
    rcases hal : aliases.get? n.id with _ | a
    · obtain ⟨state', hrun, hc'⟩ := h.carrying_thunk hmem hsub hid
        (fun p hp => hbefore p ((ho _ n hn).1 ▸ (ho _ n hn).2 p hp)) hc
      refine ⟨state', ?_, hc'⟩
      simpa [lowerNode, hal, bind_eq_ok] using hrun
    · obtain ⟨p, hlt, hka, hkb⟩ := ha a n.id hal
      obtain ⟨keeper, hk, rfl⟩ := hbefore a hlt
      obtain ⟨hmeaning, hy⟩ := h.repartition keeper.id n.id p hka hkb
      obtain ⟨state', hrun, hc'⟩ := hc.alias hid hk hlt hy (h.stream_repartition hkb hka) hal
      refine ⟨state', ?_, hc'⟩
      simpa [bind_eq_ok] using hrun

theorem Streams.lowered (h : P.Streams g stream) (ho : Ordered g.nodes) (ha : g.aliases = .empty) (optimized : Bool)
    {topology : T} (hnew : ∀ name, ¬ P.used topology name) :
    ∃ state, g.lowerWith optimized topology = .ok state ∧ P.Carrying stream g.nodes state := by
  cases optimized with
  | false => exact h.lowered_prefix ho (by simp [ha]) hnew g.nodes List.prefix_rfl
  | true =>
    unfold lowerWith lower reuseKtableSourceTopics
    simp only [if_true, List.foldlM_map, lowerNode_reuseSource]
    refine h.lowered_prefix ho (fun a b hab => ?_) hnew g.nodes List.prefix_rfl
    obtain ⟨p, hlt, hka, hkb, -⟩ := (get?_merged ho ha).mp hab
    exact ⟨p, hlt, hka, hkb⟩

end Plan

open LogicalGraph

/-- With and without the optimizer, the lowering of the graph of any calls returns, and the handle of every node
carries the stream the node stands for. -/
theorem optimized_lowering_keeps_streams {T D : Type} (P : Plan T D) (stream : NodeId → D) (topology : T)
    {calls : List (GraphNodeKind × List NodeId × Option (LowerFn T))} {g : LogicalGraph T} (hg : ofCalls calls = .ok g)
    (h : P.Streams g stream) (hnew : ∀ name, ¬ P.used topology name) (optimized : Bool) :
    ∃ state, g.lowerWith optimized topology = .ok state ∧
      ∀ n ∈ g.nodes, P.yields n.id → P.Handles state n.id (stream n.id) := by
  obtain ⟨ho, ha⟩ := ordered_ofCalls hg
  obtain ⟨state, hrun, hc⟩ := h.lowered ho ha optimized hnew
  exact ⟨state, hrun, hc.handles⟩

/-- Of the repartitions of one node exactly the first keeps its topic; the others become its aliases. -/
theorem merged_topics_of_later_repartitions {T : Type} {calls : List (GraphNodeKind × List NodeId × Option (LowerFn T))}
    {g : LogicalGraph T} (hg : ofCalls calls = .ok g) (a b : NodeId) :
    g.mergeRepartitionTopics.aliases.get? b = some a ↔
      ∃ p, a < b ∧ g.Repartitions a p ∧ g.Repartitions b p ∧ ∀ c, g.Repartitions c p → a ≤ c :=
  get?_merged (ordered_ofCalls hg).1 (ordered_ofCalls hg).2

section Topics

variable {P M S V : Type} [StateStore S V]

/-- The records of a topic reach a node, through sinks and the sources of what they write. -/
inductive Feeds (reg : NodeRegistry) (topic : Topic) : String → Prop
  | source {name : String} {topics : List Topic} (hn : ⟨name, .source topics⟩ ∈ reg.nodes) (ht : topic ∈ topics) :
    Feeds reg topic name
  | processor {name : String} {ps : List String} (hn : ⟨name, .processor ps⟩ ∈ reg.nodes) {p : String} (hp : p ∈ ps)
    (hf : Feeds reg topic p) : Feeds reg topic name
  | sink {name sink : String} {topics : List Topic} {ps : List String} {internal : Topic}
    (hs : ⟨sink, .sink internal ps⟩ ∈ reg.nodes) {p : String} (hp : p ∈ ps) (hf : Feeds reg topic p)
    (hn : ⟨name, .source topics⟩ ∈ reg.nodes) (ht : internal ∈ topics) : Feeds reg topic name

theorem Feeds.mono {reg reg' : NodeRegistry} (h : reg.nodes ⊆ reg'.nodes) {topic : Topic} {name : String}
    (hf : Feeds reg topic name) : Feeds reg' topic name := by
  induction hf with
  | source hn ht => exact .source (h hn) ht
  | processor hn hp _ ih => exact .processor (h hn) hp ih
  | sink hs hp _ hn ht ih => exact .sink (h hs) hp ih (h hn) ht

/-- A source means the topics it reads, and a repartition what its node means. -/
def topicsPlan (mints : NodeId → List String) (meaning : NodeId → List (List Topic) → List Topic) :
    Plan (Topology P M S V) (List Topic) where
  used t name := ∃ n ∈ t.reg.nodes, n.name = name
  carries t name topics := (∃ n ∈ t.reg.nodes, n.name = name) ∧ ∀ topic ∈ topics, Feeds t.reg topic name
  mints := mints
  meaning := meaning
  yields _ := True

theorem nodes_record {t : Topology P M S V} {node : Node} (hname : ¬ ∃ n ∈ t.reg.nodes, n.name = node.name)
    (hp : ∀ p ∈ node.predecessors, ∃ n ∈ t.reg.nodes, n.name = p) :
    (t.record (t.reg.addNode node)).reg.nodes = t.reg.nodes ++ [node] := by
  have hindex : t.reg.index node.name = none := NodeRegistry.index_eq_none.mpr fun n hn h => hname ⟨n, hn, h⟩
  have hmissing : t.reg.missingPredecessor node.predecessors = none := by
    refine List.find?_eq_none.mpr fun p hpn h => ?_
    obtain ⟨n, hn, hnp⟩ := hp p hpn
    exact NodeRegistry.index_eq_none.mp (Option.isNone_iff_eq_none.mp h) n hn hnp
  simp only [NodeRegistry.addNode, hmissing, NodeRegistry.insert, hindex, Topology.record]

variable {mints : NodeId → List String} {meaning : NodeId → List (List Topic) → List Topic} {id : NodeId}

/-- A thunk that only adds nodes, under its own names. -/
theorem lowers_of_nodes {n : GraphNode (Topology P M S V)}
    (h : ∀ state ds, (∀ name ∈ mints n.id, ¬ ∃ m ∈ state.topology.reg.nodes, m.name = name) →
      List.Forall₂ ((topicsPlan mints meaning).Handles state) n.predecessors ds →
      ∃ topology name nodes, lowerNode .empty state n = .ok { state with
          topology := topology, handleName := state.handleName.insert n.id name } ∧
        topology.reg.nodes = state.topology.reg.nodes ++ nodes ∧ (∀ m ∈ nodes, m.name ∈ mints n.id) ∧
        (∃ m ∈ nodes, m.name = name) ∧ ∀ topic ∈ meaning n.id ds, Feeds topology.reg topic name) :
    (topicsPlan mints meaning).Lowers n := by
  intro state ds hfree hpre
  obtain ⟨topology, name, nodes, hrun, hnodes, hmints, ⟨own, hown, hname⟩, hfeeds⟩ := h state ds hfree hpre
  have hsub : state.topology.reg.nodes ⊆ topology.reg.nodes := hnodes ▸ List.subset_append_left _ _
  refine ⟨_, hrun, ?_, ?_, fun p hp => SortedMap.get?_insert_of_ne hp.symm, fun _ => ⟨name, by simp, ?_, hfeeds⟩⟩
  · rintro _ ⟨m, hm, rfl⟩
    rcases List.mem_append.mp (hnodes ▸ hm) with hm | hm
    · exact .inl ⟨m, hm, rfl⟩
    · exact .inr (hmints m hm)
  · rintro name d ⟨⟨m, hm, hmname⟩, hd⟩
    exact ⟨⟨m, hsub hm, hmname⟩, fun topic ht => (hd topic ht).mono hsub⟩
  · exact ⟨own, hnodes ▸ List.mem_append_right _ hown, hname⟩

theorem streamThunk_lowers {name : String} {topics : List Topic}
    {deser : Option Bytes → Bytes → Int → Except ProcessorError (ErasedRecord V)} (hmint : mints id = [name])
    (hmean : meaning id [] = topics) (kind : GraphNodeKind) :
    (topicsPlan mints meaning : Plan (Topology P M S V) _).Lowers
      ⟨id, kind, [], some (streamThunk id name deser topics)⟩ := by
  refine lowers_of_nodes fun state ds hfree hpre => ?_
  obtain rfl : ds = [] := by simpa using hpre
  have hnodes : (state.topology.addSource name topics deser).reg.nodes = _ ++ [⟨name, .source topics⟩] :=
    nodes_record (hfree name (by simp [hmint])) (by simp [Node.predecessors])
  exact ⟨_, name, _, rfl, hnodes, by simp [hmint], by simp, fun topic ht => .source (hnodes ▸ by simp) (hmean ▸ ht)⟩

theorem repartitionThunk_lowers {upstream : NodeId} {appId base sinkName sourceName : String}
    {deser : Option Bytes → Bytes → Int → Except ProcessorError (ErasedRecord V)}
    {serialize : ErasedRecord V → Except ProcessorError (Option Bytes × Bytes)}
    (hmint : mints id = [sinkName, sourceName]) (hne : sinkName ≠ sourceName)
    (hmean : ∀ topics, meaning id [topics] = topics) (kind : GraphNodeKind) :
    (topicsPlan mints meaning : Plan (Topology P M S V) _).Lowers ⟨id, kind, [upstream],
      some (repartitionThunk id upstream appId base sinkName sourceName deser serialize)⟩ := by
  refine lowers_of_nodes fun state ds hfree hpre => ?_
  obtain ⟨topics, rfl⟩ : ∃ topics, ds = [topics] := List.length_eq_one_iff.mp hpre.length_eq.symm
  obtain ⟨parent, hparent, hp, hfeeds⟩ : (topicsPlan mints meaning).Handles state upstream topics := by simpa using hpre
  generalize htopic : appId ++ "-" ++ base ++ "-repartition" = topic
  let sunk := (state.topology.addSink sinkName topic [parent] serialize).addRepartitionTopic topic
  have hsink : sunk.reg.nodes = state.topology.reg.nodes ++ [⟨sinkName, .sink topic [parent]⟩] :=
    nodes_record (hfree sinkName (by simp [hmint])) (by simpa [Node.predecessors] using hp)
  have hnodes : (sunk.addSource sourceName [topic] deser).reg.nodes = sunk.reg.nodes ++ [⟨sourceName, .source [topic]⟩] :=
    nodes_record (by simpa [hsink, hne] using hfree sourceName (by simp [hmint])) (by simp [Node.predecessors])
  rw [hsink, List.append_assoc] at hnodes
  refine ⟨_, sourceName, _, ?_, hnodes, by simp [hmint], by simp, fun t ht => ?_⟩
  · simp [lowerNode, repartitionThunk, Option.mem_def.mp hparent, htopic, sunk]
  · have hmem : ∀ n ∈ _, n ∈ _ := fun n hn => hnodes ▸ List.mem_append_right _ hn
    exact .sink (hmem ⟨sinkName, .sink topic [parent]⟩ (by simp)) List.mem_cons_self
      ((hfeeds t (hmean topics ▸ ht)).mono (hnodes ▸ List.subset_append_left _ _))
      (hmem ⟨sourceName, .source [topic]⟩ (by simp)) List.mem_cons_self

end Topics

/-- A stream that two aggregations group by a new key. -/
def twiceGrouped : List (GraphNodeKind × List NodeId ×
    Option (LowerFn (Topology Unit Unit (KeyValueBytesStore Unit) (Value Unit)))) :=
  let deser := fun _ _ _ => .error .panicked
  let serialize := fun _ => .error .panicked
  [(.other, [], some (streamThunk 0 "source" deser ["in"])),
    (.repartition "a" none, [0], some (repartitionThunk 1 0 "app" "a" "sink-a" "source-a" deser serialize)),
    (.repartition "b" none, [0], some (repartitionThunk 2 0 "app" "b" "sink-b" "source-b" deser serialize))]

def twiceGroupedPlan : Plan (Topology Unit Unit (KeyValueBytesStore Unit) (Value Unit)) (List Topic) :=
  topicsPlan (fun i => ([["source"], ["sink-a", "source-a"], ["sink-b", "source-b"]][i]?).getD [])
    fun i ds => if i = 0 then ["in"] else ds.flatten

theorem streams_twiceGrouped : ∀ g, ofCalls twiceGrouped = .ok g → twiceGroupedPlan.Streams g fun _ => ["in"] := by
  intro g hg
  have hid : ∀ c p, g.Repartitions c p → c ≠ 0 := by
    rintro _ _ ⟨n, hn, rfl, hk, -⟩ h0
    cases hg
    rcases n with ⟨_ | _, kind, _, _⟩
    · simp_all [LogicalGraph.empty, GraphNodeKind.isRepartition]
    · cases h0
  cases hg
  constructor
  · simp [twiceGroupedPlan, topicsPlan, LogicalGraph.empty]
  · simp only [LogicalGraph.empty, List.nil_append, List.cons_append, List.forall_mem_cons]
    exact ⟨streamThunk_lowers rfl rfl _, repartitionThunk_lowers rfl (by decide) (by simp) _,
      repartitionThunk_lowers rfl (by decide) (by simp) _, by simp⟩
  · simp [twiceGroupedPlan, topicsPlan, LogicalGraph.empty]
  · simp [twiceGroupedPlan, topicsPlan, LogicalGraph.empty]
  · exact fun a b p ha hb => ⟨by simp [twiceGroupedPlan, topicsPlan, hid a p ha, hid b p hb], trivial⟩

theorem optimized_lowering_of_twiceGrouped : ∃ g, ofCalls twiceGrouped = .ok g ∧
    ∃ state, g.lowerWith true (.new () 0) = .ok state ∧
      ∀ n ∈ g.nodes, ∃ name ∈ state.handleName.get? n.id, Feeds state.topology.reg "in" name := by
  refine ⟨_, rfl, ?_⟩
  obtain ⟨state, hrun, h⟩ := optimized_lowering_keeps_streams twiceGroupedPlan (fun _ => ["in"]) (.new () 0)
    (rfl : ofCalls twiceGrouped = .ok _) (streams_twiceGrouped _ rfl) (by simp [twiceGroupedPlan, topicsPlan, Topology.new]) true
  refine ⟨state, hrun, fun n hn => ?_⟩
  obtain ⟨name, hname, -, hfeeds⟩ := h n hn trivial
  exact ⟨name, hname, hfeeds "in" List.mem_cons_self⟩

theorem merged_topics_of_twiceGrouped : ∃ g, ofCalls twiceGrouped = .ok g ∧
    ∃ p, 1 < 2 ∧ g.Repartitions 1 p ∧ g.Repartitions 2 p ∧ ∀ c, g.Repartitions c p → 1 ≤ c :=
  ⟨_, rfl, (merged_topics_of_later_repartitions (rfl : ofCalls twiceGrouped = .ok _) 1 2).mp rfl⟩

end KrabkaStreams
