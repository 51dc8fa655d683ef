import KrabkaStreams.Piping
import KrabkaStreams.Proofs.Construction
import KrabkaStreams.Script

/-!
# Piping ends and delivers every forward

`serve` is a dispatch that says what was forwarded (`serve_cases`). A node feeds larger indices only, so
the queue ends (`Worklist.ends_of_descends`), and `Worklist.Ends.served` is the delivery.
-/

namespace KrabkaStreams

namespace Graph

variable {P M S V : Type} [Processor P M S V] (g : Graph P M S V) (rc : RecordContext)

omit [Processor P M S V] in
theorem setChildren_childrenOf (idx : Nat) (children : List Nat) :
    (g.setChildren idx children).setChildren idx (g.childrenOf idx) = g := by
  have hset : (g.children.set idx children).set idx (g.childrenOf idx) = g.children := by
    rw [List.set_set]
    unfold childrenOf
    by_cases hidx : idx < g.children.length
    · rw [List.getD_eq_getElem?_getD, List.getElem?_eq_getElem hidx]
      exact List.set_getElem_self hidx
    · exact List.set_eq_of_length_le (not_lt.mp hidx)
  unfold setChildren
  rw [hset]

theorem processNode_setChildren (idx : Nat) (rec : ErasedRecord V) (children : List Nat) :
    (g.setChildren idx children).processNode rc idx rec =
      ((g.processNode rc idx rec).1, (g.processNode rc idx rec).2.setChildren idx children) := by
  unfold processNode
  rw [show (g.setChildren idx children).nodes = g.nodes from rfl,
    show (g.setChildren idx children).mem = g.mem from rfl,
    show (g.setChildren idx children).context rc = g.context rc from rfl]
  rcases g.nodes[idx]? with _ | p | ⟨topic, serialize⟩
  · rfl
  · dsimp only
    rcases Processor.process p g.mem (g.context rc) rec with e | o <;> rfl
  · dsimp only
    rcases serialize rec with e | ⟨k, v⟩ <;> rfl

theorem processNode_cases (idx : Nat) (rec : ErasedRecord V) :
    (∃ e, g.processNode rc idx rec = (.error e, g) ∧ g.dispatch rc idx rec = .error e) ∨
      ∃ recs g', g.processNode rc idx rec = (.ok recs, g') ∧
        g.dispatch rc idx rec = .ok (fanOut (g.childrenOf idx) recs, g') ∧
        idx < g.nodes.length ∧ g'.nodes = g.nodes ∧ g'.children = g.children := by
  unfold processNode dispatch
  rcases hn : g.nodes[idx]? with _ | p | ⟨topic, serialize⟩
  · exact .inl ⟨.panicked, rfl, rfl⟩
  · have hlt := (List.getElem?_eq_some_iff.mp hn).1
    dsimp only
    rcases Processor.process p g.mem (g.context rc) rec with e | o
    · exact .inl ⟨e, rfl, rfl⟩
    · exact .inr ⟨o.forwards, _, rfl, rfl, hlt, rfl, rfl⟩
  · have hlt := (List.getElem?_eq_some_iff.mp hn).1
    dsimp only
    rcases serialize rec with e | ⟨k, v⟩
    · exact .inl ⟨e, rfl, rfl⟩
    · exact .inr ⟨[], _, rfl, rfl, hlt, rfl, rfl⟩

theorem serve_cases (g : Graph P M S V) (q : Pending V) :
    (∃ e, serve rc g q = (.error e, g) ∧ g.dispatch rc q.node q.record = .error e) ∨
      ∃ recs g', serve rc g q = (.ok (recs, pendingFrom q.node (g.childrenOf q.node) recs), g') ∧
        g.dispatch rc q.node q.record = .ok (fanOut (g.childrenOf q.node) recs, g') ∧
        q.node < g.nodes.length ∧ g'.nodes = g.nodes ∧ g'.children = g.children := by
  unfold serve
  rw [processNode_setChildren]
  rcases processNode_cases g rc q.node q.record with ⟨e, hp, hd⟩ | ⟨recs, g', hp, hd, hlt, hnodes, hchildren⟩
  · refine .inl ⟨e, ?_, hd⟩
    rw [hp]
    dsimp only
    rw [setChildren_childrenOf]
    rfl
  · refine .inr ⟨recs, g', ?_, hd, hlt, hnodes, hchildren⟩
    have hback : g.childrenOf q.node = g'.childrenOf q.node := by
      unfold childrenOf
      rw [hchildren]
    rw [hp]
    dsimp only
    conv_lhs =>
      rhs
      rw [hback, setChildren_childrenOf]
    rfl

theorem drainLoop_eq (rc : RecordContext) : ∀ (n : Nat) (queue : List (Pending V)) (g : Graph P M S V),
    drainLoop rc n (queue.map fun q => (q.node, q.record)) g = (Worklist.run (serve rc) .outOfBudget n queue g).2
  | _, [], g => by
    cases ‹Nat› <;> rfl
  | 0, _ :: _, g => rfl
  | n + 1, q :: queue, g => by
    unfold Worklist.run
    rw [List.map_cons]
    unfold drainLoop
    rcases serve_cases rc g q with ⟨e, hs, hd⟩ | ⟨recs, g', hs, hd, -, -, -⟩
    · simp only [hs, hd]
    · simp only [hs, hd]
      rw [← drainLoop_eq rc n, List.map_append]
      congr 2
      unfold pendingFrom
      rw [List.map_map]
      exact (List.map_id _).symm

theorem serve_keeps {g₀ : Graph P M S V} (g : Graph P M S V) (q : Pending V)
    (h : g.nodes = g₀.nodes ∧ g.children = g₀.children) :
    ((serve rc g q).2.nodes = g₀.nodes ∧ (serve rc g q).2.children = g₀.children) ∧
      ∀ recs queued, (serve rc g q).1 = .ok (recs, queued) →
        q.node < g₀.nodes.length ∧ queued = pendingFrom q.node (g₀.childrenOf q.node) recs := by
  have hchildren : g.childrenOf q.node = g₀.childrenOf q.node := by
    unfold childrenOf
    rw [h.2]
  rcases serve_cases rc g q with ⟨e, hs, -⟩ | ⟨recs, g', hs, -, hlt, hnodes', hchildren'⟩ <;> rw [hs]
  · exact ⟨h, fun _ _ heq => by cases heq⟩
  · refine ⟨⟨hnodes'.trans h.1, hchildren'.trans h.2⟩, fun _ _ heq => ?_⟩
    cases heq
    rw [← hchildren, ← h.1]
    exact ⟨hlt, rfl⟩

omit [Processor P M S V] in
theorem mem_fanOut {children : List Nat} {recs : List (ErasedRecord V)} {c : Nat} {r : ErasedRecord V}
    (h : (c, r) ∈ fanOut children recs) : c ∈ children := by
  obtain ⟨r, -, hcr⟩ := List.mem_flatMap.mp h
  obtain ⟨c, hc, heq⟩ := List.mem_map.mp hcr
  cases heq
  exact hc

omit [Processor P M S V] in
theorem mem_pendingFrom {node : Nat} {children : List Nat} {recs : List (ErasedRecord V)} {q : Pending V}
    (h : q ∈ pendingFrom node children recs) : q.node ∈ children := by
  obtain ⟨⟨c, r⟩, hcr, rfl⟩ := List.mem_map.mp h
  exact mem_fanOut hcr

theorem Forward.ends {g : Graph P M S V} (h : g.Forward) (rc : RecordContext) (queue : List (Pending V)) :
    ∃ log r, Worklist.Ends (serve rc) queue g log r := by
  refine Worklist.ends_of_descends (I := fun g' : Graph P M S V => g'.nodes = g.nodes ∧ g'.children = g.children)
    (fun q => g.nodes.length - q.node) (fun g' q hg' => (serve_keeps rc g' q hg').1)
    (fun g' q recs queued hg' hok c hc => ?_) queue g ⟨rfl, rfl⟩
  obtain ⟨hlt, rfl⟩ := (serve_keeps rc g' q hg').2 recs queued hok
  have hforward := h q.node c.node (mem_pendingFrom hc)
  omega

omit [Processor P M S V] in
theorem filter_fanOut (children : List Nat) (c : Nat) (recs : List (ErasedRecord V)) :
    ((fanOut children recs).filter fun q => q.1 = c).map (·.2) =
      recs.flatMap fun r => List.replicate (children.count c) r := by
  unfold fanOut
  rw [List.filter_flatMap, List.map_flatMap]
  congr 1
  funext r
  have hfilter : children.filter (fun x => decide (x = c)) = List.replicate (children.count c) c := by
    rw [← List.filter_beq]
    rfl
  rw [List.filter_map, List.map_map]
  show List.map (fun _ => r) (children.filter fun x => decide (x = c)) = _
  rw [hfilter, List.map_replicate]

theorem filter_pendingFrom (children : List Nat) (recs : List (ErasedRecord V)) (node p c : Nat) :
    ((pendingFrom node children recs).filter fun q => q.origin = some p ∧ q.node = c).map (·.record) =
      if node = p then recs.flatMap fun r => List.replicate (children.count c) r else [] := by
  unfold pendingFrom
  rw [List.filter_map, List.map_map]
  split
  · rename_i hnode
    rw [← filter_fanOut]
    simp only [Function.comp_def, hnode, true_and]
  · rename_i hnode
    simp [Function.comp_def, hnode]

omit [Processor P M S V] in
theorem flatMap_ite {α β : Type} (l : List α) (q : α → Prop) [DecidablePred q] (f : α → List β) :
    (l.flatMap fun a => if q a then f a else []) = (l.filter fun a => q a).flatMap f := by
  induction l with
  | nil => rfl
  | cons a l ih =>
    rw [List.flatMap_cons, ih]
    by_cases h : q a <;> simp [h]

omit [Processor P M S V] in
theorem delivered_of_served {g : Graph P M S V} {seeds : List (Nat × ErasedRecord V)} {log : List (Dispatched V)}
    (h : log.map (·.item) = (seeds.map fun q => ⟨none, q.1, q.2⟩) ++
      log.flatMap fun d => pendingFrom d.item.node (g.childrenOf d.item.node) d.made) : g.Delivered seeds log := by
  refine ⟨h, fun p c => ?_⟩
  have hitems : (log.filter fun d => d.item.origin = some p ∧ d.item.node = c).map (·.item.record) =
      ((log.map (·.item)).filter fun q => q.origin = some p ∧ q.node = c).map (·.record) := by
    rw [List.filter_map, List.map_map]
    rfl
  rw [hitems, h, List.filter_append, List.map_append, List.filter_flatMap, List.map_flatMap]
  have hseeds : (seeds.map fun q => (⟨none, q.1, q.2⟩ : Pending V)).filter (fun q => q.origin = some p ∧ q.node = c) = [] := by
    refine List.filter_eq_nil_iff.mpr fun q hq => ?_
    obtain ⟨_, -, rfl⟩ := List.mem_map.mp hq
    simp
  rw [hseeds, List.map_nil, List.nil_append]
  simp only [filter_pendingFrom]
  rw [flatMap_ite]
  refine List.flatMap_congr fun d hd => ?_
  rw [of_decide_eq_true (List.mem_filter.mp hd).2]

theorem Forward.pipesThrough {g : Graph P M S V} (h : g.Forward) (topic : Topic) (partition offset : Int)
    (key : Option Bytes) (value : Bytes) (timestamp : Int) : g.PipesThrough topic partition offset key value timestamp := by
  unfold PipesThrough pipeServed
  rcases hseed : seed topic key value timestamp g.sources with e | seeds
  · exact ⟨0, [], _, fun _ _ => rfl, rfl, fun hok => by cases hok⟩
  · obtain ⟨log, r, hends⟩ := Forward.ends (g := { g with streamTime := max g.streamTime timestamp }) h
      ⟨topic, partition, offset, timestamp⟩ (seeds.map fun q => ⟨none, q.1, q.2⟩)
    obtain ⟨n, hrun⟩ := hends.run_eq .outOfBudget
    obtain ⟨⟨-, hchildren⟩, hlog⟩ := hends.keeps (I := fun g' => g'.nodes = g.nodes ∧ g'.children = g.children)
      (G := fun d => d.queued = pendingFrom d.item.node (g.childrenOf d.item.node) d.made) ⟨rfl, rfl⟩
      fun g' q hg' => ⟨(serve_keeps _ g' q hg').1, fun recs queued hok => ((serve_keeps _ g' q hg').2 recs queued hok).2⟩
    refine ⟨n, log, r, hrun, hchildren, fun hok => ⟨seeds, rfl, delivered_of_served ?_⟩⟩
    rw [hends.served hok]
    congr 1
    exact List.flatMap_congr hlog

end Graph

def diamondTopology : Topology Relay Unit (KeyValueBytesStore Bytes) (Value Bytes) :=
  ((((Topology.new () 8).addSource "src" ["in"] relayDeserialize).addProcessor "left" .forward ["src"]).addProcessor
    "right" .forward ["left"]).addSink "sink" "out" ["left", "right", "right"] relaySerialize

def diamondGraph : Graph Relay Unit (KeyValueBytesStore Bytes) (Value Bytes) :=
  relayGraph [.processorNode .forward, .processorNode .forward, relaySink "out"] [[1, 2], [2, 2], []]
    [relaySource "src" "in" [0]] [] []

end KrabkaStreams
