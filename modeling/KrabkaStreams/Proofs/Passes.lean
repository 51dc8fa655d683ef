import KrabkaStreams.Proofs.Producing

/-!
# Passes that find nothing to do

A cache flush over clean caches and a wall-clock pass without a due punctuator leave the stores and
the sink output as they are. When the buffers are empty too, neither sends anything.
-/

namespace KrabkaStreams

open Effect StateStore

variable {E P M S V : Type} [StateStore S V] [Processor P M S V] {t : StreamTask P M S V} {g : Graph P M S V}

namespace Graph

omit [StateStore S V] in
theorem drain_nil (g : Graph P M S V) (rc : RecordContext) : g.drain rc [] = (.ok (), g) := by
  unfold drain drainLoop
  rfl

theorem flushStore_of_clean [LawfulStateStore S] (h : g.stores.all fun e => !isDirty e.2) (name : String)
    (idx : Nat) (rc : RecordContext) : g.flushStore name idx rc = (.ok (), g) := by
  unfold flushStore
  rcases hs : g.stores.get? name with _ | s
  · exact drain_nil g rc
  · have hclean : isDirty s = false := by
      simpa using List.all_eq_true.mp h _ (OrdMap.mem_of_get?_eq_some hs)
    have hg : { g with stores := g.stores.insert name s } = g := by
      rw [OrdMap.insert_of_get? hs]
    simp only [LawfulStateStore.flush_clean s hclean, hg]
    exact drain_nil g rc

theorem flushLoop_of_clean [LawfulStateStore S] (h : g.stores.all fun e => !isDirty e.2) (rc : RecordContext) :
    ∀ owners : List (String × Nat), flushLoop rc owners g = (.ok (), g)
  | [] => rfl
  | (name, idx) :: rest => by
    unfold flushLoop
    rw [flushStore_of_clean h]
    exact flushLoop_of_clean h rc rest

omit [StateStore S V] in
theorem punctuateLoop_of_not_due {ty : PunctuationType} {now : Int}
    (h : ∀ e ∈ g.schedules, g.isDue ty now e = false) :
    ∀ is : List Nat, (∀ i ∈ is, i < g.schedules.length) → punctuateLoop ty now is g = (.ok (), g)
  | [], _ => rfl
  | i :: is, hlt => by
    have hi : g.schedules[i]? = some (g.schedules.get ⟨i, hlt i List.mem_cons_self⟩) :=
      List.getElem?_eq_getElem (hlt i List.mem_cons_self)
    unfold punctuateLoop
    rw [hi]
    simp only [h _ (List.get_mem _ _), Bool.false_eq_true, if_false]
    exact punctuateLoop_of_not_due h is fun j hj => hlt j (List.mem_cons_of_mem i hj)

omit [StateStore S V] in
theorem punctuate_of_not_due {ty : PunctuationType} {now : Int}
    (h : ∀ e ∈ g.schedules, g.isDue ty now e = false) :
    g.punctuate ty now = (.ok (), { g with
      schedules := g.schedules.filter fun e => !g.cancelled.contains e.cancel }) := by
  refine punctuateLoop_of_not_due (fun e he => ?_) _ fun i hi => by simpa using hi
  exact h e (List.mem_filter.mp he).1

end Graph

namespace StreamTask

omit [Processor P M S V] in
theorem gainedRecords_self (reuse : List Topic) (s : S) : gainedRecords reuse s s = [] := by
  simp [gainedRecords]

omit [Processor P M S V] in
theorem emittedBy_of_eq (hout : g.output = t.graph.output) (hstores : g.stores = t.graph.stores) :
    t.emittedBy g = [] := by
  unfold emittedBy
  rw [hout, hstores, List.drop_length, List.map_nil, List.nil_append, List.map_eq_nil_iff,
    List.flatMap_eq_nil_iff]
  intro e he
  obtain ⟨i, hi, rfl⟩ := List.mem_iff_getElem.mp he
  rw [List.getElem_zip]
  exact gainedRecords_self _ _

variable [Broker E] [LawfulStateStore S]

omit [StateStore S V] [Processor P M S V] [Broker E] [LawfulStateStore S] in
theorem span_of_ok {α : Type} {step : TaskStep} {m : TaskM E P M S V α} {s s' : TaskState E P M S V}
    {a : α} {evs : List Event} (h : m s = (.ok a, s', evs)) : span step m s = (.ok a, s', evs) := by
  have hm : m.attempt s = (.ok (.ok a), s', evs) := by simp [Eff.attempt, h]
  unfold span
  rw [Eff.bind_of_ok hm]
  simp [pure]

omit [Processor P M S V] [LawfulStateStore S] in
theorem drainPunctuationOutput_idle (hb : t.buffered = []) (w : World E) :
    drainPunctuationOutput ⟨t, w⟩ = (.ok (), ⟨t.emptied, w⟩, []) := by
  obtain ⟨hout, hlog⟩ := List.append_eq_nil_iff.mp hb
  have hout' : sendOutput ⟨t, w⟩ = (.ok (), ⟨t.setGraph t.graph.takeOutput.2, w⟩, []) := by
    show (sendAll (t.graph.output.map sinkRecord) _) = _
    rw [hout]
    rfl
  have hlog' : sendChangelogs ⟨t.setGraph t.graph.takeOutput.2, w⟩ = (.ok (), ⟨t.emptied, w⟩, []) := by
    show (sendAll ((t.graph.stores.flatMap fun e =>
      Graph.changelogRecords t.sourceTopics e.2).map (pinnedRecord t.partition)) _) = _
    rw [hlog]
    rfl
  unfold drainPunctuationOutput
  rw [Eff.bind_of_ok hout', hlog']
  rfl

omit [Processor P M S V] [LawfulStateStore S] in
theorem emitAndDrain_idle {kind : EmitKind} {step : TaskStep}
    {op : Graph P M S V → Except ProcessorError Unit × Graph P M S V} (hok : (op t.graph).1 = .ok ())
    (hout : (op t.graph).2.output = t.graph.output) (hstores : (op t.graph).2.stores = t.graph.stores)
    (hb : t.buffered = []) (w : World E) :
    (span step do
        runGraph kind op
        drainPunctuationOutput) ⟨t, w⟩
      = (.ok (), ⟨(t.setGraph (op t.graph).2).emptied, w⟩, [.emitted t.ref kind []]) := by
  have hrun := runGraph_cases kind op t w
  rw [hok, emittedBy_of_eq hout hstores] at hrun
  have hb' : (t.setGraph (op t.graph).2).buffered = [] := by
    rw [← hb]
    simp [buffered, setGraph, hout, hstores]
  have hpass := Eff.bind_of_ok (f := fun _ => drainPunctuationOutput) hrun
  rw [drainPunctuationOutput_idle hb'] at hpass
  exact span_of_ok hpass

omit [Processor P M S V] [Broker E] in
theorem clean_emptied (t : StreamTask P M S V) : t.emptied.clean = t.clean := by
  simp [clean, emptied, setGraph, Graph.drainChangelogs, Graph.takeOutput, StoreRegistry.mapStores,
    List.all_map, Function.comp_def]

theorem flushCaches_idle (kind : EmitKind) (hb : t.buffered = []) (hclean : t.clean = true) (w : World E) :
    flushCaches kind ⟨t, w⟩ = (.ok (), ⟨t.emptied, w⟩, [.emitted t.ref kind []]) := by
  have hgraph : t.graph.flushCaches = (.ok (), t.graph) := Graph.flushLoop_of_clean hclean _ _
  have hpass : flushCaches kind ⟨t, w⟩
      = (.ok (), ⟨(t.setGraph t.graph.flushCaches.2).emptied, w⟩, [.emitted t.ref kind []]) :=
    emitAndDrain_idle (by rw [hgraph]) (by rw [hgraph]) (by rw [hgraph]) hb w
  rwa [hgraph] at hpass

omit [LawfulStateStore S] in
theorem punctuateWallClock_idle {now : Int} (hb : t.buffered = []) (hdue : t.wallClockDue now = false)
    (w : World E) :
    ∃ t', punctuateWallClock now ⟨t, w⟩ = (.ok (), ⟨t', w⟩, [.emitted t.ref .wallClock []]) := by
  have hgraph : t.graph.punctuateWallClock now = (.ok (), { t.graph with
      wallClock := now
      schedules := t.graph.schedules.filter fun e => !t.graph.cancelled.contains e.cancel }) :=
    Graph.punctuate_of_not_due (g := { t.graph with wallClock := now })
      fun e he => Bool.eq_false_iff.mpr (List.any_eq_false.mp hdue e he)
  exact ⟨_, emitAndDrain_idle (by rw [hgraph]) (by rw [hgraph]) (by rw [hgraph]) hb w⟩

end StreamTask

end KrabkaStreams
