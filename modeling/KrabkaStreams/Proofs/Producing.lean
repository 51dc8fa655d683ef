import KrabkaStreams.Proofs.Growth
import KrabkaStreams.Proofs.WorldRules

/-!
# The methods that produce

`Producing C A F` carries an assertion through the methods that send: `A l` holds while the records `l`
are out of the buffers and not yet sent, `F` after an error. From `sendAll_spec` up to
`processOnce_spec`.
-/

namespace KrabkaStreams

open Effect StateStore

variable {E P M S V : Type}

namespace StreamTask

/-- The rules for an assertion about a producing task. -/
structure Producing [StateStore S V] [Processor P M S V] (C : List Event → Prop) (K : EmitKind → Prop)
    (A : List ProducerRecord → Assn Event (TaskState E P M S V))
    (F : StreamsClientError → Assn Event (TaskState E P M S V)) : Prop where
  emit : ∀ kind, K kind → ∀ h t w g, Graph.Grows t.graph g → Graph.Ran t.graph g → A [] h ⟨t, w⟩ →
    C (h ++ [.emitted t.ref kind (t.emittedBy g)]) →
    A [] (h ++ [.emitted t.ref kind (t.emittedBy g)]) ⟨t.setGraph g, w⟩
  takeOutput : ∀ h t w, A [] h ⟨t, w⟩ →
    A (t.graph.output.map sinkRecord) h ⟨t.setGraph t.graph.takeOutput.2, w⟩
  takeChangelogs : ∀ h t w, A [] h ⟨t, w⟩ →
    A ((t.graph.drainChangelogs t.sourceTopics).1.map (pinnedRecord t.partition)) h
      ⟨t.setGraph (t.graph.drainChangelogs t.sourceTopics).2, w⟩
  sent : ∀ r l h t w env, A (r :: l) h ⟨t, w⟩ → C (h ++ [.sent t.ref r (some w.nextHandle)]) →
    A l (h ++ [.sent t.ref r (some w.nextHandle)]) ⟨t, w.accept env⟩
  unsent : ∀ r l h t w env e, A (r :: l) h ⟨t, w⟩ →
    C (h ++ (World.fencedEvent (.error e : Except StreamsClientError Unit) ++ [.sent t.ref r none])) →
    F e (h ++ (World.fencedEvent (.error e : Except StreamsClientError Unit) ++ [.sent t.ref r none]))
      ⟨t, { w with env := env }⟩
  opError : ∀ h s e, A [] h s → F (.processor e) h s

theorem Producing.mono [StateStore S V] [Processor P M S V] {C : List Event → Prop} {K K' : EmitKind → Prop}
    {A : List ProducerRecord → Assn Event (TaskState E P M S V)}
    {F F' : StreamsClientError → Assn Event (TaskState E P M S V)} (hA : Producing C K A F)
    (hK : ∀ kind, K' kind → K kind) (hF : ∀ e h s, F e h s → F' e h s) : Producing C K' A F' :=
  { hA with
    emit := fun kind hk => hA.emit kind (hK kind hk)
    unsent := fun r l h t w env e ha hC => hF _ _ _ (hA.unsent r l h t w env e ha hC)
    opError := fun h s e ha => hF _ _ _ (hA.opError h s e ha) }

def Fails (C : List Event → Prop) (step : TaskStep)
    (F F' : StreamsClientError → Assn Event (TaskState E P M S V)) : Prop :=
  ∀ e h s, F e h s → C (h ++ [.failed s.own.ref step]) → F' e (h ++ [.failed s.own.ref step]) s

section Rules

variable [Broker E] [StateStore S V] [Processor P M S V] {C : List Event → Prop} {K : EmitKind → Prop}
  {A : List ProducerRecord → Assn Event (TaskState E P M S V)}
  {F F' : StreamsClientError → Assn Event (TaskState E P M S V)}

theorem sendAll_spec (hC : PrefixClosed C) (hA : Producing C K A F) (t : StreamTask P M S V) :
    ∀ l : List ProducerRecord, Spec C (fun h s => A l h s ∧ s.own = t) (sendAll l)
      (fun _ h s => A [] h s ∧ s.own = t) F
  | [] => Spec.skip
  | r :: l => by
    refine Spec.bind hC (R := fun _ h s => A l h s ∧ s.own = t) ?_ fun _ => sendAll_spec hC hA t l
    refine spec_current fun t' => ?_
    rintro h ⟨own, w⟩ ⟨ht', hs, rfl⟩ hCw
    obtain rfl : own = t' := ht'
    rcases World.send_cases own.ref r w with ⟨env, hx⟩ | ⟨e, env, hx⟩
    · simp only [Eff.onWorld, hx] at hCw ⊢
      exact ⟨hA.sent r l h own w env hs hCw, trivial⟩
    · simp only [Eff.onWorld, hx] at hCw ⊢
      exact hA.unsent r l h own w env e hs hCw

omit [Broker E] [Processor P M S V] in
theorem runGraph_cases (kind : EmitKind)
    (op : Graph P M S V → Except ProcessorError Unit × Graph P M S V) (t : StreamTask P M S V)
    (w : World E) :
    runGraph kind op ⟨t, w⟩ = ((op t.graph).1.mapError .processor,
      ⟨t.setGraph (op t.graph).2, w⟩, [.emitted t.ref kind (t.emittedBy (op t.graph).2)]) := by
  simp only [runGraph, current, update, log, bind, get, getThe, MonadStateOf.get, modify, modifyGet,
    MonadStateOf.modifyGet, Eff.tell, pure]
  rcases (op t.graph).1 with e | u <;> rfl

omit [Broker E] in
theorem runGraph_spec (hA : Producing C K A F) {kind : EmitKind} (hk : K kind)
    {op : Graph P M S V → Except ProcessorError Unit × Graph P M S V}
    (hop : ∀ g, Graph.Grows g (op g).2) (hran : ∀ g, Graph.Ran g (op g).2) :
    Spec C (A []) (runGraph kind op) (fun _ => A []) F := by
  rintro h ⟨t, w⟩ hs hCw
  rw [runGraph_cases] at hCw ⊢
  have hemit := hA.emit kind hk h t w _ (hop t.graph) (hran t.graph) hs hCw
  rcases (op t.graph).1 with e | u
  · exact hA.opError _ _ e hemit
  · exact hemit

theorem sendOutput_spec (hC : PrefixClosed C) (hA : Producing C K A F) (t : StreamTask P M S V) :
    Spec C (fun h s => A [] h s ∧ s.own = t) sendOutput
      (fun _ h s => A [] h s ∧ s.own = t.setGraph t.graph.takeOutput.2) F := by
  refine spec_current fun t' => Spec.bind hC (R := fun _ h s =>
    A (t'.graph.output.map sinkRecord) h s ∧ s.own = t.setGraph t.graph.takeOutput.2) ?_ fun _ => ?_
  · refine spec_update fun h s hs => ?_
    obtain ⟨rfl, hs, rfl⟩ := hs
    exact ⟨hA.takeOutput h s.own s.world hs, rfl⟩
  · exact sendAll_spec hC hA _ _

theorem sendChangelogs_spec (hC : PrefixClosed C) (hA : Producing C K A F)
    (t : StreamTask P M S V) :
    Spec C (fun h s => A [] h s ∧ s.own = t) sendChangelogs
      (fun _ h s => A [] h s ∧ s.own = t.setGraph (t.graph.drainChangelogs t.sourceTopics).2) F := by
  refine spec_current fun t' => Spec.bind hC (R := fun _ h s =>
    A ((t'.graph.drainChangelogs t'.sourceTopics).1.map (pinnedRecord t'.partition)) h s ∧
      s.own = t.setGraph (t.graph.drainChangelogs t.sourceTopics).2) ?_ fun _ => ?_
  · refine spec_update fun h s hs => ?_
    obtain ⟨rfl, hs, rfl⟩ := hs
    exact ⟨hA.takeChangelogs h s.own s.world hs, rfl⟩
  · exact sendAll_spec hC hA _ _

omit [Broker E] [Processor P M S V] in
theorem buffered_emptied [LawfulStateStore S] (t : StreamTask P M S V) : t.emptied.buffered = [] := by
  simp [buffered, emptied, setGraph, Graph.drainChangelogs, Graph.takeOutput,
    StoreRegistry.mapStores, Graph.changelogRecords, List.flatMap_map]

theorem drainPunctuationOutput_spec (hC : PrefixClosed C) (hA : Producing C K A F)
    (t : StreamTask P M S V) :
    Spec C (fun h s => A [] h s ∧ s.own = t) drainPunctuationOutput
      (fun _ h s => A [] h s ∧ s.own = t.emptied) F :=
  Spec.bind hC (sendOutput_spec hC hA t) fun _ => sendChangelogs_spec hC hA _

variable [LawfulStateStore S]

theorem emitAndDrain_spec (hC : PrefixClosed C) (hA : Producing C K A F) {kind : EmitKind}
    (hk : K kind) {op : Graph P M S V → Except ProcessorError Unit × Graph P M S V}
    (hop : ∀ g, Graph.Grows g (op g).2) (hran : ∀ g, Graph.Ran g (op g).2) {step : TaskStep} (hF : Fails C step F F') :
    Spec C (A []) (span step do
        runGraph kind op
        drainPunctuationOutput)
      (fun _ h s => A [] h s ∧ s.own.buffered = []) F' := by
  refine spec_span hC (Spec.bind hC (runGraph_spec hA hk hop hran) fun _ => ?_) hF
  refine Spec.ghost (·.own) fun t => (drainPunctuationOutput_spec hC hA t).post
    (fun _ h s hs => ⟨hs.1, ?_⟩) fun _ _ _ h => h
  rw [hs.2]
  exact buffered_emptied t

section Steps

variable [LawfulProcessor P M S V]

theorem punctuateStreamTime_spec (hC : PrefixClosed C) (hA : Producing C K A F) (hk : K .records)
    (hF : Fails C .punctuateStreamTime F F') :
    Spec C (A []) punctuateStreamTime (fun _ h s => A [] h s ∧ s.own.buffered = []) F' :=
  emitAndDrain_spec hC hA hk (fun g => g.grows_punctuateStreamTime g.streamTime)
    (fun _ => .punctuateStreamTime _) hF

theorem punctuateWallClock_spec (hC : PrefixClosed C) (hA : Producing C K A F) (hk : K .wallClock)
    (hF : Fails C .punctuateWallClock F F') (now : Int) :
    Spec C (A []) (punctuateWallClock now) (fun _ h s => A [] h s ∧ s.own.buffered = []) F' :=
  emitAndDrain_spec hC hA hk (fun g => g.grows_punctuateWallClock now) (fun _ => .punctuateWallClock now) hF

theorem flushCaches_spec (hC : PrefixClosed C) (hA : Producing C K A F) {kind : EmitKind}
    (hk : K kind) (hF : Fails C (.flushCaches kind) F F') :
    Spec C (A []) (flushCaches kind) (fun _ h s => A [] h s ∧ s.own.buffered = []) F' :=
  emitAndDrain_spec hC hA hk Graph.grows_flushCaches (fun _ => .flushCaches) hF

theorem pipeRecord_spec (hC : PrefixClosed C) (hA : Producing C K A F) (hk : K .records)
    (hpiped : ∀ h s topic partition offset, A [] h s →
      A [] (h ++ [.piped s.own.ref topic partition offset]) s)
    (tp : Topic × Int) (r : FetchedRec) :
    Spec C (A []) (pipeRecord tp r) (fun _ => A []) F := by
  refine Spec.seq hC (spec_log fun h s hs _ => hpiped h s _ _ _ hs) fun _ => ?_
  refine Spec.bind hC (runGraph_spec hA hk (fun g => g.grows_pipe _ _ _ _ _ _)
    fun _ => .pipe _ _ _ _ _ _) fun _ => ?_
  exact Spec.ghost (·.own) fun t => (sendOutput_spec hC hA t).post (fun _ _ _ h => h.1)
    fun _ _ _ h => h

end Steps

/-- The rules for an assertion `B` that `process_once` keeps between two partitions: the gate takes
it to the one that holds while records are produced, and empty buffers take that one back. -/
structure Processing (C : List Event → Prop) (gated : Bool) (B : Assn Event (TaskState E P M S V))
    (A : List ProducerRecord → Assn Event (TaskState E P M S V))
    (F : StreamsClientError → Assn Event (TaskState E P M S V)) : Prop where
  producing : Producing C (· = .records) A F
  passFailed : Fails C .punctuateStreamTime F F
  stepFailed : Fails C .processOnce F F
  gate : Spec C B (openGate gated) (fun _ => A []) F
  settle : ∀ h s, A [] h s → s.own.buffered = [] → B h s
  piped : ∀ h s topic partition offset, A [] h s →
    A [] (h ++ [.piped s.own.ref topic partition offset]) s
  fetched : ∀ h s topic partition offset, B h s →
    B (h ++ [.sourceFetched s.own.ref topic partition offset]) s
  answer : ∀ h t w env, B h ⟨t, w⟩ → B h ⟨t, { w with env := env }⟩
  refusal : ∀ e h t w env, B h ⟨t, w⟩ →
    F e (h ++ World.fencedEvent (.error e : Except StreamsClientError FetchBatch))
      ⟨t, { w with env := env }⟩
  moved : ∀ h t w positions pending, B h ⟨t, w⟩ →
    B h ⟨{ t with positions := positions, pending := pending }, w⟩

section Process

variable [LawfulProcessor P M S V] {gated : Bool}
  {B : Assn Event (TaskState E P M S V)}

theorem processRecords_spec (hC : PrefixClosed C) (hB : Processing C gated B A F)
    (tp : Topic × Int) (recs : List FetchedRec) :
    Spec C B (processRecords gated tp recs) (fun _ => B) F := by
  refine Spec.bind hC hB.gate fun _ => ?_
  refine Spec.seq hC (Spec.forM hC recs fun r _ =>
    pipeRecord_spec hC hB.producing rfl hB.piped tp r) fun _ => ?_
  refine Spec.seq hC (Spec.ghost (·.own) fun t =>
    (sendChangelogs_spec hC hB.producing t).post (fun _ _ _ h => h.1) fun _ _ _ h => h) fun _ => ?_
  exact (punctuateStreamTime_spec hC hB.producing rfl hB.passFailed).post (fun _ h s hs => hB.settle h s hs.1 hs.2)
    fun _ _ _ h => h

omit [LawfulStateStore S] [LawfulProcessor P M S V] in
theorem advance_spec (hB : Processing C gated B A F) (tp : Topic × Int) (offset : Int) :
    Spec C B (advance tp offset) (fun _ => B) F :=
  spec_update fun h s hs => hB.moved h s.own s.world _ _ hs

theorem processPartition_spec (hC : PrefixClosed C) (hB : Processing C gated B A F)
    (tp : Topic × Int) : Spec C B (processPartition gated tp) (fun _ => B) F := by
  refine spec_read fun t => ?_
  refine Spec.ite (fun _ => Spec.skip) fun _ => ?_
  refine Spec.seq hC (spec_log fun h s hs _ => hB.fetched h s _ _ _ hs) fun _ => ?_
  refine Spec.seq hC (Spec.onWorld fun own => World.spec_call
    (fun h w b env hs _ => hB.answer h own w env hs)
    fun h w e env hs _ => hB.refusal e h own w env hs) fun batch => ?_
  split
  · exact Spec.ite (fun _ => advance_spec hB tp _) fun _ => Spec.skip
  · exact Spec.bind hC (processRecords_spec hC hB tp _) fun _ => advance_spec hB tp _

theorem processOnce_spec (hC : PrefixClosed C) (hB : Processing C gated B A F) :
    Spec C B (processOnce gated) (fun _ => B) F := by
  refine spec_span hC (spec_current fun t => ?_) hB.stepFailed
  exact (Spec.forM hC _ fun tp _ => processPartition_spec hC hB tp).pre fun _ _ h => h.2

end Process

end Rules

end StreamTask

end KrabkaStreams
