import KrabkaStreams.Proofs.Logging

/-!
# Processing with the logging switch on

A restore that fails leaves the switch off, and `process_once` never moves it (`logsAll_processOnce`),
so a task logs what it processes while the last restore before it returned
(`logsWhenPiping_of_returned`).
-/

namespace KrabkaStreams

open Effect StateStore

variable {E P M S V : Type} [StateStore S V] {C : List Event → Prop}

theorem on_setLogging [SwitchedStore S] (g : Graph P M S V) : ∀ e ∈ (g.setLogging true).stores, On e.2 := by
  intro e he
  obtain ⟨e', -, rfl⟩ := List.mem_map.mp he
  exact SwitchedStore.setLogging_setLogging e'.2 true true

section Process

variable [Processor P M S V] {t : StreamTask P M S V} {r r' : StoreRegistry S}

omit [Processor P M S V] in
theorem StreamTask.LogsAll.rel (h : t.LogsAll r) (hrel : StoreRegistry.Rel (fun s s' => On s → On s') r r') : t.LogsAll r' := by
  intro name s₀ s hs₀ hon hs
  obtain ⟨e, he, hname, hstep⟩ := rel_mem hrel hs
  subst hname
  exact hstep (h e.1 s₀ e.2 hs₀ hon he)

variable [LoggingStore S] [LoggingProcessor P M S V]

theorem keepsStores_logs : Graph.KeepsStores (P := P) (M := M) t.LogsAll where
  init p m c h := h.rel (LoggingProcessor.init_stores p m c)
  process p m c rec o h ho := h.rel (LoggingProcessor.process_stores p m c rec o ho)
  punctuate p m c now h := h.rel (LoggingProcessor.punctuate_stores p m c now)
  flush _ _ s h hs := h.rel (.insert (fun _ => id) hs (LoggingStore.flush_on s))

omit [Processor P M S V] [LoggingProcessor P M S V] in
theorem logsAll_take (h : t.LogsAll r) : t.LogsAll (StoreRegistry.mapStores (fun s => (takeChangelogTs s).2) r) := by
  refine h.rel ?_
  unfold StoreRegistry.Rel StoreRegistry.mapStores
  rw [List.forall₂_map_right_iff]
  exact List.forall₂_same.mpr fun e _ => ⟨rfl, LoggingStore.take_on e.2⟩

theorem StreamTask.LogsAll.within {g g' : Graph P M S V} (h : g.Within g') (hg : t.LogsAll g.stores) :
    t.LogsAll g'.stores := by
  induction h with
  | here => exact hg
  | pipe topic partition offset key value timestamp _ ih =>
    exact keepsStores_logs.ran (.pipe topic partition offset key value timestamp) ih
  | takeOutput _ ih => exact ih
  | drainChangelogs reuse _ ih => exact logsAll_take ih
  | punctuateStreamTime streamTime _ ih => exact keepsStores_logs.ran (.punctuateStreamTime streamTime) ih

variable [Broker E]

theorem logsAll_processing (gated : Bool) :
    StreamTask.Processing C gated (fun _ (s : TaskState E P M S V) => t.LogsAll s.own.graph.stores)
      (fun _ _ s => t.LogsAll s.own.graph.stores) fun _ _ s => t.LogsAll s.own.graph.stores where
  producing :=
    { emit := fun _ _ _ _ _ _ _ hran hs _ => keepsStores_logs.ran hran hs
      takeOutput := fun _ _ _ hs => hs
      takeChangelogs := fun _ _ _ hs => logsAll_take hs
      sent := fun _ _ _ _ _ _ hs _ => hs
      unsent := fun _ _ _ _ _ _ _ hs _ => hs
      opError := fun _ _ _ hs => hs }
  passFailed _ _ _ hs _ := hs
  stepFailed _ _ _ hs _ := hs
  gate := Spec.ite (fun _ => Spec.own (N := fun t' : StreamTask P M S V => t.LogsAll t'.graph.stores)) fun _ => Spec.skip
  settle _ _ hs _ := hs
  piped _ _ _ _ _ hs := hs
  fetched _ _ _ _ _ hs := hs
  answer _ _ _ _ hs := hs
  refusal _ _ _ _ _ hs := hs
  moved _ _ _ _ _ hs := hs

end Process

section Restore

variable [Broker E] [SwitchedStore S] (hC : PrefixClosed C) {A : Assn Event (TaskState E P M S V)}

def AllOn : Assn Event (TaskState E P M S V) := fun _ s => ∀ e ∈ s.own.graph.stores, On e.2

abbrev Whatever : StreamsClientError → Assn Event (TaskState E P M S V) := fun _ _ _ => True

omit [StateStore S V] [Broker E] [SwitchedStore S] in
theorem whatever_fails (step : TaskStep) : StreamTask.Fails C step (Whatever (E := E) (P := P) (M := M) (S := S) (V := V)) Whatever :=
  fun _ _ _ _ _ => trivial

include hC

omit [Broker E] in
theorem switched_on {step : TaskStep} {m : String → TaskM E P M S V Unit} :
    Spec C A (StreamTask.span step do
      StreamTask.setLogging false
      let t ← StreamTask.current
      (StoreRegistry.names t.graph.stores).forM m
      StreamTask.setLogging true) (fun _ => AllOn) Whatever := by
  refine StreamTask.spec_span hC (Spec.bind hC Spec.anything fun _ => ?_) (whatever_fails step)
  refine StreamTask.spec_current fun t => Spec.bind hC Spec.anything fun _ => ?_
  exact StreamTask.spec_update fun h s _ => on_setLogging s.own.graph

theorem restore_on : Spec C A StreamTask.restore (fun _ => AllOn) Whatever := switched_on hC

theorem restoreStep_on : Spec C A StreamTask.restoreStep (fun _ => AllOn) Whatever := switched_on hC

theorem rollback_on : Spec C A StreamTask.rollback (fun _ => AllOn) Whatever := by
  refine StreamTask.spec_span hC (Spec.bind hC Spec.anything fun _ => ?_) (whatever_fails .rollback)
  exact Spec.bind hC Spec.anything fun _ => Spec.bind hC Spec.anything fun _ => restore_on hC

theorem restores_on [Processor P M S V] {c : WorkCall} (hc : c.restores = true) :
    Spec C A c.perform (fun _ => AllOn) Whatever := by
  rcases c with _ | _ | _ | gated
  · exact restore_on hC
  · exact restoreStep_on hC
  · exact rollback_on hC
  · cases hc

end Restore

section Runs

variable [Broker E] [Processor P M S V]

theorem after_snoc (pre : List WorkCall) (c : WorkCall) (s : TaskState E P M S V) :
    WorkCall.after (pre ++ [c]) s = c.perform.final (WorkCall.after pre s) := by
  unfold WorkCall.after
  rw [Eff.runAll_append]
  rfl

variable [SwitchedStore S] [LoggingStore S] [LoggingProcessor P M S V] [LawfulStateStore S] [LawfulProcessor P M S V]

theorem logsAll_after {s : TaskState E P M S V} (hnames : (StoreRegistry.names s.own.graph.stores).Nodup)
    (pre : List WorkCall) (h : WorkCall.LastRestoreReturned pre s) :
    s.own.LogsAll (WorkCall.after pre s).own.graph.stores := by
  have hC : PrefixClosed fun _ : List Event => True := fun _ _ _ => trivial
  induction pre using List.reverseRecOn with
  | nil =>
    intro name s₀ s' hs₀ hon hs'
    have h₀ : s.own.graph.stores.get? name = some s₀ := OrdMap.get?_of_mem hnames hs₀
    have h' : s.own.graph.stores.get? name = some s' := OrdMap.get?_of_mem hnames hs'
    rw [h₀] at h'
    exact Option.some.inj h' ▸ hon
  | append_singleton pre c ih =>
    rw [after_snoc]
    by_cases hc : c.restores = true
    · have hok := h pre c [] rfl hc fun c' hc' => absurd hc' List.not_mem_nil
      have hon := (restores_on (A := fun _ _ => True) hC hc).of_ok (w := []) trivial trivial hok
      exact fun name s₀ s' _ _ hs' => hon (name, s') hs'
    · rcases c with _ | _ | _ | gated
      · exact absurd rfl hc
      · exact absurd rfl hc
      · exact absurd rfl hc
      · -- A `process_once` does not move the switch, whatever its outcome.
        have ih := ih fun pre₁ c₁ post heq hc₁ hpost => h pre₁ c₁ (post ++ [.processOnce gated]) (by rw [heq]; simp) hc₁
          fun c' hc' => by
            rcases List.mem_append.mp hc' with hc' | hc'
            · exact hpost c' hc'
            · rw [List.mem_singleton.mp hc']
              rfl
        have hkeeps := StreamTask.processOnce_spec (E := E) hC (logsAll_processing (t := s.own) gated)
        exact Keeps.after (w := []) hkeeps ih trivial

/-- In every run of restoring calls and `process_once` calls, of which any may fail: if the last restoring call before
each `process_once` returned, every store that was built with logging on logs what is piped. -/
theorem logsWhenPiping_of_returned (calls : List WorkCall) (s : TaskState E P M S V)
    (hnames : (StoreRegistry.names s.own.graph.stores).Nodup)
    (hreturned : ∀ pre gated post, calls = pre ++ .processOnce gated :: post → WorkCall.LastRestoreReturned pre s) :
    LogsWhenPiping calls s := by
  intro pre gated post hcalls _ g hg
  exact (logsAll_after hnames pre (hreturned pre gated post hcalls)).within hg

end Runs

theorem KeyValueBytesStore.on_iff {A : Type} {s : KeyValueBytesStore A} : On s ↔ s.logging = true := by
  refine ⟨fun h => (congrArg KeyValueBytesStore.logging h).symm, fun h => ?_⟩
  cases s
  subst h
  rfl

theorem KeyValueBytesStore.logging_foldl_record {A : Type} (ds : List (Bytes × Option Bytes × Option Bytes × RecordContext))
    (s : KeyValueBytesStore A) : (ds.foldl (fun s d => s.record d.1 d.2.2.1) s).logging = s.logging := by
  induction ds generalizing s with
  | nil => rfl
  | cons d ds ih =>
    rw [List.foldl_cons, ih]
    unfold record
    split <;> rfl

instance {A : Type} : LoggingStore (KeyValueBytesStore A) where
  take_on s h := KeyValueBytesStore.on_iff.mpr (KeyValueBytesStore.on_iff (s := s).mp h)
  flush_on s h := by
    rw [KeyValueBytesStore.on_iff] at h ⊢
    show s.flushCacheInto.2.logging = true
    unfold KeyValueBytesStore.flushCacheInto
    split
    · exact h
    · dsimp only
      rw [KeyValueBytesStore.logging_foldl_record]
      exact h

instance : LoggingProcessor Relay Unit (KeyValueBytesStore Bytes) (Value Bytes) where
  init_stores p _ c := by
    cases p <;> exact .refl (fun _ => id) c.stores
  process_stores p _ c r o h := by
    cases p <;> cases h <;> exact .refl (fun _ => id) c.stores
  punctuate_stores _ _ c _ := .refl (fun _ => id) c.stores

/-! A relay beside a logged store, over a broker that refuses the first fetches of a changelog. -/

structure Outage where
  refusals : Nat

instance : Broker Outage where
  fetch e topic _ offset _ :=
    if topic = "in" then (.ok ⟨recordsFrom [⟨0, none, some [7], 0⟩] offset⟩, e)
    else match e.refusals with
      | 0 => (.ok ⟨[]⟩, e)
      | n + 1 => (.error (.transport 1), ⟨n⟩)
  partitions e _ := (.ok [0], e)
  committed e _ _ := (.ok none, e)
  earliest e _ _ := (.ok 0, e)
  latest e _ _ := (.ok 0, e)
  commit e _ := (.ok (), e)
  enqueue e _ := (.ok (), e)
  flushInner e := (.ok (), e)
  awaitDelivery e _ := (.ok (), e)
  initTransactions e := (.ok (), e)
  beginTransaction e := (.ok (), e)
  sendOffsets e _ := (.ok (), e)
  commitTransaction e := (.ok (), e)
  abortTransaction e := (.ok (), e)
  completeCutsAfter e _ _ := (.ok [], e)
  saveSnapshot e _ _ := (.ok (), e)
  nowMs e := (0, e)

def loggedTask : StreamTask Relay Unit (KeyValueBytesStore Bytes) (Value Bytes) :=
  .new "0" (relayGraph [.processorNode .forward, relaySink "out"] [[1], []] [relaySource "src" "in" [0]]
    [("counts", .inMemory "counts" bytesSerde bytesSerde "app-counts-changelog")] []) [⟨"in", 0⟩] .active .atLeastOnce

def loggedStart (refusals : Nat) : TaskState Outage Relay Unit (KeyValueBytesStore Bytes) (Value Bytes) :=
  ⟨loggedTask, .start ⟨refusals⟩ (.broker []) 4⟩

/-- A restore that fails, one that returns, and a `process_once`. -/
theorem logsWhenPiping_retried :
    LogsWhenPiping [.restore, .restoreStep, .processOnce false] (loggedStart 1) := by
  refine logsWhenPiping_of_returned _ _ (by decide) fun pre gated post hcalls => ?_
  obtain rfl : pre = [.restore, .restoreStep] := by
    rcases pre with _ | ⟨a, _ | ⟨b, _ | ⟨c, pre⟩⟩⟩ <;> simp at hcalls
    rw [hcalls.1, hcalls.2.1]
  intro pre₁ c post₁ hpre hc hpost
  rcases pre₁ with _ | ⟨a, _ | ⟨b, pre₁⟩⟩
  · cases hpre
    cases hpost .restoreStep List.mem_cons_self
  · cases hpre
    decide +kernel
  · simp at hpre

/-- After a restore that failed, a record is piped with the switch off. -/
theorem not_logsWhenPiping_refused : ¬ LogsWhenPiping [.restore, .processOnce false] (loggedStart 1) := by
  intro h
  have hlogs := h [.restore] false [] rfl ⟨⟨"0", 0, .active⟩, "in", 0, 0, by decide +kernel⟩ _ .here
  have hoff : ((WorkCall.after [.restore] (loggedStart 1)).own.graph.stores.get? "counts").map (·.logging) = some false := by
    decide +kernel
  rcases hs : (WorkCall.after [.restore] (loggedStart 1)).own.graph.stores.get? "counts" with _ | s
  · rw [hs] at hoff
    cases hoff
  · rw [hs] at hoff
    have hon := hlogs "counts" _ s List.mem_cons_self rfl (OrdMap.mem_of_get?_eq_some hs)
    rw [KeyValueBytesStore.on_iff] at hon
    rw [Option.map_some, hon] at hoff
    cases hoff

end KrabkaStreams
