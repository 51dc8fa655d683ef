import KrabkaStreams.Lib.Runs
import KrabkaStreams.Logging
import KrabkaStreams.Proofs.KeyValue
import KrabkaStreams.Proofs.Producing
import KrabkaStreams.Script

/-!
# Runs that touch no changelog

A store without a changelog that is `Mute` has nothing to drain, and every operation that does not
restore keeps it so (`keepsStores_mute`).
-/

namespace KrabkaStreams

open Effect StateStore

variable {E P M S V : Type} {α : Type}

section Untouched

theorem Untouched.snoc {h : List Event} {ev : Event} (hh : Untouched h) (hev : ¬ OnBehalf ev) :
    Untouched (h ++ [ev]) := by
  intro ev' hev'
  rcases List.mem_append.mp hev' with hev' | hev'
  · exact hh ev' hev'
  · rw [List.mem_singleton.mp hev']
    exact hev

theorem Untouched.fencedEvent {h : List Event} (hh : Untouched h) (r : Except StreamsClientError α) :
    Untouched (h ++ World.fencedEvent r) := by
  unfold World.fencedEvent
  rcases r with e | a
  · dsimp only
    split
    · exact hh.snoc id
    · rwa [List.append_nil]
  · rwa [List.append_nil]

end Untouched

section Mute

variable [StateStore S V] [Processor P M S V]

def Mute (P M : Type) [Processor P M S V] (name : String) (s : S) : Prop :=
  changelog s = [] ∧ (Off s ∨ (Spared P M S V name ∧ isDirty s = false))

def AllMute (P M : Type) [Processor P M S V] (r : StoreRegistry S) : Prop :=
  ∀ e ∈ r, changelogTopic e.2 = "" → Mute P M e.1 e.2

omit [Processor P M S V] in
theorem rel_mem {R : S → S → Prop} {r r' : StoreRegistry S} (h : StoreRegistry.Rel R r r') {e' : String × S}
    (he' : e' ∈ r') : ∃ e ∈ r, e'.1 = e.1 ∧ R e.2 e'.2 := by
  induction h with
  | nil => cases he'
  | @cons e₀ e₁ l l' hhead _ ih =>
    rcases List.mem_cons.mp he' with rfl | he'
    · exact ⟨e₀, List.mem_cons_self, hhead⟩
    · obtain ⟨e, he, hrel⟩ := ih he'
      exact ⟨e, List.mem_cons_of_mem _ he, hrel⟩

theorem AllMute.call {r r' : StoreRegistry S} (h : AllMute P M r) (hrel : StoreRegistry.Rel QuietStep r r')
    (hspared : ∀ name s, Spared P M S V name → (name, s) ∈ r' → (name, s) ∈ r) : AllMute P M r' := by
  intro e' he' htopic
  obtain ⟨e, he, hname, hstep⟩ := rel_mem hrel he'
  obtain ⟨hlog, hoff | ⟨hsp, -⟩⟩ := h e he (hstep.1.symm.trans htopic)
  · obtain ⟨hoff', hlog'⟩ := hstep.2 hoff
    exact ⟨hlog'.trans hlog, .inl hoff'⟩
  · exact h e' (hspared e'.1 e'.2 (hname ▸ hsp) he') htopic

theorem AllMute.map {f : S → S} {r : StoreRegistry S} (h : AllMute P M r)
    (htopic : ∀ s, changelogTopic (f s) = changelogTopic s) (hlog : ∀ s, changelog (f s) = [])
    (hoff : ∀ s, Off s → Off (f s)) (hdirty : ∀ s, isDirty s = false → isDirty (f s) = false) :
    AllMute P M (StoreRegistry.mapStores f r) := by
  intro e' he' ht
  obtain ⟨e, he, rfl⟩ := List.mem_map.mp he'
  obtain ⟨-, hoff' | ⟨hsp, hd⟩⟩ := h e he ((htopic e.2).symm.trans ht)
  · exact ⟨hlog e.2, .inl (hoff e.2 hoff')⟩
  · exact ⟨hlog e.2, .inr ⟨hsp, hdirty e.2 hd⟩⟩

variable [LawfulStateStore S] [QuietStore S]

theorem keepsStores_mute [QuietProcessor P M S V] : Graph.KeepsStores (P := P) (M := M) (AllMute (S := S) P M) where
  init p m c h := h.call (QuietProcessor.init_stores p m c) fun _ s hsp => hsp.init p m c s
  process p m c r o h ho := h.call (QuietProcessor.process_stores p m c r o ho) fun _ s hsp => hsp.process p m c r o s ho
  punctuate p m c t h := h.call (QuietProcessor.punctuate_stores p m c t) fun _ s hsp => hsp.punctuate p m c t s
  flush r name s h hs := by
    intro e he htopic
    rcases OrdMap.mem_insert he with rfl | he
    · have hmem := OrdMap.mem_of_get?_eq_some hs
      have hstep := QuietStore.flush s
      obtain ⟨hlog, hoff | ⟨hsp, hclean⟩⟩ := h (name, s) hmem (hstep.1.symm.trans htopic)
      · obtain ⟨hoff', hlog'⟩ := hstep.2 hoff
        exact ⟨hlog'.trans hlog, .inl hoff'⟩
      · rw [LawfulStateStore.flush_clean s hclean] at htopic ⊢
        exact h (name, s) hmem htopic
    · exact h e he htopic

theorem AllMute.restoreStores (snapshot : TaskSnapshot) : ∀ {r : StoreRegistry S}, AllMute P M r →
    AllMute P M (restoreStores snapshot r).2
  | [], h => h
  | (name, s) :: r, h => by
    have htail : AllMute P M r := fun e he => h e (List.mem_cons_of_mem _ he)
    have hcons : ∀ {s' : S}, changelogTopic s' = changelogTopic s → changelog s' = [] → isDirty s' = false →
        (Off s → Off s') → AllMute P M ((name, s') :: (KrabkaStreams.restoreStores snapshot r).2) := by
      intro s' htopic hlog hdirty hoff e he ht
      rcases List.mem_cons.mp he with rfl | he
      · obtain ⟨-, hoff' | ⟨hsp, -⟩⟩ := h (name, s) List.mem_cons_self (htopic.symm.trans ht)
        · exact ⟨hlog, .inl (hoff hoff')⟩
        · exact ⟨hlog, .inr ⟨hsp, hdirty⟩⟩
      · exact htail.restoreStores snapshot e he ht
    unfold KrabkaStreams.restoreStores
    rcases snapshot.get? name with _ | data
    · exact hcons (LawfulStateStore.topic_clear s) (LawfulStateStore.changelog_clear s) (LawfulStateStore.dirty_clear s)
        (QuietStore.clear_off s)
    · rcases hr : restoreSnapshot s data with e | s'
      · simp only [hr]
        exact h
      · obtain ⟨htopic, hlog, hdirty, hoff⟩ := QuietStore.restored s s' data hr
        simp only [hr]
        exact hcons htopic hlog hdirty hoff

end Mute

section Task

variable [StateStore S V] [Processor P M S V] {C : List Event → Prop}

/-- The task touched no changelog it has not, and its stores without one are mute. -/
def Unlogged : Assn Event (TaskState E P M S V) := fun h s => Untouched h ∧ AllMute P M s.own.graph.stores

def Sending (l : List ProducerRecord) : Assn Event (TaskState E P M S V) :=
  fun h s => Unlogged h s ∧ ∀ r ∈ l, ¬ (r.topic = "" ∧ r.partition.isSome)

theorem Unlogged.note {h : List Event} {s : TaskState E P M S V} (hs : Unlogged h s) {ev : Event} (hev : ¬ OnBehalf ev) :
    Unlogged (h ++ [ev]) s :=
  ⟨hs.1.snoc hev, hs.2⟩

theorem Unlogged.refusal {h : List Event} {t : StreamTask P M S V} {w : World E} (hs : Unlogged h ⟨t, w⟩)
    (r : Except StreamsClientError α) (w' : World E) : Unlogged (h ++ World.fencedEvent r) ⟨t, w'⟩ :=
  ⟨hs.1.fencedEvent r, hs.2⟩

theorem AllMute.drained {r : StoreRegistry S} (h : AllMute P M r) (reuse : List Topic) (partition : Int) :
    ∀ x ∈ (r.flatMap fun e => Graph.changelogRecords reuse e.2).map (pinnedRecord partition),
      ¬ (x.topic = "" ∧ x.partition.isSome) := by
  rintro x hx ⟨htopic, -⟩
  obtain ⟨c, hc, rfl⟩ := List.mem_map.mp hx
  obtain ⟨e, he, hc⟩ := List.mem_flatMap.mp hc
  unfold Graph.changelogRecords at hc
  split at hc
  · cases hc
  · obtain ⟨entry, hentry, rfl⟩ := List.mem_map.mp hc
    rw [(h e he htopic).1] at hentry
    cases hentry

variable [LawfulStateStore S] [QuietStore S] [QuietProcessor P M S V]

theorem sending_producing {K : EmitKind → Prop} :
    StreamTask.Producing C K (Sending (E := E) (P := P) (M := M) (S := S)) fun _ => Unlogged where
  emit _ _ _ _ _ _ _ hran hs _ := ⟨⟨hs.1.1.snoc id, keepsStores_mute.ran hran hs.1.2⟩, hs.2⟩
  takeOutput _ _ _ hs := by
    refine ⟨hs.1, fun r hr hbad => ?_⟩
    obtain ⟨out, -, rfl⟩ := List.mem_map.mp hr
    exact Bool.false_ne_true hbad.2
  takeChangelogs _ t _ hs := by
    refine ⟨⟨hs.1.1, ?_⟩, hs.1.2.drained t.sourceTopics t.partition⟩
    exact hs.1.2.map LawfulStateStore.topic_take LawfulStateStore.changelog_take QuietStore.take_off
      fun s hd => (LawfulStateStore.dirty_take s).trans hd
  sent r l _ _ _ _ hs _ :=
    ⟨⟨hs.1.1.snoc (hs.2 r List.mem_cons_self), hs.1.2⟩, fun r' hr' => hs.2 r' (List.mem_cons_of_mem r hr')⟩
  unsent r l _ _ _ _ e hs _ := by
    rw [← List.append_assoc]
    exact ⟨(hs.1.1.fencedEvent _).snoc (hs.2 r List.mem_cons_self), hs.1.2⟩
  opError _ _ _ hs := hs.1

omit [LawfulStateStore S] [QuietStore S] [QuietProcessor P M S V] in
theorem unlogged_fails (step : TaskStep) :
    StreamTask.Fails C step (fun _ => Unlogged (E := E) (P := P) (M := M) (S := S)) fun _ => Unlogged :=
  fun _ _ _ hs _ => hs.note id

variable [Broker E]

section World

omit [LawfulStateStore S] [QuietStore S] [QuietProcessor P M S V] [Broker E]

theorem untouched_call (op : E → Except StreamsClientError α × E) :
    Keeps C (fun h (_ : World E) => Untouched h) (World.call op) :=
  World.spec_call (fun _ _ _ _ hw _ => hw) fun _ _ _ _ hw _ => hw.fencedEvent _

theorem unlogged_onWorld {m : WorldM E α} (hm : Keeps C (fun h _ => Untouched h) m) :
    Keeps C (Unlogged (E := E) (P := P) (M := M) (S := S)) m.onWorld :=
  Spec.frame (N := fun t : StreamTask P M S V => AllMute P M t.graph.stores) hm

theorem unlogged_update {f : StreamTask P M S V → StreamTask P M S V} (hf : ∀ t, (f t).graph.stores = t.graph.stores) :
    Keeps C (Unlogged (E := E) (P := P) (M := M) (S := S)) (StreamTask.update f) :=
  StreamTask.spec_update fun _ s hs => ⟨hs.1, by
    rw [hf]
    exact hs.2⟩

variable [Broker E] (hC : PrefixClosed C)

include hC

theorem untouched_flush : Keeps C (fun h (_ : World E) => Untouched h) World.flush :=
  World.flush_spec hC (fun op => untouched_call op) (fun _ _ _ _ hw => hw.snoc id) (fun _ _ hw => hw)
    fun _ _ _ hw => hw.snoc id

theorem untouched_ensureBegun : Keeps C (fun h (_ : World E) => Untouched h) World.ensureBegun :=
  World.ensureBegun_spec hC (fun _ _ _ hw => hw.snoc id) fun _ _ _ _ hw => by
    rw [← List.append_assoc]
    exact (hw.fencedEvent _).snoc id

theorem unlogged_seekToStart : Keeps C (Unlogged (E := E) (P := P) (M := M) (S := S)) StreamTask.seekToStart := by
  refine StreamTask.spec_span hC (StreamTask.spec_current fun t => ?_) (unlogged_fails _)
  refine (Spec.forM hC _ fun tp _ => ?_).pre fun _ _ hs => hs.2
  refine Spec.bind hC (unlogged_onWorld (untouched_call _)) fun found => ?_
  rcases found with _ | o
  · exact Spec.bind hC (unlogged_onWorld (untouched_call _)) fun _ => unlogged_update fun _ => rfl
  · exact unlogged_update fun _ => rfl

theorem unlogged_commitPending : Keeps C (Unlogged (E := E) (P := P) (M := M) (S := S)) StreamTask.commitPending := by
  refine StreamTask.spec_read fun t => ?_
  refine Spec.ite (fun _ => Spec.skip) fun _ => Spec.bind hC ?_ fun _ =>
    Spec.bind hC (unlogged_update fun _ => rfl) fun _ => Spec.skip
  refine Spec.seq hC (Spec.attempt (unlogged_onWorld (untouched_call _))) fun r => ?_
  rcases r with e | u
  · exact Spec.bind hC (StreamTask.spec_log (Q := fun _ => Unlogged) fun _ _ hs _ => hs.note id) fun _ =>
      Spec.throw fun _ _ hs => hs
  · exact StreamTask.spec_log fun _ _ hs _ => hs.note id

omit [Broker E] in
theorem unlogged_restoreToCut [LawfulStateStore S] [QuietStore S] (cut : BarrierCut) (snapshot : TaskSnapshot) :
    Keeps C (Unlogged (E := E) (P := P) (M := M) (S := S)) (StreamTask.restoreToCut cut snapshot) := by
  refine Spec.bind hC (unlogged_update fun _ => rfl) fun _ => StreamTask.spec_current fun t => ?_
  refine Spec.bind hC (R := fun _ => Unlogged) (StreamTask.spec_update fun _ s hs => ⟨hs.2.1, ?_⟩) fun _ => ?_
  · obtain ⟨rfl, -, hmute⟩ := hs
    exact hmute.restoreStores snapshot
  · rcases (t.graph.restoreStoreSnapshots snapshot).1 with e | u
    · exact Spec.throw fun _ _ hs => hs
    · refine Spec.forM hC _ fun tp _ => ?_
      unfold StreamTask.seekToMarker
      rcases cut.offset tp.1 tp.2 with _ | offset
      · exact Spec.skip
      · exact unlogged_update fun _ => rfl

end World

section Steps

variable (hC : PrefixClosed C)

omit [Broker E] in
theorem unlogged_init : Keeps C (Unlogged (E := E) (P := P) (M := M) (S := S)) StreamTask.init := by
  rintro h ⟨t, w⟩ hs -
  unfold StreamTask.init
  rw [StreamTask.runGraph_cases]
  exact ⟨hs.1.snoc id, keepsStores_mute.initProcessors hs.2⟩

omit [Broker E] [LawfulStateStore S] [QuietStore S] [QuietProcessor P M S V] in
theorem Sending.keeps {m : TaskM E P M S V α} {Q : α → Assn Event (TaskState E P M S V)}
    (hm : Spec C (Sending (E := E) []) m (fun a h s => Sending [] h s ∧ Q a h s) fun _ => Unlogged) :
    Keeps C (Unlogged (E := E) (P := P) (M := M) (S := S)) m :=
  hm.mono (fun _ _ hs => ⟨hs, fun _ hr => absurd hr List.not_mem_nil⟩) (fun _ _ _ hs => hs.1.1) fun _ _ _ hs => hs

include hC

omit [LawfulStateStore S] [QuietStore S] [QuietProcessor P M S V] in
theorem unlogged_openGate (gated : Bool) :
    Keeps C (Unlogged (E := E) (P := P) (M := M) (S := S)) (StreamTask.openGate gated) :=
  Spec.ite (fun _ => unlogged_onWorld (untouched_ensureBegun hC)) fun _ => Spec.skip

theorem sending_processing (gated : Bool) :
    StreamTask.Processing C gated (Unlogged (E := E) (P := P) (M := M) (S := S)) Sending fun _ => Unlogged where
  producing := sending_producing
  passFailed := unlogged_fails _
  stepFailed := unlogged_fails _
  gate := (unlogged_openGate hC gated).post (fun _ _ _ hs => ⟨hs, fun _ hr => absurd hr List.not_mem_nil⟩)
    fun _ _ _ hs => hs
  settle _ _ hs _ := hs.1
  piped _ _ _ _ _ hs := ⟨hs.1.note id, hs.2⟩
  fetched _ _ _ _ _ hs := hs.note id
  answer _ _ _ _ hs := hs
  refusal _ _ _ _ _ hs := hs.refusal _ _
  moved _ _ _ _ _ hs := hs

variable [LawfulProcessor P M S V]

theorem unlogged_flushCaches (kind : EmitKind) :
    Keeps C (Unlogged (E := E) (P := P) (M := M) (S := S)) (StreamTask.flushCaches kind) :=
  Sending.keeps (StreamTask.flushCaches_spec hC (sending_producing (K := fun _ => True)) trivial (unlogged_fails _))

theorem unlogged_perform : ∀ op : TaskOp, op.restores = false →
    Keeps C (Unlogged (E := E) (P := P) (M := M) (S := S)) op.perform
  | .init, _ => unlogged_init
  | .processOnce gated, _ => StreamTask.processOnce_spec hC (sending_processing hC gated)
  | .punctuateStreamTime, _ =>
    Sending.keeps (StreamTask.punctuateStreamTime_spec hC (sending_producing (K := fun _ => True)) trivial (unlogged_fails _))
  | .punctuateWallClock now, _ =>
    Sending.keeps (StreamTask.punctuateWallClock_spec hC (sending_producing (K := fun _ => True)) trivial (unlogged_fails _) now)
  | .flushCaches kind, _ => unlogged_flushCaches hC kind
  | .commit, _ => by
    refine StreamTask.spec_span hC (Spec.bind hC (unlogged_flushCaches hC .close) fun _ => ?_) (unlogged_fails _)
    refine Spec.bind hC (unlogged_onWorld (untouched_flush hC)) fun _ => ?_
    exact Spec.bind hC (unlogged_commitPending hC) fun _ => Spec.skip
  | .seekToStart, _ => unlogged_seekToStart hC
  | .snapshotAtBarrier, _ => by
    refine Spec.seq hC (StreamTask.spec_span hC ?_ (unlogged_fails _)) fun _ =>
      Spec.skip
    refine Spec.bind hC (unlogged_flushCaches hC .flush) fun _ => ?_
    refine Spec.bind hC (unlogged_onWorld (untouched_flush hC)) fun _ => ?_
    exact StreamTask.spec_read fun t => Spec.skip
  | .restoreToCut cut snapshot, _ => unlogged_restoreToCut hC cut snapshot
  | .closeProcessors, _ =>
    Spec.seq hC (Spec.attempt (unlogged_flushCaches hC .close)) fun _ => unlogged_update fun _ => rfl

end Steps

end Task

section Runs

variable [StateStore S V] [LawfulStateStore S]

namespace BuiltTopology

def StoreFresh (r : StoreRegistry S) : Prop := ∀ e ∈ r, changelog e.2 = [] ∧ isDirty e.2 = false

theorem storeFresh_wireCache (b : BuiltTopology P M S V) (specs : List Node)
    {acc : StoreRegistry S × OrdMap String Nat} (h : StoreFresh acc.1) (store : String) :
    StoreFresh (b.wireCache specs acc store).1 := by
  unfold wireCache
  split
  · rename_i idx s _ hs
    rcases hc : enableCache s with _ | s'
    · exact h
    · intro e he
      rcases OrdMap.mem_insert he with rfl | he
      · obtain ⟨hlog, -, hdirty⟩ := LawfulStateStore.enableCache_fresh s s' hc
        obtain ⟨hlog₀, hdirty₀⟩ := h (store, s) (OrdMap.mem_of_get?_eq_some hs)
        exact ⟨hlog.trans hlog₀, hdirty.trans hdirty₀⟩
      · exact h e he
  · exact h

theorem storeFresh_instantiate {b : BuiltTopology P M S V} {app : String} {cache : Nat} {g : Graph P M S V}
    (hg : b.instantiate app cache = .ok g) : StoreFresh g.stores := by
  obtain ⟨nodes, -, hg⟩ := Runs.bind_eq_ok.mp hg
  cases hg
  have hmade : StoreFresh (b.storeRegistry app none) := by
    intro e he
    obtain ⟨entry, -, rfl⟩ := List.mem_map.mp he
    exact ⟨entry.2.2.changelog_make _ _, entry.2.2.dirty_make _ _⟩
  unfold wireRecordCaches
  split
  · exact hmade
  · refine List.foldlRecOn (motive := fun acc => StoreFresh acc.1) b.cachingStores (b.wireCache (b.nonSource none)) ?_
      fun acc h store _ => b.storeFresh_wireCache (b.nonSource none) h store
    exact hmade

end BuiltTopology

variable [Processor P M S V] [LawfulProcessor P M S V] [QuietStore S] [QuietProcessor P M S V] [Broker E]

theorem unlogged_run : ∀ (ops : List TaskOp), (∀ op ∈ ops, op.restores = false) →
    ∀ (h : List Event) (s : TaskState E P M S V), Unlogged h s →
      Unlogged (h ++ (Eff.runAll TaskOp.perform ops s).2) (Eff.runAll TaskOp.perform ops s).1
  | [], _, h, s, hs => by simpa [Eff.runAll] using hs
  | op :: ops, hops, h, s, hs => by
    simp only [Eff.runAll, ← List.append_assoc]
    have hstep := (unlogged_perform (C := fun _ => True) (fun _ _ _ => trivial) op
      (hops op List.mem_cons_self)).after hs trivial
    exact unlogged_run ops (fun op' hop' => hops op' (List.mem_cons_of_mem op hop')) _ _ hstep

/-- A task whose stores without a changelog are switched off, or that no processor writes, touches no changelog
for them as long as nothing restores it. -/
theorem untouched_of_switchedOff (topology : BuiltTopology P M S V) (app : String) (cache : Nat) (g : Graph P M S V)
    (hg : topology.instantiate app cache = .ok g) (globals : StoreRegistry S) (sub : String)
    (sources : List TopicPartition) (role : TaskRole) (guarantee : ProcessingGuarantee)
    (hoff : SwitchedOff (StreamTask.new sub { g with globals := globals } sources role guarantee))
    (ops : List TaskOp) (hops : ∀ op ∈ ops, op.restores = false) (w : World E) :
    Untouched (Eff.runAll TaskOp.perform ops
      (⟨StreamTask.new sub { g with globals := globals } sources role guarantee, w⟩ : TaskState E P M S V)).2 := by
  refine (unlogged_run ops hops [] _ ⟨fun _ hev => absurd hev List.not_mem_nil, fun e he htopic => ?_⟩).1
  obtain ⟨hlog, hclean⟩ := BuiltTopology.storeFresh_instantiate hg e he
  exact ⟨hlog, (hoff e he htopic).imp id fun hsp => ⟨hsp, hclean⟩⟩

end Runs

theorem Backing.isDirty_restore {b b' : Backing} {data : Bytes} (h : b.restore data = .ok b') : b'.isDirty = false := by
  obtain ⟨entries, -, hb'⟩ := Runs.bind_eq_ok.mp h
  cases hb'
  exact List.foldlRecOn (motive := fun b : Backing => b.isDirty = false) entries _ b.isDirty_clear
    fun b hb e _ => (Backing.isDirty_apply b e.1 (some e.2)).trans hb

namespace KeyValueBytesStore

variable {A : Type}

theorem off_iff {s : KeyValueBytesStore A} : Off s ↔ s.logging = false := by
  refine ⟨fun h => ?_, fun h => ?_⟩
  · exact (congrArg KeyValueBytesStore.logging h).symm
  · cases s
    subst h
    rfl

theorem foldl_record_of_off {s : KeyValueBytesStore A} (h : s.logging = false) :
    ∀ ds : List (Bytes × Option Bytes × Option Bytes × RecordContext), ds.foldl (fun s d => s.record d.1 d.2.2.1) s = s
  | [] => rfl
  | d :: ds => by
    have hd : s.record d.1 d.2.2.1 = s := by simp [record, h]
    rw [List.foldl_cons, hd]
    exact foldl_record_of_off h ds

theorem flush_quiet (s : KeyValueBytesStore A) : QuietStep s (flushCacheInto s).2 := by
  refine ⟨s.flushCacheInto_spec.1, fun hoff => ?_⟩
  rw [off_iff] at hoff ⊢
  rw [changelog_keyValue, changelog_keyValue]
  unfold flushCacheInto
  split
  · exact ⟨hoff, rfl⟩
  · rename_i c hb
    dsimp only
    rw [foldl_record_of_off (s := { s with backing := .cached c.flushWithOld.2 }) hoff]
    exact ⟨hoff, rfl⟩

end KeyValueBytesStore

instance {A : Type} : QuietStore (KeyValueBytesStore A) where
  flush s := s.flush_quiet
  take_off s h := KeyValueBytesStore.off_iff.mpr (KeyValueBytesStore.off_iff (s := s).mp h)
  clear_off s h := KeyValueBytesStore.off_iff.mpr (KeyValueBytesStore.off_iff (s := s).mp h)
  restored s s' data h := by
    obtain ⟨backing, hb, hs'⟩ := Runs.bind_eq_ok.mp h
    cases hs'
    refine ⟨rfl, rfl, Backing.isDirty_restore hb, fun hoff => ?_⟩
    exact KeyValueBytesStore.off_iff.mpr (KeyValueBytesStore.off_iff (s := s).mp hoff)

instance : QuietProcessor Relay Unit (KeyValueBytesStore Bytes) (Value Bytes) where
  init_stores p _ c := by
    cases p <;> exact .refl (fun _ => ⟨rfl, fun h => ⟨h, rfl⟩⟩) c.stores
  process_stores p _ c r o h := by
    cases p <;> cases h <;> exact .refl (fun _ => ⟨rfl, fun h => ⟨h, rfl⟩⟩) c.stores
  punctuate_stores _ _ c _ := .refl (fun _ => ⟨rfl, fun h => ⟨h, rfl⟩⟩) c.stores

/-! A key-value store without a changelog beside a relay, which leaves it alone. -/

def uncountedFactory : StoreFactory (KeyValueBytesStore Bytes) where
  make name _ := .inMemory name bytesSerde bytesSerde ""
  changelog_make _ _ := rfl
  dirty_make _ _ := rfl

def uncountedTopology : Topology Relay Unit (KeyValueBytesStore Bytes) (Value Bytes) :=
  (relayTopology .forward).addStateStoreNoChangelog "counts" uncountedFactory

def uncountedGraph : Graph Relay Unit (KeyValueBytesStore Bytes) (Value Bytes) :=
  relayGraph [.processorNode .forward, relaySink "out"] [[1], []] [relaySource "src" "in" [0]]
    [("counts", .inMemory "counts" bytesSerde bytesSerde "")] []

def uncountedTask : StreamTask Relay Unit (KeyValueBytesStore Bytes) (Value Bytes) :=
  .new "0" { uncountedGraph with globals := [] } [⟨"in", 0⟩] .active .atLeastOnce

def oneRecordWorld : World Script :=
  (⟨[("in", [⟨0, none, some [7], 0⟩])], [], 0, [], [], []⟩ : Script).world (.broker [])

theorem relay_spares (name : String) : Spared Relay Unit (KeyValueBytesStore Bytes) (Value Bytes) name where
  init p _ _ _ h := by cases p <;> exact h
  process p _ _ _ _ _ ho h := by cases p <;> cases ho <;> exact h
  punctuate _ _ _ _ _ h := h

theorem untouched_uncounted : ∃ built, uncountedTopology.build = .ok built ∧
    built.instantiate "app" 0 = .ok uncountedGraph ∧
    Untouched (Eff.runAll TaskOp.perform [.init, .seekToStart, .processOnce false, .commit]
      (⟨uncountedTask, oneRecordWorld⟩ : TaskState Script Relay Unit (KeyValueBytesStore Bytes) (Value Bytes))).2 := by
  obtain ⟨built, hbuild, hg⟩ : ∃ built, uncountedTopology.build = .ok built ∧
      built.instantiate "app" 0 = .ok uncountedGraph := ⟨_, rfl, rfl⟩
  refine ⟨built, hbuild, hg, ?_⟩
  exact untouched_of_switchedOff built "app" 0 uncountedGraph hg [] "0" [⟨"in", 0⟩] .active .atLeastOnce
    (fun e _ _ => .inr (relay_spares e.1)) _ (by decide) oneRecordWorld

/-- The first restore of the task fetches from the empty topic. -/
theorem not_untouched_restore : ¬ Untouched (Eff.runAll TaskOp.perform [.restore]
    (⟨uncountedTask, oneRecordWorld⟩ : TaskState Script Relay Unit (KeyValueBytesStore Bytes) (Value Bytes))).2 := by
  decide +kernel

end KrabkaStreams
