import KrabkaStreams.Proofs.TaskRules
import KrabkaStreams.Recovery

/-!
# The methods that only replay

Seeking, restoring and the rollback are sequences of `Replay` steps, so an assertion that each step and
the answers of the environment keep is kept by them (`Quiet`).
-/

namespace KrabkaStreams

open Effect StateStore

variable {E P M S V : Type} {recs : List FetchedRec}

theorem offsetAfter_append (offset : Int) (recs recs' : List FetchedRec) :
    offsetAfter offset (recs ++ recs') = offsetAfter (offsetAfter offset recs) recs' :=
  List.foldl_append

theorem le_offsetAfter : ∀ (recs : List FetchedRec) (offset : Int), offset ≤ offsetAfter offset recs
  | [], _ => Int.le_refl _
  | r :: recs, offset => by
    have h := le_offsetAfter recs (max offset (r.offset + 1))
    have hr : offsetAfter offset (r :: recs) = offsetAfter (max offset (r.offset + 1)) recs := rfl
    omega

theorem lt_offsetAfter_of_mem : ∀ {recs : List FetchedRec} {r : FetchedRec} (offset : Int),
    r ∈ recs → r.offset < offsetAfter offset recs
  | r' :: recs, r, offset, h => by
    have hr : offsetAfter offset (r' :: recs) = offsetAfter (max offset (r'.offset + 1)) recs := rfl
    rcases List.mem_cons.mp h with h | h
    · subst h
      have := le_offsetAfter recs (max offset (r.offset + 1))
      omega
    · rw [hr]
      exact lt_offsetAfter_of_mem _ h

theorem ReadFrom.snoc [Broker E] {topic : Topic} {partition : Int} {level : IsolationLevel} {offset : Int}
    (h : ReadFrom E topic partition level offset recs) (env : E) {b : FetchBatch}
    (hb : (Broker.fetch env topic partition (offsetAfter offset recs) level).1 = .ok b) :
    ReadFrom E topic partition level offset (recs ++ b.records) := by
  induction h with
  | nil offset =>
    have hread := ReadFrom.batch (E := E) env hb (.nil _)
    rwa [List.append_nil] at hread
  | batch env' hb' _ ih =>
    rw [offsetAfter_append] at hb
    rw [List.append_assoc]
    exact .batch env' hb' (ih hb)

variable [StateStore S V]

namespace StreamTask

theorem modify_applyAll_nil (r : StoreRegistry S) (name : String) :
    (OrdMap.modify r name fun s => applyAll s []) = r := by
  induction r with
  | nil => rfl
  | cons e r ih =>
    obtain ⟨n, s⟩ := e
    by_cases h : n = name
    · simp [OrdMap.modify, h]
    · simp only [OrdMap.modify, if_neg h, ih]

theorem modify_applyAll_append (r : StoreRegistry S) (name : String) (xs ys : List FetchedRec) :
    (OrdMap.modify r name fun s => applyAll s (xs ++ ys))
      = OrdMap.modify (OrdMap.modify r name fun s => applyAll s xs) name fun s => applyAll s ys := by
  induction r with
  | nil => rfl
  | cons e r ih =>
    obtain ⟨n, s⟩ := e
    by_cases h : n = name
    · simp [OrdMap.modify, h, applyAll_append]
    · simp [OrdMap.modify, h, ih]

theorem applied_nil (name : String) (t : StreamTask P M S V) : t.applied name [] = t := by
  unfold applied
  rw [modify_applyAll_nil]
  rfl

theorem applied_append (name : String) (xs ys : List FetchedRec) (t : StreamTask P M S V) :
    t.applied name (xs ++ ys) = (t.applied name xs).applied name ys := by
  unfold applied
  rw [modify_applyAll_append]
  rfl

theorem applyBatch_eq (name : String) (w : World E) :
    ∀ (recs : List FetchedRec) (offset : Int) (t : StreamTask P M S V),
      applyBatch name offset recs ⟨t, w⟩
        = (.ok (offsetAfter offset recs), ⟨t.applied name recs, w⟩, [])
  | [], offset, t => by
    rw [applied_nil]
    rfl
  | r :: recs, offset, t => by
    have hrest := applyBatch_eq name w recs (max offset (r.offset + 1)) (t.applied name [r])
    rw [← applied_append] at hrest
    show (applyBatch name _ recs ⟨t.applied name [r], w⟩) = _
    rw [hrest]
    rfl

omit [StateStore S V] in
theorem savedOffset_withOffset (t : StreamTask P M S V) (topic : Topic) (offset : Int) :
    (t.withOffset topic offset).savedOffset topic = offset := by
  simp [savedOffset, withOffset]

variable [Broker E]

def replaySteps : List TaskStep := [.restore, .restoreStep, .seekToStart, .computeChangelogOffsets]

/-- The rules for an assertion `B` that replaying keeps; `F` holds after an error. -/
structure Quiet (B : Assn Event (TaskState E P M S V))
    (F : StreamsClientError → Assn Event (TaskState E P M S V)) : Prop where
  answer : ∀ h t w env, B h ⟨t, w⟩ → B h ⟨t, { w with env := env }⟩
  refusal : ∀ e h t w env, B h ⟨t, w⟩ →
    F e (h ++ World.fencedEvent (.error e : Except StreamsClientError Unit)) ⟨t, { w with env := env }⟩
  exhausted : ∀ h s, B h s → F .outOfBudget h s
  fetched : ∀ h s topic partition offset, B h s →
    B (h ++ [.changelogFetched s.own.ref topic partition offset]) s
  failed : ∀ e h s step, step ∈ replaySteps → F e h s → F e (h ++ [.failed s.own.ref step]) s
  replay : ∀ h t t' w, Replay E t t' → B h ⟨t, w⟩ → B h ⟨t', w⟩

namespace Quiet

variable {C : List Event → Prop} {B : Assn Event (TaskState E P M S V)}
  {F : StreamsClientError → Assn Event (TaskState E P M S V)}

theorem update_spec (hB : Quiet B F) {f : StreamTask P M S V → StreamTask P M S V}
    (hf : ∀ t, Replay E t (f t)) : Spec C B (update f) (fun _ => B) F :=
  spec_update fun h s hs => hB.replay h s.own _ s.world (hf s.own) hs

theorem call_spec {α : Type} (hB : Quiet B F) (op : E → Except StreamsClientError α × E) :
    Spec C B ((World.call op).onWorld) (fun _ => B) F :=
  Spec.onWorld fun t => World.spec_call (fun h w _ env hs _ => hB.answer h t w env hs)
    fun h w e env hs _ => hB.refusal e h t w env hs

theorem span_spec {α : Type} (hC : PrefixClosed C) (hB : Quiet B F) {step : TaskStep}
    (hstep : step ∈ replaySteps) {m : TaskM E P M S V α} {Q : α → Assn Event (TaskState E P M S V)}
    (hm : Spec C B m Q F) : Spec C B (span step m) Q F :=
  spec_span hC hm fun e h s hs _ => hB.failed e h s step hstep hs

theorem overStores_spec (hC : PrefixClosed C) (hB : Quiet B F) {step : TaskStep}
    (hstep : step ∈ replaySteps) {m : String → TaskM E P M S V Unit}
    (hm : ∀ name, Spec C B (m name) (fun _ => B) F) :
    Spec C B (span step do
      setLogging false
      let t ← current
      (StoreRegistry.names t.graph.stores).forM m
      setLogging true) (fun _ => B) F := by
  refine hB.span_spec hC hstep (Spec.bind hC (hB.update_spec fun t => .logging t _) fun _ =>
    spec_current fun t => Spec.bind hC ?_ fun _ => hB.update_spec fun t => .logging t _)
  exact (Spec.forM hC _ fun name _ => hm name).pre fun _ _ h => h.2

/-- While the changelog of the store `name` is read: the task stood at `t` before, and `recs` were
applied since. -/
def Reading (B : Assn Event (TaskState E P M S V)) (t : StreamTask P M S V) (name : String)
    (recs : List FetchedRec) : Assn Event (TaskState E P M S V) :=
  fun h s => (B h ⟨t, s.world⟩ ∧ t.Reads E name recs) ∧ s.own = t.applied name recs

theorem Reading.interrupted (hB : Quiet B F) {t : StreamTask P M S V} {name : String} {h : List Event}
    {s : TaskState E P M S V} (hs : Reading B t name recs h s) : B h s := by
  obtain ⟨own, w⟩ := s
  obtain ⟨⟨hb, hread⟩, rfl⟩ := hs
  exact hB.replay h t _ w (.interrupted t hread) hb

section Methods

variable (hC : PrefixClosed C) (hB : Quiet B F) (name : String) (t : StreamTask P M S V) (name : String)

include hC hB

theorem seekPartition_spec (tp : Topic × Int) : Spec C B (seekPartition tp) (fun _ => B) F := by
  refine Spec.bind hC (hB.call_spec _) fun r => ?_
  cases r with
  | some o => exact hB.update_spec fun t => .positions t _
  | none =>
    exact Spec.bind hC (hB.call_spec _) fun o => hB.update_spec fun t => .positions t _

theorem seekToStart_spec : Spec C B seekToStart (fun _ => B) F := by
  refine hB.span_spec hC (by simp [replaySteps]) (spec_current fun t => ?_)
  exact (Spec.forM hC _ fun tp _ => hB.seekPartition_spec hC tp).pre fun _ _ h => h.2

theorem fetchChangelog_spec (recs : List FetchedRec) (topic : Topic) (offset : Int) :
    Spec C (Reading B t name recs) (fetchChangelog topic offset)
      (fun batch h s => (∃ env : E, (Broker.fetch env topic t.partition offset t.isolation).1
        = .ok batch) ∧ Reading B t name recs h s) F := by
  refine spec_current fun t' => Spec.bind hC
    (R := fun _ h s => t' = t.applied name recs ∧ Reading B t name recs h s)
    (spec_log fun h s hs _ => ?_) fun _ => Spec.assume fun ht' => Spec.onWorld fun own => ?_
  · obtain ⟨hown, ⟨hb, hread⟩, hs⟩ := hs
    refine ⟨hown.symm.trans hs, ⟨?_, hread⟩, hs⟩
    rw [hs]
    exact hB.fetched h ⟨t, s.world⟩ _ _ _ hb
  · subst ht'
    refine World.spec_call (fun h w batch env hs hop => ⟨⟨w.env, ?_⟩, ⟨?_, hs.1.2⟩, hs.2⟩)
      fun h w e env hs _ => hB.refusal e h own w env (Reading.interrupted hB hs)
    · exact congrArg Prod.fst hop
    · exact hB.answer h t w env hs.1.1

omit hC hB in
theorem applyBatch_spec {offset : Int}
    (hoffset : offset = offsetAfter (t.savedOffset (t.changelogTopicOf name)) recs) (batch : FetchBatch) :
    Spec C (fun h s => (∃ env : E, (Broker.fetch env (t.changelogTopicOf name) t.partition offset
        t.isolation).1 = .ok batch) ∧ Reading B t name recs h s)
      (applyBatch name offset batch.records)
      (fun next h s => next = offsetAfter (t.savedOffset (t.changelogTopicOf name))
        (recs ++ batch.records) ∧ Reading B t name (recs ++ batch.records) h s) F := by
  rintro h ⟨own, w⟩ ⟨⟨env, hfetch⟩, ⟨hb, hread⟩, rfl⟩ _
  rw [applyBatch_eq, List.append_nil]
  subst hoffset
  refine ⟨(offsetAfter_append _ _ _).symm, ⟨hb, hread.snoc env hfetch⟩, ?_⟩
  exact (applied_append name _ _ t).symm

theorem restoreLoop_spec (t : StreamTask P M S V) (name : String) : ∀ (n : Nat) {offset : Int}
    {recs : List FetchedRec}, offset = offsetAfter (t.savedOffset (t.changelogTopicOf name)) recs →
    Spec C (Reading B t name recs) (restoreLoop name (t.changelogTopicOf name) n offset)
      (fun stop h s => ∃ recs', stop = offsetAfter (t.savedOffset (t.changelogTopicOf name)) recs' ∧
        Reading B t name recs' h s) F
  | 0, _, _, _ => Spec.throw fun h s hs => hB.exhausted h s (Reading.interrupted hB hs)
  | n + 1, offset, recs, hoffset => by
    refine Spec.bind hC (hB.fetchChangelog_spec hC t name recs _ offset) fun batch => ?_
    split
    · exact Spec.pure fun _ _ hs => ⟨recs, hoffset, hs.2⟩
    · rename_i hrecs
      rw [← hrecs]
      refine Spec.bind hC (applyBatch_spec t name hoffset batch) fun next => Spec.assume fun hnext => ?_
      exact Spec.ite (fun _ => restoreLoop_spec t name n hnext)
        fun _ => Spec.pure fun _ _ hs => ⟨_, hnext, hs⟩

omit hC in
theorem saveReached_spec (recs : List FetchedRec) :
    Spec C (Reading B t name recs) (saveOffset (t.changelogTopicOf name)
      (offsetAfter (t.savedOffset (t.changelogTopicOf name)) recs)) (fun _ => B) F := by
  refine spec_update fun h s hs => ?_
  obtain ⟨own, w⟩ := s
  obtain ⟨⟨hb, hread⟩, rfl⟩ := hs
  exact hB.replay h t _ w (.replayed t hread) hb

theorem lookup_spec {f : StreamTask P M S V → TaskM E P M S V Unit}
    (hf : ∀ t, Spec C (Reading B (t.withOffset (t.changelogTopicOf name) (t.savedOffset (t.changelogTopicOf name))) name []) (f t) (fun _ => B) F) :
    Spec C B (do
      let t ← current
      saveOffset (t.changelogTopicOf name) (t.savedOffset (t.changelogTopicOf name))
      f t) (fun _ => B) F := by
  refine spec_current fun t => Spec.bind hC (R := fun _ => Reading B (t.withOffset _ _) name [])
    (spec_update fun h s hs => ?_) fun _ => hf t
  obtain ⟨own, w⟩ := s
  obtain ⟨rfl, hb⟩ := hs
  refine ⟨⟨hB.replay h own _ w (.lookup own _) hb, .nil _⟩, ?_⟩
  rw [applied_nil]
  rfl

theorem restoreStore_spec : Spec C B (restoreStore name) (fun _ => B) F := by
  refine hB.lookup_spec hC name fun t => Spec.get fun s => ?_
  have hsaved := t.savedOffset_withOffset (t.changelogTopicOf name) (t.savedOffset (t.changelogTopicOf name))
  refine Spec.bind hC ((hB.restoreLoop_spec hC (t.withOffset _ _) name _ hsaved.symm).pre
    fun _ _ h => h.2) fun stop => Spec.elim fun recs => Spec.assume fun hstop => ?_
  rw [hstop]
  exact hB.saveReached_spec (t.withOffset _ _) name recs

theorem restore_spec : Spec C B restore (fun _ => B) F :=
  hB.overStores_spec hC (by simp [replaySteps]) fun name => hB.restoreStore_spec hC name

theorem restoreStoreStep_spec : Spec C B (restoreStoreStep name) (fun _ => B) F := by
  refine hB.lookup_spec hC name fun t => ?_
  have hsaved := t.savedOffset_withOffset (t.changelogTopicOf name) (t.savedOffset (t.changelogTopicOf name))
  refine Spec.bind hC (hB.fetchChangelog_spec hC (t.withOffset _ _) name [] _ _) fun batch => ?_
  refine Spec.bind hC (applyBatch_spec (t.withOffset _ _) name hsaved.symm batch) fun next =>
    Spec.assume fun hnext => ?_
  rw [hnext]
  exact hB.saveReached_spec (t.withOffset _ _) name _

theorem restoreStep_spec : Spec C B restoreStep (fun _ => B) F :=
  hB.overStores_spec hC (by simp [replaySteps]) fun name => hB.restoreStoreStep_spec hC name

theorem rollback_spec {F' : StreamsClientError → Assn Event (TaskState E P M S V)}
    (hF : ∀ e h s, F e h s → C (h ++ [.failed s.own.ref .rollback]) →
      F' e (h ++ [.failed s.own.ref .rollback]) s) :
    Spec C B rollback (fun _ => B) F' := by
  refine spec_span hC (Spec.bind hC (hB.update_spec fun t => .dropPending t) fun _ => ?_) hF
  refine Spec.bind hC (hB.seekToStart_spec hC) fun _ => ?_
  exact Spec.bind hC (hB.update_spec fun t => .wipe t) fun _ => hB.restore_spec hC

theorem computeChangelogOffsets_spec : Spec C B computeChangelogOffsets (fun _ => B) F := by
  refine hB.span_spec hC (by simp [replaySteps])
    (spec_read fun t => ?_)
  refine Spec.foldlM hC (fun sums name => spec_current fun t' => Spec.bind hC
    (R := fun _ h s => s.own = t' ∧ B h s) ?_ fun stop => ?_) _ _
  · exact Spec.onWorld fun own => World.spec_call
      (fun h w _ env hs _ => ⟨hs.1, hB.answer h own w env hs.2⟩)
      fun h w e env hs _ => hB.refusal e h own w env hs.2
  · refine Spec.ite (fun _ => Spec.pure fun _ _ h => h.2) fun _ => ?_
    refine Spec.bind hC (spec_update fun h s hs => ?_) fun _ => Spec.skip
    obtain ⟨own, w⟩ := s
    obtain ⟨rfl, hb⟩ := hs
    exact hB.replay h own _ w (.lookup own _) hb

end Methods

end Quiet

end StreamTask

end KrabkaStreams
