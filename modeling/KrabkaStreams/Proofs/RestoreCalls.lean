import KrabkaStreams.Proofs.Restore

/-!
# Restore calls, one after the other

With one topic a store, each store is the fold of the records below the saved offset of its topic
(`Follows`). Two stores over one topic break the first restore
(`restoreCompletes_iff_oneTopicPerStore`).
-/

namespace KrabkaStreams

open Effect StateStore

variable {E P M S V : Type} {r r' : StoreRegistry S} {R R' : S → S → Prop} {name : String}

def recordsBefore (log : List FetchedRec) (offset : Int) : List FetchedRec :=
  log.filter fun r => r.offset < offset

theorem recordsBefore_append_recordsFrom :
    ∀ {log : List FetchedRec} (offset : Int), (log.Pairwise fun a b => a.offset < b.offset) →
      recordsBefore log offset ++ recordsFrom log offset = log
  | [], _, _ => rfl
  | r :: log, offset, hs => by
    obtain ⟨hhead, htail⟩ := List.pairwise_cons.mp hs
    by_cases hr : r.offset < offset
    · have hnot : ¬ offset ≤ r.offset := by omega
      have ih := recordsBefore_append_recordsFrom offset htail
      simp only [recordsBefore, recordsFrom, List.filter_cons, hr, hnot, decide_true, decide_false,
        if_true, List.cons_append] at ih ⊢
      simpa using ih
    · -- everything after the first record at or above the offset is above it too
      have hall : ∀ x ∈ r :: log, offset ≤ x.offset := by
        intro x hx
        rcases List.mem_cons.mp hx with rfl | hx
        · omega
        · have := hhead x hx
          omega
      have hbefore : recordsBefore (r :: log) offset = [] :=
        List.filter_eq_nil_iff.mpr fun x hx => by simpa using hall x hx
      have hfrom : recordsFrom (r :: log) offset = r :: log :=
        List.filter_eq_self.mpr fun x hx => by simpa using hall x hx
      rw [hbefore, hfrom, List.nil_append]

theorem recordsBefore_offsetAfter {log recs : List FetchedRec} {offset : Int}
    (hs : log.Pairwise fun a b => a.offset < b.offset) (hpre : recs <+: recordsFrom log offset) :
    recordsBefore log (offsetAfter offset recs) = recordsBefore log offset ++ recs := by
  by_cases hne : recs = []
  · subst hne
    rw [List.append_nil]
    rfl
  obtain ⟨rest, hrest⟩ := hpre
  have hsplit := recordsBefore_append_recordsFrom (offsetAfter offset recs) hs
  have hold := recordsBefore_append_recordsFrom offset hs
  rw [recordsFrom_offsetAfter hs hrest hne] at hsplit
  rw [← hrest, ← List.append_assoc] at hold
  exact List.append_cancel_right (hsplit.trans hold.symm)

theorem recordsFrom_eq_nil_of_le {log : List FetchedRec} {offset offset' : Int} (h : offset ≤ offset')
    (hnil : recordsFrom log offset = []) : recordsFrom log offset' = [] := by
  refine List.filter_eq_nil_iff.mpr fun r hr => ?_
  have := List.filter_eq_nil_iff.mp hnil r hr
  simp only [decide_eq_true_eq] at this ⊢
  omega

theorem recordsFrom_offsetAfter_all {log : List FetchedRec} (offset : Int)
    (hs : log.Pairwise fun a b => a.offset < b.offset) :
    recordsFrom log (offsetAfter offset (recordsFrom log offset)) = [] := by
  by_cases hne : recordsFrom log offset = []
  · rw [hne]
    exact hne
  · exact recordsFrom_offsetAfter hs (List.append_nil _) hne

namespace StoreRegistry

theorem Rel.mono (h : Rel R r r') (hR : ∀ e ∈ r, ∀ s', R e.2 s' → R' e.2 s') : Rel R' r r' := by
  induction h with
  | nil => exact .nil
  | cons he _ ih =>
    exact .cons ⟨he.1, hR _ List.mem_cons_self _ he.2⟩
      (ih fun e hm => hR e (List.mem_cons_of_mem _ hm))

theorem Rel.modify {f : S → S} (h : Rel R r r') (hn : (names r).Nodup)
    (hat : ∀ s, (name, s) ∈ r → ∀ s', R s s' → R' s (f s'))
    (hoff : ∀ e ∈ r, e.1 ≠ name → ∀ s', R e.2 s' → R' e.2 s') : Rel R' r (OrdMap.modify r' name f) := by
  induction h with
  | nil => exact .nil
  | @cons e e' r r' he hr ih =>
    obtain ⟨n, s⟩ := e
    obtain ⟨n', s'⟩ := e'
    obtain ⟨rfl, hR⟩ := he
    obtain ⟨hfresh, htail⟩ := List.nodup_cons.mp hn
    have hoff' : ∀ e ∈ r, e.1 ≠ name → ∀ s', R e.2 s' → R' e.2 s' := fun e hm =>
      hoff e (List.mem_cons_of_mem _ hm)
    unfold OrdMap.modify
    by_cases hname : n' = name
    · subst hname
      rw [if_pos rfl]
      refine .cons ⟨rfl, hat s List.mem_cons_self s' hR⟩ (Rel.mono hr fun e hm => hoff' e hm ?_)
      rintro rfl
      exact hfresh (List.mem_map.mpr ⟨e, hm, rfl⟩)
    · rw [if_neg hname]
      exact .cons ⟨rfl, hoff _ List.mem_cons_self hname s' hR⟩
        (ih htail (fun s hm => hat s (List.mem_cons_of_mem _ hm)) hoff')

theorem Rel.map_right {f : S → S} (h : Rel R r r') (hf : ∀ s s', R s s' → R' s (f s')) :
    Rel R' r (mapStores f r') := by
  unfold Rel StoreRegistry.mapStores
  rw [List.forall₂_map_right_iff]
  exact h.imp fun e e' he => ⟨he.1, hf _ _ he.2⟩

theorem Rel.eq_map {f : S → S} (h : Rel (fun s s' => s' = f s) r r') : r' = StoreRegistry.mapStores f r := by
  induction h with
  | nil => rfl
  | cons he _ ih => exact congrArg₂ List.cons (Prod.ext he.1 he.2) ih

theorem Rel.names_eq {R : S → S → Prop} (h : Rel R r r') : names r' = names r := by
  induction h with
  | nil => rfl
  | cons he _ ih => exact congrArg₂ List.cons he.1 ih

theorem Rel.get? {R : S → S → Prop} (h : Rel R r r') (hn : (names r).Nodup) {s : S} (hs : (name, s) ∈ r) :
    ∃ s', OrdMap.get? r' name = some s' ∧ R s s' := by
  induction h with
  | nil => cases hs
  | @cons e e' r r' he hr ih =>
    obtain ⟨n', s'⟩ := e'
    obtain ⟨rfl, hR⟩ := he
    obtain ⟨hfresh, htail⟩ := List.nodup_cons.mp hn
    rw [OrdMap.get?_cons]
    rcases List.mem_cons.mp hs with rfl | hs
    · exact ⟨s', if_pos rfl, hR⟩
    · have hne : e.1 ≠ name := fun heq => hfresh (List.mem_map.mpr ⟨(name, s), hs, heq.symm⟩)
      rw [if_neg hne]
      exact ih htail hs

end StoreRegistry

section Follows

variable [StateStore S V]

namespace StreamTask

/-- Every store is the initial one with the records below the saved offset of its topic applied, up to
the logging switch. -/
def Follows (logs : CommittedLogs) (r : StoreRegistry S) (t : StreamTask P M S V) : Prop :=
  StoreRegistry.Rel (fun s₀ s => changelogTopic s = changelogTopic s₀ ∧
    StateStore.setLogging s false = applyAll (StateStore.setLogging s₀ false)
      (recordsBefore (logs.records (changelogTopic s₀)) (t.savedOffset (changelogTopic s₀))))
    r t.graph.stores

def advanced (name : String) (recs : List FetchedRec) (t : StreamTask P M S V) : StreamTask P M S V :=
  (t.applied name recs).withOffset (t.changelogTopicOf name)
    (offsetAfter (t.savedOffset (t.changelogTopicOf name)) recs)

theorem savedOffset_advanced (t : StreamTask P M S V) (name : String) (recs : List FetchedRec)
    (topic : Topic) : (t.advanced name recs).savedOffset topic
      = if t.changelogTopicOf name = topic then offsetAfter (t.savedOffset topic) recs
        else t.savedOffset topic := by
  unfold advanced savedOffset withOffset
  rw [OrdMap.get?_insert]
  split
  · rename_i h
    subst h
    rfl
  · rfl

theorem savedOffset_le_advanced (t : StreamTask P M S V) (name : String) (recs : List FetchedRec)
    (topic : Topic) : t.savedOffset topic ≤ (t.advanced name recs).savedOffset topic := by
  rw [savedOffset_advanced]
  split
  · exact le_offsetAfter _ _
  · exact Int.le_refl _

variable {logs : CommittedLogs} {r : StoreRegistry S} {t : StreamTask P M S V}

theorem Follows.topicOf (h : Follows logs r t) (hn : (StoreRegistry.names r).Nodup) {s : S}
    (hs : (name, s) ∈ r) : t.changelogTopicOf name = changelogTopic s := by
  obtain ⟨s', hget, htopic, -⟩ := h.get? hn hs
  unfold changelogTopicOf
  rw [hget]
  exact htopic

variable [SwitchedStore S]

theorem setLogging_applyAll (b : Bool) : ∀ (recs : List FetchedRec) (s : S),
    StateStore.setLogging (applyAll s recs) b = applyAll (StateStore.setLogging s b) recs
  | [], _ => rfl
  | r :: recs, s => by
    rw [applyAll_cons, applyAll_cons, setLogging_applyAll b recs, SwitchedStore.setLogging_apply]

variable [LawfulStateStore S]

theorem Follows.setLogging (h : Follows logs r t) (b : Bool) :
    Follows logs r (t.setGraph (t.graph.setLogging b)) := by
  show StoreRegistry.Rel _ r (StoreRegistry.mapStores (StateStore.setLogging · b) t.graph.stores)
  exact StoreRegistry.Rel.map_right h fun s₀ s hs => ⟨by simpa using hs.1,
    (SwitchedStore.setLogging_setLogging s b false).trans hs.2⟩

omit [SwitchedStore S] in
theorem topic_applyAll : ∀ (recs : List FetchedRec) (s : S),
    changelogTopic (applyAll s recs) = changelogTopic s
  | [], _ => rfl
  | r :: recs, s => by
    rw [applyAll_cons, topic_applyAll recs, LawfulStateStore.topic_apply]

variable (hn : (StoreRegistry.names r).Nodup) (htopics : (r.map fun e => changelogTopic e.2).Nodup)

include hn htopics

theorem Follows.advanced (h : Follows logs r t) {s : S} (hs : (name, s) ∈ r) {recs : List FetchedRec}
    (hpre : recs <+: recordsFrom (logs.records (changelogTopic s)) (t.savedOffset (changelogTopic s))) :
    Follows logs r (t.advanced name recs) := by
  have htopic := h.topicOf hn hs
  refine StoreRegistry.Rel.modify h hn (fun s₀ hs₀ s' hR => ?_) fun e he hne s' hR => ?_
  · have hsame : s₀ = s := by
      have h1 := OrdMap.get?_of_mem hn hs₀
      rw [OrdMap.get?_of_mem hn hs] at h1
      exact (Option.some.inj h1).symm
    subst hsame
    refine ⟨(topic_applyAll recs s').trans hR.1, ?_⟩
    rw [savedOffset_advanced, if_pos htopic, recordsBefore_offsetAfter (logs.sorted _) hpre,
      applyAll_append, ← hR.2, setLogging_applyAll]
  · have hother : changelogTopic s ≠ changelogTopic e.2 := fun heq =>
      hne (congrArg Prod.fst (List.inj_on_of_nodup_map htopics he hs heq.symm))
    rw [savedOffset_advanced, if_neg fun heq => hother (htopic ▸ heq)]
    exact hR

theorem Follows.foldl_replayStore : ∀ (ns : List String) (t : StreamTask P M S V),
    (∀ n ∈ ns, n ∈ StoreRegistry.names r) → Follows logs r t →
      let t' := ns.foldl (replayStore logs) t
      Follows logs r t' ∧ (∀ topic, t.savedOffset topic ≤ t'.savedOffset topic) ∧
        ∀ e ∈ r, e.1 ∈ ns →
          recordsFrom (logs.records (changelogTopic e.2)) (t'.savedOffset (changelogTopic e.2)) = []
  | [], t, _, h => ⟨h, fun _ => Int.le_refl _, fun _ _ he => by cases he⟩
  | n :: ns, t, hns, h => by
    obtain ⟨⟨n', s⟩, hs, rfl⟩ := List.mem_map.mp (hns n List.mem_cons_self)
    have htopic := h.topicOf hn hs
    have hstep : Follows logs r (replayStore logs t n') := by
      refine h.advanced hn htopics hs ?_
      rw [htopic]
    obtain ⟨hf, hle, hnil⟩ := Follows.foldl_replayStore ns (replayStore logs t n')
      (fun m hm => hns m (List.mem_cons_of_mem _ hm)) hstep
    refine ⟨hf, fun topic => (savedOffset_le_advanced t n' _ topic).trans (hle topic), fun e he hmem => ?_⟩
    rcases List.mem_cons.mp hmem with heq | hmem
    · have hsame : e.2 = s := by
        have h1 := OrdMap.get?_of_mem hn he
        rw [heq, OrdMap.get?_of_mem hn hs] at h1
        exact (Option.some.inj h1).symm
      refine recordsFrom_eq_nil_of_le (hle _) ?_
      rw [hsame]
      have hsaved : (replayStore logs t n').savedOffset (changelogTopic s)
          = offsetAfter (t.savedOffset (changelogTopic s))
            (recordsFrom (logs.records (changelogTopic s)) (t.savedOffset (changelogTopic s))) := by
        refine (savedOffset_advanced t n' _ _).trans ?_
        rw [if_pos htopic, htopic]
      rw [hsaved]
      exact recordsFrom_offsetAfter_all _ (logs.sorted _)
    · exact hnil e he hmem

omit [LawfulStateStore S] hn htopics in
theorem Follows.stores_eq (h : Follows logs r t)
    (hend : ∀ e ∈ r, recordsFrom (logs.records (changelogTopic e.2))
      (t.savedOffset (changelogTopic e.2)) = []) :
    StoreRegistry.mapStores (StateStore.setLogging · true) t.graph.stores
      = StoreRegistry.mapStores (fun s => StateStore.setLogging
        (applyAll (StateStore.setLogging s false) (logs.records (changelogTopic s))) true) r := by
  have hall : StoreRegistry.Rel (fun s₀ s => StateStore.setLogging s false
      = applyAll (StateStore.setLogging s₀ false) (logs.records (changelogTopic s₀)))
      r t.graph.stores := by
    refine StoreRegistry.Rel.mono h fun e he s hs => ?_
    have hsplit := recordsBefore_append_recordsFrom (t.savedOffset (changelogTopic e.2))
      (logs.sorted (changelogTopic e.2))
    rw [hend e he, List.append_nil] at hsplit
    rw [hs.2, hsplit]
  refine StoreRegistry.Rel.eq_map (hall.map_right fun s₀ s hs => ?_)
  rw [← hs, SwitchedStore.setLogging_setLogging]

theorem Follows.replayed (h : Follows logs r t) :
    Follows logs r (replayed logs t) ∧ (StreamTask.replayed logs t).graph.stores
      = StoreRegistry.mapStores (fun s => StateStore.setLogging
        (applyAll (StateStore.setLogging s false) (logs.records (changelogTopic s))) true) r := by
  have hnames : StoreRegistry.names (t.setGraph (t.graph.setLogging false)).graph.stores
      = StoreRegistry.names r := (h.setLogging false).names_eq
  obtain ⟨hf, -, hend⟩ := Follows.foldl_replayStore hn htopics
    (StoreRegistry.names (t.setGraph (t.graph.setLogging false)).graph.stores)
    (t.setGraph (t.graph.setLogging false)) (fun n hm => hnames ▸ hm) (h.setLogging false)
  refine ⟨hf.setLogging true, hf.stores_eq fun e he => hend e he ?_⟩
  rw [hnames]
  exact List.mem_map_of_mem he

end StreamTask

end Follows

section Calls

variable [Broker E] [StateStore S V] {C : List Event → Prop} {logs : CommittedLogs}
  {level : IsolationLevel} {partition : Int} {r : StoreRegistry S}

namespace StreamTask

theorem restoreStoreStep_spec (hC : PrefixClosed C) (hs : ServesAt E level partition logs) (b : Nat)
    (t : StreamTask P M S V) (ht : Served level partition t) (name : String) :
    Spec C (At (E := E) t b) (restoreStoreStep name)
      (fun _ w s => ∃ recs, recs <+: recordsFrom (logs.records (t.changelogTopicOf name))
        (t.savedOffset (t.changelogTopicOf name)) ∧ At (t.advanced name recs) b w s)
      fun _ _ _ => True := by
  obtain ⟨rfl, rfl⟩ := ht
  refine spec_current_at ?_
  set topic := t.changelogTopicOf name with htopic
  set t' := t.withOffset topic (t.savedOffset topic) with ht'
  refine Spec.bind hC (R := fun _ => At t' b) (spec_update_at rfl) fun _ => ?_
  refine Spec.bind hC ((fetchChangelog_spec hC (t := t') hs b topic (t.savedOffset topic)).failing fun _ _ _ _ => trivial) fun batch => Spec.assume fun hbatch => ?_
  refine Spec.bind hC (applyBatch_spec name b batch.records (t.savedOffset topic) t') fun next =>
    Spec.assume fun hnext => ?_
  subst hnext
  have hsave : (t'.applied name batch.records).withOffset topic
      (offsetAfter (t.savedOffset topic) batch.records) = t.advanced name batch.records := by
    simp only [ht', advanced, withOffset, applied, setGraph, OrdMap.insert_insert, htopic]
  exact (spec_update_at hsave).post (fun _ w s h => ⟨batch.records, hbatch.1.1, h⟩) fun _ _ _ h => h

omit [Broker E] in
theorem Served.foldl_replayStore : ∀ (ns : List String) (t : StreamTask P M S V),
    Served level partition t → Served level partition (ns.foldl (replayStore logs) t)
  | [], _, h => h
  | n :: ns, t, h => Served.foldl_replayStore ns (replayStore logs t n) h

def Following (E : Type) (level : IsolationLevel) (partition : Int) (logs : CommittedLogs)
    (r : StoreRegistry S) : Assn Event (TaskState E P M S V) :=
  fun _ s => Served level partition s.own ∧ Follows logs r s.own

omit [Broker E] in
theorem Following.elim {α : Type} {m : TaskM E P M S V α} {Q : α → Assn Event (TaskState E P M S V)}
    {F : StreamsClientError → Assn Event (TaskState E P M S V)}
    (h : ∀ t b, Served level partition t → Follows logs r t → Spec C (At t b) m Q F) :
    Spec C (Following E level partition logs r) m Q F :=
  fun w s hs hC => h s.own s.world.budget hs.1 hs.2 w s ⟨rfl, rfl⟩ hC

variable [LawfulStateStore S] [SwitchedStore S] (hC : PrefixClosed C)
  (hs : ServesAt E level partition logs) (hn : (StoreRegistry.names r).Nodup)
  (htopics : (r.map fun e => changelogTopic e.2).Nodup)

include hC hs hn htopics

theorem Following.restoreStep_spec :
    Spec C (Following (P := P) (M := M) E level partition logs r) restoreStep
      (fun _ => Following E level partition logs r) fun _ _ _ => True := by
  have hlog : ∀ b, Spec C (Following (P := P) (M := M) E level partition logs r) (setLogging b)
      (fun _ => Following E level partition logs r) fun _ _ _ => True := fun b =>
    spec_update fun _ _ h => ⟨h.1, h.2.setLogging b⟩
  refine spec_span hC (Spec.bind hC (hlog false) fun _ => spec_current fun t => Spec.bind hC ?_ fun _ =>
    hlog true) fun _ _ _ _ _ => trivial
  refine Spec.pre (P := fun w s => StoreRegistry.names t.graph.stores = StoreRegistry.names r ∧
    Following E level partition logs r w s) (Spec.assume fun hnames => Spec.forM hC _ fun name hmem =>
      Following.elim fun t b ht hf => ?_) fun w s h => ⟨h.1 ▸ h.2.2.names_eq, h.2⟩
  obtain ⟨⟨name, s⟩, hs', rfl⟩ := List.mem_map.mp (hnames ▸ hmem)
  refine (restoreStoreStep_spec hC hs b t ht name).post (fun _ w s h => ?_) fun _ _ _ h => h
  obtain ⟨recs, hpre, hown, -⟩ := h
  rw [hf.topicOf hn hs'] at hpre
  exact ⟨hown ▸ ht, hown ▸ hf.advanced hn htopics hs' hpre⟩

theorem Following.restore_spec :
    Spec C (Following (P := P) (M := M) E level partition logs r) restore
      (fun _ w s => Following E level partition logs r w s ∧ s.own.graph.stores
        = StoreRegistry.mapStores (fun s => StateStore.setLogging
          (applyAll (StateStore.setLogging s false) (logs.records (changelogTopic s))) true) r)
      fun _ _ _ => True := by
  refine Following.elim fun t b ht hf => (StreamTask.restore_spec hC hs b t ht).post
    (fun _ w s h => ?_) fun _ _ _ _ => trivial
  obtain ⟨hf', hstores⟩ := hf.replayed hn htopics
  have hserved : Served level partition (StreamTask.replayed logs t) :=
    Served.foldl_replayStore _ (t.setGraph (t.graph.setLogging false)) ht
  exact ⟨⟨h.1 ▸ hserved, h.1 ▸ hf'⟩, h.1 ▸ hstores⟩

theorem Following.restoreAfter_spec (calls : List RestoreCall) :
    Spec C (Following (P := P) (M := M) E level partition logs r) (restoreAfter calls)
      (fun _ _ s => s.own.graph.stores
        = StoreRegistry.mapStores (fun s => StateStore.setLogging
          (applyAll (StateStore.setLogging s false) (logs.records (changelogTopic s))) true) r)
      fun _ _ _ => True := by
  refine Spec.bind hC (Spec.forM hC calls fun c _ => ?_) fun _ =>
    (Following.restore_spec hC hs hn htopics).post (fun _ _ _ h => h.2) fun _ _ _ h => h
  cases c with
  | step => exact Following.restoreStep_spec hC hs hn htopics
  | full => exact (Following.restore_spec hC hs hn htopics).post (fun _ _ _ h => h.1) fun _ _ _ h => h

end StreamTask

end Calls

variable [StateStore S V]

theorem Unrestored.follows {t : StreamTask P M S V} (ht : Unrestored t) (logs : CommittedLogs) :
    StreamTask.Follows logs t.graph.stores t := by
  refine List.forall₂_same.mpr fun e _ => ⟨rfl, rfl, ?_⟩
  have hzero : t.savedOffset (changelogTopic e.2) = 0 := by simp [StreamTask.savedOffset, ht.offsets]
  have hnone : recordsBefore (logs.records (changelogTopic e.2)) 0 = [] := by
    refine List.filter_eq_nil_iff.mpr fun r hr => ?_
    have := logs.nonneg _ r hr
    simpa using this
  rw [hzero, hnone, applyAll_nil]

theorem Unrestored.mapStores_clear {t : StreamTask P M S V} (ht : Unrestored t) :
    StoreRegistry.mapStores clear t.graph.stores = t.graph.stores := by
  refine (List.map_congr_left fun e he => ?_).trans (List.map_id _)
  exact Prod.ext rfl (ht.empty e he)

variable [LawfulStateStore S] [SwitchedStore S]

/-- Restoring an empty task leaves the fold of every changelog, whatever restore calls came before,
exactly when no two of its stores share a changelog topic. -/
theorem restoreCompletes_iff_oneTopicPerStore {t : StreamTask P M S V} (ht : Unrestored t)
    (hn : (StoreRegistry.names t.graph.stores).Nodup) : RestoreCompletes t ↔ OneTopicPerStore t := by
  have hclear := ht.mapStores_clear
  constructor
  · intro h
    refine ((restored_rebuilds_iff t.graph.stores t.changelogOffsets).mp fun logs => ?_).2
    let _ := servingBroker logs
    have hp : Prompt Unit t.isolation t.partition logs := servingBroker_prompt logs _ _
    have hspec := StreamTask.restore_spec prefixClosed_true hp.serves 2 t ⟨rfl, rfl⟩
    rcases hx : StreamTask.restore.result (⟨t, servedWorld⟩ : TaskState Unit P M S V) with e | u
    · exact absurd ⟨hp, Nat.le_refl 2⟩ (hspec.of_error (w := []) ⟨rfl, rfl⟩ trivial hx)
    · have hat := (hspec.of_ok (w := []) ⟨rfl, rfl⟩ trivial hx).1
      rw [hclear, ← StreamTask.replayed_stores logs t hn, ← hat]
      exact h Unit servedWorld logs [] hp.serves hx
  · intro htopics E _ w logs calls hs hok
    have hspec := StreamTask.Following.restoreAfter_spec (P := P) (M := M) prefixClosed_true hs hn
      htopics calls
    rw [hspec.of_ok (w := []) ⟨⟨rfl, rfl⟩, ht.follows logs⟩ trivial hok]
    refine List.map_congr_left fun e he => ?_
    rw [rebuilt, wiped, ht.empty e he]

section Sample

/-- Two tables, the first one with its source topic `in` as its changelog. -/
def twoTablesTask (changelog : Topic) :
    StreamTask Relay Unit (KeyValueBytesStore Bytes) (Value Bytes) :=
  .new "0" (relayGraph [] [] []
    [("left", .inMemory "left" bytesSerde bytesSerde "in"),
      ("right", .inMemory "right" bytesSerde bytesSerde changelog)] [])
    [⟨"in", 0⟩] .active .atLeastOnce

theorem unrestored_twoTablesTask (changelog : Topic) : Unrestored (twoTablesTask changelog) where
  offsets := rfl
  empty e he := by
    simp only [twoTablesTask, StreamTask.new, relayGraph, List.mem_cons, List.not_mem_nil, or_false] at he
    rcases he with rfl | rfl <;> rfl

def tableLog : CommittedLogs := singleLog "in" ⟨0, some [97], some [1], 5⟩ offset_firstRecord

/-- When both tables share the topic the second one restores nothing: the first one moved the offset
of the topic to the end. -/
theorem not_restoreCompletes_twoTablesTask : ¬ RestoreCompletes (twoTablesTask "in") := by
  intro h
  let _ := servingBroker tableLog
  have hs := h Unit servedWorld tableLog []
    (servingBroker_prompt tableLog (twoTablesTask "in").isolation 0).serves rfl
  have hget := congrArg (List.map fun e => e.2.backing.get [97]) hs
  exact absurd hget (by decide)

theorem restoreCompletes_twoTablesTask : RestoreCompletes (twoTablesTask "app-right-changelog") :=
  (restoreCompletes_iff_oneTopicPerStore (unrestored_twoTablesTask _) (by decide)).mpr
    (by unfold OneTopicPerStore; decide)

end Sample

end KrabkaStreams
