import KrabkaStreams.Proofs.KeyValue
import KrabkaStreams.Proofs.Quiet
import KrabkaStreams.Script

/-!
# What a restore rebuilds

A restore that returns did what `replayed` does (`restore_spec`). A rollback keeps the saved offsets, so
it rebuilds the fold of the whole changelog exactly when these stand at the start of the log
(`rollbackRebuilds_iff`).
-/

namespace KrabkaStreams

open Effect StateStore

variable {E P M S V : Type} (logs : CommittedLogs) (topic : Topic) {level : IsolationLevel} {partition : Int}

theorem offsetAfter_le : ∀ {recs : List FetchedRec} {offset n : Int}, offset ≤ n →
    (∀ r ∈ recs, r.offset < n) → offsetAfter offset recs ≤ n
  | [], _, _, h, _ => h
  | r :: recs, offset, n, h, hr => by
    have h1 : max offset (r.offset + 1) ≤ n := by
      have := hr r List.mem_cons_self
      omega
    show offsetAfter (max offset (r.offset + 1)) recs ≤ n
    exact offsetAfter_le h1 fun r' hr' => hr r' (List.mem_cons_of_mem _ hr')

theorem recordsFrom_offsetAfter {log b rest : List FetchedRec} {offset : Int}
    (hs : log.Pairwise fun a b => a.offset < b.offset)
    (hb : b ++ rest = recordsFrom log offset) (hne : b ≠ []) :
    recordsFrom log (offsetAfter offset b) = rest := by
  have hsub : recordsFrom log (offsetAfter offset b)
      = recordsFrom (recordsFrom log offset) (offsetAfter offset b) := by
    unfold recordsFrom
    rw [List.filter_filter]
    refine List.filter_congr fun r _ => ?_
    have := le_offsetAfter b offset
    by_cases h : offsetAfter offset b ≤ r.offset
    · have : offset ≤ r.offset := by omega
      simp [h, this]
    · simp [h]
  have hpw : (b ++ rest).Pairwise fun a b => a.offset < b.offset := by
    rw [hb]
    exact hs.filter _
  obtain ⟨hpb, -, hcross⟩ := List.pairwise_append.mp hpw
  rw [hsub, ← hb]
  unfold recordsFrom
  rw [List.filter_append]
  have h1 : b.filter (fun r => decide (offsetAfter offset b ≤ r.offset)) = [] := by
    refine List.filter_eq_nil_iff.mpr fun r hr => ?_
    have := lt_offsetAfter_of_mem offset hr
    simpa using this
  have h2 : rest.filter (fun r => decide (offsetAfter offset b ≤ r.offset)) = rest := by
    refine List.filter_eq_self.mpr fun r hr => ?_
    have hge : offset ≤ r.offset := by
      have : r ∈ recordsFrom log offset := hb ▸ List.mem_append_right b hr
      simpa using (List.mem_filter.mp this).2
    obtain ⟨x, hx⟩ := List.exists_mem_of_ne_nil b hne
    have := offsetAfter_le hge fun r' hr' => hcross r' hr' r hr
    simpa using this
  rw [h1, h2, List.nil_append]

theorem recordsFrom_of_le_zero {offset : Int} (h : offset ≤ 0) :
    recordsFrom (logs.records topic) offset = logs.records topic := by
  refine List.filter_eq_self.mpr fun r hr => ?_
  have := logs.nonneg topic r hr
  simp only [decide_eq_true_eq]
  omega

section Refinement

variable [Broker E] [StateStore S V] {C : List Event → Prop} (logs : CommittedLogs) (t : StreamTask P M S V)

/-- A fetcher that always answers, with all there is: against it a restore must return. -/
structure Prompt (E : Type) [Broker E] (level : IsolationLevel) (partition : Int)
    (logs : CommittedLogs) : Prop where
  fetch_all : ∀ (e : E) topic offset, ∃ e', Broker.fetch e topic partition offset level
    = (.ok ⟨recordsFrom (logs.records topic) offset⟩, e')
  committed_ok : ∀ (e : E) topic p, ∃ r e', Broker.committed e topic p = (.ok r, e')
  earliest_ok : ∀ (e : E) topic p, ∃ r e', Broker.earliest e topic p = (.ok r, e')

omit [StateStore S V] in
theorem Prompt.serves {logs : CommittedLogs} (h : Prompt E level partition logs) :
    ServesAt E level partition logs := by
  intro e topic offset b hb
  obtain ⟨e', he⟩ := h.fetch_all e topic offset
  rw [he] at hb
  cases hb
  exact ⟨List.prefix_rfl, id⟩

namespace StreamTask

def At (b : Nat) : Assn Event (TaskState E P M S V) :=
  fun _ s => s.own = t ∧ s.world.budget = b

omit [Broker E] in
theorem applyBatch_spec (name : String) (b : Nat)
    {F : StreamsClientError → Assn Event (TaskState E P M S V)} (recs : List FetchedRec) (offset : Int)
    (t : StreamTask P M S V) :
    Spec C (At t b) (applyBatch name offset recs)
      (fun o w s => o = offsetAfter offset recs ∧ At (t.applied name recs) b w s) F := by
  rintro h ⟨own, w⟩ ⟨rfl, hb⟩ _
  rw [applyBatch_eq]
  exact ⟨rfl, rfl, hb⟩

omit [StateStore S V] in
theorem fetchChangelog_spec (hC : PrefixClosed C) {logs : CommittedLogs}
    {t : StreamTask P M S V} (hs : ServesAt E t.isolation t.partition logs) (b : Nat) (topic : Topic) (offset : Int) :
    Spec C (At (E := E) t b) (fetchChangelog topic offset)
      (fun batch w s =>
        ((batch.records <+: recordsFrom (logs.records topic) offset ∧
          (batch.records = [] → recordsFrom (logs.records topic) offset = [])) ∧
        (Prompt E t.isolation t.partition logs → batch.records = recordsFrom (logs.records topic) offset)) ∧
        At t b w s)
      fun _ _ _ => ¬ Prompt E t.isolation t.partition logs := by
  refine spec_current fun t' => Spec.bind hC (R := fun _ w s => At t b w s ∧ s.own = t')
    (spec_log fun w s h _ => ⟨h.2, h.1⟩) fun _ => Spec.onWorld fun own => ?_
  refine World.spec_call (fun w s batch e' h hop => ?_) fun w s err e' h hop hp => ?_
  · obtain ⟨⟨hown, hb⟩, ht'⟩ := h
    have ht : t = t' := hown.symm.trans ht'
    subst ht
    refine ⟨⟨hs s.env topic offset batch (by rw [hop]), fun hp => ?_⟩, hown, hb⟩
    obtain ⟨e'', he⟩ := hp.fetch_all s.env topic offset
    rw [hop] at he
    cases he
    rfl
  · obtain ⟨⟨hown, hb⟩, ht'⟩ := h
    have ht : t = t' := hown.symm.trans ht'
    subst ht
    obtain ⟨e'', he⟩ := hp.fetch_all s.env topic offset
    rw [hop] at he
    cases he

def rounds (recs : List FetchedRec) : Nat := if recs = [] then 1 else 2

theorem restoreLoop_spec (hC : PrefixClosed C) {logs : CommittedLogs} {level : IsolationLevel}
    {partition : Int} (hs : ServesAt E level partition logs) (b : Nat) (name : String) (topic : Topic) :
    ∀ (n : Nat) (offset : Int) (t : StreamTask P M S V), t.partition = partition →
      t.isolation = level →
      Spec C (At (E := E) t b) (restoreLoop name topic n offset)
        (fun o w s => o = offsetAfter offset (recordsFrom (logs.records topic) offset) ∧
          At (t.applied name (recordsFrom (logs.records topic) offset)) b w s)
        fun _ _ _ => ¬ (Prompt E level partition logs ∧
          rounds (recordsFrom (logs.records topic) offset) ≤ n)
  | 0, offset, t, _, _ => by
    refine Spec.throw fun w s _ h => ?_
    have := h.2
    unfold rounds at this
    split at this <;> omega
  | n + 1, offset, t, hp, hg => by
    subst hp hg
    refine Spec.bind hC ((fetchChangelog_spec hC hs b topic offset).failing fun e w s h hc => h hc.1) fun batch => Spec.assume fun hbatch => ?_
    obtain ⟨⟨hpre, hnil⟩, hprompt⟩ := hbatch
    rcases hb : batch.records with _ | ⟨r, rs⟩
    · refine Spec.pure fun w s h => ?_
      rw [hnil hb, applied_nil]
      exact ⟨rfl, h⟩
    · have hne : batch.records ≠ [] := by simp [hb]
      rw [hb] at hpre hprompt hne
      obtain ⟨rest, hrest⟩ := hpre
      have hnext := recordsFrom_offsetAfter (logs.sorted topic) hrest hne
      have hlt : offset < offsetAfter offset (r :: rs) := by
        have h1 : r ∈ recordsFrom (logs.records topic) offset := hrest ▸ by simp
        have h2 : offset ≤ r.offset := by simpa using (List.mem_filter.mp h1).2
        have h3 := lt_offsetAfter_of_mem offset (List.mem_cons_self (a := r) (l := rs))
        omega
      refine Spec.bind hC (applyBatch_spec name b (r :: rs) offset t) fun o =>
        Spec.assume fun ho => ?_
      subst ho
      rw [if_pos hlt]
      have ih := restoreLoop_spec hC hs b name topic n (offsetAfter offset (r :: rs))
        (t.applied name (r :: rs)) rfl rfl
      rw [hnext, ← applied_append, hrest] at ih
      refine ih.post (fun o w s h => ⟨?_, h.2⟩) fun e w s h hc => h ⟨hc.1, ?_⟩
      · rw [h.1, ← hrest]
        exact (List.foldl_append ..).symm
      · have hr : rest = [] := by
          have := hprompt hc.1
          rw [← hrest] at this
          simpa using this.symm
        have hc2 := hc.2
        rw [← hrest] at hc2
        simp only [rounds, hr, List.append_nil, if_neg hne, if_true] at hc2 ⊢
        omega

theorem rounds_le_two (recs : List FetchedRec) : rounds recs ≤ 2 := by
  unfold rounds
  split <;> omega

section At

variable {α : Type} {t : StreamTask P M S V} {b : Nat} {Q : α → Assn Event (TaskState E P M S V)}
  {F : StreamsClientError → Assn Event (TaskState E P M S V)}

omit [Broker E] [StateStore S V]

theorem spec_current_at {f : StreamTask P M S V → TaskM E P M S V α}
    (h : Spec C (At t b) (f t) Q F) : Spec C (At t b) (current >>= f) Q F := by
  intro w s hs hC
  obtain ⟨rfl, hb⟩ := hs
  exact h w s ⟨rfl, hb⟩ hC

theorem spec_budget_at {f : Nat → TaskM E P M S V α} (h : Spec C (At t b) (f b) Q F) :
    Spec C (At t b) (do f (← get).world.budget) Q F := by
  intro w s hs hC
  obtain ⟨hown, rfl⟩ := hs
  exact h w s ⟨hown, rfl⟩ hC

theorem spec_update_at {f : StreamTask P M S V → StreamTask P M S V} {t' : StreamTask P M S V}
    (h : f t = t') : Spec C (At (E := E) t b) (update f) (fun _ => At t' b) F :=
  spec_update fun _ _ hs => ⟨by rw [hs.1, h], hs.2⟩

end At

def replayStore (name : String) : StreamTask P M S V :=
  let topic := t.changelogTopicOf name
  let recs := recordsFrom (logs.records topic) (t.savedOffset topic)
  (t.applied name recs).withOffset topic (offsetAfter (t.savedOffset topic) recs)

def Served (level : IsolationLevel) (partition : Int) (t : StreamTask P M S V) : Prop :=
  t.partition = partition ∧ t.isolation = level

theorem restoreStore_spec (hC : PrefixClosed C) {logs : CommittedLogs} (hs : ServesAt E level partition logs)
    (b : Nat) (t : StreamTask P M S V) (name : String) :
    Spec C (fun w s => Served level partition t ∧ At (E := E) t b w s) (restoreStore name)
      (fun _ w s => Served level partition (replayStore logs t name) ∧ At (replayStore logs t name) b w s)
      fun _ _ _ => ¬ (Prompt E level partition logs ∧ 2 ≤ b) := by
  refine Spec.assume fun hserved => spec_current_at ?_
  set topic := t.changelogTopicOf name with htopic
  refine Spec.bind hC (R := fun _ => At (t.withOffset topic (t.savedOffset topic)) b)
    (spec_update_at rfl) fun _ => spec_budget_at
      (f := fun n => restoreLoop name topic n (t.savedOffset topic) >>= saveOffset topic) ?_
  have hloop := restoreLoop_spec hC hs b name topic b (t.savedOffset topic)
    (t.withOffset topic (t.savedOffset topic)) hserved.1 hserved.2
  refine Spec.bind hC (hloop.failing fun e w s h hc =>
    h ⟨hc.1, (rounds_le_two _).trans hc.2⟩) fun o => Spec.assume fun ho => ?_
  subst ho
  refine (spec_update_at ?_).post (fun _ w s h => ⟨hserved, h⟩) fun _ _ _ h => h
  simp only [replayStore, withOffset, applied, setGraph, OrdMap.insert_insert, htopic]

def replayed : StreamTask P M S V :=
  let off := t.setGraph (t.graph.setLogging false)
  let done := (StoreRegistry.names off.graph.stores).foldl (replayStore logs) off
  done.setGraph (done.graph.setLogging true)

theorem restore_spec (hC : PrefixClosed C) {logs : CommittedLogs} (hs : ServesAt E level partition logs)
    (b : Nat) (t : StreamTask P M S V) (ht : Served level partition t) :
    Spec C (At (E := E) t b) restore (fun _ => At (replayed logs t) b)
      fun _ _ _ => ¬ (Prompt E level partition logs ∧ 2 ≤ b) := by
  refine spec_span hC (Spec.bind hC (spec_update_at rfl) fun _ => spec_current_at ?_)
    fun _ _ _ h _ => h
  refine Spec.bind hC ?_ fun _ => spec_update_at rfl
  have hoff : Served level partition (t.setGraph (t.graph.setLogging false)) := ht
  exact (Spec.forM_foldl hC (I := fun t' w s => Served level partition t' ∧ At (E := E) t' b w s)
    (restoreStore_spec hC hs b) _ (t.setGraph (t.graph.setLogging false))).mono
    (fun w s h => ⟨hoff, h⟩) (fun _ w s h => h.2) fun _ _ _ h => h

theorem changelogTopicOf_append {t : StreamTask P M S V} {pre r : StoreRegistry S} {name : String}
    {s : S} (ht : t.graph.stores = pre ++ (name, s) :: r) (hn : name ∉ StoreRegistry.names pre) :
    t.changelogTopicOf name = changelogTopic s := by
  unfold changelogTopicOf
  rw [ht, OrdMap.get?_append_cons hn]

theorem foldl_replayStore (logs : CommittedLogs) :
    ∀ (r pre : StoreRegistry S) (t : StreamTask P M S V), t.graph.stores = pre ++ r →
      (StoreRegistry.names (pre ++ r)).Nodup →
      ((StoreRegistry.names r).foldl (replayStore logs) t).graph.stores
        = pre ++ (replayAll logs r t.changelogOffsets).1
  | [], pre, t, ht, _ => by simpa [replayAll, StoreRegistry.names] using ht
  | (name, s) :: r, pre, t, ht, hn => by
    have hpre : name ∉ StoreRegistry.names pre := by
      have h := List.nodup_append.mp (by simpa [StoreRegistry.names] using hn)
      intro hmem
      exact h.2.2 name hmem name List.mem_cons_self rfl
    have htopic := changelogTopicOf_append ht hpre
    set recs := recordsFrom (logs.records (changelogTopic s)) (t.savedOffset (changelogTopic s))
      with hrecs
    have hstep : (replayStore logs t name).graph.stores
        = (pre ++ [(name, applyAll s recs)]) ++ r := by
      simp only [replayStore, withOffset, applied, setGraph, htopic]
      rw [ht, OrdMap.modify_append_cons _ hpre, ← hrecs, List.append_assoc]
      rfl
    have hn' : (StoreRegistry.names ((pre ++ [(name, applyAll s recs)]) ++ r)).Nodup := by
      simpa [StoreRegistry.names] using hn
    have ih := foldl_replayStore logs r (pre ++ [(name, applyAll s recs)])
      (replayStore logs t name) hstep hn'
    have hoff : (replayStore logs t name).changelogOffsets
        = t.changelogOffsets.insert (changelogTopic s)
          (offsetAfter (t.savedOffset (changelogTopic s)) recs) := by
      simp only [replayStore, withOffset, htopic, ← hrecs]
      rfl
    rw [hoff] at ih
    show ((StoreRegistry.names r).foldl (replayStore logs) (replayStore logs t name)).graph.stores = _
    rw [ih, List.append_assoc]
    rfl

def restored (r : StoreRegistry S) (offsets : OrdMap Topic Int) : StoreRegistry S :=
  StoreRegistry.mapStores (StateStore.setLogging · true)
    (replayAll logs (StoreRegistry.mapStores (StateStore.setLogging · false) r) offsets).1

theorem replayed_stores (hn : (StoreRegistry.names t.graph.stores).Nodup) :
    (replayed logs t).graph.stores = restored logs t.graph.stores t.changelogOffsets := by
  have h := foldl_replayStore logs (StoreRegistry.mapStores (StateStore.setLogging · false)
    t.graph.stores) [] (t.setGraph (t.graph.setLogging false)) rfl (by simpa using hn)
  exact congrArg (StoreRegistry.mapStores (StateStore.setLogging · true)) h

def Rewound (b : Nat) : Assn Event (TaskState E P M S V) :=
  fun w s => ∃ positions, At { t with positions := positions, pending := [] } b w s

omit [StateStore S V] in
theorem seekPartition_spec (hC : PrefixClosed C) {logs : CommittedLogs} (t : StreamTask P M S V) (b : Nat)
    (tp : Topic × Int) :
    Spec C (Rewound (E := E) t b) (seekPartition tp) (fun _ => Rewound t b)
      fun _ _ _ => ¬ (Prompt E level partition logs ∧ 2 ≤ b) := by
  have hset : ∀ o, Spec C (Rewound (E := E) t b) (setPosition tp o) (fun _ => Rewound t b)
      fun _ _ _ => ¬ (Prompt E level partition logs ∧ 2 ≤ b) := by
    intro o
    exact Spec.elim fun positions => (spec_update_at rfl).post
      (fun _ w s h => ⟨positions.insert tp o, h⟩) fun _ _ _ h => h
  refine Spec.seq hC (Spec.onWorld fun own => World.spec_call
    (fun w s a e' h _ => h) fun w s e e' _ hop hc => ?_) fun r => ?_
  · obtain ⟨r, e'', he⟩ := hc.1.committed_ok s.env tp.1 tp.2
    rw [hop] at he
    cases he
  cases r with
  | some o => exact hset o
  | none =>
    refine Spec.seq hC (Spec.onWorld fun own => World.spec_call
      (fun w s a e' h _ => h) fun w s e e' _ hop hc => ?_) fun o => hset o
    obtain ⟨r, e'', he⟩ := hc.1.earliest_ok s.env tp.1 tp.2
    rw [hop] at he
    cases he

theorem rollback_spec (hC : PrefixClosed C) {logs : CommittedLogs} (hs : ServesAt E level partition logs)
    (b : Nat) (t : StreamTask P M S V) (ht : Served level partition t)
    (hn : (StoreRegistry.names t.graph.stores).Nodup) :
    Spec C (At (E := E) t b) rollback
      (fun _ _ s => s.own.graph.stores
        = restored logs (StoreRegistry.mapStores clear t.graph.stores) t.changelogOffsets)
      fun _ _ _ => ¬ (Prompt E level partition logs ∧ 2 ≤ b) := by
  refine spec_span hC (Spec.bind hC (R := fun _ => Rewound t b) ?_ fun _ => ?_) fun _ _ _ h _ => h
  · exact (spec_update_at rfl).post
      (fun _ w s h => ⟨t.positions, h⟩) fun _ _ _ h => h
  refine Spec.bind hC (R := fun _ => Rewound t b) ?_ fun _ => ?_
  · exact spec_span hC (spec_current fun t' => (Spec.forM hC _ fun tp _ =>
      seekPartition_spec hC t b tp).pre fun _ _ h => h.2) fun _ _ _ h _ => h
  refine Spec.elim fun positions => ?_
  have hserved : Served level partition
      { t with positions := positions, pending := [], graph := t.graph.clearStores } := ht
  refine Spec.bind hC (spec_update_at rfl) fun _ => (restore_spec hC hs b _ hserved).post
    (fun _ w s h => ?_) fun _ _ _ h => h
  rw [h.1, replayed_stores logs _ (by simpa [Graph.clearStores] using hn)]
  rfl

end StreamTask

end Refinement

section Start

variable [StateStore S V]

def startOffset (offsets : OrdMap Topic Int) (topic : Topic) : Int := (offsets.get? topic).getD 0

theorem replayAll_append (logs : CommittedLogs) :
    ∀ (pre r : StoreRegistry S) (offsets : OrdMap Topic Int),
      (replayAll logs (pre ++ r) offsets).1
        = (replayAll logs pre offsets).1 ++ (replayAll logs r (replayAll logs pre offsets).2).1
  | [], _, _ => rfl
  | (name, s) :: pre, r, offsets => by
    simp only [List.cons_append, replayAll]
    rw [replayAll_append logs pre r]

theorem length_replayAll (logs : CommittedLogs) : ∀ (r : StoreRegistry S) (offsets : OrdMap Topic Int),
    (replayAll logs r offsets).1.length = r.length
  | [], _ => rfl
  | (name, s) :: r, offsets => by
    simp only [replayAll, List.length_cons, length_replayAll logs r]

theorem startOffset_insert (offsets : OrdMap Topic Int) (topic topic' : Topic) (o : Int) :
    startOffset (offsets.insert topic o) topic' = if topic = topic' then o
      else startOffset offsets topic' := by
  unfold startOffset
  rw [OrdMap.get?_insert]
  split <;> rfl

theorem startOffset_le_replayAll (logs : CommittedLogs) (topic : Topic) :
    ∀ (r : StoreRegistry S) (offsets : OrdMap Topic Int),
      startOffset offsets topic ≤ startOffset (replayAll logs r offsets).2 topic
  | [], _ => Int.le_refl _
  | (name, s) :: r, offsets => by
    refine Int.le_trans ?_ (startOffset_le_replayAll logs topic r _)
    rw [startOffset_insert]
    split
    · rename_i h
      subst h
      exact le_offsetAfter _ _
    · exact Int.le_refl _

theorem lt_startOffset_replayAll (logs : CommittedLogs) {topic : Topic} {x : FetchedRec}
    (hx : x ∈ logs.records topic) :
    ∀ (r : StoreRegistry S) (offsets : OrdMap Topic Int),
      topic ∈ r.map (fun e => changelogTopic e.2) →
      x.offset < startOffset (replayAll logs r offsets).2 topic
  | (name, s) :: r, offsets, h => by
    simp only [List.map_cons, List.mem_cons] at h
    simp only [replayAll]
    by_cases hs : changelogTopic s = topic
    · refine Int.lt_of_lt_of_le ?_ (startOffset_le_replayAll logs topic r _)
      rw [startOffset_insert, if_pos hs, hs]
      by_cases hle : startOffset offsets topic ≤ x.offset
      · exact lt_offsetAfter_of_mem _ (List.mem_filter.mpr ⟨hx, by simpa [startOffset] using hle⟩)
      · refine Int.lt_of_lt_of_le (Int.not_le.mp hle) (le_offsetAfter _ _)
    · exact lt_startOffset_replayAll logs hx r _ (h.resolve_left fun h => hs h.symm)

theorem replayAll_of_start (logs : CommittedLogs) :
    ∀ (r : StoreRegistry S) (offsets : OrdMap Topic Int),
      (∀ e ∈ r, startOffset offsets (changelogTopic e.2) ≤ 0) →
      (r.map fun e => changelogTopic e.2).Nodup →
      (replayAll logs r offsets).1
        = r.map fun e => (e.1, applyAll e.2 (logs.records (changelogTopic e.2)))
  | [], _, _, _ => rfl
  | (name, s) :: r, offsets, hstart, hn => by
    obtain ⟨hs, hn⟩ := List.nodup_cons.mp hn
    have h0 : startOffset offsets (changelogTopic s) ≤ 0 := hstart (name, s) List.mem_cons_self
    simp only [replayAll, List.map_cons]
    rw [replayAll_of_start logs r _ ?_ hn]
    · rw [← startOffset, recordsFrom_of_le_zero logs _ h0]
    · intro e he
      have hne : changelogTopic s ≠ changelogTopic e.2 := fun h =>
        hs (List.mem_map.mpr ⟨e, he, h.symm⟩)
      rw [startOffset_insert, if_neg hne]
      exact hstart e (List.mem_cons_of_mem _ he)

theorem replayAll_at (logs : CommittedLogs) {pre pre' r r' : StoreRegistry S} {name : String} {s s' : S}
    {offsets : OrdMap Topic Int} {f g : S → S} (hlen : pre'.length = pre.length)
    (h : StoreRegistry.mapStores f (replayAll logs (pre' ++ (name, s') :: r') offsets).1
      = StoreRegistry.mapStores g (pre ++ (name, s) :: r)) :
    f (applyAll s' (recordsFrom (logs.records (changelogTopic s'))
      (startOffset (replayAll logs pre' offsets).2 (changelogTopic s')))) = g s := by
  unfold StoreRegistry.mapStores at h
  rw [replayAll_append, List.map_append, List.map_append] at h
  have h2 := (List.append_inj h (by simp [length_replayAll, hlen])).2
  simp only [replayAll, List.map_cons, List.cons.injEq, Prod.mk.injEq] at h2
  exact h2.1.2

def singleLog (x : FetchedRec) (hx : x.offset = 0) : CommittedLogs where
  records topic' := if topic' = topic then [x] else []
  sorted topic' := by split <;> simp
  nonneg topic' r hr := by
    split at hr
    · exact (List.mem_singleton.mp hr) ▸ hx.ge
    · simp at hr

theorem mem_singleLog (x : FetchedRec) (hx : x.offset = 0) : x ∈ (singleLog topic x hx).records topic := by
  simp [singleLog]

theorem recordsFrom_singleLog {topic : Topic} {x : FetchedRec} (hx : x.offset = 0) {offset : Int}
    (h : 0 < offset) : recordsFrom ((singleLog topic x hx).records topic) offset = [] := by
  have : ¬ offset ≤ x.offset := by omega
  simp [singleLog, recordsFrom, this]

theorem nodup_of_fresh {α : Type} {l : List α} (h : ∀ pre x post, l = pre ++ x :: post → x ∉ pre) :
    l.Nodup := by
  induction l using List.reverseRecOn with
  | nil => exact List.nodup_nil
  | append_singleton l x ih =>
    refine List.nodup_append.mpr ⟨ih fun pre y post hl => ?_, List.nodup_singleton x, ?_⟩
    · exact h pre y (post ++ [x]) (by rw [hl]; simp)
    · intro a ha b hb hab
      rw [List.mem_singleton.mp hb] at hab
      exact h l x [] rfl (hab ▸ ha)

variable [LawfulStateStore S]

@[simp] theorem topic_wiped (s : S) : changelogTopic (wiped s) = changelogTopic s := by
  simp [wiped]

theorem topics_mapStores_wiped (r : StoreRegistry S) :
    ((StoreRegistry.mapStores wiped r).map fun e => changelogTopic e.2)
      = r.map fun e => changelogTopic e.2 := by
  unfold StoreRegistry.mapStores
  rw [List.map_map]
  exact List.map_congr_left fun e _ => topic_wiped e.2

theorem startOffset_le_zero_of_rebuilds {pre r : StoreRegistry S} {name : String} {s : S}
    {offsets : OrdMap Topic Int}
    (h : ∀ logs : CommittedLogs, StoreRegistry.mapStores (setLogging · true)
        (replayAll logs (StoreRegistry.mapStores wiped (pre ++ (name, s) :: r)) offsets).1
      = StoreRegistry.mapStores (fun s => rebuilt s (logs.records (changelogTopic s)))
        (pre ++ (name, s) :: r)) :
    startOffset offsets (changelogTopic s) ≤ 0 ∧
      changelogTopic s ∉ pre.map fun e => changelogTopic e.2 := by
  obtain ⟨k, v, ts, hkept⟩ := LawfulStateStore.apply_kept s
  set x : FetchedRec := ⟨0, some k, v, ts⟩ with hx
  set logs := singleLog (changelogTopic s) x rfl with hlogs
  set before := StoreRegistry.mapStores wiped pre with hbefore
  have hl := h logs
  have hsplit : StoreRegistry.mapStores wiped (pre ++ (name, s) :: r)
      = before ++ (name, wiped s) :: StoreRegistry.mapStores wiped r := List.map_append
  rw [hsplit] at hl
  have hlen : before.length = pre.length := List.length_map _
  have hat := replayAll_at logs hlen hl
  rw [topic_wiped] at hat
  have hstart : startOffset (replayAll logs before offsets).2 (changelogTopic s) ≤ 0 := by
    by_contra hpos
    rw [hlogs, recordsFrom_singleLog (x := x) rfl (Int.not_le.mp hpos)] at hat
    exact hkept (by simpa [rebuilt, wiped, singleLog, applyAll, hx] using hat.symm)
  refine ⟨Int.le_trans (startOffset_le_replayAll logs _ before offsets) hstart, fun hmem => ?_⟩
  have hmem' : changelogTopic s ∈ before.map fun e => changelogTopic e.2 := by
    rwa [hbefore, topics_mapStores_wiped]
  have := lt_startOffset_replayAll logs (mem_singleLog _ x rfl) before offsets hmem'
  exact absurd hstart (Int.not_le.mpr this)

theorem restored_rebuilds_iff (r : StoreRegistry S) (offsets : OrdMap Topic Int) :
    (∀ logs : CommittedLogs, StreamTask.restored logs (StoreRegistry.mapStores clear r) offsets
      = r.map fun e => (e.1, rebuilt e.2 (logs.records (changelogTopic e.2)))) ↔
    (∀ e ∈ r, startOffset offsets (changelogTopic e.2) ≤ 0) ∧
      (r.map fun e => changelogTopic e.2).Nodup := by
  have hwipe : ∀ logs, StreamTask.restored logs (StoreRegistry.mapStores clear r) offsets
      = StoreRegistry.mapStores (setLogging · true)
        (replayAll logs (StoreRegistry.mapStores wiped r) offsets).1 := by
    intro logs
    unfold StreamTask.restored
    simp only [StoreRegistry.mapStores, List.map_map]
    rfl
  simp only [hwipe]
  constructor
  · intro h
    constructor
    · intro e he
      obtain ⟨pre, post, rfl⟩ := List.append_of_mem he
      exact (startOffset_le_zero_of_rebuilds h).1
    · refine nodup_of_fresh fun pre x post hl => ?_
      obtain ⟨pre', rest, rfl, rfl, hrest⟩ := List.map_eq_append_iff.mp hl
      obtain ⟨e, post', rfl, rfl, rfl⟩ := List.map_eq_cons_iff.mp hrest
      exact (startOffset_le_zero_of_rebuilds h).2
  · rintro ⟨hstart, hn⟩ logs
    rw [replayAll_of_start logs]
    · simp [StoreRegistry.mapStores, rebuilt]
    · intro e he
      obtain ⟨e', he', rfl⟩ := List.mem_map.mp he
      simpa using hstart e' he'
    · rwa [topics_mapStores_wiped]

end Start

@[reducible] def servingBroker : Broker Unit where
  fetch e topic _ offset _ := (.ok ⟨recordsFrom (logs.records topic) offset⟩, e)
  partitions e _ := (.ok [0], e)
  committed e _ _ := (.ok none, e)
  earliest e _ _ := (.ok 0, e)
  latest e topic _ := (.ok (offsetAfter 0 (logs.records topic)), e)
  commit e _ := (.ok (), e)
  enqueue e _ := (.ok (), e)
  flushInner e := (.ok (), e)
  awaitDelivery e _ := (.ok (), e)
  initTransactions e := (.ok (), e)
  beginTransaction e := (.ok (), e)
  sendOffsets e _ := (.ok (), e)
  commitTransaction e := (.ok (), e)
  abortTransaction e := (.ok (), e)
  completeCutsAfter e _ _ := (.ok [], e)
  saveSnapshot e _ _ := (.ok (), e)
  nowMs e := (0, e)

theorem servingBroker_prompt (level : IsolationLevel) (partition : Int) :
    @Prompt Unit (servingBroker logs) level partition logs :=
  letI := servingBroker logs
  ⟨fun e _ _ => ⟨e, rfl⟩, fun e _ _ => ⟨_, e, rfl⟩, fun e _ _ => ⟨_, e, rfl⟩⟩

def servedWorld : World Unit := ⟨(), .transactional true, true, 0, 2⟩

variable [StateStore S V] [LawfulStateStore S]

theorem prefixClosed_true : PrefixClosed fun _ : List Event => True := fun _ _ _ => trivial

/-- An exactly-once rollback rebuilds the committed stores, for every content of the changelogs,
exactly for the tasks whose saved offsets stand at the start of the logs, one topic a store. -/
theorem rollbackRebuilds_iff_startsAtLogStart {t : StreamTask P M S V}
    (hg : t.guarantee = .exactlyOnceV2) (hn : (StoreRegistry.names t.graph.stores).Nodup) :
    RollbackRebuilds t ↔ StartsAtLogStart t := by
  refine Iff.trans ?_ (restored_rebuilds_iff t.graph.stores t.changelogOffsets)
  have hread : t.isolation = .readCommitted := by simp [StreamTask.isolation, hg]
  constructor
  · intro h logs
    let _ := servingBroker logs
    have hp : Prompt Unit .readCommitted t.partition logs := servingBroker_prompt logs _ t.partition
    have hspec := StreamTask.rollback_spec prefixClosed_true hp.serves 2 t ⟨rfl, hread⟩ hn
    rcases hx : StreamTask.rollback.result (⟨t, servedWorld⟩ : TaskState Unit P M S V) with e | u
    · exact absurd ⟨hp, Nat.le_refl 2⟩ (hspec.of_error (w := []) ⟨rfl, rfl⟩ trivial hx)
    · rw [← hspec.of_ok (w := []) ⟨rfl, rfl⟩ trivial hx]
      exact h Unit servedWorld logs hp.serves hx
  · intro h E _ w logs hs hok
    have hat : ServesAt E .readCommitted t.partition logs := hs
    have hspec := StreamTask.rollback_spec prefixClosed_true hat w.budget t ⟨rfl, hread⟩ hn
    rw [hspec.of_ok (w := []) ⟨rfl, rfl⟩ trivial hok, h logs]

section Sample

def countsTask : StreamTask Relay Unit (KeyValueBytesStore Bytes) (Value Bytes) :=
  .new "0" (relayGraph [] [] []
    [("counts", .inMemory "counts" bytesSerde bytesSerde "app-counts-changelog")] [])
    [⟨"in", 0⟩] .active .exactlyOnceV2

theorem offset_firstRecord : (⟨0, some [97], some [1], 5⟩ : FetchedRec).offset = 0 := rfl

def countsLog : CommittedLogs := singleLog "app-counts-changelog" ⟨0, some [97], some [1], 5⟩ offset_firstRecord

def restoredCounts : StreamTask Relay Unit (KeyValueBytesStore Bytes) (Value Bytes) :=
  let _ := servingBroker countsLog
  (StreamTask.restore.final (⟨countsTask, servedWorld⟩ : TaskState Unit _ _ _ _)).own

theorem rollbackRebuilds_countsTask : RollbackRebuilds countsTask :=
  (rollbackRebuilds_iff_startsAtLogStart rfl (by decide)).mpr ⟨by decide, by decide⟩

theorem not_rollbackRebuilds_restoredCounts : ¬ RollbackRebuilds restoredCounts := by
  intro h
  let _ := servingBroker countsLog
  have hs := h Unit servedWorld countsLog (servingBroker_prompt countsLog .readCommitted 0).serves rfl
  have hget := congrArg (List.map fun e => e.2.backing.get [97]) hs
  exact absurd hget (by decide)

end Sample

end KrabkaStreams
