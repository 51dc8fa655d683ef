import KrabkaStreams.GlobalTopics
import KrabkaStreams.Proofs.Cache
import KrabkaStreams.Proofs.Restore

/-!
# Global stores and their topics

A batch read at a resume offset is the next part of the log (`filter_lt_offsetAfter`), so it moves a
store from one fold to the next (`GrowingLogs.Folds.batch`), as long as it reaches every store that
reads the topic.
-/

namespace KrabkaStreams

open Effect

section Records

variable {log b : List FetchedRec} {offset : Int}

theorem filter_lt_append_recordsFrom : ∀ {log : List FetchedRec}, (log.Pairwise fun a b => a.offset < b.offset) →
    ∀ offset, log.filter (fun r => r.offset < offset) ++ recordsFrom log offset = log
  | [], _, _ => rfl
  | r :: log, hs, offset => by
    obtain ⟨hr, htail⟩ := List.pairwise_cons.mp hs
    by_cases h : r.offset < offset
    · have hrest := filter_lt_append_recordsFrom htail offset
      simp only [recordsFrom] at hrest ⊢
      simp [h, hrest]
    · have hlow : (r :: log).filter (fun r => decide (r.offset < offset)) = [] := by
        refine List.filter_eq_nil_iff.mpr fun r' hr' => ?_
        rcases List.mem_cons.mp hr' with rfl | hr'
        · simpa using h
        · have := hr r' hr'
          simp only [decide_eq_true_eq]
          omega
      have hhigh : recordsFrom (r :: log) offset = r :: log := by
        refine List.filter_eq_self.mpr fun r' hr' => ?_
        rcases List.mem_cons.mp hr' with rfl | hr'
        · simpa using h
        · have := hr r' hr'
          simp only [decide_eq_true_eq]
          omega
      rw [hlow, hhigh, List.nil_append]

theorem filter_lt_offsetAfter (hs : log.Pairwise fun a b => a.offset < b.offset) (hb : b <+: recordsFrom log offset) :
    log.filter (fun r => r.offset < offsetAfter offset b) = log.filter (fun r => r.offset < offset) ++ b := by
  rcases b with _ | ⟨r, b⟩
  · exact (List.append_nil _).symm
  · obtain ⟨rest, hrest⟩ := hb
    have hafter := recordsFrom_offsetAfter hs hrest (List.cons_ne_nil r b)
    have hnow := filter_lt_append_recordsFrom hs offset
    have hnext := filter_lt_append_recordsFrom hs (offsetAfter offset (r :: b))
    rw [hafter] at hnext
    rw [← hrest, ← List.append_assoc] at hnow
    exact List.append_cancel_right (hnext.trans hnow.symm)

theorem offsetAfter_eq : ∀ (b : List FetchedRec) (offset : Int),
    offsetAfter offset b = offset ∨ ∃ r ∈ b, r.offset + 1 = offsetAfter offset b
  | [], _ => .inl rfl
  | r :: b, offset => by
    have hcons : offsetAfter offset (r :: b) = offsetAfter (max offset (r.offset + 1)) b := rfl
    rw [hcons]
    rcases offsetAfter_eq b (max offset (r.offset + 1)) with h | ⟨r', hr', h⟩
    · by_cases hle : r.offset + 1 ≤ offset
      · exact .inl (h.trans (max_eq_left hle))
      · refine .inr ⟨r, List.mem_cons_self, ?_⟩
        rw [h]
        omega
    · exact .inr ⟨r', List.mem_cons_of_mem r hr', h⟩

theorem foldRecords_append (m : SortedMap Bytes Bytes) (recs recs' : List FetchedRec) :
    foldRecords m (recs ++ recs') = foldRecords (foldRecords m recs) recs' :=
  List.foldl_append

theorem foldRecords_cons (m : SortedMap Bytes Bytes) (r : FetchedRec) (recs : List FetchedRec) :
    foldRecords m (r :: recs) = foldRecords (putOrDelete m (r.key.getD []) r.value) recs := rfl

theorem get?_foldRecords_of_ne {k : Bytes} : ∀ {recs : List FetchedRec} (m : SortedMap Bytes Bytes),
    (∀ r ∈ recs, r.key.getD [] ≠ k) → (foldRecords m recs).get? k = m.get? k
  | [], _, _ => rfl
  | r :: recs, m, h => by
    rw [foldRecords_cons, get?_foldRecords_of_ne _ fun r' hr' => h r' (List.mem_cons_of_mem r hr'),
      get?_putOrDelete, if_neg (h r List.mem_cons_self)]

theorem get?_foldRecords_of_mem {k : Bytes} : ∀ {recs : List FetchedRec} (m m' : SortedMap Bytes Bytes),
    (∃ r ∈ recs, r.key.getD [] = k) → (foldRecords m recs).get? k = (foldRecords m' recs).get? k
  | r :: recs, m, m', h => by
    rw [foldRecords_cons, foldRecords_cons]
    by_cases hlater : ∃ r' ∈ recs, r'.key.getD [] = k
    · exact get?_foldRecords_of_mem _ _ hlater
    · have hne : ∀ r' ∈ recs, r'.key.getD [] ≠ k := fun r' hr' he => hlater ⟨r', hr', he⟩
      obtain ⟨r', hr', hk⟩ := h
      rcases List.mem_cons.mp hr' with rfl | hr'
      · rw [get?_foldRecords_of_ne _ hne, get?_foldRecords_of_ne _ hne, get?_putOrDelete, get?_putOrDelete,
          if_pos hk, if_pos hk]
      · exact absurd hk (hne r' hr')

end Records

namespace GrowingLogs

variable {E : Type} [Broker E] {logs : GrowingLogs E} {e e' : E} {topic t : Topic} {p o : Int}
  {offsets : OrdMap (Topic × Int) Int} {m : SortedMap Bytes Bytes} {b : List FetchedRec}

/-- Every resume offset is the start of the log, or right after a record of it. -/
def Marks (logs : GrowingLogs E) (e : E) (offsets : OrdMap (Topic × Int) Int) : Prop :=
  ∀ topic p o, offsets.get? (topic, p) = some o → o = 0 ∨ ∃ r ∈ logs.records e topic p, r.offset + 1 = o

theorem upTo_zero (e : E) (topic : Topic) (p : Int) : logs.upTo e topic p 0 = [] := by
  refine List.filter_eq_nil_iff.mpr fun r hr => ?_
  have := logs.nonneg e topic p r hr
  simp only [decide_eq_true_eq]
  omega

theorem upTo_grows (hg : logs.Grows e e') (ho : o = 0 ∨ ∃ r ∈ logs.records e topic p, r.offset + 1 = o) :
    logs.upTo e' topic p o = logs.upTo e topic p o := by
  rcases ho with rfl | ⟨r, hr, ho⟩
  · rw [upTo_zero, upTo_zero]
  · obtain ⟨ext, hext⟩ := hg topic p
    have hsorted := logs.sorted e' topic p
    rw [← hext] at hsorted
    have hnew : ext.filter (fun r => decide (r.offset < o)) = [] := by
      refine List.filter_eq_nil_iff.mpr fun r' hr' => ?_
      have := (List.pairwise_append.mp hsorted).2.2 r hr r' hr'
      simp only [decide_eq_true_eq]
      omega
    unfold upTo
    rw [← hext, List.filter_append, hnew, List.append_nil]

theorem Marks.grows (h : logs.Marks e offsets) (hg : logs.Grows e e') : logs.Marks e' offsets := by
  intro topic p o ho
  rcases h topic p o ho with h0 | ⟨r, hr, hro⟩
  · exact .inl h0
  · exact .inr ⟨r, (hg topic p).subset hr, hro⟩

theorem Marks.insert (h : logs.Marks e offsets)
    (ho : o = 0 ∨ ∃ r ∈ logs.records e t p, r.offset + 1 = o) : logs.Marks e (offsets.insert (t, p) o) := by
  intro topic q o' ho'
  rw [OrdMap.get?_insert] at ho'
  split at ho'
  · rename_i heq
    cases heq
    cases ho'
    exact ho
  · exact h topic q o' ho'

theorem Folds.grows (h : logs.Folds e offsets topic m) (hm : logs.Marks e offsets) (hg : logs.Grows e e') :
    logs.Folds e' offsets topic m := by
  intro k v
  rw [h k v]
  refine exists_congr fun p => exists_congr fun o => and_congr_right fun ho => ?_
  rw [upTo_grows hg (hm topic p o ho)]

theorem Folds.fresh (h : logs.Folds e offsets topic m) (hn : offsets.get? (t, p) = none) :
    logs.Folds e (offsets.insert (t, p) 0) topic m := by
  intro k v
  rw [h k v]
  refine exists_congr fun q => exists_congr fun o => ?_
  rw [OrdMap.get?_insert]
  by_cases heq : (t, p) = (topic, q)
  · rw [heq] at hn
    rw [hn, if_pos heq]
    constructor
    · rintro ⟨ho, -⟩
      cases ho
    · rintro ⟨ho, hv⟩
      cases ho
      rw [upTo_zero] at hv
      cases hv
  · rw [if_neg heq]

theorem Folds.elsewhere (h : logs.Folds e offsets topic m) (hne : t ≠ topic) :
    logs.Folds e (offsets.insert (t, p) o) topic m := by
  intro k v
  rw [h k v]
  refine exists_congr fun q => exists_congr fun o' => ?_
  rw [OrdMap.get?_insert_of_ne fun heq => hne (Prod.ext_iff.mp heq).1]

theorem fold_eq_none {k : Bytes} {q : Int} (h : ∀ r ∈ logs.records e topic q, r.key.getD [] ≠ k) :
    (foldRecords .empty (logs.upTo e topic q o)).get? k = none := by
  rw [get?_foldRecords_of_ne]
  · rfl
  · exact fun r hr => h r (List.mem_filter.mp hr).1

theorem Folds.batch (h : logs.Folds e offsets topic m) (ho : offsets.get? (topic, p) = some o)
    (hb : b <+: recordsFrom (logs.records e topic p) o) :
    logs.Folds e (offsets.insert (topic, p) (offsetAfter o b)) topic (foldRecords m b) := by
  have hup : logs.upTo e topic p (offsetAfter o b) = logs.upTo e topic p o ++ b :=
    filter_lt_offsetAfter (logs.sorted e topic p) hb
  have hself : (offsets.insert (topic, p) (offsetAfter o b)).get? (topic, p) = some (offsetAfter o b) :=
    OrdMap.get?_insert_self _ _ _
  have hother : ∀ q, q ≠ p →
      (offsets.insert (topic, p) (offsetAfter o b)).get? (topic, q) = offsets.get? (topic, q) :=
    fun q hq => OrdMap.get?_insert_of_ne fun heq => hq (Prod.ext_iff.mp heq).2.symm
  intro k v
  by_cases hk : ∃ r ∈ b, r.key.getD [] = k
  · have hfold : (foldRecords m b).get? k = (foldRecords .empty (logs.upTo e topic p (offsetAfter o b))).get? k := by
      rw [hup, foldRecords_append]
      exact get?_foldRecords_of_mem _ _ hk
    constructor
    · exact fun hv => ⟨p, _, hself, hfold ▸ hv⟩
    · rintro ⟨q, o', ho', hv⟩
      by_cases hq : q = p
      · subst hq
        rw [hself] at ho'
        cases ho'
        exact hfold.trans hv
      · -- The key lives in partition `p`, so the fold of any other partition lacks it.
        obtain ⟨r, hr, hkr⟩ := hk
        have hin : r ∈ logs.records e topic p := (List.mem_filter.mp (hb.subset hr)).1
        rw [fold_eq_none fun r' hr' he => hq (logs.keyed e topic q p r' hr' r hin (he.trans hkr.symm))] at hv
        cases hv
  · have hne : ∀ r ∈ b, r.key.getD [] ≠ k := fun r hr he => hk ⟨r, hr, he⟩
    have hsame : (foldRecords .empty (logs.upTo e topic p (offsetAfter o b))).get? k
        = (foldRecords .empty (logs.upTo e topic p o)).get? k := by
      rw [hup, foldRecords_append, get?_foldRecords_of_ne _ hne]
    rw [get?_foldRecords_of_ne _ hne, h k v]
    refine exists_congr fun q => ?_
    by_cases hq : q = p
    · subst hq
      rw [hself, ho]
      simp [hsame]
    · rw [hother q hq]

end GrowingLogs

variable {topic : Topic} {base : OrdMap (Topic × Int) Int} {name : String}

namespace Globals

variable {E A : Type} [Broker E] {logs : GrowingLogs E} {topics : OrdMap String Topic}
  {offsets : OrdMap (Topic × Int) Int} {s : Shared (Globals (KeyValueBytesStore A)) (World E)}

/-- All stores are the folds of their topics up to `offsets`. -/
structure Follows (logs : GrowingLogs E) (topics : OrdMap String Topic) (offsets : OrdMap (Topic × Int) Int)
    (s : Shared (Globals (KeyValueBytesStore A)) (World E)) : Prop where
  topics_eq : s.own.topics = topics
  marks : logs.Marks s.world.env offsets
  folds : ∀ name topic, (name, topic) ∈ topics → ∃ store m, s.own.stores.get? name = some store ∧
    store.backing = .plain m ∧ logs.Folds s.world.env offsets topic m

theorem Follows.grows (h : Follows logs topics offsets s) {w : World E} (hg : logs.Grows s.world.env w.env) :
    Follows logs topics offsets ⟨s.own, w⟩ where
  topics_eq := h.topics_eq
  marks := h.marks.grows hg
  folds name topic hmem := by
    obtain ⟨store, m, hstore, hm, hfolds⟩ := h.folds name topic hmem
    exact ⟨store, m, hstore, hm, hfolds.grows h.marks hg⟩

theorem Follows.fresh (h : Follows logs topics offsets s) {tp : Topic × Int} (hn : offsets.get? tp = none) :
    Follows logs topics (offsets.insert tp 0) s where
  topics_eq := h.topics_eq
  marks := h.marks.insert (.inl rfl)
  folds name topic hmem := by
    obtain ⟨store, m, hstore, hm, hfolds⟩ := h.folds name topic hmem
    exact ⟨store, m, hstore, hm, hfolds.fresh hn⟩

theorem eq_of_topic {name name' : String} (hone : topics.values.Nodup) (h : (name, topic) ∈ topics)
    (h' : (name', topic) ∈ topics) : name = name' :=
  (Prod.ext_iff.mp (List.inj_on_of_nodup_map hone h h' rfl)).1

theorem backing_applyAll : ∀ (recs : List FetchedRec) {store : KeyValueBytesStore A} {m : SortedMap Bytes Bytes},
    store.backing = .plain m → (StateStore.applyAll store recs).backing = .plain (foldRecords m recs)
  | [], _, _, h => h
  | r :: recs, store, m, h => by
    rw [StateStore.applyAll_cons, foldRecords_cons]
    refine backing_applyAll recs ?_
    show store.backing.apply (r.key.getD []) r.value = _
    rw [h]
    rfl

def applied (s : Shared (Globals (KeyValueBytesStore A)) (World E)) (name : String) (recs : List FetchedRec) : Shared (Globals (KeyValueBytesStore A)) (World E) :=
  ⟨{ s.own with stores := s.own.stores.modify name fun store => StateStore.applyAll store recs }, s.world⟩

theorem Follows.batch (h : Follows logs topics offsets s) (hone : topics.values.Nodup)
    (hkeys : topics.keys.Nodup) {p o : Int} {b : List FetchedRec} (hmem : (name, topic) ∈ topics)
    (ho : offsets.get? (topic, p) = some o) (hb : b <+: recordsFrom (logs.records s.world.env topic p) o) :
    Follows logs topics (offsets.insert (topic, p) (offsetAfter o b)) (applied s name b) where
  topics_eq := h.topics_eq
  marks := by
    refine h.marks.insert ?_
    rcases offsetAfter_eq b o with heq | ⟨r, hr, hro⟩
    · rw [heq]
      exact h.marks topic p o ho
    · exact .inr ⟨r, (List.mem_filter.mp (hb.subset hr)).1, hro⟩
  folds name' topic' hmem' := by
    obtain ⟨store, m, hstore, hm, hfolds⟩ := h.folds name' topic' hmem'
    have hget : (applied s name b).own.stores.get? name'
        = if name = name' then (s.own.stores.get? name').map fun store => StateStore.applyAll store b
          else s.own.stores.get? name' := OrdMap.get?_modify _ _ _ _
    by_cases hn : name = name'
    · subst hn
      have htopic : topic' = topic :=
        Option.some.inj ((OrdMap.get?_of_mem hkeys hmem').symm.trans (OrdMap.get?_of_mem hkeys hmem))
      subst htopic
      rw [if_pos rfl, hstore] at hget
      exact ⟨_, _, hget, backing_applyAll b hm, hfolds.batch ho hb⟩
    · rw [if_neg hn] at hget
      refine ⟨store, m, hget.trans hstore, hm, hfolds.elsewhere ?_⟩
      rintro rfl
      exact hn (eq_of_topic hone hmem hmem')

section Rules

variable {C : List Event → Prop} (hC : PrefixClosed C) (hone : topics.values.Nodup) (hkeys : topics.keys.Nodup)

theorem fetch_spec (logs : GrowingLogs E) (topics : OrdMap String Topic) (offsets : OrdMap (Topic × Int) Int)
    (N : Globals (KeyValueBytesStore A) → Prop) (topic : Topic) (p o : Int) :
    Spec C (fun _ s => N s.own ∧ Follows logs topics offsets s) (fetch topic p o)
      (fun b _ s => b.records <+: recordsFrom (logs.records s.world.env topic p) o ∧
        N s.own ∧ Follows logs topics offsets s)
      fun _ _ s => N s.own ∧ Follows logs topics offsets s := by
  have hgrows : ∀ e : E, logs.Grows e (Broker.fetch e topic p o .readUncommitted).2 :=
    fun e t q => logs.fetch_grows e topic p o .readUncommitted t q
  refine Spec.onWorld fun g => World.spec_call (fun h w b e' hs hop => ?_) fun h w err e' hs hop => ?_
  · have hg := hgrows w.env
    have hserves := logs.fetch_serves w.env topic p o .readUncommitted b (congrArg Prod.fst hop)
    rw [hop] at hg hserves
    exact ⟨hserves, hs.1, hs.2.grows hg⟩
  · have hg := hgrows w.env
    rw [hop] at hg
    exact ⟨hs.1, hs.2.grows hg⟩

include hC hone hkeys

theorem bootstrapLoop_spec {p : Int} (hmem : (name, topic) ∈ topics) :
    ∀ (n : Nat) (o : Int),
      Spec C (fun _ s => Follows logs topics (offsets.insert (topic, p) o) s)
        (bootstrapLoop (S := KeyValueBytesStore A) name topic p n o)
        (fun o' _ s => Follows logs topics (offsets.insert (topic, p) o') s) fun _ _ _ => True
  | 0, _ => Spec.throw fun _ _ _ => trivial
  | n + 1, o => by
    refine Spec.bind hC (((fetch_spec logs topics _ (fun _ => True) topic p o).pre fun _ _ h => ⟨trivial, h⟩).failing fun _ _ _ _ => trivial) fun batch => ?_
    rcases hb : batch.records with _ | ⟨r, rs⟩
    · exact Spec.pure fun _ _ h => h.2.2
    · refine Spec.bind hC (R := fun _ _ s =>
        Follows logs topics (offsets.insert (topic, p) (offsetAfter o (r :: rs))) s) ?_ fun _ => ?_
      · intro w s hs _
        have hnext := hs.2.2.batch hone hkeys hmem (OrdMap.get?_insert_self _ _ _) hs.1
        rw [OrdMap.insert_insert] at hnext
        exact hnext
      · exact Spec.ite (fun _ => bootstrapLoop_spec hmem n _) fun _ => Spec.pure fun _ _ h => h

theorem bootstrapPartition_spec (hmem : (name, topic) ∈ topics) {offsets : OrdMap (Topic × Int) Int} {p : Int}
    (hn : offsets.get? (topic, p) = none) :
    Spec C (fun _ s => Follows logs topics offsets s) (bootstrapPartition (S := KeyValueBytesStore A) name topic offsets p)
      (fun offsets' _ s => (∃ o, offsets' = offsets.insert (topic, p) o) ∧ Follows logs topics offsets' s)
      fun _ _ _ => True := by
  refine Spec.get fun t => Spec.bind hC ((bootstrapLoop_spec hC hone hkeys hmem t.world.budget 0).pre
    fun _ _ h => h.2.fresh hn) fun o => Spec.pure fun _ _ h => ⟨⟨o, rfl⟩, h⟩

/-- The partitions `rest` of a topic are different and still to be read; other topics are as in `base`. -/
structure Ahead (base : OrdMap (Topic × Int) Int) (topic : Topic) (rest : List Int) (offsets : OrdMap (Topic × Int) Int) :
    Prop where
  nodup : rest.Nodup
  fresh : ∀ p ∈ rest, offsets.get? (topic, p) = none
  others : ∀ t p, t ≠ topic → offsets.get? (t, p) = base.get? (t, p)

omit [Broker E] hC hone hkeys in
theorem Ahead.next {p o : Int} {rest : List Int} (h : Ahead base topic (p :: rest) offsets) :
    Ahead base topic rest (offsets.insert (topic, p) o) where
  nodup := (List.nodup_cons.mp h.nodup).2
  fresh q hq := by
    have hne : p ≠ q := by
      rintro rfl
      exact (List.nodup_cons.mp h.nodup).1 hq
    rw [OrdMap.get?_insert_of_ne fun heq => hne (Prod.ext_iff.mp heq).2]
    exact h.fresh q (List.mem_cons_of_mem p hq)
  others t q ht := by
    rw [OrdMap.get?_insert_of_ne fun heq => ht (Prod.ext_iff.mp heq).1.symm]
    exact h.others t q ht

theorem bootstrapStore_spec {entry : String × Topic} (hmem : entry ∈ topics)
    (hfresh : ∀ p, base.get? (entry.2, p) = none) :
    Spec C (fun _ s => Follows logs topics base s) (bootstrapStore (S := KeyValueBytesStore A) base entry)
      (fun offsets _ s => Ahead base entry.2 [] offsets ∧ Follows logs topics offsets s) fun _ _ _ => True := by
  refine Spec.bind hC (R := fun ps _ s => ps.Nodup ∧ Follows logs topics base s)
    (Spec.onWorld fun g => World.spec_call (fun h w ps e' hs hop => ?_) fun _ _ _ _ _ _ => trivial)
    fun ps => Spec.assume fun hps => ?_
  · have hg : logs.Grows w.env (Broker.partitions w.env entry.2).2 := fun t q => logs.partitions_grows w.env entry.2 t q
    have hnodup := logs.partitions_nodup w.env entry.2 ps (congrArg Prod.fst hop)
    rw [hop] at hg
    exact ⟨hnodup, hs.grows hg⟩
  · refine (Spec.foldlM_rest hC
      (I := fun rest offsets _ s => Ahead base entry.2 rest offsets ∧ Follows logs topics offsets s) ?_ ps base).pre
      fun _ _ h => ⟨⟨hps, fun p _ => hfresh p, fun _ _ _ => rfl⟩, h⟩
    intro p rest offsets
    refine Spec.assume fun hahead => ?_
    refine (bootstrapPartition_spec hC hone hkeys hmem (hahead.fresh p List.mem_cons_self)).post ?_
      fun _ _ _ h => h
    rintro offsets' _ _ ⟨⟨o, rfl⟩, h⟩
    exact ⟨hahead.next, h⟩

/-- The stores `rest` are of different topics, none of which was read yet. -/
structure Unread (topics rest : OrdMap String Topic) (offsets : OrdMap (Topic × Int) Int) : Prop where
  nodup : rest.values.Nodup
  subset : rest ⊆ topics
  fresh : ∀ e ∈ rest, ∀ p, offsets.get? (e.2, p) = none

omit [Broker E] hC hone hkeys in
theorem Unread.next {entry : String × Topic} {rest : OrdMap String Topic}
    (h : Unread topics (entry :: rest) base) (ha : Ahead base entry.2 [] offsets) :
    Unread topics rest offsets where
  nodup := (List.nodup_cons.mp h.nodup).2
  subset := fun _ he => h.subset (List.mem_cons_of_mem entry he)
  fresh e he p := by
    have hne : e.2 ≠ entry.2 := fun heq =>
      (List.nodup_cons.mp h.nodup).1 (heq ▸ List.mem_map_of_mem he)
    rw [ha.others e.2 p hne]
    exact h.fresh e (List.mem_cons_of_mem entry he) p

theorem bootstrap_spec :
    Spec C (fun _ s => Follows logs topics [] s) (bootstrap (E := E) (S := KeyValueBytesStore A))
      (fun _ _ s => Follows logs topics s.own.offsets s) fun _ _ _ => True := by
  refine Spec.get fun t => ?_
  by_cases ht : t.own.topics = topics
  · rw [ht]
    refine Spec.bind hC (R := fun offsets _ s => Follows logs topics offsets s) ?_ fun offsets =>
      Spec.modify fun _ s h => ⟨h.topics_eq, h.marks, h.folds⟩
    refine ((Spec.foldlM_rest hC
      (I := fun rest offsets _ s => Unread topics rest offsets ∧ Follows logs topics offsets s) ?_ topics []).pre
      fun _ _ h => ⟨⟨hone, fun _ h => h, fun _ _ _ => rfl⟩, h.2⟩).post (fun _ _ _ h => h.2) fun _ _ _ h => h
    intro entry rest base
    refine Spec.assume fun hunread => ?_
    exact (bootstrapStore_spec hC hone hkeys (hunread.subset List.mem_cons_self)
      (hunread.fresh entry List.mem_cons_self)).post (fun _ _ _ h => ⟨hunread.next h.1, h.2⟩) fun _ _ _ h => h
  · refine Spec.vacuous fun _ s h => ht ?_
    rw [← h.1]
    exact h.2.topics_eq

omit [Broker E] hC hone hkeys in
theorem mem_of_topicToStore {g : Globals (KeyValueBytesStore A)} (h : g.topicToStore topic = some name) :
    (name, topic) ∈ g.topics := by
  obtain ⟨e, he, rfl⟩ := Option.map_eq_some_iff.mp h
  have htopic : e.2 = topic := by simpa using List.find?_some he
  have hmem := List.mem_reverse.mp (List.mem_of_find?_eq_some he)
  rwa [← htopic]

/-- The stores follow the offsets of the state, and each of `tps` is one of them. -/
def Polled (logs : GrowingLogs E) (topics : OrdMap String Topic) (tps : List (Topic × Int)) :
    Assn Event (Shared (Globals (KeyValueBytesStore A)) (World E)) :=
  fun _ s => (∀ tp ∈ tps, ∃ o, s.own.offsets.get? tp = some o) ∧ Follows logs topics s.own.offsets s

theorem pollPartition_spec {tps : List (Topic × Int)} {tp : Topic × Int} (htp : tp ∈ tps) :
    Keeps C (Polled (A := A) logs topics tps) (pollPartition tp) := by
  refine Spec.get fun t => ?_
  rcases hstore : t.own.topicToStore tp.1 with _ | name
  · simp only [hstore]
    exact Spec.pure fun _ _ h => h.2
  · simp only [hstore]
    refine Spec.bind hC (R := fun b _ s => b.records <+: recordsFrom (logs.records s.world.env tp.1 tp.2)
        ((t.own.offsets.get? tp).getD 0) ∧ s.own = t.own ∧ Polled logs topics tps [] s) ?_ fun batch => ?_
    · refine ((fetch_spec logs topics t.own.offsets
        (fun g => g = t.own ∧ ∀ tp ∈ tps, ∃ o, g.offsets.get? tp = some o) tp.1 tp.2 _).mono ?_ ?_ ?_)
      · rintro _ s ⟨rfl, hs⟩
        exact ⟨⟨rfl, hs.1⟩, hs.2⟩
      · rintro b _ s ⟨hb, ⟨hown, hin⟩, hf⟩
        exact ⟨hb, hown, hin, hown.symm ▸ hf⟩
      · rintro _ _ s ⟨⟨hown, hin⟩, hf⟩
        exact ⟨hin, hown.symm ▸ hf⟩
    · rintro w s ⟨hb, hown, hin, hf⟩ _
      rw [← hown] at hb hstore ⊢
      obtain ⟨o, ho⟩ := hin tp htp
      rw [ho] at hb ⊢
      have hmem : (name, tp.1) ∈ topics := hf.topics_eq ▸ mem_of_topicToStore hstore
      have hnext := hf.batch hone hkeys hmem ho hb
      refine ⟨fun tp' htp' => ?_, hnext.topics_eq, hnext.marks, hnext.folds⟩
      show ∃ o', (s.own.offsets.insert tp _).get? tp' = some o'
      rw [OrdMap.get?_insert]
      split
      · exact ⟨_, rfl⟩
      · exact hin tp' htp'

theorem pollOnce_spec (tps : List (Topic × Int)) : Keeps C (Polled (A := A) logs topics tps) (pollOnce tps) :=
  Spec.forM hC tps fun _ htp => pollPartition_spec hC hone hkeys htp

end Rules

section Build

omit [Broker E]

theorem nodup_keys_topics (specs : List (GlobalStoreSpec A)) : (build specs).topics.keys.Nodup := by
  suffices h : ∀ (specs : List (GlobalStoreSpec A)) (g : Globals (KeyValueBytesStore A)), g.topics.keys.Nodup →
      (specs.foldl add g).topics.keys.Nodup from h specs _ List.nodup_nil
  intro specs
  induction specs with
  | nil => exact fun _ h => h
  | cons spec specs ih => exact fun g h => ih _ (OrdMap.nodup_keys_insert h _ _)

theorem build_empty (specs : List (GlobalStoreSpec A)) {e : String × Topic} (he : e ∈ (build specs).topics) :
    ∃ store, (build specs).stores.get? e.1 = some store ∧ store.backing = .plain .empty := by
  suffices h : ∀ (specs : List (GlobalStoreSpec A)) (g : Globals (KeyValueBytesStore A)),
      (∀ e ∈ g.topics, ∃ store, g.stores.get? e.1 = some store ∧ store.backing = .plain .empty) →
      ∀ e ∈ (specs.foldl add g).topics,
        ∃ store, (specs.foldl add g).stores.get? e.1 = some store ∧ store.backing = .plain .empty from
    h specs _ (by simp) e he
  intro specs
  induction specs with
  | nil => exact fun _ h => h
  | cons spec specs ih =>
    refine fun g h => ih _ fun e he => ?_
    show ∃ store, (g.stores.insert spec.name _).get? e.1 = some store ∧ _
    rw [OrdMap.get?_insert]
    split
    · exact ⟨_, rfl, rfl⟩
    · rename_i hne
      rcases OrdMap.mem_insert he with heq | he
      · exact absurd (congrArg Prod.fst heq).symm hne
      · exact h e he

end Build

theorem follows_build (logs : GrowingLogs E) (specs : List (GlobalStoreSpec A)) (w : World E) :
    Follows logs (build specs).topics [] ⟨build specs, w⟩ where
  topics_eq := rfl
  marks := fun _ _ _ h => by cases h
  folds name topic hmem := by
    obtain ⟨store, hstore, hempty⟩ := build_empty specs hmem
    refine ⟨store, .empty, hstore, hempty, fun k v => ⟨fun h => (by cases h), ?_⟩⟩
    rintro ⟨p, o, ho, -⟩
    cases ho

theorem Reached.follows {specs : List (GlobalStoreSpec A)} (hone : (build specs).topics.values.Nodup)
    (h : Reached logs specs s) : Follows logs (build specs).topics s.own.offsets s := by
  have hkeys := nodup_keys_topics specs
  have hC : PrefixClosed fun _ : List Event => True := fun _ _ _ => trivial
  induction h with
  | bootstrapped w hok =>
    exact (bootstrap_spec hC hone hkeys).of_ok (w := []) (follows_build logs specs w) trivial hok
  | @polled s tps hs hperm ih =>
    have hstart : Polled logs (build specs).topics tps [] s :=
      ⟨fun tp htp => (OrdMap.mem_keys_iff _ _).mp (hperm.subset htp), ih⟩
    exact ((pollOnce_spec hC hone hkeys tps).after hstart trivial).2
  | grown w hs hg ih => exact ih.grows hg

/-- Where no two global stores read one topic, every store is the fold of its topic up to the resume
offsets, after the bootstrap and after every poll. -/
theorem trackTopics_of_reached (logs : GrowingLogs E) (specs : List (GlobalStoreSpec A))
    (hone : (build specs).topics.values.Nodup) (s : Shared (Globals (KeyValueBytesStore A)) (World E)) (hs : Reached logs specs s) :
    TrackTopics logs s := by
  have h := hs.follows hone
  intro name topic hmem
  exact h.folds name topic (h.topics_eq ▸ hmem)

end Globals

structure PairedLog where
  length : Nat

namespace PairedLog

def partition (l : PairedLog) (p : Int) : List FetchedRec :=
  if p = 0 ∨ p = 1 then (List.range l.length).map fun i : Nat => ⟨i, some [if p = 0 then 0 else 1], some [i.toUInt8], 0⟩
  else []

instance : Broker PairedLog where
  fetch l _ p offset _ := (.ok ⟨recordsFrom (l.partition p) offset⟩, l)
  partitions l _ := (.ok [0, 1], l)
  committed l _ _ := (.ok none, l)
  earliest l _ _ := (.ok 0, l)
  latest l _ _ := (.ok l.length, l)
  commit l _ := (.ok (), l)
  enqueue l _ := (.ok (), l)
  flushInner l := (.ok (), l)
  awaitDelivery l _ := (.ok (), l)
  initTransactions l := (.ok (), l)
  beginTransaction l := (.ok (), l)
  sendOffsets l _ := (.ok (), l)
  commitTransaction l := (.ok (), l)
  abortTransaction l := (.ok (), l)
  completeCutsAfter l _ _ := (.ok [], l)
  saveSnapshot l _ _ := (.ok (), l)
  nowMs l := (0, l)

theorem mem_partition {l : PairedLog} {p : Int} {r : FetchedRec} (h : r ∈ l.partition p) :
    (p = 0 ∨ p = 1) ∧ 0 ≤ r.offset ∧ r.key.getD [] = [if p = 0 then 0 else 1] := by
  unfold partition at h
  split at h
  · rename_i hp
    obtain ⟨i, -, rfl⟩ := List.mem_map.mp h
    exact ⟨hp, Int.natCast_nonneg i, rfl⟩
  · cases h

def logs : GrowingLogs PairedLog where
  records l _ p := l.partition p
  sorted l _ p := by
    unfold partition
    split
    · rw [List.pairwise_map]
      exact List.pairwise_lt_range.imp fun h => Int.ofNat_lt.mpr h
    · exact List.Pairwise.nil
  nonneg _ _ _ r hr := (mem_partition hr).2.1
  keyed _ _ p q r hr r' hr' hk := by
    obtain ⟨hp, -, hkp⟩ := mem_partition hr
    obtain ⟨hq, -, hkq⟩ := mem_partition hr'
    rw [hkp, hkq] at hk
    rcases hp with rfl | rfl <;> rcases hq with rfl | rfl <;> simp at hk ⊢
  fetch_grows _ _ _ _ _ _ _ := List.prefix_rfl
  fetch_serves _ _ _ _ _ b hb := by
    cases hb
    exact List.prefix_rfl
  partitions_grows _ _ _ _ := List.prefix_rfl
  partitions_nodup _ _ ps hps := by
    cases hps
    decide

theorem grows_succ (n : Nat) : logs.Grows ⟨n⟩ ⟨n + 1⟩ := by
  intro topic p
  show partition ⟨n⟩ p <+: partition ⟨n + 1⟩ p
  unfold partition
  split
  · rw [List.range_succ, List.map_append]
    exact List.prefix_append _ _
  · exact List.prefix_rfl

def world (n : Nat) : World PairedLog := .start ⟨n⟩ (.broker []) 4

def booted (specs : List (GlobalStoreSpec Bytes)) : Shared (Globals (KeyValueBytesStore Bytes)) (World PairedLog) :=
  Globals.bootstrap.final ⟨Globals.build specs, world 1⟩

def polled (specs : List (GlobalStoreSpec Bytes)) : Shared (Globals (KeyValueBytesStore Bytes)) (World PairedLog) :=
  (Globals.pollOnce (booted specs).own.offsets.keys).final ⟨(booted specs).own, world 2⟩

theorem polled_reached {specs : List (GlobalStoreSpec Bytes)}
    (h : Globals.bootstrap.result ⟨Globals.build specs, world 1⟩ = .ok ()) (henv : (booted specs).world.env = ⟨1⟩) :
    Globals.Reached logs specs (polled specs) := by
  have hbooted : Globals.Reached logs specs (booted specs) := .bootstrapped (world 1) h
  exact .polled (.grown (world 2) hbooted (henv ▸ grows_succ 1)) (List.Perm.refl _)

def apart : List (GlobalStoreSpec Bytes) :=
  [⟨"first", "low", bytesSerde, bytesSerde⟩, ⟨"second", "high", bytesSerde, bytesSerde⟩]

def together : List (GlobalStoreSpec Bytes) :=
  [⟨"first", "low", bytesSerde, bytesSerde⟩, ⟨"second", "low", bytesSerde, bytesSerde⟩]

theorem trackTopics_apart : Globals.TrackTopics logs (polled apart) :=
  Globals.trackTopics_of_reached logs apart (by decide +kernel) (polled apart) (polled_reached rfl rfl)

/-- The poll gives the second record of each partition to the store `second` alone. -/
theorem not_trackTopics_together : Globals.Reached logs together (polled together) ∧
    (Globals.pollOnce (booted together).own.offsets.keys).result ⟨(booted together).own, world 2⟩ = .ok () ∧
    ¬ Globals.TrackTopics logs (polled together) := by
  refine ⟨polled_reached rfl rfl, rfl, fun h => ?_⟩
  obtain ⟨store, m, hstore, hm, hfolds⟩ := h "first" "low" (by decide +kernel)
  have hlast := (hfolds [0] [1]).mpr ⟨0, 2, by decide +kernel, by decide +kernel⟩
  have hget : ((polled together).own.stores.get? "first").map (fun s => s.backing.get [0]) = some (some [0]) := by
    decide +kernel
  rw [hstore, Option.map_some, hm] at hget
  cases hlast.symm.trans (Option.some.inj hget)

end PairedLog

end KrabkaStreams
