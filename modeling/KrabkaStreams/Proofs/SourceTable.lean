import KrabkaStreams.Dsl.SourceTable
import KrabkaStreams.Lib.Lists
import KrabkaStreams.Lib.Runs
import KrabkaStreams.Proofs.Global
import KrabkaStreams.Proofs.Processes

/-!
# The rows of a source table

`TableAt m g`: the store of the table holds the rows `m`. Only a dispatch to its node changes them
(`dispatch_table`, `dispatch_other`), so a pass leaves the rows its records make (`Pass.rows`). A record
without a value is piped as no bytes (`foldsTopic_iff_noTombstones`).
-/

namespace KrabkaStreams

open Effect StateStore

variable {P M A : Type} {rec : ErasedRecord (Value A)} {key : Option Bytes} {timestamp : Int} {value : Bytes}

namespace SourceTable

variable {tb : SourceTable A} {m : SortedMap Bytes Bytes} {s : KeyValueBytesStore A}

theorem Rows.setRecordContext (h : tb.Rows m s) (ctx : RecordContext) : tb.Rows m (s.setRecordContext ctx) :=
  ⟨h.plain, h.keys, h.values, h.changelog⟩

theorem Rows.decodeOption (h : tb.Rows m s) (row : Option Bytes) : s.decodeOption row = tb.decodeRow row := by
  rcases row with _ | vb
  · rfl
  · simp only [KeyValueBytesStore.decodeOption, KeyValueBytesStore.decodeValue, decodeRow, h.values, h.changelog]
    rcases tb.valueSerde.deserialize tb.changelog vb with e | v <;> rfl

theorem Rows.get (h : tb.Rows m s) (k : A) : s.get k = tb.decodeRow (m.get? (tb.keyBytes k)) := by
  unfold KeyValueBytesStore.get KeyValueBytesStore.keyBytes keyBytes
  rw [h.plain, h.keys, h.changelog, h.decodeOption]
  rfl

theorem Rows.put (h : tb.Rows m s) (k v : A) : tb.Rows (m.insert (tb.keyBytes k) (tb.valueBytes v)) (s.put k v) := by
  have hput : s.put k v = ({ s with backing := .plain (m.insert (tb.keyBytes k) (tb.valueBytes v)) }).record (tb.keyBytes k)
      (some (tb.valueBytes v)) := by
    simp only [KeyValueBytesStore.put, KeyValueBytesStore.keyBytes, keyBytes, valueBytes, h.plain, h.keys, h.values,
      h.changelog, Backing.put, Backing.isCached, Bool.false_eq_true, if_false]
  rw [hput]
  unfold KeyValueBytesStore.record
  split <;> exact ⟨rfl, h.keys, h.values, h.changelog⟩

variable {m' : SortedMap Bytes Bytes} {r : FetchedRec} {forwards : List (ErasedRecord (Value A))}

theorem rewrite_of_ok {serde : Serde A} {source changelog : String} {b : Bytes} {a : A}
    (h : serde.deserialize source b = .ok a) : serde.rewrite source changelog b = serde.serialize changelog a := by
  simp only [Serde.rewrite, h]

theorem Feeds.rewritten (h : tb.Feeds m r forwards m') (hv : r.value ≠ none) :
    m' = putOrDelete m ((tb.rewritten r).key.getD []) (tb.rewritten r).value := by
  obtain ⟨kb, k, v, old, hkey, hk, hvd, -, -, rfl⟩ := h
  rcases hval : r.value with _ | vb
  · exact absurd hval hv
  · rw [hval, Option.getD_some] at hvd
    simp only [SourceTable.rewritten, hkey, hval, Option.map_some, Option.getD_some, rewrite_of_ok hk, rewrite_of_ok hvd]
    rfl

theorem FeedsAll.eq_foldRecords {recs : List FetchedRec} (h : tb.FeedsAll m recs m') (hv : ∀ r ∈ recs, r.value ≠ none) :
    m' = foldRecords m (recs.map tb.rewritten) := by
  induction h with
  | nil => rfl
  | cons hr _ ih =>
    rw [ih fun r hr => hv r (List.mem_cons_of_mem _ hr), List.map_cons, foldRecords_cons,
      hr.rewritten (hv _ List.mem_cons_self)]

theorem Feeds.not_deletes (h : tb.Feeds m r forwards m') {k : A} {old : Option A} :
    forwards ≠ [⟨some (.atom k), .change old none, r.timestamp⟩] := by
  obtain ⟨kb, k', v, old', -, -, -, -, rfl, -⟩ := h
  intro heq
  cases heq

end SourceTable

theorem WithTables.processTable_ok {node store : String} {m : TableMemory M}
    {c : ProcessorContext (KeyValueBytesStore A)}
    {o : Outcome (WithTables P) (TableMemory M) (KeyValueBytesStore A) (Value A)}
    (h : processTable node store m c rec = .ok o) :
    ∃ k v s old, rec.key = some (.atom k) ∧ rec.value = .atom v ∧ c.stores.get? store = some s ∧
      (s.setRecordContext c.recordCtx).get k = .ok old ∧
      o = ⟨m, c.stores.insert store ((s.setRecordContext c.recordCtx).put k v),
        if (m.forwarder node).cached then [] else [⟨some (.atom k), .change old (some v), rec.timestamp⟩], [], []⟩ := by
  obtain ⟨key, value, ts⟩ := rec
  unfold processTable at h
  rcases value with v | ⟨o, n⟩ | ⟨w, a, b⟩
  · rcases key with _ | k
    · cases h
    · rcases k with k | ⟨o, n⟩ | ⟨w, a, b⟩
      · rcases hs : c.stores.get? store with _ | s
        · simp only [Value.asAtom, hs] at h
          cases h
        · simp only [Value.asAtom, hs] at h
          obtain ⟨old, hold, ho⟩ := Runs.bind_eq_ok.mp h
          cases ho
          exact ⟨k, v, s, old, rfl, rfl, rfl, hold, rfl⟩
      · cases h
      · cases h
  · cases h
  · cases h

namespace Graph

variable {tb : SourceTable A} {m : SortedMap Bytes Bytes}
  {g g' : Graph (WithTables P) (TableMemory M) (KeyValueBytesStore A) (Value A)}

theorem HasTable.of_eq (h : g.HasTable tb) (hn : g'.nodes = g.nodes) (hs : g'.sources = g.sources)
    (hc : g'.children = g.children) : g'.HasTable tb := by
  refine ⟨?_, ?_, ?_, ?_, ?_⟩
  · rw [hn]
    exact h.placed
  · rw [hs]
    exact h.fed
  · rw [hs]
    exact h.once
  · rw [hc]
    exact h.unfed
  · rw [hn]
    exact h.alone

theorem HasTable.childrenOf (h : g.HasTable tb) (i : Nat) : tb.idx ∉ g.childrenOf i := by
  unfold Graph.childrenOf
  rw [List.getD_eq_getElem?_getD]
  rcases hi : g.children[i]? with _ | cs
  · exact List.not_mem_nil
  · exact h.unfed cs (List.mem_of_getElem? hi)

theorem TableAt.of_eq (h : g.TableAt tb m) (hn : g'.nodes = g.nodes) (hs : g'.sources = g.sources)
    (hc : g'.children = g.children) (hr : g'.stores.get? tb.store = g.stores.get? tb.store)
    (hm : g'.mem.forwarders = g.mem.forwarders) : g'.TableAt tb m := by
  refine ⟨h.wired.of_eq hn hs hc, ?_, ?_⟩
  · rw [hr]
    exact h.rows
  · have := h.atOnce
    unfold TableMemory.forwarder at this ⊢
    rwa [hm]

theorem TableAt.drainChangelogs (h : g.TableAt tb m) (reuse : List Topic) : (g.drainChangelogs reuse).2.TableAt tb m := by
  obtain ⟨s, hs, hrows⟩ := h.rows
  refine ⟨h.wired.of_eq rfl rfl rfl, ⟨(takeChangelogTs s).2, ?_, hrows.plain, hrows.keys, hrows.values, hrows.changelog⟩,
    h.atOnce⟩
  unfold Graph.drainChangelogs
  rw [StoreRegistry.get?_mapStores, hs]
  rfl

variable [Processor P M (KeyValueBytesStore A) (Value A)]

variable (hleaves : Leaves P M A tb.store)

omit [Processor P M (KeyValueBytesStore A) (Value A)] in
theorem TableAt.absorb (h : g.TableAt tb m) (i : Nat) {o : Outcome (WithTables P) (TableMemory M) (KeyValueBytesStore A) (Value A)}
    (hs : o.stores.get? tb.store = g.stores.get? tb.store) (hm : o.mem.forwarders = g.mem.forwarders) :
    (g.absorb i o).TableAt tb m :=
  h.of_eq rfl rfl rfl hs hm

include hleaves

theorem TableAt.dispatch_other (h : g.TableAt tb m) {rc : RecordContext} {i : Nat} (hi : i ≠ tb.idx)
    {queued : List (Nat × ErasedRecord (Value A))} (hd : g.dispatch rc i rec = .ok (queued, g')) :
    g'.TableAt tb m := by
  rcases dispatch_ok hd with ⟨_, _, _, _, -, -, -, rfl⟩ | ⟨p, o, hn, ho, -, rfl⟩
  · exact h.of_eq rfl rfl rfl rfl rfl
  · rcases p with ⟨node, store⟩ | p
    · have hstore : store ≠ tb.store := by
        rintro rfl
        exact hi (h.wired.alone i node hn)
      obtain ⟨k, v, s, old, -, -, -, -, rfl⟩ := WithTables.processTable_ok ho
      exact h.absorb i (OrdMap.get?_insert_of_ne hstore) rfl
    · have ho : (Processor.process p g.mem.rest (g.context rc) rec).map (WithTables.lift g.mem) = .ok o := ho
      rcases ho' : Processor.process p g.mem.rest (g.context rc) rec with e | o'
      · rw [ho'] at ho
        cases ho
      · rw [ho'] at ho
        cases ho
        exact h.absorb i (hleaves.process p _ _ _ o' ho') rfl

theorem tableAt_invariant : Invariant (P := WithTables P) (M := TableMemory M) (fun i => i ≠ tb.idx) (TableAt tb m) where
  dispatch _ _ _ _ _ _ hi h hd := h.dispatch_other hleaves hi hd
  punctuate g i p ts h := by
    rcases p with ⟨node, store⟩ | p
    · exact h.absorb i rfl rfl
    · exact h.absorb i (hleaves.punctuate p _ _ ts) rfl
  flush g name s h hs := by
    obtain ⟨s₀, hs₀, hrows⟩ := h.rows
    refine h.of_eq rfl rfl rfl ?_ rfl
    by_cases hname : name = tb.store
    · -- The flush of a store without a cache does nothing.
      subst hname
      obtain rfl : s = s₀ := Option.some.inj (hs.symm.trans hs₀)
      have hflush : flushCacheInto s = (.ok [], s) :=
        KeyValueBytesStore.flushCacheInto_of_clean (by rw [hrows.plain]; rfl)
      rw [hflush, hs]
      exact OrdMap.get?_insert_self _ _ _
    · exact OrdMap.get?_insert_of_ne hname
  clocks _ _ _ _ h := h.of_eq rfl rfl rfl rfl rfl
  children _ i h c hc hidx := h.wired.childrenOf i (hidx ▸ hc)

omit hleaves

theorem TableAt.dispatch_table (h : g.TableAt tb m) {rc : RecordContext}
    {queued : List (Nat × ErasedRecord (Value A))} (hd : g.dispatch rc tb.idx rec = .ok (queued, g')) :
    ∃ k v old, rec.key = some (.atom k) ∧ rec.value = .atom v ∧ tb.decodeRow (m.get? (tb.keyBytes k)) = .ok old ∧
      g.nodeForwards rc tb.idx rec = [⟨some (.atom k), .change old (some v), rec.timestamp⟩] ∧
      g'.TableAt tb (m.insert (tb.keyBytes k) (tb.valueBytes v)) := by
  rcases dispatch_ok hd with ⟨_, _, _, _, hn, -, -, -⟩ | ⟨p, o, hn, ho, -, rfl⟩
  · rw [h.wired.placed] at hn
    cases hn
  · have hforwards : g.nodeForwards rc tb.idx rec = o.forwards := by
      simp only [nodeForwards, hn, ho]
    rw [h.wired.placed] at hn
    cases hn
    obtain ⟨s₀, hs₀, hrows⟩ := h.rows
    obtain ⟨k, v, s, old, hk, hv, hs, hold, rfl⟩ := WithTables.processTable_ok ho
    obtain rfl : s = s₀ := Option.some.inj (hs.symm.trans hs₀)
    have hctx := hrows.setRecordContext (g.context rc).recordCtx
    rw [hctx.get] at hold
    refine ⟨k, v, old, hk, hv, hold, ?_, ⟨h.wired.of_eq rfl rfl rfl, ⟨_, OrdMap.get?_insert_self _ _ _, hctx.put k v⟩, h.atOnce⟩⟩
    rw [hforwards, h.atOnce]
    rfl

section Drain

variable {rc : RecordContext} {rec : ErasedRecord (Value A)}

include hleaves

theorem TableAt.forwardsLoop_other : ∀ (n : Nat) (buffer : List (Nat × ErasedRecord (Value A)))
    (g : Graph (WithTables P) (TableMemory M) (KeyValueBytesStore A) (Value A)), (∀ q ∈ buffer, q.1 ≠ tb.idx) →
    g.TableAt tb m → forwardsLoop tb.idx rc n buffer g = []
  | _, [], _, _, _ => by
    unfold forwardsLoop
    rfl
  | 0, _ :: _, _, _, _ => rfl
  | n + 1, (i, r) :: buffer, g, hb, h => by
    unfold forwardsLoop
    have hi : i ≠ tb.idx := hb (i, r) List.mem_cons_self
    rcases hd : g.dispatch rc i r with e | ⟨queued, g'⟩
    · rfl
    · dsimp only
      rw [if_neg hi, List.nil_append]
      refine forwardsLoop_other n (buffer ++ queued) g' (fun q hq => ?_) (h.dispatch_other hleaves hi hd)
      rcases List.mem_append.mp hq with hq | hq
      · exact hb q (List.mem_cons_of_mem _ hq)
      · exact (tableAt_invariant hleaves).queued h hd q hq

theorem TableAt.drainLoop_table : ∀ (n : Nat) (before after : List (Nat × ErasedRecord (Value A)))
    (g g' : Graph (WithTables P) (TableMemory M) (KeyValueBytesStore A) (Value A)), (∀ q ∈ before, q.1 ≠ tb.idx) →
    (∀ q ∈ after, q.1 ≠ tb.idx) → g.TableAt tb m →
    drainLoop rc n (before ++ (tb.idx, rec) :: after) g = (.ok (), g') →
    ∃ k v old, rec.key = some (.atom k) ∧ rec.value = .atom v ∧ tb.decodeRow (m.get? (tb.keyBytes k)) = .ok old ∧
      forwardsLoop tb.idx rc n (before ++ (tb.idx, rec) :: after) g
        = [⟨some (.atom k), .change old (some v), rec.timestamp⟩] ∧
      g'.TableAt tb (m.insert (tb.keyBytes k) (tb.valueBytes v))
  | 0, [], _, _, _, _, _, _, hrun => by cases hrun
  | 0, _ :: _, _, _, _, _, _, _, hrun => by cases hrun
  | n + 1, [], after, g, g', _, hafter, h, hrun => by
    rw [List.nil_append] at hrun ⊢
    unfold drainLoop at hrun
    unfold forwardsLoop
    rcases hd : g.dispatch rc tb.idx rec with e | ⟨queued, g₁⟩
    · rw [hd] at hrun
      cases hrun
    · rw [hd] at hrun
      obtain ⟨k, v, old, hk, hv, hold, hfwd, hg₁⟩ := h.dispatch_table hd
      have hrest : ∀ q ∈ after ++ queued, q.1 ≠ tb.idx := by
        intro q hq
        rcases List.mem_append.mp hq with hq | hq
        · exact hafter q hq
        · exact (tableAt_invariant hleaves).queued h hd q hq
      refine ⟨k, v, old, hk, hv, hold, ?_, ?_⟩
      · dsimp only
        rw [if_pos rfl, hfwd, hg₁.forwardsLoop_other hleaves n _ _ hrest, List.append_nil]
      · have hkept := (tableAt_invariant hleaves).drainLoop rc n _ g₁ hrest hg₁
        dsimp only at hrun
        rwa [hrun] at hkept
  | n + 1, (i, r) :: before, after, g, g', hbefore, hafter, h, hrun => by
    rw [List.cons_append] at hrun ⊢
    unfold drainLoop at hrun
    unfold forwardsLoop
    have hi : i ≠ tb.idx := hbefore (i, r) List.mem_cons_self
    rcases hd : g.dispatch rc i r with e | ⟨queued, g₁⟩
    · rw [hd] at hrun
      cases hrun
    · rw [hd] at hrun
      dsimp only at hrun ⊢
      rw [if_neg hi, List.nil_append]
      rw [List.append_assoc, List.cons_append] at hrun ⊢
      refine drainLoop_table n before (after ++ queued) g₁ g' (fun q hq => hbefore q (List.mem_cons_of_mem _ hq)) ?_
        (h.dispatch_other hleaves hi hd) hrun
      intro q hq
      rcases List.mem_append.mp hq with hq | hq
      · exact hafter q hq
      · exact (tableAt_invariant hleaves).queued h hd q hq

end Drain

section Seed

variable {S V : Type} [StateStore S V] {topic : Topic} {key : Option Bytes} {value : Bytes} {timestamp : Int}

theorem seed_children {d : Except ProcessorError (ErasedRecord V)} {children : List Nat}
    {here : List (Nat × ErasedRecord V)} (h : (children.mapM fun c => do
      let rec ← d
      pure (c, rec)) = .ok here) : here.map Prod.fst = children ∧ ∀ q ∈ here, d = .ok q.2 := by
  have hrel := Lists.forall₂_of_mapM h
  clear h
  induction hrel with
  | nil => exact ⟨rfl, fun q hq => absurd hq List.not_mem_nil⟩
  | cons hq _ ih =>
    obtain ⟨rec, hrec, hq⟩ := Runs.bind_eq_ok.mp hq
    cases hq
    refine ⟨by rw [List.map_cons, ih.1], fun q hq => ?_⟩
    rcases List.mem_cons.mp hq with rfl | hq
    · exact hrec
    · exact ih.2 q hq

theorem seed_ok : ∀ {sources : List (GraphSource V)} {buffer : List (Nat × ErasedRecord V)},
    seed topic key value timestamp sources = .ok buffer →
    buffer.map Prod.fst = (sources.filter fun src => src.topic = topic).flatMap (fun src => src.children) ∧
      ∀ q ∈ buffer, ∃ src ∈ sources, src.topic = topic ∧ q.1 ∈ src.children ∧ src.deserialize key value timestamp = .ok q.2
  | [], buffer, h => by
    cases h
    exact ⟨rfl, fun q hq => absurd hq List.not_mem_nil⟩
  | src :: sources, buffer, h => by
    unfold seed at h
    by_cases ht : src.topic = topic
    · rw [if_pos ht] at h
      obtain ⟨here, hhere, h⟩ := Runs.bind_eq_ok.mp h
      obtain ⟨rest, hrest, h⟩ := Runs.bind_eq_ok.mp h
      cases h
      obtain ⟨hmap, hmem⟩ := seed_ok hrest
      obtain ⟨hfst, hdeser⟩ := seed_children hhere
      refine ⟨?_, fun q hq => ?_⟩
      · rw [List.filter_cons_of_pos (by simpa using ht), List.flatMap_cons, List.map_append, hmap, hfst]
      · rcases List.mem_append.mp hq with hq | hq
        · exact ⟨src, List.mem_cons_self, ht, hfst ▸ List.mem_map_of_mem hq, hdeser q hq⟩
        · obtain ⟨src', hsrc', hrest⟩ := hmem q hq
          exact ⟨src', List.mem_cons_of_mem _ hsrc', hrest⟩
    · rw [if_neg ht] at h
      obtain ⟨hmap, hmem⟩ := seed_ok h
      refine ⟨?_, fun q hq => ?_⟩
      · rw [hmap, List.filter_cons_of_neg (by simpa using ht)]
      · obtain ⟨src', hsrc', hrest⟩ := hmem q hq
        exact ⟨src', List.mem_cons_of_mem _ hsrc', hrest⟩

end Seed

section Pipe

section Seeds

omit [Processor P M (KeyValueBytesStore A) (Value A)]

theorem HasTable.count_seed (h : g.HasTable tb) :
    ((g.sources.filter fun src => src.topic = tb.topic).flatMap fun src => src.children).count tb.idx = 1 := by
  rw [← h.once]
  have hfed := fun src hsrc hc => (h.fed src hsrc hc).1
  generalize g.sources = sources at hfed
  induction sources with
  | nil => rfl
  | cons src sources ih =>
    have ih := ih fun src' hsrc' => hfed src' (List.mem_cons_of_mem _ hsrc')
    by_cases ht : src.topic = tb.topic
    · rw [List.filter_cons_of_pos (by simpa using ht), List.flatMap_cons, List.flatMap_cons, List.count_append,
        List.count_append, ih]
    · have hnot : tb.idx ∉ src.children := fun hc => ht (hfed src List.mem_cons_self hc)
      rw [List.filter_cons_of_neg (by simpa using ht), List.flatMap_cons, List.count_append,
        List.count_eq_zero_of_not_mem hnot, Nat.zero_add, ih]

theorem HasTable.seed_table (h : g.HasTable tb) {buffer : List (Nat × ErasedRecord (Value A))}
    (hs : seed tb.topic key value timestamp g.sources = .ok buffer) :
    ∃ before rec after, buffer = before ++ (tb.idx, rec) :: after ∧ (∀ q ∈ before, q.1 ≠ tb.idx) ∧
      (∀ q ∈ after, q.1 ≠ tb.idx) ∧
      SourceNode.deserialize tb.source tb.keySerde tb.valueSerde key value timestamp = .ok rec := by
  obtain ⟨hmap, hmem⟩ := seed_ok hs
  have hcount : (buffer.map Prod.fst).count tb.idx = 1 := by
    rw [hmap]
    exact h.count_seed
  obtain ⟨before, ⟨i, rec⟩, after, rfl, rfl, hbefore, hafter⟩ := Lists.exists_split_of_count_map hcount
  obtain ⟨src, hsrc, -, hc, hdeser⟩ := hmem (tb.idx, rec) (List.mem_append_right _ List.mem_cons_self)
  rw [(h.fed src hsrc hc).2] at hdeser
  exact ⟨before, rec, after, rfl, hbefore, hafter, hdeser⟩

theorem HasTable.seed_other (h : g.HasTable tb) {topic : Topic} (ht : topic ≠ tb.topic)
    {buffer : List (Nat × ErasedRecord (Value A))}
    (hs : seed topic key value timestamp g.sources = .ok buffer) : ∀ q ∈ buffer, q.1 ≠ tb.idx := by
  intro q hq hidx
  obtain ⟨src, hsrc, htopic, hc, -⟩ := (seed_ok hs).2 q hq
  exact ht (htopic.symm.trans (h.fed src hsrc (hidx ▸ hc)).1)

theorem deserialize_ok {label : String} {ks vs : Serde A}
    (h : SourceNode.deserialize label ks vs key value timestamp = .ok rec) {k v : A}
    (hk : rec.key = some (.atom k)) (hv : rec.value = .atom v) :
    (∃ kb, key = some kb ∧ ks.deserialize label kb = .ok k) ∧ vs.deserialize label value = .ok v ∧
      rec.timestamp = timestamp := by
  obtain ⟨ek, hek, h⟩ := Runs.bind_eq_ok.mp h
  rcases hvd : vs.deserialize label value with e | v'
  · rw [hvd] at h
    cases h
  · rw [hvd] at h
    cases h
    cases hv
    refine ⟨?_, rfl, rfl⟩
    rcases key with _ | kb
    · cases hek
      cases hk
    · rcases hkd : ks.deserialize label kb with e | k'
      · simp only [SourceNode.deserializeKey, hkd] at hek
        cases hek
      · simp only [SourceNode.deserializeKey, hkd] at hek
        cases hek
        cases hk
        exact ⟨kb, rfl, hkd⟩

end Seeds

include hleaves

theorem TableAt.pipe_table (h : g.TableAt tb m) {partition : Int} {r : FetchedRec}
    (hp : g.pipe tb.topic partition r.offset r.key (r.value.getD []) r.timestamp = (.ok (), g')) :
    ∃ m', tb.Feeds m r (g.pipeForwards tb.idx (tb.topic, partition) r) m' ∧ g'.TableAt tb m' := by
  have hclock : ({ g with streamTime := max g.streamTime r.timestamp } : Graph _ _ _ _).TableAt tb m :=
    h.of_eq rfl rfl rfl rfl rfl
  unfold pipe at hp
  unfold pipeForwards
  rcases hs : seed tb.topic r.key (r.value.getD []) r.timestamp g.sources with e | buffer
  · rw [hs] at hp
    cases hp
  · rw [hs] at hp
    obtain ⟨before, rec, after, rfl, hbefore, hafter, hdeser⟩ := h.wired.seed_table hs
    obtain ⟨k, v, old, hk, hv, hold, hfwd, hg'⟩ := hclock.drainLoop_table hleaves g.budget before after _ g' hbefore hafter hp
    obtain ⟨⟨kb, hkey, hkd⟩, hvd, hts⟩ := deserialize_ok hdeser hk hv
    refine ⟨_, ⟨kb, k, v, old, hkey, hkd, hvd, hold, ?_, rfl⟩, hg'⟩
    rw [hts] at hfwd
    exact hfwd

theorem TableAt.pipe_other (h : g.TableAt tb m) {topic : Topic} (ht : topic ≠ tb.topic)
    {partition offset : Int} (hp : g.pipe topic partition offset key value timestamp = (.ok (), g')) :
    g'.TableAt tb m := by
  have hkept := (tableAt_invariant hleaves).pipe topic partition offset key value timestamp
    (fun buffer hs => h.wired.seed_other ht hs) h
  rwa [hp] at hkept

theorem Pass.rows {recs : List ((Topic × Int) × FetchedRec)} {outs : List OutputRecord} (h : Pass g recs outs g') :
    ∀ {m : SortedMap Bytes Bytes}, g.TableAt tb m →
    ∃ m', tb.FeedsAll m ((recs.filter fun x => x.1.1 = tb.topic).map Prod.snd) m' ∧ g'.TableAt tb m' := by
  induction h with
  | done => exact fun h => ⟨_, .nil _, h⟩
  | @pipe _ _ _ tp r _ _ hp _ ih =>
    intro m h
    by_cases ht : tp.1 = tb.topic
    · obtain ⟨topic, partition⟩ := tp
      cases ht
      obtain ⟨m₁, hfeeds, h₁⟩ := h.pipe_table hleaves hp
      obtain ⟨m', hall, h'⟩ := ih h₁
      rw [List.filter_cons_of_pos (by simp), List.map_cons]
      exact ⟨m', .cons hfeeds hall, h'⟩
    · rw [List.filter_cons_of_neg (by simpa using ht)]
      exact ih (h.pipe_other hleaves ht hp)
  | takeOutput _ ih => exact fun h => ih (h.of_eq rfl rfl rfl rfl rfl)
  | drainChangelogs reuse _ ih => exact fun h => ih (h.drainChangelogs reuse)
  | @punctuateStreamTime g _ _ _ _ hp _ ih =>
    intro m h
    have hkept := (tableAt_invariant hleaves).punctuateStreamTime g.streamTime h
    rw [hp] at hkept
    exact ih hkept
  | punctuateWallClock now hp _ ih =>
    intro m h
    have hkept := (tableAt_invariant hleaves).punctuateWallClock now h
    rw [hp] at hkept
    exact ih hkept
  | flushCaches hf _ ih =>
    intro m h
    have hkept := (tableAt_invariant hleaves).flushCaches h
    rw [hf] at hkept
    exact ih hkept

end Pipe

end Graph

section Consumed

variable {E : Type} [Broker E] [Processor P M (KeyValueBytesStore A) (Value A)] {tb : SourceTable A}
  {m : SortedMap Bytes Bytes} {logs : SourceLogs}
  {t t' : StreamTask (WithTables P) (TableMemory M) (KeyValueBytesStore A) (Value A)}
  {recs : List ((Topic × Int) × FetchedRec)} {outs : List OutputRecord}

omit [Processor P M (KeyValueBytesStore A) (Value A)] in
theorem SourceTable.Rows.rebuilt {s : KeyValueBytesStore A} (h : tb.Rows m s) (log : List FetchedRec) :
    (rebuilt s log).backing = .plain (foldRecords .empty log) := by
  have hwiped : (wiped s).backing = .plain .empty := by
    show s.backing.clear = _
    rw [h.plain]
    rfl
  exact Globals.backing_applyAll log hwiped

theorem StreamTask.Processed.topic_records (h : Processed logs t recs outs t')
    (hone : ∀ tp ∈ t.positions.keys, tp.2 = t.partition) (topic : Topic) :
    (recs.filter fun x => x.1.1 = topic).map Prod.snd
      = logs.between (topic, t.partition) (t.position (topic, t.partition)) (t'.position (topic, t.partition)) := by
  rw [← h.reads]
  refine congrArg (List.map Prod.snd) (List.filter_congr fun x hx => ?_)
  refine decide_eq_decide.mpr ⟨fun ht => ?_, fun ht => ht ▸ rfl⟩
  exact Prod.ext ht (hone x.1 (h.mem_keys hx))

theorem SourceLogs.between_eq_records {tp : Topic × Int} {start stop : Int}
    (h : ∀ r ∈ logs.records tp, start ≤ r.offset ∧ r.offset < stop) : logs.between tp start stop = logs.records tp :=
  List.filter_eq_self.mpr fun r hr => decide_eq_true (h r hr)

/-- For every partition of a source topic, every environment that serves it and every sequence of calls of
`process_once` that consumes it: a table without a cache is what a restore makes of the same log, with the change to
no value forwarded for every record without one, exactly if no record of the log is without a value and the serdes
of the table keep its bytes. -/
theorem foldsTopic_iff_noTombstones (hleaves : Leaves P M A tb.store) (hlogs : logs.ServedBy E)
    (ht : t.graph.TableAt tb .empty) (hone : ∀ tp ∈ t.positions.keys, tp.2 = t.partition) {gates : List Bool} {w : World E}
    (hok : (gates.forM StreamTask.processOnce).result
      (⟨t, w⟩ : TaskState E (WithTables P) (TableMemory M) (KeyValueBytesStore A) (Value A)) = .ok ())
    (hread : ∀ r ∈ logs.records (tb.topic, t.partition), t.position (tb.topic, t.partition) ≤ r.offset ∧
      r.offset < ((gates.forM StreamTask.processOnce).final
        (⟨t, w⟩ : TaskState E (WithTables P) (TableMemory M) (KeyValueBytesStore A) (Value A))).own.position
          (tb.topic, t.partition)) :
    tb.FoldsTopic (logs.records (tb.topic, t.partition)) t
        ((gates.forM StreamTask.processOnce).final
          (⟨t, w⟩ : TaskState E (WithTables P) (TableMemory M) (KeyValueBytesStore A) (Value A))).own ↔
      (∀ r ∈ logs.records (tb.topic, t.partition), r.value ≠ none) ∧
        tb.KeepsBytes (logs.records (tb.topic, t.partition)) := by
  obtain ⟨recs, outs, hp, -⟩ := StreamTask.processed_of_calls hlogs hok
  set t' := ((gates.forM StreamTask.processOnce).final
    (⟨t, w⟩ : TaskState E (WithTables P) (TableMemory M) (KeyValueBytesStore A) (Value A))).own
  set log := logs.records (tb.topic, t.partition)
  have hrecs : (recs.filter fun x => x.1.1 = tb.topic).map Prod.snd = log :=
    (hp.topic_records hone tb.topic).trans (SourceLogs.between_eq_records hread)
  obtain ⟨m', hall, ht'⟩ := hp.pass.rows hleaves ht
  rw [hrecs] at hall
  obtain ⟨s, hs, hrows⟩ := ht'.rows
  have hcontent : (∃ s, t'.graph.stores.get? tb.store = some s ∧
      ∀ kb, s.backing.get kb = (rebuilt s log).backing.get kb) ↔ m' = foldRecords .empty log := by
    constructor
    · rintro ⟨s', hs', heq⟩
      obtain rfl : s = s' := Option.some.inj (hs.symm.trans hs')
      rw [hrows.rebuilt, hrows.plain] at heq
      exact SortedMap.ext_get? heq
    · rintro rfl
      refine ⟨s, hs, fun kb => ?_⟩
      rw [hrows.rebuilt, hrows.plain]
  constructor
  · intro h
    have hnull : ∀ r ∈ log, r.value ≠ none := by
      intro r hr hv
      -- The run itself pipes the record, and its change has a new value.
      rw [← hrecs] at hr
      obtain ⟨⟨⟨topic, partition⟩, r'⟩, hx, rfl⟩ := List.mem_map.mp hr
      obtain ⟨hx, htopic⟩ := List.mem_filter.mp hx
      obtain rfl : topic = tb.topic := of_decide_eq_true htopic
      obtain rfl : partition = t.partition := hone _ (hp.mem_keys hx)
      obtain ⟨before, after, rfl⟩ := List.append_of_mem hx
      obtain ⟨g, g', outs₁, outs₂, h₁, hpipe, h₂⟩ := hp.pass.split
      obtain ⟨s', k, old, -, -, hfwd⟩ := h.tombstones _ _ _ _ _ _ _ h₁ hpipe h₂ (hrecs ▸ hr) hv
      obtain ⟨m₁, -, hg⟩ := h₁.rows hleaves ht
      obtain ⟨m₂, hfeeds, -⟩ := hg.pipe_table hleaves hpipe
      exact hfeeds.not_deletes hfwd
    refine ⟨hnull, ?_⟩
    unfold SourceTable.KeepsBytes
    rw [← hall.eq_foldRecords hnull]
    exact hcontent.mp h.content
  · rintro ⟨hnull, hbytes⟩
    refine ⟨hcontent.mpr ?_, fun _ _ _ _ r _ _ _ _ _ hr hv => absurd hv (hnull r hr)⟩
    rw [hall.eq_foldRecords hnull, hbytes]

end Consumed

def rowsFactory : StoreFactory (KeyValueBytesStore Bytes) where
  make name topic := .inMemory name bytesSerde bytesSerde topic
  changelog_make := KeyValueBytesStore.changelog_inMemory bytesSerde bytesSerde
  dirty_make := KeyValueBytesStore.isDirty_inMemory bytesSerde bytesSerde

/-- The table `rows` over the topic `in`, which is the changelog topic of its store too. -/
def rowsTopology : Topology (WithTables Relay) (TableMemory Unit) (KeyValueBytesStore Bytes) (Value Bytes) :=
  (((Topology.new ⟨[], ()⟩ 8).addSource "src" ["in"] (SourceNode.deserialize "src" bytesSerde bytesSerde)).addProcessor
    "table" (.table "table" "rows") ["src"]).addStateStore "rows" rowsFactory ["table"] (some "in")

def rowsTable : SourceTable Bytes := ⟨"src", "table", "rows", "in", "in", bytesSerde, bytesSerde, 0⟩

def rowsGraph : Graph (WithTables Relay) (TableMemory Unit) (KeyValueBytesStore Bytes) (Value Bytes) where
  nodes := [.processorNode (.table "table" "rows")]
  children := [[]]
  sources := [⟨"src", "in", SourceNode.deserialize "src" bytesSerde bytesSerde, [0]⟩]
  output := []
  stores := [("rows", .inMemory "rows" bytesSerde bytesSerde "in")]
  globals := []
  schedules := []
  cancelled := []
  streamTime := i64Min
  wallClock := 0
  cacheOwner := []
  mem := ⟨[], ()⟩
  budget := 8

def rowsTask : StreamTask (WithTables Relay) (TableMemory Unit) (KeyValueBytesStore Bytes) (Value Bytes) :=
  .new "0" rowsGraph [⟨"in", 0⟩] .active .atLeastOnce

example : ∃ built, rowsTopology.build = .ok built ∧ built.instantiate "app" 0 = .ok rowsGraph := ⟨_, rfl, rfl⟩

theorem rowsGraph_tableAt : rowsGraph.TableAt rowsTable .empty where
  wired :=
    { placed := rfl
      fed := fun src hsrc _ => by
        rw [List.mem_singleton.mp hsrc]
        exact ⟨rfl, rfl⟩
      once := rfl
      unfed := fun children hc => by
        rw [List.mem_singleton.mp hc]
        exact List.not_mem_nil
      alone := fun i node hi => by
        rcases i with _ | i
        · rfl
        · cases hi }
  rows := ⟨_, rfl, rfl, rfl, rfl, rfl⟩
  atOnce := rfl

theorem relay_leaves (name : String) : Leaves Relay Unit Bytes name where
  init p _ _ := by cases p <;> rfl
  process p _ _ _ _ h := by cases p <;> cases h <;> rfl
  punctuate _ _ _ _ := rfl

def rowsLogs (value : Option Bytes) : SourceLogs where
  records tp := if tp = ("in", 0) then [⟨0, some [1], some [7], 0⟩, ⟨1, some [1], value, 0⟩] else []
  sorted tp := by split <;> simp

def rowsStart (value : Option Bytes) : TaskState (Archive (rowsLogs value).records) (WithTables Relay) (TableMemory Unit)
    (KeyValueBytesStore Bytes) (Value Bytes) :=
  ⟨rowsTask, .start ⟨[]⟩ (.broker []) 4⟩

theorem foldsTopic_two_values : rowsTable.FoldsTopic ((rowsLogs (some [8])).records ("in", 0)) rowsTask
    (([false, false].forM StreamTask.processOnce).final (rowsStart (some [8]))).own := by
  have hok : ([false, false].forM StreamTask.processOnce).result (rowsStart (some [8])) = .ok () := by decide +kernel
  have hread : ∀ r ∈ (rowsLogs (some [8])).records ("in", 0), 0 ≤ r.offset ∧
      r.offset < (([false, false].forM StreamTask.processOnce).final (rowsStart (some [8]))).own.position ("in", 0) := by
    decide +kernel
  exact (foldsTopic_iff_noTombstones (relay_leaves _) (rowsLogs (some [8])).servedBy_archive rowsGraph_tableAt (by decide)
    hok hread).mpr ⟨by decide, rfl⟩

/-- The row of a deleted key stays, with no bytes. -/
theorem not_foldsTopic_tombstone : ([false, false].forM StreamTask.processOnce).result (rowsStart none) = .ok () ∧
    ¬ rowsTable.FoldsTopic ((rowsLogs none).records ("in", 0)) rowsTask
      (([false, false].forM StreamTask.processOnce).final (rowsStart none)).own := by
  refine ⟨by decide +kernel, fun h => ?_⟩
  obtain ⟨s, hs, heq⟩ := h.content
  have hrow : ((([false, false].forM StreamTask.processOnce).final (rowsStart none)).own.graph.stores.get? "rows").map
      (fun s => (s.backing.get [1], (rebuilt s ((rowsLogs none).records ("in", 0))).backing.get [1]))
      = some (some [], none) := by decide +kernel
  rw [show OrdMap.get? _ "rows" = some s from hs, Option.map_some, heq [1]] at hrow
  cases (Prod.mk.inj (Option.some.inj hrow)).1.symm.trans (Prod.mk.inj (Option.some.inj hrow)).2

end KrabkaStreams
