import KrabkaStreams.Proofs.CachedStores
import KrabkaStreams.Proofs.KeyValue
import KrabkaStreams.Proofs.Piping

/-!
# One flush pass leaves nothing dirty

A node feeds larger indices only, so what a turn forwards reaches no store whose turn is over
(`run_onlyAbove`); from its turn on a store stays as its flush left it (`flushLoop_spares`).
-/

namespace KrabkaStreams

open StateStore CachedStore

variable {P M S V : Type} [StateStore S V] [CachedStore S] {g g' : Graph P M S V} {rc : RecordContext}
  {idx : Nat} {log : List (Dispatched V)} {c : CachingKeyValueStore}

namespace CachedStore

theorem Stages.refl (s : S) : Stages s s := ⟨rfl, List.Subset.refl _, fun _ => rfl, rfl⟩

theorem Stages.isSome_eq {s s' : S} (h : Stages s s') : (cacheOf s').isSome = (cacheOf s).isSome := by
  have hinner := congrArg Option.isSome h.inner
  simpa only [Option.isSome_map] using hinner

theorem Stages.trans {s s' s'' : S} (h : Stages s s') (h' : Stages s' s'') : Stages s s'' :=
  ⟨h'.inner.trans h.inner, List.Subset.trans h.dirty h'.dirty,
    fun hs => (h'.changelog (h.isSome_eq.trans hs)).trans (h.changelog hs), h'.logging.trans h.logging⟩

theorem dirtyKeys_of_cacheOf {s : S} (h : cacheOf s = some c) : dirtyKeys s = c.cache.dirty := by
  unfold dirtyKeys
  rw [h]
  rfl

end CachedStore

theorem StoreRegistry.Rel.optionRel {R : S → S → Prop} {r r' : StoreRegistry S} (h : StoreRegistry.Rel R r r')
    (name : String) : Option.Rel R (OrdMap.get? r name) (OrdMap.get? r' name) := by
  induction h with
  | nil => exact .none
  | @cons e e' r r' he _ ih =>
    obtain ⟨n, s⟩ := e
    obtain ⟨n', s'⟩ := e'
    obtain ⟨rfl, hR⟩ := he
    rw [OrdMap.get?_cons, OrdMap.get?_cons]
    split
    · exact .some hR
    · exact ih

namespace Graph

/-- The nodes from `m` on moved `g` to `g'`. -/
structure OnlyAbove (m : Nat) (g g' : Graph P M S V) : Prop where
  nodes : g'.nodes = g.nodes
  children : g'.children = g.children
  cacheOwner : g'.cacheOwner = g.cacheOwner
  spared : ∀ name owner, g.cacheOwner.get? name = some owner → owner < m → g'.stores.get? name = g.stores.get? name
  staged : ∀ name, Option.Rel Stages (g.stores.get? name) (g'.stores.get? name)

theorem stages_optionRel_refl (o : Option S) : Option.Rel Stages o o := by
  cases o with
  | none => exact .none
  | some s => exact .some (.refl s)

theorem stages_optionRel_trans {o o' o'' : Option S} (h : Option.Rel Stages o o') (h' : Option.Rel Stages o' o'') :
    Option.Rel Stages o o'' := by
  cases h with
  | none => exact h'
  | some h =>
    cases h' with
    | some h' => exact .some (h.trans h')

namespace OnlyAbove

variable {m : Nat} {g g' g'' : Graph P M S V}

theorem refl (m : Nat) (g : Graph P M S V) : OnlyAbove m g g :=
  ⟨rfl, rfl, rfl, fun _ _ _ _ => rfl, fun _ => stages_optionRel_refl _⟩

theorem trans (h : OnlyAbove m g g') (h' : OnlyAbove m g' g'') : OnlyAbove m g g'' where
  nodes := h'.nodes.trans h.nodes
  children := h'.children.trans h.children
  cacheOwner := h'.cacheOwner.trans h.cacheOwner
  spared name owner howner hlt :=
    (h'.spared name owner (h.cacheOwner ▸ howner) hlt).trans (h.spared name owner howner hlt)
  staged name := stages_optionRel_trans (h.staged name) (h'.staged name)

end OnlyAbove

variable [Processor P M S V]

structure Wired (g : Graph P M S V) : Prop where
  forward : g.Forward
  writesOwn : g.WritesOwn

omit [StateStore S V] [CachedStore S] in
theorem Wired.of_eq (h : g.Wired) (hnodes : g'.nodes = g.nodes) (hchildren : g'.children = g.children)
    (howner : g'.cacheOwner = g.cacheOwner) : g'.Wired := by
  refine ⟨fun i c hc => h.forward i c ?_, fun i p hp m c r o ho name owner hname hne => ?_⟩
  · unfold childrenOf at hc ⊢
    rwa [hchildren] at hc
  · exact h.writesOwn i p (hnodes ▸ hp) m c r o ho name owner (howner ▸ hname) hne

variable [StagingProcessor P M S V] {rc : RecordContext} {name : String}

/-- A node writes the cached stores it owns, and stages entries in the others. -/
theorem dispatch_onlyAbove {i m : Nat} {rec : ErasedRecord V} {queued : List (Nat × ErasedRecord V)}
    (hg : g.Wired) (hi : m ≤ i) (h : g.dispatch rc i rec = .ok (queued, g')) : OnlyAbove m g g' := by
  unfold dispatch at h
  rcases hn : g.nodes[i]? with _ | p | ⟨topic, serialize⟩ <;> rw [hn] at h <;> dsimp only at h
  · cases h
  · rcases hp : Processor.process p g.mem (g.context rc) rec with e | o <;> rw [hp] at h <;> cases h
    refine ⟨rfl, rfl, rfl, fun name owner howner hlt => ?_, fun name => ?_⟩
    · exact hg.writesOwn i p hn _ _ _ o hp name owner howner (by omega)
    · exact (StagingProcessor.process_stores p _ _ _ o hp).optionRel name
  · rcases hs : serialize rec with e | ⟨k, v⟩ <;> rw [hs] at h <;> cases h
    exact ⟨rfl, rfl, rfl, fun _ _ _ _ => rfl, fun _ => stages_optionRel_refl _⟩

/-- What is queued for the nodes from `m` on stays there, and moves nothing below. -/
theorem run_onlyAbove (rc : RecordContext) (m : Nat) : ∀ (n : Nat) (queue : List (Pending V)) (g : Graph P M S V),
    g.Wired → (∀ q ∈ queue, m ≤ q.node) →
      OnlyAbove m g (Worklist.run (serve rc) .outOfBudget n queue g).2.2
  | n, [], g, _, _ => by
    unfold Worklist.run
    exact .refl m g
  | 0, _ :: _, g, _, _ => .refl m g
  | n + 1, q :: queue, g, hg, hq => by
    unfold Worklist.run
    rcases serve_cases rc g q with ⟨e, hs, -⟩ | ⟨recs, g', hs, hd, -, -, -⟩ <;> rw [hs] <;> dsimp only
    · exact .refl m g
    · have hm := hq q List.mem_cons_self
      have habove := dispatch_onlyAbove hg hm hd
      refine habove.trans (run_onlyAbove rc m n _ g' (hg.of_eq habove.nodes habove.children habove.cacheOwner) ?_)
      intro q' hq'
      rcases List.mem_append.mp hq' with hq' | hq'
      · exact hq q' (List.mem_cons_of_mem _ hq')
      · have := hg.forward q.node q'.node (mem_pendingFrom hq')
        omega

theorem run_onlyAbove_end (rc : RecordContext) (m : Nat) : ∀ (b n : Nat) (queue : List (Pending V))
    (g g' : Graph P M S V) (log : List (Dispatched V)), g.Wired → (∀ q ∈ queue, m ≤ q.node) →
      Worklist.run (serve rc) .outOfBudget b queue g = (log, .ok (), g') →
        OnlyAbove m (Worklist.run (serve rc) .outOfBudget n queue g).2.2 g'
  | b, n, [], g, g', log, _, _, h => by
    have hb : Worklist.run (serve rc) .outOfBudget b [] g = ([], .ok (), g) := by cases b <;> rfl
    have hn : Worklist.run (serve rc) .outOfBudget n [] g = ([], .ok (), g) := by cases n <;> rfl
    rw [hb] at h
    cases h
    rw [hn]
    exact .refl m g
  | 0, _, _ :: _, _, _, _, _, _, h => by cases h
  | b + 1, 0, q :: queue, g, g', log, hg, hq, h => by
    have habove := run_onlyAbove rc m (b + 1) (q :: queue) g hg hq
    rw [h] at habove
    exact habove
  | b + 1, n + 1, q :: queue, g, g', log, hg, hq, h => by
    unfold Worklist.run at h ⊢
    rcases serve_cases rc g q with ⟨e, hs, -⟩ | ⟨recs, g₁, hs, hd, -, -, -⟩ <;> rw [hs] at h ⊢ <;> dsimp only at h ⊢
    · cases h
    · have habove := dispatch_onlyAbove hg (hq q List.mem_cons_self) hd
      obtain ⟨hrest, hr⟩ := Prod.mk.inj h
      refine run_onlyAbove_end rc m b n _ g₁ g' _ (hg.of_eq habove.nodes habove.children habove.cacheOwner) ?_
        (Prod.ext rfl hr)
      intro q' hq'
      rcases List.mem_append.mp hq' with hq' | hq'
      · exact hq q' (List.mem_cons_of_mem _ hq')
      · have hm := hq q List.mem_cons_self
        have := hg.forward q.node q'.node (mem_pendingFrom hq')
        omega

/-- What the turn of the store `name` at its owner `idx` does to a graph. -/
structure TookTurn (name : String) (idx : Nat) (g g' : Graph P M S V) : Prop where
  nodes : g'.nodes = g.nodes
  children : g'.children = g.children
  cacheOwner : g'.cacheOwner = g.cacheOwner
  flushed : g.cacheOwner.get? name = some idx →
    g'.stores.get? name = (g.stores.get? name).map fun s => (flushCacheInto s).2
  spared : ∀ name' owner, name' ≠ name → g.cacheOwner.get? name' = some owner → owner ≤ idx →
    g'.stores.get? name' = g.stores.get? name'
  staged : ∀ name', name' ≠ name → Option.Rel Stages (g.stores.get? name') (g'.stores.get? name')
  absent : ∀ name', g.stores.get? name' = none → g'.stores.get? name' = none

omit [Processor P M S V] [StagingProcessor P M S V] in
theorem TookTurn.of_flush {s : S} (hs : g.stores.get? name = some s)
    (h : OnlyAbove (idx + 1) { g with stores := g.stores.insert name (flushCacheInto s).2 } g') :
    TookTurn name idx g g' where
  nodes := h.nodes
  children := h.children
  cacheOwner := h.cacheOwner
  flushed howner := by
    rw [h.spared name idx howner (Nat.lt_succ_self idx), hs]
    exact OrdMap.get?_insert_self _ _ _
  spared name' owner hne howner hle := by
    rw [h.spared name' owner howner (Nat.lt_succ_of_le hle)]
    exact OrdMap.get?_insert_of_ne (Ne.symm hne)
  staged name' hne := by
    have hstaged := h.staged name'
    rwa [show OrdMap.get? (g.stores.insert name (flushCacheInto s).2) name' = g.stores.get? name' from
      OrdMap.get?_insert_of_ne (Ne.symm hne)] at hstaged
  absent name' hnone := by
    have hne : name ≠ name' := by
      rintro rfl
      rw [hs] at hnone
      cases hnone
    have hstaged := h.staged name'
    rw [show OrdMap.get? (g.stores.insert name (flushCacheInto s).2) name' = none from
      (OrdMap.get?_insert_of_ne hne).trans hnone] at hstaged
    generalize g'.stores.get? name' = after at hstaged
    cases hstaged
    rfl

theorem flushStoreServed_tookTurn {g : Graph P M S V} (hg : g.Wired) (n : Nat) (name : String) (idx : Nat)
    (rc : RecordContext) : TookTurn name idx g (g.flushStoreServed n name idx rc).2.2 := by
  unfold flushStoreServed
  rcases hs : g.stores.get? name with _ | s <;> dsimp only
  · exact ⟨rfl, rfl, rfl, fun _ => by rw [hs]; rfl, fun _ _ _ _ _ => rfl, fun _ _ => stages_optionRel_refl _,
      fun _ h => h⟩
  · rcases (flushCacheInto s).1 with e | changes
    · dsimp only
      split <;> exact .of_flush hs (.refl _ _)
    · refine .of_flush hs (run_onlyAbove rc (idx + 1) n _ _ (hg.of_eq rfl rfl rfl) fun q hq => ?_)
      obtain ⟨⟨c, r⟩, hcr, rfl⟩ := List.mem_map.mp hq
      exact hg.forward idx c (mem_fanOut hcr)

theorem moment_stages (hg : g.Wired) {name : String}
    (hok : g.flushStoreServed g.budget name idx rc = (log, .ok (), g')) (n : Nat) (name' : String) :
    Option.Rel Stages ((g.flushStoreServed n name idx rc).2.2.stores.get? name') (g'.stores.get? name') := by
  unfold flushStoreServed at hok ⊢
  rcases hs : g.stores.get? name with _ | s <;> rw [hs] at hok <;> dsimp only at hok ⊢
  · cases hok
    exact stages_optionRel_refl _
  · rcases hflush : (flushCacheInto s).1 with e | changes <;> rw [hflush] at hok
    · dsimp only at hok ⊢
      split at hok
      · rename_i hchildren
        cases hok
        rw [if_pos hchildren]
        exact stages_optionRel_refl _
      · cases hok
    · refine (run_onlyAbove_end rc (idx + 1) g.budget n _ _ g' log ?_ (fun q hq => ?_) hok).staged name'
      · exact hg.of_eq rfl rfl rfl
      obtain ⟨⟨c, r⟩, hcr, rfl⟩ := List.mem_map.mp hq
      exact hg.forward idx c (mem_fanOut hcr)

omit [CachedStore S] [StagingProcessor P M S V] in
theorem flushStore_eq (g : Graph P M S V) (name : String) (idx : Nat) (rc : RecordContext) :
    g.flushStore name idx rc = (g.flushStoreServed g.budget name idx rc).2 := by
  have hnil : ∀ (n : Nat) (g' : Graph P M S V), drainLoop rc n [] g' = (.ok (), g') := fun n _ => by
    unfold drainLoop
    rfl
  unfold flushStore flushStoreServed drain
  rcases g.stores.get? name with _ | s
  · exact hnil _ _
  · dsimp only
    rcases (flushCacheInto s).1 with e | changes <;> dsimp only
    · by_cases hchildren : g.childrenOf idx = []
      · rw [if_pos hchildren, if_pos hchildren]
        exact hnil _ _
      · rw [if_neg hchildren, if_neg hchildren]
    · rw [← drainLoop_eq, List.map_map]
      congr 1
      exact (List.map_id _).symm

omit [CachedStore S] [StagingProcessor P M S V] in
theorem flushLoop_cons {rest : List (String × Nat)} (h : flushLoop rc ((name, idx) :: rest) g = (.ok (), g')) :
    ∃ log u, g.flushStoreServed g.budget name idx rc = (log, .ok (), u) ∧ flushLoop rc rest u = (.ok (), g') ∧
      flushTurns rc ((name, idx) :: rest) g = ⟨name, idx, g, log, u⟩ :: flushTurns rc rest u := by
  unfold flushLoop at h
  rw [flushStore_eq] at h
  rcases hturn : g.flushStoreServed g.budget name idx rc with ⟨log, e | ⟨⟩, u⟩ <;> rw [hturn] at h <;> dsimp only at h
  · cases h
  · refine ⟨log, u, rfl, h, ?_⟩
    simp only [flushTurns, hturn]

omit [CachedStore S] [StagingProcessor P M S V] in
theorem flushLoop_append : ∀ {pre post : List (String × Nat)} {g g' : Graph P M S V},
    flushLoop rc (pre ++ post) g = (.ok (), g') → ∃ u, flushLoop rc pre g = (.ok (), u) ∧
      flushLoop rc post u = (.ok (), g') ∧
      flushTurns rc (pre ++ post) g = flushTurns rc pre g ++ flushTurns rc post u
  | [], _, g, _, h => ⟨g, rfl, h, rfl⟩
  | (name, idx) :: pre, post, g, g', h => by
    rw [List.cons_append] at h
    obtain ⟨log, u, hturn, hrest, hturns⟩ := flushLoop_cons h
    obtain ⟨v, hpre, hpost, hmore⟩ := flushLoop_append hrest
    have hhere : flushLoop rc ((name, idx) :: pre) g = (.ok (), v) := by
      unfold flushLoop
      rw [flushStore_eq, hturn]
      exact hpre
    refine ⟨v, hhere, hpost, ?_⟩
    obtain ⟨log', u', hturn', -, hturns'⟩ := flushLoop_cons hhere
    rw [hturn] at hturn'
    cases hturn'
    rw [List.cons_append, hturns, hturns', hmore, List.cons_append]

theorem flushLoop_spares : ∀ {rest : List (String × Nat)}
    {g g' : Graph P M S V}, g.Wired → g.cacheOwner.get? name = some idx → (∀ e ∈ rest, e.1 ≠ name ∧ idx ≤ e.2) →
      flushLoop rc rest g = (.ok (), g') → g'.stores.get? name = g.stores.get? name ∧
        ∀ t ∈ flushTurns rc rest g, ∀ n, (t.moment rc n).stores.get? name = g.stores.get? name
  | [], g, g', _, _, _, h => by
    cases h
    exact ⟨rfl, fun t ht => absurd ht List.not_mem_nil⟩
  | (name', idx') :: rest, g, g', hg, howner, hrest, h => by
    obtain ⟨log, u, hturn, hloop, hturns⟩ := flushLoop_cons h
    obtain ⟨hne, hle⟩ := hrest _ List.mem_cons_self
    have htook : ∀ n, (g.flushStoreServed n name' idx' rc).2.2.stores.get? name = g.stores.get? name := fun n =>
      (flushStoreServed_tookTurn hg n name' idx' rc).spared name idx (Ne.symm hne) howner hle
    have hend := flushStoreServed_tookTurn hg g.budget name' idx' rc
    have hhere := htook g.budget
    rw [hturn] at hend hhere
    obtain ⟨hspared, hmoments⟩ := flushLoop_spares (hg.of_eq hend.nodes hend.children hend.cacheOwner)
      (hend.cacheOwner ▸ howner) (fun e he => hrest e (List.mem_cons_of_mem _ he)) hloop
    refine ⟨hspared.trans hhere, fun t ht n => ?_⟩
    rw [hturns] at ht
    rcases List.mem_cons.mp ht with rfl | ht
    · exact htook n
    · exact (hmoments t ht n).trans hhere

theorem flushLoop_stages : ∀ {pre : List (String × Nat)} {g g' : Graph P M S V},
    g.Wired → (∀ e ∈ pre, e.1 ≠ name) → flushLoop rc pre g = (.ok (), g') →
      Option.Rel Stages (g.stores.get? name) (g'.stores.get? name) ∧
        ∀ t ∈ flushTurns rc pre g, ∀ n, Option.Rel Stages ((t.moment rc n).stores.get? name) (g'.stores.get? name)
  | [], g, g', _, _, h => by
    cases h
    exact ⟨stages_optionRel_refl _, fun t ht => absurd ht List.not_mem_nil⟩
  | (name', idx') :: pre, g, g', hg, hpre, h => by
    obtain ⟨log, u, hturn, hloop, hturns⟩ := flushLoop_cons h
    have hend := flushStoreServed_tookTurn hg g.budget name' idx' rc
    rw [hturn] at hend
    obtain ⟨hstaged, hmoments⟩ := flushLoop_stages (hg.of_eq hend.nodes hend.children hend.cacheOwner)
      (fun e he => hpre e (List.mem_cons_of_mem _ he)) hloop
    refine ⟨stages_optionRel_trans (hend.staged name (Ne.symm (hpre _ List.mem_cons_self))) hstaged, fun t ht n => ?_⟩
    rw [hturns] at ht
    rcases List.mem_cons.mp ht with rfl | ht
    · exact stages_optionRel_trans (moment_stages hg hturn n name) hstaged
    · exact hmoments t ht n

theorem flushLoop_wired : ∀ {owners : List (String × Nat)} {g g' : Graph P M S V}, g.Wired →
    flushLoop rc owners g = (.ok (), g') → g'.Wired ∧ g'.cacheOwner = g.cacheOwner ∧
      ∀ name, g.stores.get? name = none → g'.stores.get? name = none
  | [], g, g', hg, h => by
    cases h
    exact ⟨hg, rfl, fun _ h => h⟩
  | (name, idx) :: rest, g, g', hg, h => by
    obtain ⟨log, u, hturn, hloop, -⟩ := flushLoop_cons h
    have hend := flushStoreServed_tookTurn hg g.budget name idx rc
    rw [hturn] at hend
    obtain ⟨hwired, howner, habsent⟩ := flushLoop_wired (hg.of_eq hend.nodes hend.children hend.cacheOwner) hloop
    exact ⟨hwired, howner.trans hend.cacheOwner, fun name' h => habsent name' (hend.absent name' h)⟩

omit [CachedStore S] [StagingProcessor P M S V] in
theorem names_flushTurns : ∀ {owners : List (String × Nat)} {g g' : Graph P M S V},
    flushLoop rc owners g = (.ok (), g') → (flushTurns rc owners g).map (·.name) = owners.map Prod.fst
  | [], _, _, _ => rfl
  | (name, idx) :: rest, g, g', h => by
    obtain ⟨log, u, -, hloop, hturns⟩ := flushLoop_cons h
    rw [hturns, List.map_cons, List.map_cons, names_flushTurns hloop]

omit [StateStore S V] [CachedStore S] [StagingProcessor P M S V] in
theorem served_to_child {n : Nat} {queue : List (Nat × ErasedRecord V)}
    (h : Worklist.run (serve rc) .outOfBudget n (queue.map fun q => ⟨none, q.1, q.2⟩) g = (log, .ok (), g'))
    (child : Nat) : (log.filter fun d => d.item.origin = none ∧ d.item.node = child).map (·.item.record) =
      (queue.filter fun q => q.1 = child).map (·.2) := by
  have hends := Worklist.ends_of_run h
  -- what the nodes queue has an origin, so what has none is what the turn began with
  have hqueued := (hends.keeps (I := fun _ => True) (G := fun d => ∀ q ∈ d.queued, q.origin ≠ none) trivial
    fun g₁ q _ => ⟨trivial, fun recs queued hok q' hq' => ?_⟩).2
  · have hitems : (log.filter fun d => d.item.origin = none ∧ d.item.node = child).map (·.item.record) =
        ((log.map (·.item)).filter fun q => q.origin = none ∧ q.node = child).map (·.record) := by
      rw [List.filter_map, List.map_map]
      rfl
    have hnone : (log.flatMap (·.queued)).filter (fun q => q.origin = none ∧ q.node = child) = [] := by
      refine List.filter_eq_nil_iff.mpr fun q hq => ?_
      obtain ⟨d, hd, hq⟩ := List.mem_flatMap.mp hq
      simp [hqueued d hd q hq]
    rw [hitems, hends.served rfl, List.filter_append, hnone, List.append_nil, List.filter_map, List.map_map]
    simp only [Function.comp_def, true_and]
  · rcases serve_cases rc g₁ q with ⟨e, hs, -⟩ | ⟨recs', g₂, hs, -⟩ <;> rw [hs] at hok <;> cases hok
    obtain ⟨_, -, rfl⟩ := List.mem_map.mp hq'
    exact Option.some_ne_none _

variable [LawfulCachedStore S]

omit [StagingProcessor P M S V] in
theorem delivers_of_turn {g u : Graph P M S V} {name : String} {s : S} (hs : g.stores.get? name = some s)
    (hc : cacheOf s = some c) (hok : g.flushStoreServed g.budget name idx rc = (log, .ok (), u)) :
    Turn.Delivers ⟨name, idx, g, log, u⟩ s c := by
  intro child hchild
  unfold flushStoreServed at hok
  rw [hs] at hok
  dsimp only at hok
  rcases hflush : (flushCacheInto s).1 with e | changes <;> rw [hflush] at hok <;> dsimp only at hok
  · have hne : g.childrenOf idx ≠ [] := List.ne_nil_of_mem hchild
    rw [if_neg hne] at hok
    cases hok
  · rw [LawfulCachedStore.flush_changes s c hc, c.flushWithOld_fst, List.mapM_map] at hflush
    have hmem := (List.forall₂_and_left (p := (· ∈ c.cache.dirty)) _ _).mpr ⟨fun _ hk => hk, Lists.forall₂_of_mapM hflush⟩
    refine ⟨changes, hmem.imp fun k r hkr => ?_, ?_⟩
    · obtain ⟨e, he, hview, hctx, -⟩ := c.exists_of_mem_dirty hkr.1
      refine ⟨e, he, ?_⟩
      rw [← hview, ← hctx]
      exact hkr.2
    · rw [served_to_child hok, filter_fanOut]

omit [StagingProcessor P M S V] [Processor P M S V] in
theorem flushedThrough_of_stages {s₀ s : S} (hstages : Stages s₀ s) (hc : cacheOf s = some c) :
    FlushedThrough s₀ s (flushCacheInto s).2 c c.flushWithOld.2 where
  staged := hc
  left := LawfulCachedStore.flush_cache s c hc
  clean := rfl
  written k hk := by
    obtain ⟨e, he, -, -, hinner⟩ := c.exists_of_mem_dirty hk
    exact ⟨e, he, hinner⟩
  logged := by
    have hcached : (cacheOf s₀).isSome := by rw [← hstages.isSome_eq, hc]; rfl
    rw [LawfulCachedStore.flush_changelog s c hc, hstages.changelog hcached, hstages.logging, c.flushWithOld_entries,
      List.map_map]
    rfl

omit [LawfulCachedStore S] in
theorem turn_of_owned {owners : List (String × Nat)} {name : String} {s₀ : S} (hg : g.Wired)
    (howner : g.cacheOwner.get? name = some idx) (hs₀ : g.stores.get? name = some s₀)
    (hmem : (name, idx) ∈ owners) (hsorted : owners.Pairwise fun a b => a.2 ≤ b.2)
    (hnodup : (owners.map Prod.fst).Nodup) (hok : flushLoop rc owners g = (.ok (), g')) :
    ∃ t ∈ flushTurns rc owners g, ∃ s, t.name = name ∧ t.owner = idx ∧
      (∀ t' ∈ flushTurns rc owners g, t'.name = name → t' = t) ∧
      t.before.flushStoreServed t.before.budget name idx rc = (t.log, .ok (), t.after) ∧
      t.before.stores.get? name = some s ∧ g'.stores.get? name = some (flushCacheInto s).2 ∧ Stages s₀ s ∧
      ∀ t' ∈ flushTurns rc owners g, ∀ n s'', (t'.moment rc n).stores.get? name = some s'' →
        Stages s'' s ∨ s'' = (flushCacheInto s).2 := by
  have hnames := names_flushTurns hok
  obtain ⟨pre, post, rfl⟩ := List.append_of_mem hmem
  obtain ⟨u, hpre, hrest, hturns⟩ := flushLoop_append hok
  obtain ⟨log, v, hturn, hpost, hturns'⟩ := flushLoop_cons hrest
  rw [List.map_append, List.map_cons] at hnodup
  have hnotpre : ∀ e ∈ pre, e.1 ≠ name := fun e he heq =>
    (List.nodup_append.mp hnodup).2.2 _ (List.mem_map_of_mem he) _ List.mem_cons_self heq
  have hlater : ∀ e ∈ post, e.1 ≠ name ∧ idx ≤ e.2 := fun e he =>
    ⟨fun heq => (List.nodup_cons.mp (List.nodup_append.mp hnodup).2.1).1 (List.mem_map.mpr ⟨e, he, heq⟩),
      (List.pairwise_cons.mp (List.pairwise_append.mp hsorted).2.1).1 e he⟩
  obtain ⟨hwired, hcacheOwner, -⟩ := flushLoop_wired hg hpre
  obtain ⟨hstaged, hbefore⟩ := flushLoop_stages hg hnotpre hpre
  have htook := flushStoreServed_tookTurn hwired u.budget name idx rc
  rw [hturn] at htook
  obtain ⟨hspared, hafter⟩ := flushLoop_spares (hwired.of_eq htook.nodes htook.children htook.cacheOwner)
    (htook.cacheOwner ▸ hcacheOwner ▸ howner) hlater hpost
  rw [hs₀] at hstaged
  rcases hs : u.stores.get? name with _ | s <;> rw [hs] at hstaged <;> cases hstaged
  rename_i hstages
  have hflushed := fun n => (flushStoreServed_tookTurn hwired n name idx rc).flushed (hcacheOwner ▸ howner)
  have hend := hflushed u.budget
  rw [hturn, hs] at hend
  have hin : (⟨name, idx, u, log, v⟩ : Turn P M S V) ∈ flushTurns rc (pre ++ (name, idx) :: post) g := by
    rw [hturns, hturns']
    exact List.mem_append_right _ List.mem_cons_self
  refine ⟨_, hin, s, rfl, rfl, fun t' ht' heq => ?_, hturn, hs, hspared.trans hend, hstages, fun t' ht' n s'' hs'' => ?_⟩
  · refine List.inj_on_of_nodup_map (f := fun t : Turn P M S V => t.name) ?_ ht' hin heq
    rw [hnames, List.map_append, List.map_cons]
    exact hnodup
  · rw [hturns, hturns'] at ht'
    rcases List.mem_append.mp ht' with ht' | ht'
    · have hmoment := hbefore t' ht' n
      rw [hs'', hs] at hmoment
      cases hmoment
      exact .inl ‹_›
    · rcases List.mem_cons.mp ht' with rfl | ht'
      · have hmoment := hflushed n
        rw [hs] at hmoment
        exact .inr (Option.some.inj (hs''.symm.trans hmoment))
      · exact .inr (Option.some.inj (hs''.symm.trans ((hafter t' ht' n).trans hend)))

theorem dirtyKeys_flush (s : S) : dirtyKeys (flushCacheInto s).2 = [] := by
  unfold dirtyKeys
  rcases hc : cacheOf s with _ | c
  · rw [LawfulCachedStore.flush_plain s hc]
    rw [hc]
    rfl
  · rw [LawfulCachedStore.flush_cache s c hc]
    rfl

theorem flushesOnce_of_wired (hg : g.Wired) (hnodup : g.cacheOwner.keys.Nodup)
    (hcached : ∀ name s, g.stores.get? name = some s → (cacheOf s).isSome → name ∈ g.cacheOwner.keys)
    (hok : g.flushCaches = (.ok (), g')) : g.FlushesOnce g' := by
  have hperm : g.cacheOwners.Perm g.cacheOwner := List.perm_insertionSort _ _
  have hsorted : g.cacheOwners.Pairwise fun a b => a.2 ≤ b.2 := Lists.pairwise_insertionSort (·.2) g.cacheOwner
  have hnames : (g.cacheOwners.map Prod.fst).Nodup := (hperm.map Prod.fst).nodup_iff.mpr hnodup
  have hturn := fun name idx s₀ (howner : g.cacheOwner.get? name = some idx) (hs₀ : g.stores.get? name = some s₀) =>
    turn_of_owned hg howner hs₀ (hperm.mem_iff.mpr (OrdMap.mem_of_get?_eq_some howner)) hsorted hnames hok
  refine ⟨fun name s' hs' => ?_, fun name s₀ hs₀ hsome => ?_⟩
  · rw [LawfulCachedStore.dirty_eq]
    rcases hs₀ : g.stores.get? name with _ | s₀
    · rw [(flushLoop_wired hg hok).2.2 name hs₀] at hs'
      cases hs'
    · by_cases howned : name ∈ g.cacheOwner.keys
      · obtain ⟨idx, howner⟩ := (OrdMap.mem_keys_iff _ _).mp howned
        obtain ⟨t, -, s, -, -, -, -, -, hend, -⟩ := hturn name idx s₀ howner hs₀
        rw [hs'] at hend
        rw [Option.some.inj hend, dirtyKeys_flush]
        rfl
      · have hstaged := (flushLoop_stages hg (fun e he heq => howned
          (List.mem_map.mpr ⟨e, hperm.mem_iff.mp he, heq⟩)) hok).1
        rw [hs₀, hs'] at hstaged
        cases hstaged
        rename_i hstages
        have hplain : cacheOf s' = none := by
          rcases hc : cacheOf s' with _ | c
          · rfl
          · exact absurd (hcached name s₀ hs₀ (hstages.isSome_eq.symm.trans (by rw [hc]; rfl))) howned
        unfold dirtyKeys
        rw [hplain]
        rfl
  · obtain ⟨idx, howner⟩ := (OrdMap.mem_keys_iff _ _).mp (hcached name s₀ hs₀ hsome)
    obtain ⟨t, ht, s, hname, hidx, hunique, hserved, hs, hs', hstages, hmoments⟩ := hturn name idx s₀ howner hs₀
    obtain ⟨c, hc⟩ := Option.isSome_iff_exists.mp (hstages.isSome_eq.trans hsome)
    have hthrough := flushedThrough_of_stages hstages hc
    obtain ⟨_, _, before, log, after⟩ := t
    cases hname
    cases hidx
    refine ⟨_, s, _, c, _, ht, rfl, hunique, howner, hs, hs', hthrough, delivers_of_turn hs hc hserved, ?_, ?_⟩
    · rw [← dirtyKeys_of_cacheOf hc]
      exact hstages.dirty
    · intro t' ht' n s'' hs''
      rcases hmoments t' ht' n s'' hs'' with h | rfl
      · rw [← dirtyKeys_of_cacheOf hc]
        exact h.dirty
      · rw [dirtyKeys_flush]
        exact List.nil_subset _

end Graph

namespace BuiltTopology

/-- The caches of a graph under construction: a cached store has an owner. -/
structure CachesOwned (acc : StoreRegistry S × OrdMap String Nat) : Prop where
  owned : ∀ name s, OrdMap.get? acc.1 name = some s → (cacheOf s).isSome → name ∈ acc.2.keys
  nodup : acc.2.keys.Nodup

theorem CachesOwned.wireCache {acc : StoreRegistry S × OrdMap String Nat} (h : CachesOwned acc)
    (b : BuiltTopology P M S V) (specs : List Node) (store : String) : CachesOwned (b.wireCache specs acc store) := by
  unfold BuiltTopology.wireCache
  split
  · rename_i idx s hidx hs
    split
    · rename_i s' hs'
      refine ⟨fun name s'' hget hsome => ?_, OrdMap.nodup_keys_insert h.nodup _ _⟩
      rw [OrdMap.mem_keys_iff, OrdMap.get?_insert]
      by_cases hname : store = name
      · exact ⟨idx, if_pos hname⟩
      · rw [if_neg hname, ← OrdMap.mem_keys_iff]
        exact h.owned name s'' ((OrdMap.get?_insert_of_ne hname).symm.trans hget) hsome
    · exact h
  · exact h

theorem instantiateNodes_cachesOwned {b : BuiltTopology P M S V} (hplain : b.MakesPlain) {appId : String}
    {cacheMaxBytes : Nat} {scope : Option (List String)} {g : Graph P M S V}
    (hg : b.instantiateNodes appId cacheMaxBytes scope = .ok g) : CachesOwned (g.stores, g.cacheOwner) := by
  have hstart : CachesOwned (b.storeRegistry appId scope, ([] : OrdMap String Nat)) := by
    refine ⟨fun name s hget hsome => ?_, List.nodup_nil⟩
    obtain ⟨e, he, heq⟩ := List.mem_map.mp (OrdMap.mem_of_get?_eq_some hget)
    have hs : e.2.2.make e.1 _ = s := (Prod.mk.inj heq).2
    rw [← hs, hplain e (List.mem_of_mem_filter he)] at hsome
    cases hsome
  obtain ⟨nodes, -, hg⟩ := Runs.bind_eq_ok.mp hg
  cases hg
  unfold wireRecordCaches
  split
  · exact hstart
  · exact List.foldlRecOn _ _ hstart fun acc hacc store _ => hacc.wireCache b (b.nonSource scope) store

end BuiltTopology

/-- A flush pass over a graph that `instantiate_nodes` made, in whatever state the graph is. -/
theorem flushesOnce_of_build [Processor P M S V] [StagingProcessor P M S V] [LawfulCachedStore S] {t : Topology P M S V}
    {b : BuiltTopology P M S V} {appId : String} {cacheMaxBytes : Nat} {scope : Option (List String)}
    {g₀ g g' : Graph P M S V} (ht : t.Constructed) (hb : t.build = .ok b) (hplain : b.MakesPlain)
    (hg₀ : b.instantiateNodes appId cacheMaxBytes scope = .ok g₀) (hg : g₀.StateOf g) (hwrites : g.WritesOwn)
    (hok : g.flushCaches = (.ok (), g')) : g.FlushesOnce g' := by
  have howned := BuiltTopology.instantiateNodes_cachesOwned hplain hg₀
  refine Graph.flushesOnce_of_wired ⟨fun i c hc => ?_, hwrites⟩ ?_ (fun name s hs hsome => ?_) hok
  · unfold Graph.childrenOf at hc
    rw [hg.children] at hc
    exact BuiltTopology.instantiateNodes_forward (ht.nodeSpecs_ordered hb) hg₀ i c hc
  · rw [hg.cacheOwner]
    exact howned.nodup
  · obtain ⟨s₀, hs₀, hsome₀⟩ := hg.cached name s hs hsome
    rw [hg.cacheOwner]
    exact howned.owned name s₀ hs₀ hsome₀

/-- A table node over a cached store: it keeps the value of a source record, or the new side of a change. -/
structure KeepNode where
  store : String

def KeepNode.keep (s : KeyValueBytesStore Bytes) (key : Bytes) : Value Bytes → Option (KeyValueBytesStore Bytes)
  | .atom v => some (s.put key v)
  | .change _ (some v) => some (s.put key v)
  | .change _ none => some (s.delete key).2
  | .windowed .. => none

instance : Processor KeepNode Unit (KeyValueBytesStore Bytes) (Value Bytes) where
  init _ m c := ⟨m, c.stores, [], [], []⟩
  process p m c rec :=
    match rec.key, c.stores.get? p.store with
    | some (.atom key), some s =>
      match KeepNode.keep (s.setRecordContext c.recordCtx) key rec.value with
      | some s' => .ok ⟨m, c.stores.insert p.store s', [], [], []⟩
      | none => .error (.downcast p.store)
    | _, _ => .error .panicked
  close _ m := m
  punctuate _ m c _ := ⟨m, c.stores, [], [], []⟩

theorem KeepNode.process_ok {p : KeepNode} {m : Unit} {c : ProcessorContext (KeyValueBytesStore Bytes)}
    {r : ErasedRecord (Value Bytes)} {o : Outcome KeepNode Unit (KeyValueBytesStore Bytes) (Value Bytes)}
    (h : Processor.process p m c r = .ok o) :
    ∃ s s', OrdMap.get? c.stores p.store = some s ∧ Stages s s' ∧ o.stores = OrdMap.insert c.stores p.store s' := by
  simp only [Processor.process] at h
  split at h
  · rename_i key s _ hs
    split at h
    · rename_i s' hkeep
      cases h
      have hctx : Stages s (s.setRecordContext c.recordCtx) := ⟨rfl, List.Subset.refl _, fun _ => rfl, rfl⟩
      refine ⟨s, s', hs, hctx.trans ?_, rfl⟩
      unfold KeepNode.keep at hkeep
      split at hkeep <;> cases hkeep
      · exact KeyValueBytesStore.put_stages _ _ _
      · exact KeyValueBytesStore.put_stages _ _ _
      · exact KeyValueBytesStore.delete_stages _ _
    · cases h
  · cases h

instance : StagingProcessor KeepNode Unit (KeyValueBytesStore Bytes) (Value Bytes) where
  process_stores p m c r o h := by
    obtain ⟨s, s', hs, hstages, heq⟩ := KeepNode.process_ok h
    rw [heq]
    exact .insert Stages.refl hs hstages

def keepFactory : StoreFactory (KeyValueBytesStore Bytes) where
  make name topic := .inMemory name bytesSerde bytesSerde topic
  changelog_make := KeyValueBytesStore.changelog_inMemory bytesSerde bytesSerde
  dirty_make := KeyValueBytesStore.isDirty_inMemory bytesSerde bytesSerde

def chainTopology : Topology KeepNode Unit (KeyValueBytesStore Bytes) (Value Bytes) :=
  let nodes := ((((Topology.new () 8).addSource "src" ["in"] relayDeserialize).addProcessor "first" ⟨"a"⟩ ["src"]).addProcessor
    "second" ⟨"b"⟩ ["first"]).addProcessor "third" ⟨"c"⟩ ["second"]
  let stores := ((nodes.addStateStore "a" keepFactory ["first"] none).addStateStore "b" keepFactory ["second"]
    none).addStateStore "c" keepFactory ["third"] none
  ((stores.markStoreCaching "c" true).markStoreCaching "b" true).markStoreCaching "a" true

def chainStart : Graph KeepNode Unit (KeyValueBytesStore Bytes) (Value Bytes) where
  nodes := [.processorNode ⟨"a"⟩, .processorNode ⟨"b"⟩, .processorNode ⟨"c"⟩]
  children := [[1], [2], []]
  sources := [relaySource "src" "in" [0]]
  output := []
  stores := ["a", "b", "c"].map fun name => (name,
    { keepFactory.make name s!"app-{name}-changelog" with backing := .cached ⟨.new, .empty⟩ })
  globals := []
  schedules := []
  cancelled := []
  streamTime := i64Min
  wallClock := 0
  cacheOwner := [("c", 2), ("b", 1), ("a", 0)]
  mem := ()
  budget := 8

def chainGraph : Graph KeepNode Unit (KeyValueBytesStore Bytes) (Value Bytes) :=
  (chainStart.pipe "in" 0 0 (some [1]) [7] 5).2

theorem chain_writesOwn : chainGraph.WritesOwn := by
  intro i p hp m c r o ho name owner howner hne
  obtain ⟨s, s', -, -, heq⟩ := KeepNode.process_ok ho
  have hname : p.store ≠ name := by
    rintro rfl
    have hmem := OrdMap.mem_of_get?_eq_some (m := [("c", 2), ("b", 1), ("a", 0)]) howner
    rcases i with _ | _ | _ | i
    all_goals cases hp
    all_goals simp at hmem
    all_goals exact hne hmem
  rw [heq]
  exact OrdMap.get?_insert_of_ne hname

theorem flushesOnce_chain : chainGraph.flushCaches.1 = .ok () ∧ chainGraph.FlushesOnce chainGraph.flushCaches.2 := by
  have hok : chainGraph.flushCaches.1 = .ok () := by rfl
  have hnodes := (((Topology.Constructed.new (P := KeepNode) (S := KeyValueBytesStore Bytes) () 8).addSource "src" ["in"] relayDeserialize).addProcessor
    "first" ⟨"a"⟩ ["src"]).addProcessor "second" ⟨"b"⟩ ["first"] |>.addProcessor "third" ⟨"c"⟩ ["second"]
  have hstores := ((hnodes.addStateStore "a" keepFactory ["first"] none).addStateStore "b" keepFactory ["second"]
    none).addStateStore "c" keepFactory ["third"] none
  have ht : chainTopology.Constructed :=
    ((hstores.markStoreCaching "c" true).markStoreCaching "b" true).markStoreCaching "a" true
  obtain ⟨b, hb, hplain, hg⟩ : ∃ b, chainTopology.build = .ok b ∧ b.MakesPlain ∧
      b.instantiateNodes "app" 1 none = .ok chainStart := by
    refine ⟨_, rfl, ?_, rfl⟩
    intro e he name topic
    have he' : e ∈ [("a", (none : Option Topic), keepFactory), ("b", none, keepFactory), ("c", none, keepFactory)] := he
    simp only [List.mem_cons, List.not_mem_nil, or_false] at he'
    rcases he' with rfl | rfl | rfl <;> rfl
  refine ⟨hok, flushesOnce_of_build ht hb hplain hg ⟨rfl, rfl, rfl, fun name s hs _ => ?_⟩ chain_writesOwn
    (Prod.ext hok rfl)⟩
  have hname : name ∈ ["a", "b", "c"] := (OrdMap.mem_keys_iff _ _).mpr ⟨s, hs⟩
  simp only [List.mem_cons, List.not_mem_nil, or_false] at hname
  rcases hname with rfl | rfl | rfl <;> exact ⟨_, rfl, rfl⟩

end KrabkaStreams
