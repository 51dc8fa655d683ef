import KrabkaStreams.Dsl.GroupedTable
import KrabkaStreams.Lib.GroupedFold
import KrabkaStreams.Lib.Runs
import KrabkaStreams.Proofs.Changed
import KrabkaStreams.Proofs.TableStore

/-!
# The aggregate follows the changes of a table

A change takes its old side out of one group and adds its new side to another (`feed_spec`), so the
aggregates stay the folds of the rows while the old sides are right (`feed_folds`).
-/

namespace KrabkaStreams

open GroupedFold Runs

variable {K V KR VR T : Type}

/-- The adder commutes, and the subtractor undoes it. -/
structure KTableAggregateProcessor.Invertible (p : KTableAggregateProcessor KR VR T) : Prop where
  comm : ∀ g a b t, p.adder g a (p.adder g b t) = p.adder g b (p.adder g a t)
  inverse : ∀ g a t, p.subtractor g a (p.adder g a t) = t

theorem KTableAggregateProcessor.process_rows [DecidableEq KR] (p : KTableAggregateProcessor KR VR T)
    {store : TableStore KR T} {f : KR → Option T} (h : store.Rows f) (rc : RecordContext) (x : KR)
    (c : Change VR) (ts : Int) : ∃ store' out, p.process store rc ⟨some x, c, ts⟩ = .ok (store', out) ∧
      store'.Rows (Function.update f x (some (p.apply x c ((f x).getD p.init)))) := by
  have hctx : (store.setRecordContext rc).Rows f := ⟨h.key, h.value, h.table⟩
  refine ⟨_, p.forwarder.maybeForwardChange x (.update (f x) (p.apply x c ((f x).getD p.init))) ts, ?_,
    hctx.put x _⟩
  unfold process
  simp only [hctx.get x]
  rfl

namespace GroupedTable

/-- What the sink writes under the name of the topic, the source reads under its own name, and no value is
longer than a slice can be. -/
structure Hops (g : GroupedTable K V KR VR T) : Prop where
  key : ∀ k, g.keySerde.deserialize g.sourceName (g.keySerde.serialize g.topic k) = .ok k
  value : ∀ v, g.valueSerde.deserialize g.sourceName (g.valueSerde.serialize g.topic v) = .ok v
  fits : Changed.Fits g.valueSerde g.topic

def grouping (g : GroupedTable K V KR VR T) (h : g.aggregate.Invertible) : Grouping K V KR T where
  group k v := (g.select.mapper k v).1
  init := g.aggregate.init
  add x k v := g.aggregate.adder x (g.select.mapper k v).2
  sub x k v := g.aggregate.subtractor x (g.select.mapper k v).2
  comm x _ _ _ _ t := h.comm x _ _ t
  inverse x _ _ t := h.inverse x _ t

variable {g : GroupedTable K V KR VR T} {store : TableStore KR T} {f : KR → Option T}

theorem receive_send (h : g.Hops) {x : KR} {c : Change VR} (hc : c.old.isSome ∨ c.new.isSome) (ts : Int) :
    ∃ m, g.send ⟨some x, c, ts⟩ = .ok m ∧ g.receive m = .ok ⟨some x, c, ts⟩ := by
  obtain ⟨bytes, hser, hde⟩ := Changed.deserialize_serialize h.value h.fits hc
  refine ⟨⟨some (g.keySerde.serialize g.topic x), bytes, ts⟩, ?_, ?_⟩
  · unfold send
    rw [hser]
    rfl
  · unfold receive
    simp only [h.key, hde]
    rfl

def aggregateOf (g : GroupedTable K V KR VR T) (f : KR → Option T) (x : KR) : T := (f x).getD g.aggregate.init

theorem read_cons [DecidableEq KR] {m : RepartitionRecord} {x : KR} {c : Change VR} {ts : Int}
    (hm : g.receive m = .ok ⟨some x, c, ts⟩) (h : store.Rows f) (reading : Reading) :
    ∃ store', (∀ ms, g.read reading (m :: ms) store = g.read reading ms store') ∧
      store'.Rows (Function.update f x (some (g.aggregate.apply x c (g.aggregateOf f x)))) := by
  obtain ⟨store', out, hproc, hrows⟩ := g.aggregate.process_rows h (reading.context m) x c ts
  refine ⟨store', fun ms => ?_, hrows⟩
  show (g.receive m >>= _) = _
  rw [hm]
  show (g.aggregate.process store (reading.context m) ⟨some x, c, ts⟩ >>= _) = _
  rw [hproc]
  rfl

theorem aggregateOf_update [DecidableEq KR] (x : KR) (t : T) (y : KR) :
    g.aggregateOf (Function.update f x (some t)) y = if x = y then t else g.aggregateOf f y := by
  unfold aggregateOf
  by_cases h : x = y
  · subst h
    rw [Function.update_self, if_pos rfl]
    rfl
  · rw [Function.update_of_ne (Ne.symm h), if_neg h]

section Feed

variable [DecidableEq KR] {k : K} {ts : Int}

theorem feed_one (hops : g.Hops) (hs : store.Rows f) {c : Change V} {x : KR} {c' : Change VR}
    (hc : c'.old.isSome ∨ c'.new.isSome)
    (hsel : g.select.process ⟨some k, c, ts⟩ = .ok [⟨some x, c', ts⟩]) (reading : Reading) :
    ∃ store', g.feed reading ⟨some k, c, ts⟩ store = .ok store' ∧
      store'.Rows (Function.update f x (some (g.aggregate.apply x c' (g.aggregateOf f x)))) := by
  obtain ⟨m, hsend, hrec⟩ := receive_send hops hc ts
  obtain ⟨store', hread, hrows⟩ := read_cons hrec hs reading
  refine ⟨store', ?_, hrows⟩
  unfold feed
  rw [hsel]
  show (do
    let messages ← [(⟨some x, c', ts⟩ : Record KR (Change VR))].mapM g.send
    g.read reading (if reading.swapped then messages.reverse else messages) store) = _
  rw [List.mapM_cons, hsend]
  show g.read reading (if reading.swapped then [m].reverse else [m]) store = _
  rw [List.reverse_singleton, ite_self, hread []]
  rfl

theorem feed_two (hops : g.Hops) (hs : store.Rows f) {c : Change V} {x y : KR} (hxy : x ≠ y)
    {c₁ c₂ : Change VR} (h₁ : c₁.old.isSome ∨ c₁.new.isSome) (h₂ : c₂.old.isSome ∨ c₂.new.isSome)
    (hsel : g.select.process ⟨some k, c, ts⟩ = .ok [⟨some x, c₁, ts⟩, ⟨some y, c₂, ts⟩]) (reading : Reading) :
    ∃ store', g.feed reading ⟨some k, c, ts⟩ store = .ok store' ∧
      store'.Rows (Function.update (Function.update f x (some (g.aggregate.apply x c₁ (g.aggregateOf f x))))
        y (some (g.aggregate.apply y c₂ (g.aggregateOf f y)))) := by
  obtain ⟨m₁, hsend₁, hrec₁⟩ := receive_send hops h₁ ts
  obtain ⟨m₂, hsend₂, hrec₂⟩ := receive_send hops h₂ ts
  have hfeed : g.feed reading ⟨some k, c, ts⟩ store
      = g.read reading (if reading.swapped then [m₂, m₁] else [m₁, m₂]) store := by
    unfold feed
    rw [hsel]
    show (do
      let messages ← [(⟨some x, c₁, ts⟩ : Record KR (Change VR)), ⟨some y, c₂, ts⟩].mapM g.send
      g.read reading (if reading.swapped then messages.reverse else messages) store) = _
    rw [List.mapM_cons, hsend₁, List.mapM_cons, hsend₂]
    rfl
  rw [hfeed]
  cases reading.swapped with
  | false =>
    obtain ⟨s₁, hread₁, hrows₁⟩ := read_cons hrec₁ hs reading
    obtain ⟨s₂, hread₂, hrows₂⟩ := read_cons hrec₂ hrows₁ reading
    rw [aggregateOf_update, if_neg hxy] at hrows₂
    exact ⟨s₂, (hread₁ [m₂]).trans (hread₂ []), hrows₂⟩
  | true =>
    obtain ⟨s₁, hread₁, hrows₁⟩ := read_cons hrec₂ hs reading
    obtain ⟨s₂, hread₂, hrows₂⟩ := read_cons hrec₁ hrows₁ reading
    rw [aggregateOf_update, if_neg (Ne.symm hxy), Function.update_comm (Ne.symm hxy)] at hrows₂
    exact ⟨s₂, (hread₁ [m₁]).trans (hread₂ []), hrows₂⟩

theorem feed_spec (hops : g.Hops) (hinv : g.aggregate.Invertible) (hs : store.Rows f) (k : K)
    (c : Change V) (ts : Int) (reading : Reading) :
    ∃ store' f', g.feed reading ⟨some k, c, ts⟩ store = .ok store' ∧ store'.Rows f' ∧
      g.aggregateOf f' = (g.grouping hinv).added k c.new ((g.grouping hinv).taken k c.old (g.aggregateOf f)) := by
  obtain ⟨old, new⟩ := c
  rcases old with _ | old <;> rcases new with _ | new
  · refine ⟨store, f, ?_, hs, rfl⟩
    show g.read reading (if reading.swapped then [] else []) store = _
    rw [ite_self]
    rfl
  · obtain ⟨store', hfeed, hrows⟩ := feed_one hops hs (k := k) (c := ⟨none, some new⟩) (.inr rfl) rfl reading
    refine ⟨store', _, hfeed, hrows, funext fun x => ?_⟩
    rw [aggregateOf_update]
    by_cases hx : (g.select.mapper k new).1 = x
    · subst hx
      exact (if_pos rfl).trans (if_pos rfl).symm
    · exact (if_neg hx).trans (if_neg hx).symm
  · obtain ⟨store', hfeed, hrows⟩ := feed_one hops hs (k := k) (c := ⟨some old, none⟩) (.inl rfl) rfl reading
    refine ⟨store', _, hfeed, hrows, funext fun x => ?_⟩
    rw [aggregateOf_update]
    by_cases hx : (g.select.mapper k old).1 = x
    · subst hx
      exact (if_pos rfl).trans (if_pos rfl).symm
    · exact (if_neg hx).trans (if_neg hx).symm
  · by_cases hsame : (g.select.mapper k old).1 = (g.select.mapper k new).1
    · obtain ⟨store', hfeed, hrows⟩ := feed_one hops hs (k := k) (c := ⟨some old, some new⟩)
        (x := (g.select.mapper k new).1) (.inl rfl) (if_pos hsame) reading
      refine ⟨store', _, hfeed, hrows, funext fun x => ?_⟩
      rw [aggregateOf_update]
      by_cases hx : (g.select.mapper k new).1 = x
      · subst hx
        refine (if_pos rfl).trans ((if_pos rfl).trans ?_).symm
        exact congrArg _ (if_pos hsame)
      · refine (if_neg hx).trans ((if_neg hx).trans (if_neg fun h => hx ?_)).symm
        exact hsame.symm.trans h
    · obtain ⟨store', hfeed, hrows⟩ := feed_two hops hs (k := k) (c := ⟨some old, some new⟩) hsame
        (.inl rfl) (.inr rfl) (if_neg hsame) reading
      refine ⟨store', _, hfeed, hrows, funext fun x => ?_⟩
      rw [aggregateOf_update, aggregateOf_update]
      by_cases hx : (g.select.mapper k new).1 = x
      · subst hx
        refine (if_pos rfl).trans ((if_pos rfl).trans ?_).symm
        exact congrArg _ (if_neg hsame)
      · refine (if_neg hx).trans ((if_neg hx).trans ?_).symm
        by_cases hx' : (g.select.mapper k old).1 = x
        · subst hx'
          exact (if_pos rfl).trans (if_pos rfl).symm
        · exact (if_neg hx').trans (if_neg hx').symm

theorem feed_folds [DecidableEq K] (hops : g.Hops) (hinv : g.aggregate.Invertible) (hs : store.Rows f)
    {rows : K → Option V} (h : (g.grouping hinv).Folds (g.aggregateOf f) rows) (k : K) (new : Option V)
    (ts : Int) (reading : Reading) :
    ∃ store' f', g.feed reading ⟨some k, ⟨rows k, new⟩, ts⟩ store = .ok store' ∧ store'.Rows f' ∧
      (g.grouping hinv).Folds (g.aggregateOf f') (Function.update rows k new) := by
  obtain ⟨store', f', hfeed, hrows, heq⟩ := feed_spec hops hinv hs k ⟨rows k, new⟩ ts reading
  refine ⟨store', f', hfeed, hrows, ?_⟩
  rw [heq]
  exact h.update k new

end Feed

end GroupedTable

end KrabkaStreams
