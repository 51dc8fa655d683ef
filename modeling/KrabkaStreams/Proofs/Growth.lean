import KrabkaStreams.Proofs.GraphInvariant

/-!
# What a graph operation can do to the buffers

Every graph operation comes down to dispatches, and a dispatch appends to the sink output or to the
changelog buffers: `Grows`.
-/

namespace KrabkaStreams

open StateStore

variable {P M S V : Type} [StateStore S V]

namespace Graph

/-- The output and the changelog buffers of `g'` extend those of `g`, over the same topology. -/
structure Grows (g g' : Graph P M S V) : Prop where
  output : g.output <+: g'.output
  stores : StoreRegistry.Rel Evolves g.stores g'.stores
  nodes : g'.nodes = g.nodes
  children : g'.children = g.children
  sources : g'.sources = g.sources
  cacheOwner : g'.cacheOwner = g.cacheOwner

namespace Grows

theorem refl (g : Graph P M S V) : Grows g g :=
  ⟨List.prefix_rfl, .refl Evolves.refl _, rfl, rfl, rfl, rfl⟩

theorem trans {g g' g'' : Graph P M S V} (h : Grows g g') (h' : Grows g' g'') : Grows g g'' :=
  ⟨h.output.trans h'.output, h.stores.trans (R := Evolves) (fun _ _ _ => Evolves.trans) h'.stores,
    h'.nodes.trans h.nodes, h'.children.trans h.children, h'.sources.trans h.sources,
    h'.cacheOwner.trans h.cacheOwner⟩

theorem of_eq {g g' : Graph P M S V} (ho : g'.output = g.output) (hs : g'.stores = g.stores)
    (hn : g'.nodes = g.nodes) (hc : g'.children = g.children) (hr : g'.sources = g.sources)
    (hw : g'.cacheOwner = g.cacheOwner) : Grows g g' :=
  ⟨ho ▸ List.prefix_rfl, hs ▸ .refl Evolves.refl _, hn, hc, hr, hw⟩

end Grows

theorem grows_absorb (g : Graph P M S V) (idx : Nat) (o : Outcome P M S V)
    (h : StoreRegistry.Rel Evolves g.stores o.stores) : Grows g (g.absorb idx o) :=
  ⟨List.prefix_rfl, h, rfl, rfl, rfl, rfl⟩

section Lawful

variable [Processor P M S V] [LawfulProcessor P M S V] [LawfulStateStore S]

theorem evolves_flushCacheInto (s : S) : Evolves s (flushCacheInto s).2 :=
  ⟨LawfulStateStore.topic_flush s, LawfulStateStore.changelog_flush s⟩

omit [LawfulStateStore S] in
theorem grows_dispatch {g g' : Graph P M S V} {rc : RecordContext} {idx : Nat}
    {rec : ErasedRecord V} {queued : List (Nat × ErasedRecord V)}
    (h : g.dispatch rc idx rec = .ok (queued, g')) : Grows g g' := by
  rcases dispatch_ok h with ⟨_, _, _, _, -, -, -, rfl⟩ | ⟨p, o, -, ho, -, rfl⟩
  · exact ⟨List.prefix_append _ _, .refl Evolves.refl _, rfl, rfl, rfl, rfl⟩
  · exact grows_absorb g idx _ (LawfulProcessor.process_stores _ _ _ _ _ ho)

theorem grows_invariant (g₀ : Graph P M S V) : Invariant (fun _ => True) (Grows g₀) where
  dispatch _ _ _ _ _ _ _ h hd := h.trans (grows_dispatch hd)
  punctuate g i p ts h := h.trans (grows_absorb g i _ (LawfulProcessor.punctuate_stores p g.mem (g.context _) ts))
  flush _ _ s h hs := h.trans
    ⟨List.prefix_rfl, .insert Evolves.refl hs (evolves_flushCacheInto s), rfl, rfl, rfl, rfl⟩
  clocks _ _ _ _ h := h.trans (.of_eq rfl rfl rfl rfl rfl rfl)
  children _ _ _ _ _ := trivial

theorem grows_pipe (g : Graph P M S V) (topic : Topic) (partition offset : Int)
    (key : Option Bytes) (value : Bytes) (timestamp : Int) :
    Grows g (g.pipe topic partition offset key value timestamp).2 :=
  (grows_invariant g).pipe topic partition offset key value timestamp (fun _ _ _ _ => trivial) (.refl g)

theorem grows_punctuateStreamTime (g : Graph P M S V) (streamTime : Int) :
    Grows g (g.punctuateStreamTime streamTime).2 :=
  (grows_invariant g).punctuateStreamTime streamTime (.refl g)

theorem grows_punctuateWallClock (g : Graph P M S V) (now : Int) :
    Grows g (g.punctuateWallClock now).2 :=
  (grows_invariant g).punctuateWallClock now (.refl g)

theorem grows_flushCaches (g : Graph P M S V) : Grows g g.flushCaches.2 :=
  (grows_invariant g).flushCaches (.refl g)

end Lawful

/-- An assertion about the stores that processor calls and cache flushes keep. -/
structure KeepsStores [Processor P M S V] (J : StoreRegistry S → Prop) : Prop where
  init : ∀ (p : P) (m : M) (c : ProcessorContext S), J c.stores → J (Processor.init (V := V) p m c).stores
  process : ∀ (p : P) (m : M) (c : ProcessorContext S) (r : ErasedRecord V) o, J c.stores →
    Processor.process p m c r = .ok o → J o.stores
  punctuate : ∀ (p : P) (m : M) (c : ProcessorContext S) (t : Int), J c.stores →
    J (Processor.punctuate (V := V) p m c t).stores
  flush : ∀ (r : StoreRegistry S) name s, J r → r.get? name = some s → J (r.insert name (flushCacheInto s).2)

inductive Ran [Processor P M S V] (g : Graph P M S V) : Graph P M S V → Prop
  | pipe (topic : Topic) (partition offset : Int) (key : Option Bytes) (value : Bytes) (timestamp : Int) :
    Ran g (g.pipe topic partition offset key value timestamp).2
  | punctuateStreamTime (streamTime : Int) : Ran g (g.punctuateStreamTime streamTime).2
  | punctuateWallClock (now : Int) : Ran g (g.punctuateWallClock now).2
  | flushCaches : Ran g g.flushCaches.2

namespace KeepsStores

variable [Processor P M S V] {J : StoreRegistry S → Prop} (hJ : KeepsStores (P := P) (M := M) J)

include hJ

theorem invariant : Invariant (P := P) (M := M) (fun _ => True) fun g => J g.stores where
  dispatch g _ _ _ _ _ _ h hd := by
    rcases dispatch_ok hd with ⟨_, _, _, _, -, -, -, rfl⟩ | ⟨p, o, -, ho, -, rfl⟩
    · exact h
    · exact hJ.process p _ _ _ o h ho
  punctuate g _ p ts h := hJ.punctuate p g.mem _ ts h
  flush g name s h hs := hJ.flush g.stores name s h hs
  clocks _ _ _ _ h := h
  children _ _ _ _ _ := trivial

theorem initProcessors {g : Graph P M S V} (h : J g.stores) : J g.initProcessors.stores :=
  initProcessors_keeps (J := fun g => J g.stores) (fun g' _ p h' => hJ.init p g'.mem _ h') h

theorem ran {g g' : Graph P M S V} (hran : Ran g g') (h : J g.stores) : J g'.stores := by
  cases hran with
  | pipe topic partition offset key value timestamp =>
    exact hJ.invariant.pipe topic partition offset key value timestamp (fun _ _ _ _ => trivial) h
  | punctuateStreamTime streamTime => exact hJ.invariant.punctuateStreamTime streamTime h
  | punctuateWallClock now => exact hJ.invariant.punctuateWallClock now h
  | flushCaches => exact hJ.invariant.flushCaches h

end KeepsStores

end Graph

end KrabkaStreams
