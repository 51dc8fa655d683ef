import KrabkaStreams.Graph

/-!
# Invariants of a graph

`Graph.Invariant D J` asks that dispatches to the nodes `D`, punctuator calls and cache flushes keep
`J`; then every operation does, whatever its outcome.
-/

namespace KrabkaStreams

open StateStore

variable {P M S V : Type} [StateStore S V] [Processor P M S V] {g : Graph P M S V}

namespace Graph

omit [StateStore S V] in
theorem dispatch_ok {g g' : Graph P M S V} {rc : RecordContext} {idx : Nat} {rec : ErasedRecord V}
    {queued : List (Nat × ErasedRecord V)} (h : g.dispatch rc idx rec = .ok (queued, g')) :
    (∃ topic serialize k v, g.nodes[idx]? = some (.sinkNode topic serialize) ∧ serialize rec = .ok (k, v) ∧
      queued = [] ∧ g' = { g with output := g.output ++ [⟨topic, k, some v, rec.timestamp⟩] }) ∨
    ∃ p o, g.nodes[idx]? = some (.processorNode p) ∧ Processor.process p g.mem (g.context rc) rec = .ok o ∧
      queued = fanOut (g.childrenOf idx) o.forwards ∧ g' = g.absorb idx o := by
  unfold dispatch at h
  rcases hn : g.nodes[idx]? with _ | p | ⟨topic, serialize⟩
  · simp [hn] at h
  · rcases ho : Processor.process p g.mem (g.context rc) rec with e | o
    · simp [hn, ho] at h
    · simp only [hn, ho, Except.ok.injEq, Prod.mk.injEq] at h
      exact .inr ⟨p, o, rfl, ho, h.1.symm, h.2.symm⟩
  · rcases hs : serialize rec with e | ⟨k, v⟩
    · simp [hn, hs] at h
    · simp only [hn, hs, Except.ok.injEq, Prod.mk.injEq] at h
      exact .inl ⟨topic, serialize, k, v, rfl, hs, h.1.symm, h.2.symm⟩

/-- What has to be shown of an assertion about a graph. -/
structure Invariant (D : Nat → Prop) (J : Graph P M S V → Prop) : Prop where
  dispatch : ∀ g g' rc i rec queued, D i → J g → g.dispatch rc i rec = .ok (queued, g') → J g'
  punctuate : ∀ g i p ts, J g → J (g.absorb i (Processor.punctuate (V := V) p g.mem (g.context (syntheticContext ts)) ts))
  flush : ∀ g name s, J g → g.stores.get? name = some s →
    J { g with stores := g.stores.insert name (flushCacheInto s).2 }
  clocks : ∀ g streamTime wallClock schedules, J g →
    J { g with streamTime := streamTime, wallClock := wallClock, schedules := schedules }
  children : ∀ g i, J g → ∀ c ∈ g.childrenOf i, D c

namespace Invariant

variable {D : Nat → Prop} {J : Graph P M S V → Prop} (hJ : Invariant D J)

include hJ

theorem fanOut (h : J g) (i : Nat) (recs : List (ErasedRecord V)) :
    ∀ q ∈ Graph.fanOut (g.childrenOf i) recs, D q.1 := by
  intro q hq
  obtain ⟨r, -, hq⟩ := List.mem_flatMap.mp hq
  obtain ⟨c, hc, rfl⟩ := List.mem_map.mp hq
  exact hJ.children g i h c hc

theorem queued {g g' : Graph P M S V} {rc : RecordContext} {i : Nat} {rec : ErasedRecord V}
    {queued : List (Nat × ErasedRecord V)} (h : J g) (hd : g.dispatch rc i rec = .ok (queued, g')) :
    ∀ q ∈ queued, D q.1 := by
  rcases dispatch_ok hd with ⟨_, _, _, _, -, -, rfl, -⟩ | ⟨p, o, -, -, rfl, -⟩
  · exact fun q hq => absurd hq List.not_mem_nil
  · exact hJ.fanOut h i o.forwards

theorem drainLoop (rc : RecordContext) : ∀ (n : Nat) (buffer : List (Nat × ErasedRecord V)) (g : Graph P M S V),
    (∀ q ∈ buffer, D q.1) → J g → J (drainLoop rc n buffer g).2
  | _, [], g, _, h => by
    unfold Graph.drainLoop
    exact h
  | 0, _ :: _, _, _, h => h
  | n + 1, (i, rec) :: buffer, g, hb, h => by
    unfold Graph.drainLoop
    rcases hd : g.dispatch rc i rec with e | ⟨queued, g'⟩
    · exact h
    · have hg' := hJ.dispatch g g' rc i rec queued (hb (i, rec) List.mem_cons_self) h hd
      refine drainLoop rc n (buffer ++ queued) g' (fun q hq => ?_) hg'
      rcases List.mem_append.mp hq with hq | hq
      · exact hb q (List.mem_cons_of_mem _ hq)
      · exact hJ.queued h hd q hq

theorem drain (rc : RecordContext) {buffer : List (Nat × ErasedRecord V)} (hb : ∀ q ∈ buffer, D q.1) (h : J g) :
    J (g.drain rc buffer).2 :=
  hJ.drainLoop rc g.budget buffer g hb h

theorem fireSchedule (i : Nat) (ts : Int) (h : J g) : J (g.fireSchedule i ts).2 := by
  unfold Graph.fireSchedule
  rcases g.schedules[i]? with _ | e
  · exact h
  · exact hJ.drain _ (hJ.fanOut h e.nodeIdx _) (hJ.punctuate g e.nodeIdx e.punctuator ts h)

theorem punctuateLoop (ty : PunctuationType) (now : Int) : ∀ (is : List Nat) (g : Graph P M S V),
    J g → J (punctuateLoop ty now is g).2
  | [], _, h => h
  | i :: is, g, h => by
    unfold Graph.punctuateLoop
    rcases g.schedules[i]? with _ | e
    · exact h
    · by_cases hdue : g.isDue ty now e
      · have hfire := hJ.fireSchedule i now h
        simp only [hdue, if_true]
        rcases hf : g.fireSchedule i now with ⟨err | u, g'⟩ <;> rw [hf] at hfire
        · exact hfire
        · exact punctuateLoop ty now is _ (hJ.clocks g' g'.streamTime g'.wallClock _ hfire)
      · simp only [hdue]
        exact punctuateLoop ty now is g h

theorem punctuateStreamTime (streamTime : Int) (h : J g) : J (g.punctuateStreamTime streamTime).2 :=
  hJ.punctuateLoop _ _ _ _ (hJ.clocks g _ g.wallClock _ h)

theorem punctuateWallClock (now : Int) (h : J g) : J (g.punctuateWallClock now).2 :=
  hJ.punctuateLoop _ _ _ _ (hJ.clocks g g.streamTime now _ h)

theorem flushStore (name : String) (i : Nat) (rc : RecordContext) (h : J g) :
    J (g.flushStore name i rc).2 := by
  unfold Graph.flushStore
  have hnil : ∀ q ∈ ([] : List (Nat × ErasedRecord V)), D q.1 := fun q hq => absurd hq List.not_mem_nil
  rcases hs : g.stores.get? name with _ | s
  · exact hJ.drain rc hnil h
  · have hflush := hJ.flush g name s h hs
    rcases hc : (flushCacheInto s).1 with e | changes
    · simp only [hc]
      split
      · exact hJ.drain rc hnil hflush
      · exact hflush
    · simp only [hc]
      exact hJ.drain rc (hJ.fanOut h i changes) hflush

theorem flushLoop (rc : RecordContext) : ∀ (owners : List (String × Nat)) (g : Graph P M S V),
    J g → J (flushLoop rc owners g).2
  | [], _, h => h
  | (name, i) :: rest, g, h => by
    have hstore := hJ.flushStore name i rc h
    unfold Graph.flushLoop
    rcases hf : g.flushStore name i rc with ⟨err | u, g'⟩ <;> rw [hf] at hstore
    · exact hstore
    · exact flushLoop rc rest g' hstore

theorem flushCaches (h : J g) : J g.flushCaches.2 := hJ.flushLoop _ _ g h

theorem pipe (topic : Topic) (partition offset : Int) (key : Option Bytes) (value : Bytes) (timestamp : Int)
    (hseed : ∀ buffer, seed topic key value timestamp g.sources = .ok buffer → ∀ q ∈ buffer, D q.1) (h : J g) :
    J (g.pipe topic partition offset key value timestamp).2 := by
  have hclock := hJ.clocks g (max g.streamTime timestamp) g.wallClock g.schedules h
  unfold Graph.pipe
  rcases hs : seed topic key value timestamp g.sources with e | buffer
  · exact hclock
  · exact hJ.drain _ (hseed buffer hs) hclock

end Invariant

omit [StateStore S V] in
theorem initProcessors_keeps {J : Graph P M S V → Prop}
    (hJ : ∀ g i p, J g → J (g.absorb i (Processor.init (V := V) p g.mem (g.context (syntheticContext (-1))))))
    (h : J g) : J g.initProcessors := by
  refine List.foldlRecOn (motive := J) g.nodes.zipIdx _ h fun g' h' n _ => ?_
  rcases n with ⟨p | ⟨topic, serialize⟩, i⟩
  · exact hJ g' i p h'
  · exact h'

end Graph

end KrabkaStreams
