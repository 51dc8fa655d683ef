import KrabkaStreams.Proofs.Growth

/-!
# What the operations of a graph do to it

`Moves R` asks that dispatches, punctuator calls, flushes and the clocks move a graph by the relation
`R`; `MovesPass R` adds what a punctuation pass does to the schedules.
-/

namespace KrabkaStreams

open StateStore

variable {P M S V : Type} [StateStore S V] [Processor P M S V]

namespace Graph

structure Moves (R : Graph P M S V → Graph P M S V → Prop) : Prop where
  refl : ∀ g, R g g
  trans : ∀ g g' g'', R g g' → R g' g'' → R g g''
  dispatch : ∀ g g' rc i rec queued, g.dispatch rc i rec = .ok (queued, g') → R g g'
  punctuate : ∀ g i p ts, R g (g.absorb i (Processor.punctuate (V := V) p g.mem (g.context (syntheticContext ts)) ts))
  flush : ∀ g name s, g.stores.get? name = some s → R g { g with stores := g.stores.insert name (flushCacheInto s).2 }
  clocks : ∀ g streamTime wallClock, R g { g with streamTime := streamTime, wallClock := wallClock }

structure MovesPass (R : Graph P M S V → Graph P M S V → Prop) : Prop extends Moves R where
  setNextTime : ∀ g i t, R g (g.setNextTime i t)
  dropCancelled : ∀ g, R g { g with schedules := g.schedules.filter fun e => !g.cancelled.contains e.cancel }

namespace Moves

variable {R : Graph P M S V → Graph P M S V → Prop} (hR : Moves R) (g : Graph P M S V)

include hR

theorem drainLoop (rc : RecordContext) : ∀ (n : Nat) (buffer : List (Nat × ErasedRecord V)) (g : Graph P M S V),
    R g (drainLoop rc n buffer g).2
  | _, [], g => by
    unfold Graph.drainLoop
    exact hR.refl g
  | 0, _ :: _, g => hR.refl g
  | n + 1, (i, rec) :: buffer, g => by
    unfold Graph.drainLoop
    rcases hd : g.dispatch rc i rec with e | ⟨queued, g'⟩
    · exact hR.refl g
    · exact hR.trans _ _ _ (hR.dispatch g g' rc i rec queued hd) (drainLoop rc n (buffer ++ queued) g')

theorem fireSchedule (i : Nat) (ts : Int) : R g (g.fireSchedule i ts).2 := by
  unfold Graph.fireSchedule
  rcases g.schedules[i]? with _ | e
  · exact hR.refl g
  · exact hR.trans _ _ _ (hR.punctuate g e.nodeIdx e.punctuator ts) (hR.drainLoop _ _ _ _)

theorem flushStore (name : String) (idx : Nat) (rc : RecordContext) : R g (g.flushStore name idx rc).2 := by
  unfold Graph.flushStore
  rcases hs : g.stores.get? name with _ | s
  · exact hR.drainLoop rc _ _ g
  · have hstore := hR.flush g name s hs
    dsimp only
    split
    · exact hR.trans _ _ _ hstore (hR.drainLoop rc _ _ _)
    · split
      · exact hR.trans _ _ _ hstore (hR.drainLoop rc _ _ _)
      · exact hstore

theorem flushLoop (rc : RecordContext) : ∀ (owners : List (String × Nat)) (g : Graph P M S V),
    R g (flushLoop rc owners g).2
  | [], g => hR.refl g
  | (name, idx) :: rest, g => by
    have hstore := hR.flushStore g name idx rc
    unfold Graph.flushLoop
    rcases hf : g.flushStore name idx rc with ⟨err | u, g'⟩ <;> rw [hf] at hstore
    · exact hstore
    · exact hR.trans _ _ _ hstore (flushLoop rc rest g')

theorem pipe (topic : Topic) (partition offset : Int) (key : Option Bytes) (value : Bytes) (timestamp : Int) :
    R g (g.pipe topic partition offset key value timestamp).2 := by
  have hclock := hR.clocks g (max g.streamTime timestamp) g.wallClock
  unfold Graph.pipe
  split
  · exact hclock
  · exact hR.trans _ _ _ hclock (hR.drainLoop _ _ _ _)

end Moves

namespace MovesPass

variable {R : Graph P M S V → Graph P M S V → Prop} (hR : MovesPass R)

include hR

theorem punctuateLoop (ty : PunctuationType) (now : Int) : ∀ (is : List Nat) (g : Graph P M S V),
    R g (punctuateLoop ty now is g).2
  | [], g => hR.refl g
  | i :: is, g => by
    unfold Graph.punctuateLoop
    rcases g.schedules[i]? with _ | e
    · exact hR.refl g
    · have hfire := hR.fireSchedule g i now
      dsimp only
      split
      · rcases hf : g.fireSchedule i now with ⟨err | u, g'⟩ <;> rw [hf] at hfire
        · exact hfire
        · exact hR.trans _ _ _ hfire (hR.trans _ _ _ (hR.setNextTime g' i _) (punctuateLoop ty now is _))
      · exact punctuateLoop ty now is g

theorem pass (g : Graph P M S V) (ty : PunctuationType) (now : Int) : R g (g.punctuate ty now).2 :=
  hR.trans _ _ _ (hR.dropCancelled g) (hR.punctuateLoop ty now _ _)

theorem ran {g g' : Graph P M S V} (hran : Ran g g') : R g g' := by
  cases hran with
  | pipe topic partition offset key value timestamp => exact hR.pipe g topic partition offset key value timestamp
  | punctuateStreamTime streamTime =>
    exact hR.trans _ _ _ (hR.clocks g (max g.streamTime streamTime) g.wallClock) (hR.pass _ _ _)
  | punctuateWallClock now => exact hR.trans _ _ _ (hR.clocks g g.streamTime now) (hR.pass _ _ _)
  | flushCaches => exact hR.flushLoop _ _ g

end MovesPass

end Graph

end KrabkaStreams
