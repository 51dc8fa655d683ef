import KrabkaStreams.Dsl.SlidingAggregate
import KrabkaStreams.Dsl.WindowSemantics

/-!
# What a sliding-window aggregation is for

A window that starts at `ws` holds the records of its key from `ws` to `ws + W`. `SlidesExactly` says
that a run stores such windows, and the one that ends at each record.
-/

namespace KrabkaStreams

variable {K V VA : Type} (w : SlidingWindows)

namespace SlidingWindows

def inWindow [DecidableEq K] (w : SlidingWindows) (k : K) (ws : Int) (recs : List (KeyedRecord K V)) :
    List (KeyedRecord K V) :=
  recs.filter fun r => r.key = k ∧ ws ≤ r.timestamp ∧ r.timestamp ≤ ws + w.timeDifference

/-- The start of the window that ends at `t`, or of the one that all early records share. -/
def leftStart (t : Int) : Int := max 0 (t - w.timeDifference)

/-- No record arrives more than the grace behind the stream time. -/
def OnTime (recs : List (KeyedRecord K V)) : Prop :=
  ∀ done r, done ++ [r] <+: recs → streamTimeOf (done ++ [r]) - w.grace ≤ r.timestamp

/-- The windows end within `i64`, and so does the bound of the scan for windows that closed. -/
def Fits (emit : EmitStrategy) (recs : List (KeyedRecord K V)) : Prop :=
  ∀ done r, done ++ [r] <+: recs → r.timestamp + w.timeDifference ≤ i64Max ∧
    (emit = .onWindowClose → i64Min ≤ streamTimeOf (done ++ [r]) - w.grace - w.timeDifference - 1)

end SlidingWindows

def slidingRun (init : VA) (agg : K → V → VA → VA) (emit : EmitStrategy) (store : WindowBytesStore K VA)
    (recs : List (KeyedRecord K V)) :=
  Runs.run
    (fun (s : KStreamSlidingWindowAggregateProcessor K V VA × WindowBytesStore K VA)
        (r : KeyedRecord K V) => s.1.process s.2 r.ctx r.toRecord)
    (.supply w init agg emit store.isCached, store) recs

def WindowBytesStore.Stores (s : WindowBytesStore K V) (k : K) (ws : Int) : Prop :=
  ∃ e, s.fetchSingle k ws = .ok (some e)

/-- The run returns, every stored window has the latest timestamp and the aggregate of its records, and
the window that ends at each record is stored. -/
def SlidesExactly [DecidableEq K] (w : SlidingWindows) (init : VA) (agg : K → V → VA → VA)
    (emit : EmitStrategy) (store : WindowBytesStore K VA) (recs : List (KeyedRecord K V)) : Prop :=
  ∃ p s outs, slidingRun w init agg emit store recs = .ok ((p, s), outs) ∧
    (∀ k ws, IsI64 ws → ∃ o, s.fetchSingle k ws = .ok o ∧
      (o = none ∨ o = entryOf init agg k (w.inWindow k ws recs))) ∧
    (∀ r ∈ recs, s.Stores r.key (w.leftStart r.timestamp))

/-- When a record at `t`, not before the window size, arrives after a later one of its key within the
window size, then the window that starts at `t + 1` is stored, or at most one stored window of the key
straddles `t`. -/
def OneStraddles (init : VA) (agg : K → V → VA → VA) (emit : EmitStrategy) (store : WindowBytesStore K VA)
    (recs : List (KeyedRecord K V)) : Prop :=
  ∀ done r, done ++ [r] <+: recs → w.timeDifference ≤ r.timestamp →
    (∃ x ∈ done, x.key = r.key ∧ r.timestamp < x.timestamp ∧
      x.timestamp ≤ r.timestamp + w.timeDifference) →
    ∀ p s outs, slidingRun w init agg emit store done = .ok ((p, s), outs) →
      s.Stores r.key (r.timestamp + 1) ∨
        ∀ a b, r.timestamp - w.timeDifference < a → a ≤ r.timestamp → s.Stores r.key a →
          r.timestamp - w.timeDifference < b → b ≤ r.timestamp → s.Stores r.key b → a = b

end KrabkaStreams
