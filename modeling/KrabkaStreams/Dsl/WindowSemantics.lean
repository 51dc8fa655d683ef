import KrabkaStreams.Dsl.WindowAggregate
import KrabkaStreams.Lib.Runs

/-!
# What a windowed aggregation is for

A window's aggregate is the fold of the records that found it open when they arrived.
`AggregatesExactly` and `EmitsFinalWindows` say that a run of the processor computes this.
-/

namespace KrabkaStreams

structure KeyedRecord (K V : Type) where
  key : K
  value : V
  timestamp : Int
  ctx : RecordContext
  deriving DecidableEq, Repr

variable {K V VA : Type} (r : KeyedRecord K V)

namespace KeyedRecord

def toRecord : Record K V := ⟨some r.key, r.value, r.timestamp⟩

def Timely : Prop := 0 ≤ r.timestamp ∧ r.timestamp ≤ i64Max

instance: Decidable r.Timely := instDecidableAnd

end KeyedRecord

def streamTimeOf (recs : List (KeyedRecord K V)) : Int := recs.foldl (fun t r => max t r.timestamp) i64Min

def timesOf (k : K) (recs : List (KeyedRecord K V)) (t : Int) : Prop :=
  ∃ r ∈ recs, r.key = k ∧ r.timestamp = t

def aggregateOf (init : VA) (agg : K → V → VA → VA) (k : K) (recs : List (KeyedRecord K V)) : VA :=
  recs.foldl (fun acc r => agg k r.value acc) init

/-- The entry of a window with these records: their latest timestamp and their aggregate. -/
def entryOf (init : VA) (agg : K → V → VA → VA) (k : K) :
    List (KeyedRecord K V) → Option (Int × VA)
  | [] => none
  | r :: rs => some (streamTimeOf (r :: rs), aggregateOf init agg k (r :: rs))

namespace TimeWindows

/-- One of the windows starts at `ws` and covers `t`. -/
def Covers (w : TimeWindows) (ws t : Int) : Prop := 0 ≤ ws ∧ w.advance ∣ ws ∧ ws ≤ t ∧ t < ws + w.size

instance (w : TimeWindows) (ws t : Int) : Decidable (w.Covers ws t) := instDecidableAnd

variable [DecidableEq K]

/-- The window takes the record when the stream time is `now`. -/
def Takes (w : TimeWindows) (k : K) (ws now : Int) (r : KeyedRecord K V) : Prop :=
  r.key = k ∧ w.Covers ws r.timestamp ∧ now - w.grace ≤ ws + w.size

instance (w : TimeWindows) (k : K) (ws now : Int) (r : KeyedRecord K V) : Decidable (w.Takes k ws now r) :=
  instDecidableAnd

/-- The records the window takes, when the stream time before them is `now`. -/
def acceptedFrom (w : TimeWindows) (k : K) (ws : Int) : Int → List (KeyedRecord K V) →
    List (KeyedRecord K V)
  | _, [] => []
  | now, r :: rs =>
    if w.Takes k ws (max now r.timestamp) r then r :: w.acceptedFrom k ws (max now r.timestamp) rs
    else w.acceptedFrom k ws (max now r.timestamp) rs

def accepted (w : TimeWindows) (k : K) (ws : Int) (recs : List (KeyedRecord K V)) :
    List (KeyedRecord K V) :=
  w.acceptedFrom k ws i64Min recs

def tableOf (w : TimeWindows) (init : VA) (agg : K → V → VA → VA) (recs : List (KeyedRecord K V))
    (i : K × Int) : Option (Int × VA) :=
  entryOf init agg i.1 (w.accepted i.1 i.2 recs)

def windowAt (w : TimeWindows) (k : K) (ws : Int) : Windowed K := ⟨k, ⟨ws, ws + w.size⟩⟩

def changeAt (w : TimeWindows) (init : VA) (agg : K → V → VA → VA) (k : K) (ws : Int)
    (recs : List (KeyedRecord K V)) (i : Nat) : Record (Windowed K) (Change VA) :=
  ⟨some (w.windowAt k ws),
    ⟨(entryOf init agg k (recs.take i)).map (·.2), (entryOf init agg k (recs.take (i + 1))).map (·.2)⟩,
    streamTimeOf (recs.take (i + 1))⟩

def chainOf (w : TimeWindows) (init : VA) (agg : K → V → VA → VA) (k : K) (ws : Int)
    (recs : List (KeyedRecord K V)) : List (Record (Windowed K) (Change VA)) :=
  (List.range recs.length).map (w.changeAt init agg k ws recs)

end TimeWindows

def forwardsOf [DecidableEq K] (k : K) (ws : Int) (out : List (Record (Windowed K) (Change VA))) :
    List (Record (Windowed K) (Change VA)) :=
  out.filter fun r => r.key.any fun wk => wk.key = k ∧ wk.window.start = ws

def windowRun (w : TimeWindows) (init : VA) (agg : K → V → VA → VA) (emit : EmitStrategy)
    (store : WindowBytesStore K VA) (recs : List (KeyedRecord K V)) :=
  Runs.run
    (fun (s : KStreamWindowAggregateProcessor K V VA × WindowBytesStore K VA) (r : KeyedRecord K V) =>
      s.1.process s.2 r.ctx r.toRecord)
    (.supply w init agg emit store.isCached, store) recs

variable [DecidableEq K]

/-- The run returns, every entry of the store is the latest timestamp and the aggregate of the records
its window accepted, and in emit-on-update mode the forwards of a window are its chain of changes. -/
def AggregatesExactly (w : TimeWindows) (init : VA) (agg : K → V → VA → VA) (emit : EmitStrategy)
    (store : WindowBytesStore K VA) (recs : List (KeyedRecord K V)) : Prop :=
  ∃ p s outs, windowRun w init agg emit store recs = .ok ((p, s), outs) ∧
    (∀ k ws, IsI64 ws → s.fetchSingle k ws = .ok (entryOf init agg k (w.accepted k ws recs))) ∧
    (emit = .onWindowUpdate → ∀ k ws, IsI64 ws →
      forwardsOf k ws outs.flatten = w.chainOf init agg k ws (w.accepted k ws recs))

def TimeWindows.finalAt (w : TimeWindows) (k : K) (ws ts : Int) (v : VA) :
    Record (Windowed K) (Change VA) :=
  ⟨some (w.windowAt k ws), .update none v, ts⟩

/-- The run returns. After every part of it, no window was forwarded twice, the windows of each call are
in the order of their starts, the forwarded windows are the stored ones that ended before the stream time
less the grace, and the entry of each is the aggregate of the records it accepts in the whole run. -/
def EmitsFinalWindows (w : TimeWindows) (init : VA) (agg : K → V → VA → VA)
    (store : WindowBytesStore K VA) (recs : List (KeyedRecord K V)) : Prop :=
  ∀ done, done <+: recs → ∃ p s outs, windowRun w init agg .onWindowClose store done = .ok ((p, s), outs) ∧
    (outs.flatten.map Record.key).Nodup ∧
    (∀ out ∈ outs, (out.map fun x => x.key.map (·.window.start)).Pairwise fun a b =>
      ∀ x ∈ a, ∀ y ∈ b, x ≤ y) ∧
    (∀ x, x ∈ outs.flatten ↔ ∃ k ws ts v, IsI64 ws ∧ s.fetchSingle k ws = .ok (some (ts, v)) ∧
      ws + w.size < streamTimeOf done - w.grace ∧ x = w.finalAt k ws ts v) ∧
    (∀ k ws, (forwardsOf k ws outs.flatten) ≠ [] →
      s.fetchSingle k ws = .ok (entryOf init agg k (w.accepted k ws recs)))

/-- The record's windows end within `i64`: those whose end the processor computes. A window that is
emitted on close is found from the greatest start that closed, and the end of the last window is not
computed. -/
def TimeWindows.Fits (w : TimeWindows) (emit : EmitStrategy) (now : Int) (r : KeyedRecord K V) : Prop :=
  match emit with
  | .onWindowUpdate => ∀ ws, w.Covers ws r.timestamp → ws + w.size ≤ i64Max
  | .onWindowClose => (∀ ws, w.Covers ws r.timestamp → ws + w.advance ≤ i64Max) ∧
    i64Min ≤ now - w.grace - w.size - 1

def TimeWindows.AllFit (w : TimeWindows) (emit : EmitStrategy) (recs : List (KeyedRecord K V)) : Prop :=
  ∀ done r, done ++ [r] <+: recs → w.Fits emit (streamTimeOf (done ++ [r])) r

end KrabkaStreams
