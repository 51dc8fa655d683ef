import KrabkaStreams.Stores.Session
import Mathlib.Data.Prod.Lex

/-!
# The session aggregation

`KStreamSessionAggregateProcessor` merges each record with the sessions of its key within the inactivity
gap. A record whose merged session ended before the stream time less the grace is dropped. What is
forwarded is either every change or the sessions that closed.
-/

namespace KrabkaStreams

/-- Extents in whole milliseconds; a gap below one is zero. -/
structure SessionWindows where
  gap : Int
  grace : Int
  gap_nonneg : 0 ≤ gap
  gap_le : gap ≤ i64Max
  grace_nonneg : 0 ≤ grace
  grace_le : grace ≤ i64Max

def sessionIsClosed (sessionEnd windowCloseTime : Int) : Bool := sessionEnd < windowCloseTime

structure KStreamSessionAggregateProcessor (K V VA : Type) where
  windows : SessionWindows
  init : VA
  agg : K → V → VA → VA
  merger : K → VA → VA → VA
  emit : EmitStrategy
  streamTime : Int
  lastEmittedClose : Int
  forwarder : TupleForwarder

namespace KStreamSessionAggregateProcessor

variable {K V VA : Type} (p : KStreamSessionAggregateProcessor K V VA)

/-- The processor as the lowering of the DSL supplies it, after `init` over a store. -/
def supply (windows : SessionWindows) (init : VA) (agg : K → V → VA → VA) (merger : K → VA → VA → VA)
    (emit : EmitStrategy) (storeIsCached : Bool) : KStreamSessionAggregateProcessor K V VA where
  windows := windows
  init := init
  agg := agg
  merger := merger
  emit := emit
  streamTime := i64Min
  lastEmittedClose := i64Min
  forwarder := ⟨storeIsCached⟩

def merge (key : K) (ts : Int) (cands : List (Int × Int × VA)) : VA × Int × Int :=
  cands.foldl (fun m c => (p.merger key m.1 c.2.2, min m.2.1 c.1, max m.2.2 c.2.1)) (p.init, ts, ts)

abbrev Progress (K VA : Type) := SessionBytesStore K VA × List (Record (Windowed K) (Change VA))

def removeMerged (rc : RecordContext) (key : K) (acc : Progress K VA) (c : Int × Int × VA) : Progress K VA :=
  ((acc.1.setRecordContext rc).remove key c.1 c.2.1,
    match p.emit with
    | .onWindowUpdate =>
      acc.2 ++ p.forwarder.maybeForwardChange ⟨key, ⟨c.1, c.2.1⟩⟩ (.tombstone (some c.2.2)) c.2.1
    | .onWindowClose => acc.2)

def finalRecord (e : K × Int × Int × VA) : Record (Windowed K) (Change VA) :=
  ⟨some ⟨e.1, ⟨e.2.1, e.2.2.1⟩⟩, .update none e.2.2.2, e.2.2.1⟩

def emitClosedSessions (store : SessionBytesStore K VA) (windowCloseTime : Int) :
    Except ProcessorError (List (Record (Windowed K) (Change VA))) := do
  let found ← store.findClosedSessions (saturatingSub windowCloseTime 1)
  let due := found.filter fun e => p.lastEmittedClose ≤ e.2.2.1
  return (due.insertionSort fun a b => toLex (a.2.2.1, a.2.1) ≤ toLex (b.2.2.1, b.2.1)).map finalRecord

def process (store : SessionBytesStore K VA) (rc : RecordContext) (r : Record K V) :
    Except ProcessorError ((KStreamSessionAggregateProcessor K V VA × SessionBytesStore K VA) ×
      List (Record (Windowed K) (Change VA))) := do
  -- an aggregate of a record without a key panics
  let some key := r.key | throw .panicked
  let ts := r.timestamp
  let gap := p.windows.gap
  let p := { p with streamTime := max p.streamTime ts }
  let windowCloseTime := saturatingSub p.streamTime p.windows.grace
  let cands ← store.findSessions key (saturatingSub ts gap) (saturatingAdd ts gap)
  let (merged, newStart, newEnd) := p.merge key ts cands
  -- a dropped record emits nothing, and leaves the bound of the last emission
  if sessionIsClosed newEnd windowCloseTime then return ((p, store), [])
  let new := p.agg key r.value merged
  let (store, out) := cands.foldl (p.removeMerged rc key) (store, [])
  let store := (store.setRecordContext rc).put key newStart newEnd new
  match p.emit with
  | .onWindowUpdate =>
    return ((p, store),
      out ++ p.forwarder.maybeForwardChange ⟨key, ⟨newStart, newEnd⟩⟩ (.update none new) newEnd)
  | .onWindowClose => do
    let final ← p.emitClosedSessions store windowCloseTime
    return (({ p with lastEmittedClose := windowCloseTime }, store), out ++ final)

end KStreamSessionAggregateProcessor

end KrabkaStreams
