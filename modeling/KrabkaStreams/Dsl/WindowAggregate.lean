import KrabkaStreams.Stores.Window

/-!
# The time-window aggregation

`KStreamWindowAggregateProcessor` folds each record into every window it falls into that is not closed
yet, and forwards either every update or, once, each window that closed. A window is closed when its end
lies before the stream time less the grace.
-/

namespace KrabkaStreams

def windowIsClosed (windowStart windowSize windowCloseTime : Int) : Bool :=
  saturatingAdd windowStart windowSize < windowCloseTime

structure KStreamWindowAggregateProcessor (K V VA : Type) where
  windows : TimeWindows
  init : VA
  agg : K → V → VA → VA
  emit : EmitStrategy
  streamTime : Int
  lastEmittedClose : Int
  forwarder : TupleForwarder

namespace KStreamWindowAggregateProcessor

variable {K V VA : Type} (p : KStreamWindowAggregateProcessor K V VA)

def supply (windows : TimeWindows) (init : VA) (agg : K → V → VA → VA) (emit : EmitStrategy)
    (storeIsCached : Bool) : KStreamWindowAggregateProcessor K V VA where
  windows := windows
  init := init
  agg := agg
  emit := emit
  streamTime := i64Min
  lastEmittedClose := i64Min
  forwarder := ⟨storeIsCached⟩

abbrev Progress (K VA : Type) := WindowBytesStore K VA × List (Record (Windowed K) (Change VA))

def updateWindow (windowCloseTime : Int) (rc : RecordContext) (key : K) (value : V) (timestamp : Int)
    (acc : Progress K VA) (ws : Int) : Except ProcessorError (Progress K VA) :=
  if windowIsClosed ws p.windows.size windowCloseTime then .ok acc
  else do
    let store := acc.1.setRecordContext rc
    let prior ← store.fetchSingle key ws
    let old := prior.map (·.2)
    let new := p.agg key value (old.getD p.init)
    let newTs := max timestamp ((prior.map (·.1)).getD i64Min)
    let store := store.put key ws new newTs
    match p.emit with
    | .onWindowClose => return (store, acc.2)
    | .onWindowUpdate => do
      let stop ← checkedI64 (ws + p.windows.size)
      return (store,
        acc.2 ++ p.forwarder.maybeForwardChange ⟨key, ⟨ws, stop⟩⟩ (.update old new) newTs)

def finalRecord (size : Int) (e : K × Int × Int × VA) :
    Except ProcessorError (Record (Windowed K) (Change VA)) := do
  let stop ← checkedI64 (e.2.1 + size)
  return ⟨some ⟨e.1, ⟨e.2.1, stop⟩⟩, .update none e.2.2.2, e.2.2.1⟩

def notEmitted (size lastEmittedClose : Int) (e : K × Int × Int × VA) : Except ProcessorError Bool := do
  let stop ← checkedI64 (e.2.1 + size)
  return decide (lastEmittedClose ≤ stop)

def emitClosedWindows (store : WindowBytesStore K VA) (windowCloseTime : Int) :
    Except ProcessorError (List (Record (Windowed K) (Change VA))) := do
  let size := p.windows.size
  let start ← checkedI64 (windowCloseTime - size)
  let startTo ← checkedI64 (start - 1)
  let startFrom := saturatingSub p.lastEmittedClose size
  let found ← store.fetchAllInRange startFrom startTo
  let due ← found.filterM (notEmitted size p.lastEmittedClose)
  (due.insertionSort fun a b => a.2.1 ≤ b.2.1).mapM (finalRecord size)

def process (store : WindowBytesStore K VA) (rc : RecordContext) (r : Record K V) :
    Except ProcessorError ((KStreamWindowAggregateProcessor K V VA × WindowBytesStore K VA) ×
      List (Record (Windowed K) (Change VA))) := do
  -- an aggregate of a record without a key panics
  let some key := r.key | throw .panicked
  let p := { p with streamTime := max p.streamTime r.timestamp }
  let windowCloseTime := saturatingSub p.streamTime p.windows.grace
  let starts ← p.windows.windowsFor r.timestamp
  let (store, out) ← starts.foldlM (p.updateWindow windowCloseTime rc key r.value r.timestamp) (store, [])
  match p.emit with
  | .onWindowUpdate => return ((p, store), out)
  | .onWindowClose => do
    let final ← p.emitClosedWindows store windowCloseTime
    return (({ p with lastEmittedClose := windowCloseTime }, store), out ++ final)

end KStreamWindowAggregateProcessor

end KrabkaStreams
