import KrabkaStreams.Dsl.WindowAggregate

/-!
# The sliding-window aggregation

A window ends at each record, and one starts right after it when a later record falls into it. A call
adds its record to the windows it scans and derives the missing ones, before the window size by
`processEarly`, else by `processNormal`.
-/

namespace KrabkaStreams

structure SlidingWindows where
  timeDifference : Int
  grace : Int
  timeDifference_nonneg : 0 ≤ timeDifference
  timeDifference_le : timeDifference ≤ i64Max
  grace_nonneg : 0 ≤ grace
  grace_le : grace ≤ i64Max

structure KStreamSlidingWindowAggregateProcessor (K V VA : Type) where
  windows : SlidingWindows
  init : VA
  agg : K → V → VA → VA
  streamTime : Int
  emit : EmitStrategy
  lastEmittedClose : Int
  forwarder : TupleForwarder

namespace KStreamSlidingWindowAggregateProcessor

variable {K V VA : Type} (p : KStreamSlidingWindowAggregateProcessor K V VA) (store : WindowBytesStore K VA)
  (key : K)

def supply (windows : SlidingWindows) (init : VA) (agg : K → V → VA → VA) (emit : EmitStrategy)
    (storeIsCached : Bool) : KStreamSlidingWindowAggregateProcessor K V VA where
  windows := windows
  init := init
  agg := agg
  streamTime := i64Min
  emit := emit
  lastEmittedClose := i64Min
  forwarder := ⟨storeIsCached⟩

abbrev Progress (K VA : Type) := WindowBytesStore K VA × List (Record (Windowed K) (Change VA))

def forwardUpdate (ws we : Int) (old : Option VA) (new : VA) (ts : Int) :
    List (Record (Windowed K) (Change VA)) :=
  match p.emit with
  | .onWindowUpdate => p.forwarder.maybeForwardChange ⟨key, ⟨ws, we⟩⟩ (.update old new) ts
  | .onWindowClose => []

def writeUpdate (acc : Progress K VA) (u : Int × Int × VA × Bool) :
    Except ProcessorError (Progress K VA) := do
  let (ws, newTs, newAgg, live) := u
  let we ← checkedI64 (ws + p.windows.timeDifference)
  if live then do
    let prior ← acc.1.fetchSingle key ws
    return (acc.1.put key ws newAgg newTs,
      acc.2 ++ p.forwardUpdate key ws we (prior.map (·.2)) newAgg newTs)
  else return (acc.1.put key ws newAgg newTs, acc.2)

def createWindow (closeTime ws we : Int) (old : Option VA) (new : VA) (ts : Int) (acc : Progress K VA) :
    Progress K VA :=
  if closeTime ≤ we then (acc.1.put key ws new ts, acc.2 ++ p.forwardUpdate key ws we old new ts)
  else acc

def createPreviousRightWindow (value : V) (t closeTime : Int) (previousRecordTs : Option Int)
    (windowStartTimes : List Int) (acc : Progress K VA) : Except ProcessorError (Progress K VA) :=
  match previousRecordTs with
  | none => .ok acc
  | some prevTs => do
    let pws ← checkedI64 (prevTs + 1)
    let pwe ← checkedI64 (pws + p.windows.timeDifference)
    if pws ∉ windowStartTimes ∧ t ≤ pwe then
      return p.createWindow key closeTime pws pwe none (p.agg key value p.init) t acc
    else return acc

def createRightWindow (t closeTime : Int) (rightWinAgg : Option (Int × VA)) (rightWinAlreadyCreated : Bool)
    (acc : Progress K VA) : Except ProcessorError (Progress K VA) :=
  match rightWinAlreadyCreated, rightWinAgg.filter fun x => t < x.1 with
  | false, some (rts, ragg) => do
    let rws ← checkedI64 (t + 1)
    let rwe ← checkedI64 (rws + p.windows.timeDifference)
    return p.createWindow key closeTime rws rwe none ragg rts acc
  | _, _ => .ok acc

structure EarlyScan (VA : Type) where
  combined : Option (Int × VA)
  rightWinAgg : Option (Int × VA)
  rightWinAlreadyCreated : Bool
  previousRecordTs : Option Int
  windowStartTimes : List Int

namespace EarlyScan

def start : EarlyScan VA := ⟨none, none, false, none, []⟩

def visit (t : Int) (sc : EarlyScan VA) (e : Int × Int × VA) : EarlyScan VA :=
  let (ws, storedTs, agg) := e
  let sc := { sc with windowStartTimes := sc.windowStartTimes ++ [ws] }
  if ws = 0 then
    { sc with
      combined := some (storedTs, agg)
      previousRecordTs := if storedTs < t then some storedTs else sc.previousRecordTs }
  else if ws = t + 1 then { sc with rightWinAlreadyCreated := true }
  -- the scan ascends, so the last window that covers the record stays
  else { sc with rightWinAgg := some (storedTs, agg) }

/-- The aggregate a right window is made of: without a straddling window, that of the combined one. -/
def rightSeed (t : Int) (sc : EarlyScan VA) : Option (Int × VA) :=
  sc.rightWinAgg.or (sc.combined.filter fun x => t < x.1)

end EarlyScan

def processEarly (value : V) (t closeTime : Int) : Except ProcessorError (Progress K VA) := do
  let w := p.windows.timeDifference
  -- `t` is below the window size here, so `t + 1` is an `i64`
  let found ← store.fetchWithTs key 0 (t + 1)
  let sc := found.foldl (EarlyScan.visit t) .start
  let straddleUpdates := found.filter fun e => 0 < e.1 ∧ e.1 < t + 1
  let acc ← straddleUpdates.foldlM (fun acc e =>
    p.writeUpdate key acc (e.1, max e.2.1 t, p.agg key value e.2.2, closeTime ≤ e.1 + w)) (store, [])
  let acc ← p.createRightWindow key t closeTime (sc.rightSeed t) sc.rightWinAlreadyCreated acc
  let acc ← p.createPreviousRightWindow key value t closeTime sc.previousRecordTs sc.windowStartTimes acc
  let old := sc.combined.map (·.2)
  return p.createWindow key closeTime 0 w old (p.agg key value (old.getD p.init))
    ((sc.combined.map fun x => max x.1 t).getD t) acc

structure NormalScan (VA : Type) where
  leftWinAgg : Option VA
  rightWinAgg : Option (Int × VA)
  leftWinAlreadyCreated : Bool
  rightWinAlreadyCreated : Bool
  previousRecordTs : Option Int
  windowStartTimes : List Int
  updatesToEmit : List (Int × Int × VA × Bool)

namespace NormalScan

def start : NormalScan VA := ⟨none, none, false, false, none, [], []⟩

def visit (w t closeTime : Int) (new : VA → VA) (sc : NormalScan VA) (e : Int × Int × VA) :
    Except ProcessorError (NormalScan VA) := do
  let (ws, storedTs, agg) := e
  let we ← checkedI64 (ws + w)
  let sc := { sc with windowStartTimes := sc.windowStartTimes ++ [ws] }
  let update := (ws, max storedTs t, new agg, decide (closeTime ≤ we))
  if we < t then
    return { sc with leftWinAgg := some agg, previousRecordTs := some storedTs }
  else if we = t then
    return { sc with
      leftWinAlreadyCreated := true
      previousRecordTs := if storedTs < t then some storedTs else sc.previousRecordTs
      updatesToEmit := sc.updatesToEmit ++ [update] }
  else if t < we ∧ ws ≤ t then
    return { sc with
      -- the first window that straddles the record stays
      rightWinAgg := sc.rightWinAgg.or (some (storedTs, agg))
      updatesToEmit := sc.updatesToEmit ++ [update] }
  else if ws = t + 1 then return { sc with rightWinAlreadyCreated := true }
  else return sc

end NormalScan

def leftWindowNotEmpty (prevTs : Option Int) (t w : Int) : Bool := prevTs.any fun p => t - w ≤ p

/-- The window that ends at the record. It is stored even when it ended before the close time. -/
def createLeftWindow (value : V) (t closeTime : Int) (sc : NormalScan VA) (acc : Progress K VA) :
    Progress K VA :=
  if sc.leftWinAlreadyCreated then acc
  else
    let lws := t - p.windows.timeDifference
    let seed := if leftWindowNotEmpty sc.previousRecordTs t p.windows.timeDifference
      then sc.leftWinAgg.getD p.init else p.init
    let new := p.agg key value seed
    if closeTime ≤ t then (acc.1.put key lws new t, acc.2 ++ p.forwardUpdate key lws t none new t)
    else (acc.1.put key lws new t, acc.2)

def processNormal (value : V) (t closeTime : Int) : Except ProcessorError (Progress K VA) := do
  let w := p.windows.timeDifference
  let twice ← checkedI64 (2 * w)
  let scanTo ← checkedI64 (t + 1)
  let found ← store.fetchWithTs key (max (t - twice) 0) scanTo
  let sc ← found.foldlM (NormalScan.visit w t closeTime (p.agg key value)) .start
  let acc ← sc.updatesToEmit.foldlM (p.writeUpdate key) (store, [])
  let acc ← p.createPreviousRightWindow key value t closeTime sc.previousRecordTs sc.windowStartTimes acc
  let acc := p.createLeftWindow key value t closeTime sc acc
  p.createRightWindow key t closeTime sc.rightWinAgg sc.rightWinAlreadyCreated acc

def emitClosedWindows (windowCloseTime : Int) :
    Except ProcessorError (List (Record (Windowed K) (Change VA))) := do
  let w := p.windows.timeDifference
  let start ← checkedI64 (windowCloseTime - w)
  let startTo ← checkedI64 (start - 1)
  let found ← store.fetchAllInRange (saturatingSub p.lastEmittedClose w) startTo
  let due ← found.filterM (KStreamWindowAggregateProcessor.notEmitted w p.lastEmittedClose)
  (due.insertionSort fun a b => a.2.1 ≤ b.2.1).mapM (KStreamWindowAggregateProcessor.finalRecord w)

def process (rc : RecordContext) (r : Record K V) :
    Except ProcessorError ((KStreamSlidingWindowAggregateProcessor K V VA × WindowBytesStore K VA) ×
      List (Record (Windowed K) (Change VA))) := do
  -- an aggregate of a record without a key panics
  let some key := r.key | throw .panicked
  let t := r.timestamp
  let p := { p with streamTime := max p.streamTime t }
  let closeTime ← checkedI64 (p.streamTime - p.windows.grace)
  let recordWindowEnd ← checkedI64 (t + p.windows.timeDifference)
  if recordWindowEnd < closeTime then return ((p, store), [])
  let store := store.setRecordContext rc
  let (store, out) ←
    if t < p.windows.timeDifference then p.processEarly store key r.value t closeTime
    else p.processNormal store key r.value t closeTime
  match p.emit with
  | .onWindowUpdate => return ((p, store), out)
  | .onWindowClose => do
    let final ← p.emitClosedWindows store closeTime
    return (({ p with lastEmittedClose := closeTime }, store), out ++ final)

end KStreamSlidingWindowAggregateProcessor

end KrabkaStreams
