import KrabkaStreams.Dsl.Windows
import KrabkaStreams.Stores.Bytes
import KrabkaStreams.Stores.Query
import KrabkaStreams.Stores.Schema

/-!
# The window store

The entries of a window store are the aggregates by key and window start, each with the timestamp of its
latest record. A store with duplicates uses the sequence number of the key; here it is always zero.
-/

namespace KrabkaStreams

structure WindowBytesStore (K V : Type) extends ByteStore K V where
  windowSize : Int

namespace WindowBytesStore

variable {K V : Type} (s : WindowBytesStore K V)

def inMemory (keySerde : Serde K) (valueSerde : Serde V) (changelogTopic : Topic) (windowSize : Int) :
    WindowBytesStore K V :=
  ⟨.inMemory keySerde valueSerde changelogTopic, windowSize⟩

def enableCache : WindowBytesStore K V :=
  ⟨{ s.toByteStore with backing := s.backing.enableCache }, s.windowSize⟩

def setRecordContext (ctx : RecordContext) : WindowBytesStore K V :=
  ⟨s.toByteStore.setRecordContext ctx, s.windowSize⟩

def decodeWrapped (wrapped : Bytes) : Except ProcessorError (Int × V) := do
  let (ts, raw) ← unwrapValue wrapped
  let v ← s.decodeValue raw
  return (ts, v)

def fetchSingle (key : K) (windowStart : Int) : Except ProcessorError (Option (Int × V)) :=
  match s.backing.get (storeKey (s.keyBytes key) windowStart 0) with
  | none => .ok none
  | some wrapped => some <$> s.decodeWrapped wrapped

def scanned (kb : Bytes) (e : Bytes × Bytes) : Except ProcessorError (List (Int × Int × V)) := do
  if (← keyBytesOf e.1) ≠ kb then return []
  let (ts, v) ← s.decodeWrapped e.2
  let ws ← windowStartOf e.1
  return [(ws, ts, v)]

def fetchWithTs (key : K) (timeFrom timeTo : Int) : Except ProcessorError (List (Int × Int × V)) := do
  let kb := s.keyBytes key
  let found ← s.backing.range (storeKey kb timeFrom 0) (storeKey kb (saturatingAdd timeTo 1) 0)
  return (← found.mapM (s.scanned kb)).flatten

/-- `fetch`: the scan of `fetch_with_ts`, without the timestamps. -/
def fetch (key : K) (timeFrom timeTo : Int) : Except ProcessorError (List (Int × V)) := do
  return (← s.fetchWithTs key timeFrom timeTo).map fun e => (e.1, e.2.2)

def iqScanned (kb : Bytes) (e : Bytes × Bytes) : Except ProcessorError (List (Int × Bytes)) := do
  if (← keyBytesOf e.1) ≠ kb then return []
  let (_, raw) ← unwrapValue e.2
  let ws ← windowStartOf e.1
  return [(ws, raw)]

def iqWindowFetch (kb : Bytes) (timeFrom timeTo : Int) : Except ProcessorError (List (Int × Bytes)) := do
  let found ← s.backing.range (storeKey kb timeFrom 0) (storeKey kb (saturatingAdd timeTo 1) 0)
  return (← found.mapM (iqScanned kb)).flatten

/-- The window-key query. Starts are not negative, so it clamps its lower bound to zero. -/
def iq2WindowKey (key : AnyKey K) (fromTs toTs : Int) :
    Except Iq2Failure (Except ProcessorError (List (Int × V))) := do
  return s.fetch (← key.downcast) (max fromTs 0) toTs

def inRange (startFrom startTo : Int) (e : Bytes × Bytes) :
    Except ProcessorError (List (K × Int × Int × V)) := do
  let ws ← windowStartOf e.1
  if ws < startFrom ∨ startTo < ws then return []
  let key ← s.decodeKey (← keyBytesOf e.1)
  let (ts, v) ← s.decodeWrapped e.2
  return [(key, ws, ts, v)]

def fetchAllInRange (startFrom startTo : Int) : Except ProcessorError (List (K × Int × Int × V)) := do
  return (← s.backing.scanAll.mapM (s.inRange startFrom startTo)).flatten

def put (key : K) (windowStart : Int) (value : V) (recordTs : Int) : WindowBytesStore K V :=
  ⟨s.toByteStore.put (storeKey (s.keyBytes key) windowStart 0) (wrapValue recordTs (s.valueBytes value)),
    s.windowSize⟩

def decodeOption : Option Bytes → Except ProcessorError (Option V)
  | none => .ok none
  | some wrapped => (fun d => some d.2) <$> s.decodeWrapped wrapped

/-- The change of one flushed entry: its window is read from the store key, its timestamp from the record context. -/
def flushedChange (d : Bytes × Option Bytes × Option Bytes × RecordContext) :
    Except ProcessorError (Record (Windowed K) (Change V)) := do
  let ws ← windowStartOf d.1
  let kb ← keyBytesOf d.1
  let key ← s.decodeKey kb
  let old ← s.decodeOption d.2.1
  let new ← s.decodeOption d.2.2.1
  let stop ← checkedI64 (ws + s.windowSize)
  return ⟨some ⟨key, ⟨ws, stop⟩⟩, ⟨old, new⟩, d.2.2.2.timestamp⟩

def flushCacheInto : Except ProcessorError (List (Record (Windowed K) (Change V))) × WindowBytesStore K V :=
  let r := s.toByteStore.flushWith s.flushedChange
  (r.1, ⟨r.2, s.windowSize⟩)

section Exactness

variable (f : K × Int → Option (Int × V)) (k : K) (timeFrom timeTo : Int)

/-- The windows of `k` that start between the bounds, in order, and `g` of each. -/
def ListsWindows {R : Type} (g : Int × V → R) (l : List (Int × R)) : Prop :=
  (∀ ws x, (ws, x) ∈ l ↔ timeFrom ≤ ws ∧ ws ≤ timeTo ∧ ∃ e, f (k, ws) = some e ∧ g e = x) ∧
    l.Pairwise fun a b => a.1 < b.1

/-- Each of the four scans returns the windows between its bounds. -/
structure ScansExactly : Prop where
  fetchWithTs : ∃ l, s.fetchWithTs k timeFrom timeTo = .ok l ∧ ListsWindows f k timeFrom timeTo id l
  fetch : ∃ l, s.fetch k timeFrom timeTo = .ok l ∧ ListsWindows f k timeFrom timeTo Prod.snd l
  iq : ∃ l, s.iqWindowFetch (s.keyBytes k) timeFrom timeTo = .ok l ∧
    ListsWindows f k timeFrom timeTo (fun e => s.valueBytes e.2) l
  iq2 : ∃ l, s.iq2WindowKey (.own k) timeFrom timeTo = .ok (.ok l) ∧ ListsWindows f k timeFrom timeTo Prod.snd l

/-- The bounds a scan can serve: a negative start encodes above every start that is not, the bound after
the last instant is that instant, and the map of a cache refuses bounds in the wrong order. -/
structure BoundsServed : Prop where
  lower : timeFrom < 0 → ∀ ws ≤ timeTo, f (k, ws) = none
  upper : timeTo < -1 → ∀ ws ≥ timeFrom, f (k, ws) = none
  last : timeTo = i64Max → f (k, i64Max) = none
  cached : s.isCached →
    timeFrom ≤ timeTo + 1 ∧ (0 ≤ timeFrom ∨ timeTo < -1) ∨ 0 ≤ timeFrom ∧ timeTo < -1

end Exactness

end WindowBytesStore

end KrabkaStreams
