import KrabkaStreams.Stores.JoinWindow
import KrabkaStreams.Stores.Table

/-!
# The stream-stream join

A record is joined with those of the other side in its window. A left or an outer join buffers the
records without a match and pads them when their window and grace have passed.
-/

namespace KrabkaStreams

structure JoinWindows where
  before : Int
  after : Int
  grace : Int
  before_nonneg : 0 ≤ before
  after_nonneg : 0 ≤ after
  grace_nonneg : 0 ≤ grace
  before_le : before ≤ i64Max
  after_le : after ≤ i64Max
  grace_le : grace ≤ i64Max

structure JoinKind where
  aRequired : Bool
  bRequired : Bool
  deriving DecidableEq, Repr

namespace JoinKind

def inner : JoinKind := ⟨true, true⟩

def left : JoinKind := ⟨true, false⟩

def outer : JoinKind := ⟨false, false⟩

end JoinKind

def outerKey (ts : Int) (sideLeft : Bool) (keyBytes : Bytes) : Bytes :=
  putI64 ts ++ ((if sideLeft then 0 else 1) :: keyBytes)

def outerKeyTs (k : Bytes) : Except ProcessorError Int :=
  if k.length < 8 then .error .panicked else .ok (getI64 k)

def outerKeySideLeft (k : Bytes) : Except ProcessorError Bool :=
  match k[8]? with
  | none => .error .panicked
  | some b => .ok (b = 0)

def outerKeyKeyBytes (k : Bytes) : Except ProcessorError Bytes :=
  if k.length < 9 then .error .panicked else .ok (k.drop 9)

def outerValueLeft (raw : Bytes) : Bytes := 0 :: raw

def outerValueRight (raw : Bytes) : Bytes := 1 :: raw

def outerValueDecode : Bytes → Except ProcessorError (Bool × Bytes)
  | [] => .error .panicked
  | b :: raw => .ok (b = 0, raw)

structure TimeTracker where
  streamTime : Int
  deriving DecidableEq, Repr

def TimeTracker.advance (t : TimeTracker) (ts : Int) : TimeTracker := ⟨max t.streamTime ts⟩

structure OuterBuffer where
  store : TableStore Bytes Bytes
  tracker : TimeTracker

/-- The optional parts of a side, which the lowering sets together: the name of the buffer and the serdes
of its entries. -/
structure OuterSide (K V : Type) where
  outerStore : String
  keySerde : Serde K
  valueSerde : Serde V

structure KStreamKStreamJoinProcessor (K VThis VOther VO : Type) where
  fetchBefore : Int
  fetchAfter : Int
  joiner : VThis → Option VOther → VO
  sideLeft : Bool
  emitUnmatched : Bool
  outer : Option (OuterSide K VThis)
  before : Int
  after : Int
  grace : Int

namespace KStreamKStreamJoinProcessor

variable {K VThis VOther VO : Type} (p : KStreamKStreamJoinProcessor K VThis VOther VO)
  (o : OuterSide K VThis)

def forget (p : KStreamKStreamJoinProcessor K VThis VOther VO) (kb : Bytes) :
    List Int → TableStore Bytes Bytes → Except ProcessorError (TableStore Bytes Bytes)
  | [], store => .ok store
  | t :: ts, store => do
    let (_, store) ← store.delete (outerKey t (!p.sideLeft) kb)
    p.forget kb ts store

/-- A record without a match: forwarded at once when its window has passed, and buffered otherwise. -/
def pad (kb : Bytes) (key : K) (value : VThis) (t streamTime : Int) (store : TableStore Bytes Bytes) :
    Except ProcessorError (TableStore Bytes Bytes × List (Record K VO)) := do
  let stop ← checkedI64 (t + p.fetchAfter)
  if stop < streamTime then return (store, [⟨some key, p.joiner value none, t⟩])
  let raw := o.valueSerde.serialize o.outerStore value
  let tagged := if p.sideLeft then outerValueLeft raw else outerValueRight raw
  return (store.put (outerKey t p.sideLeft kb) tagged, [])

def isOwn (e : Bytes × Bytes) : Except ProcessorError Bool := do
  return (← outerKeySideLeft e.1) = p.sideLeft

def lookback : Int :=
  if p.sideLeft then p.after else p.before

def isClosed (streamTime : Int) (e : Bytes × Bytes) : Except ProcessorError Bool := do
  let stop ← checkedI64 ((← outerKeyTs e.1) + p.lookback)
  let close ← checkedI64 (stop + p.grace)
  return decide (close < streamTime)

def decoded (e : Bytes × Bytes) : Except ProcessorError (Int × Bytes × VThis × K) := do
  let (_, raw) ← outerValueDecode e.2
  let .ok value := o.valueSerde.deserialize o.outerStore raw | throw .panicked
  let .ok key := o.keySerde.deserialize o.outerStore (← outerKeyKeyBytes e.1) | throw .panicked
  return (← outerKeyTs e.1, e.1, value, key)

def release (p : KStreamKStreamJoinProcessor K VThis VOther VO) :
    List (Int × Bytes × VThis × K) → TableStore Bytes Bytes →
      Except ProcessorError (TableStore Bytes Bytes × List (Record K VO))
  | [], store => .ok (store, [])
  | (ts, ck, value, key) :: closed, store => do
    let (_, store) ← store.delete ck
    let (store, out) ← p.release closed store
    return (store, ⟨some key, p.joiner value none, ts⟩ :: out)

def closeScan (streamTime : Int) (store : TableStore Bytes Bytes) :
    Except ProcessorError (TableStore Bytes Bytes × List (Record K VO)) := do
  let found ← store.range (putI64 0) (putI64 (saturatingAdd streamTime 1))
  let own ← found.filterM p.isOwn
  let closed ← own.filterM (p.isClosed streamTime)
  p.release (← closed.mapM (decoded o)) store

def outerPart (key : K) (value : VThis) (t : Int) (found : List Int) (buffer : OuterBuffer) :
    Except ProcessorError (OuterBuffer × List (Record K VO)) := do
  let kb := o.keySerde.serialize o.outerStore key
  let tracker := buffer.tracker.advance t
  let store ← p.forget kb found buffer.store
  let (store, eager) ← if p.emitUnmatched && found.isEmpty then
      p.pad o kb key value t tracker.streamTime store
    else .ok (store, [])
  let (store, closed) ← p.closeScan o tracker.streamTime store
  return (⟨store, tracker⟩, eager ++ closed)

def process (own : JoinWindowBytesStore K VThis) (other : JoinWindowBytesStore K VOther)
    (buffer : OuterBuffer) (r : Record K VThis) :
    Except ProcessorError ((JoinWindowBytesStore K VThis × OuterBuffer) × List (Record K VO)) := do
  let some key := r.key | throw .panicked
  let t := r.timestamp
  let own := own.put key t r.value
  let timeFrom ← checkedI64 (t - p.fetchBefore)
  let timeTo ← checkedI64 (t + p.fetchAfter)
  let found ← other.fetch key timeFrom timeTo
  let joined := found.map fun m => ⟨some key, p.joiner r.value (some m.2), max t m.1⟩
  match p.outer with
  | none => return ((own, buffer), joined)
  | some o => do
    let (buffer, padded) ← p.outerPart o key r.value t (found.map (·.1)) buffer
    return ((own, buffer), joined ++ padded)

end KStreamKStreamJoinProcessor

/-- A stream-stream join of the DSL, with the changelog topics of its stores; the joiner is in its outer
form. -/
structure StreamJoin (K A B VO : Type) where
  windows : JoinWindows
  kind : JoinKind
  joiner : Option A → Option B → VO
  keySerde : Serde K
  leftSerde : Serde A
  rightSerde : Serde B
  outerStore : String
  leftTopic : Topic
  rightTopic : Topic
  outerTopic : Topic

namespace StreamJoin

variable {K A B VO : Type}

def outerSide {V : Type} (j : StreamJoin K A B VO) (valueSerde : Serde V) : Option (OuterSide K V) :=
  if !j.kind.aRequired || !j.kind.bRequired then some ⟨j.outerStore, j.keySerde, valueSerde⟩ else none

def joinThis (j : StreamJoin K A B VO) : KStreamKStreamJoinProcessor K A B VO where
  fetchBefore := j.windows.before
  fetchAfter := j.windows.after
  joiner a b := j.joiner (some a) b
  sideLeft := true
  emitUnmatched := !j.kind.bRequired
  outer := j.outerSide j.leftSerde
  before := j.windows.before
  after := j.windows.after
  grace := j.windows.grace

def joinOther (j : StreamJoin K A B VO) : KStreamKStreamJoinProcessor K B A VO where
  fetchBefore := j.windows.after
  fetchAfter := j.windows.before
  joiner b a := j.joiner a (some b)
  sideLeft := false
  emitUnmatched := !j.kind.aRequired
  outer := j.outerSide j.rightSerde
  before := j.windows.before
  after := j.windows.after
  grace := j.windows.grace

structure State (K A B : Type) where
  left : JoinWindowBytesStore K A
  right : JoinWindowBytesStore K B
  buffer : OuterBuffer

def start (j : StreamJoin K A B VO) : State K A B where
  left := .inMemory j.keySerde j.leftSerde j.leftTopic
  right := .inMemory j.keySerde j.rightSerde j.rightTopic
  buffer := ⟨.inMemory bytesSerde bytesSerde j.outerTopic, ⟨0⟩⟩

end StreamJoin

inductive JoinRecord (K A B : Type)
  | left (key : K) (value : A) (timestamp : Int)
  | right (key : K) (value : B) (timestamp : Int)
  deriving DecidableEq, Repr

namespace StreamJoin

variable {K A B VO : Type}

def step (j : StreamJoin K A B VO) (s : State K A B) :
    JoinRecord K A B → Except ProcessorError (State K A B × List (Record K VO))
  | .left key value t => do
    let ((left, buffer), out) ← j.joinThis.process s.left s.right s.buffer ⟨some key, value, t⟩
    return ({ s with left := left, buffer := buffer }, out)
  | .right key value t => do
    let ((right, buffer), out) ← j.joinOther.process s.right s.left s.buffer ⟨some key, value, t⟩
    return ({ s with right := right, buffer := buffer }, out)

end StreamJoin

end KrabkaStreams
