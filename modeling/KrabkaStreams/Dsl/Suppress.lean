import KrabkaStreams.Dsl.WindowSemantics
import KrabkaStreams.Stores.Suppress

/-!
# Suppression

`KTableSuppressProcessor` forwards a change once the stream time passes its buffer time and the wait.
`SuppressesOnce`: every window is forwarded at most once, final. `CarriesLatest`: what is forwarded is
the latest change as its operator forwarded it.
-/

namespace KrabkaStreams

open BigEndian

/-- `TimeWindowedSerde`: the key and the window start. The window end comes from the size, and one that
does not fit panics. -/
def timeWindowedSerde {K : Type} (inner : Serde K) (size : Int) : Serde (Windowed K) where
  serialize topic value := inner.serialize topic value.key ++ putI64 value.window.start
  deserialize topic bytes :=
    match splitSuffix 8 bytes with
    | .error _ => .error s!"windowed key too short: {bytes.length}"
    | .ok (kb, sb) => do
      let key ← inner.deserialize topic kb
      if IsI64 (getI64 sb + size) then .ok ⟨key, ⟨getI64 sb, getI64 sb + size⟩⟩
      else .error "attempt to add with overflow"

structure KTableSuppressProcessor (K : Type) where
  observedStreamTime : Int
  wait : Int
  bufferTime : K → Int → Int
  maxRecords : Option Nat
  maxBytes : Option Nat
  emitEarly : Bool

def overCaps (len byteSize : Nat) (maxRecords maxBytes : Option Nat) : Bool :=
  maxRecords.any (· < len) || maxBytes.any (· < byteSize)

namespace KTableSuppressProcessor

variable {K V : Type}

def new (wait : Int) (bufferTime : K → Int → Int) (maxRecords maxBytes : Option Nat) (emitEarly : Bool) :
    KTableSuppressProcessor K :=
  ⟨i64Min, wait, bufferTime, maxRecords, maxBytes, emitEarly⟩

def evicted (x : K × Change V × Int) : Record K (Change V) := ⟨some x.1, x.2.1, x.2.2⟩

/-- The loop of emit-early: the oldest entries go until the buffer is within its caps. -/
def shed (p : KTableSuppressProcessor K) : Nat → SuppressBytesStore K V →
    Except ProcessorError (List (K × Change V × Int) × SuppressBytesStore K V)
  | 0, s => .ok ([], s)
  | n + 1, s =>
    if overCaps s.len s.byteSize p.maxRecords p.maxBytes then do
      let (x, s) ← s.evictOldest
      match x with
      | none => return ([], s)
      | some x =>
        let (xs, s) ← p.shed n s
        return (x :: xs, s)
    else .ok ([], s)

def process (p : KTableSuppressProcessor K) (store : SuppressBytesStore K V) (rc : RecordContext)
    (r : Record K (Change V)) :
    Except ProcessorError ((KTableSuppressProcessor K × SuppressBytesStore K V) ×
      List (Record K (Change V))) := do
  -- a record without a key panics
  let some key := r.key | throw .panicked
  let p := { p with observedStreamTime := max p.observedStreamTime r.timestamp }
  let store ← store.put key (p.bufferTime key r.timestamp) r.value rc
  let threshold ← checkedI64 (p.observedStreamTime - p.wait)
  let (due, store) ← store.evictWhile threshold
  if p.maxRecords.isSome ∨ p.maxBytes.isSome then
    if p.emitEarly then
      let (early, store) ← p.shed store.len store
      return ((p, store), (due ++ early).map evicted)
    else if overCaps store.len store.byteSize p.maxRecords p.maxBytes then throw .panicked
    else return ((p, store), due.map evicted)
  else return ((p, store), due.map evicted)

def untilWindowCloses (grace : Int) : KTableSuppressProcessor (Windowed K) :=
  .new grace (fun k _ => k.window.stop) none none false

end KTableSuppressProcessor

section EventTime

variable {K V : Type}

abbrev SuppressInput (K V : Type) := RecordContext × Record K (Change V)

def suppressRun (s : KTableSuppressProcessor K × SuppressBytesStore K V) (inputs : List (SuppressInput K V)) :=
  Runs.run (fun s (x : SuppressInput K V) => s.1.process s.2 x.1 x.2) s inputs

variable [DecidableEq K]

def latestInput (k : K) (inputs : List (SuppressInput K V)) : Option (SuppressInput K V) :=
  (inputs.filter fun x => x.2.key = some k).getLast?

/-- A forwarded record has the value and the timestamp of the latest input of its key. -/
def CarriesLatest (inputs : List (SuppressInput K V)) (x : Record K (Change V)) : Prop :=
  ∃ k i, x.key = some k ∧ latestInput k inputs = some i ∧ x.value = i.2.value ∧ x.timestamp = i.2.timestamp

/-- The latest input of the key has the timestamp of its source record. -/
def StampedAsSource (inputs : List (SuppressInput K V)) (k : Option K) : Prop :=
  ∀ k' ∈ k, ∀ i ∈ latestInput k' inputs, i.2.timestamp = i.1.timestamp

end EventTime

section Suppressed

variable {K V VA : Type}

structure SuppressedAggregate (K V VA : Type) where
  aggregate : KStreamWindowAggregateProcessor K V VA
  windows : WindowBytesStore K VA
  suppress : KTableSuppressProcessor (Windowed K)
  buffer : SuppressBytesStore (Windowed K) VA

namespace SuppressedAggregate

def suppressOne (rc : RecordContext)
    (acc : (KTableSuppressProcessor (Windowed K) × SuppressBytesStore (Windowed K) VA) ×
      List (Record (Windowed K) (Change VA))) (r : Record (Windowed K) (Change VA)) :
    Except ProcessorError ((KTableSuppressProcessor (Windowed K) × SuppressBytesStore (Windowed K) VA) ×
      List (Record (Windowed K) (Change VA))) := do
  let (state, out) ← acc.1.1.process acc.1.2 rc r
  return (state, acc.2 ++ out)

def process (s : SuppressedAggregate K V VA) (r : KeyedRecord K V) :
    Except ProcessorError (SuppressedAggregate K V VA × List (Record (Windowed K) (Change VA))) := do
  let ((aggregate, windows), changes) ← s.aggregate.process s.windows r.ctx r.toRecord
  let ((suppress, buffer), out) ← changes.foldlM (suppressOne r.ctx) ((s.suppress, s.buffer), [])
  return (⟨aggregate, windows, suppress, buffer⟩, out)

/-- The aggregation in emit-on-update mode over an empty store, and the suppression over an empty
buffer, with the serdes of the aggregation. -/
def create (w : TimeWindows) (init : VA) (agg : K → V → VA → VA) (keySerde : Serde K)
    (valueSerde : Serde VA) (storeTopic bufferTopic : Topic) : SuppressedAggregate K V VA where
  aggregate := .supply w init agg .onWindowUpdate false
  windows := .inMemory keySerde valueSerde storeTopic w.size
  suppress := .untilWindowCloses w.grace
  buffer := .inMemory (timeWindowedSerde keySerde w.size) valueSerde bufferTopic

end SuppressedAggregate

def suppressedRun (s : SuppressedAggregate K V VA) (recs : List (KeyedRecord K V)) :=
  Runs.run SuppressedAggregate.process s recs

variable [DecidableEq K]

/-- Every window is forwarded at most once, with the aggregate of all records it accepts. -/
def SuppressesOnce (w : TimeWindows) (init : VA) (agg : K → V → VA → VA) (recs : List (KeyedRecord K V))
    (out : List (Record (Windowed K) (Change VA))) : Prop :=
  (out.map Record.key).Nodup ∧ ∀ x ∈ out, ∃ k ws, x.key = some (w.windowAt k ws) ∧
    x.value.new = some (aggregateOf init agg k (w.accepted k ws recs))

/-- No window that has a record takes another one while the stream time is exactly its end and the
grace. -/
def TimeWindows.NoRecordAtClose (w : TimeWindows) (recs : List (KeyedRecord K V)) : Prop :=
  ∀ done r k ws, done ++ [r] <+: recs → w.Takes k ws (streamTimeOf (done ++ [r])) r →
    w.accepted k ws done ≠ [] → streamTimeOf (done ++ [r]) ≠ ws + w.size + w.grace

end Suppressed

end KrabkaStreams
