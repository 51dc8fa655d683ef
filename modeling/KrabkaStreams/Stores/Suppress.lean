import KrabkaStreams.Dsl.Windows
import KrabkaStreams.Lib.Codec
import KrabkaStreams.Stores.Schema
import KrabkaStreams.Value
import Mathlib.Data.Prod.Lex

/-!
# The suppress buffer

`SuppressBytesStore` keeps at most one pending change of a key, in the order of the buffer times and
then of the writes. A write is logged as a buffer value, an eviction as a tombstone.
-/

namespace KrabkaStreams

open BigEndian

/-- A length as an `i32`; a longer one panics. -/
def putLength (n : Nat) : Except ProcessorError Bytes :=
  if n < 2 ^ 31 then .ok (beBytes 4 n) else .error .panicked

def nullSlot : Bytes := beIntBytes 4 (-1)

/-- The marker of an old value that is the prior one. -/
def sameAsPrior : Bytes := beIntBytes 4 (-2)

def writeRecordCtx (ctx : RecordContext) : Except ProcessorError Bytes := do
  let topic := ctx.topic.toUTF8.toList
  let length ← putLength topic.length
  return putI64 ctx.timestamp ++ putI64 ctx.offset ++ length ++ topic ++ beIntBytes 4 ctx.partition
    ++ beIntBytes 4 0

def addValue : Option Bytes → Except ProcessorError Bytes
  | none => .ok nullSlot
  | some v => do
    let length ← putLength v.length
    return length ++ v

def serializeBufferChange (ctx : RecordContext) (prior old new : Option Bytes) (bufferTime : Int) :
    Except ProcessorError Bytes := do
  let head ← writeRecordCtx ctx
  let priorSlot ← addValue prior
  let oldSlot ← if old.isSome ∧ prior = old then pure sameAsPrior else addValue old
  let newSlot ← addValue new
  return head ++ priorSlot ++ oldSlot ++ newSlot ++ putI64 bufferTime

structure BufferedChange where
  ctx : RecordContext
  prior : Option Bytes
  old : Option Bytes
  new : Option Bytes
  bufferTime : Int
  deriving DecidableEq, Repr

/-- A reader of a buffer value that gives up (`none`) or panics. -/
abbrev BufferReader := Codec.Reader (Option ProcessorError)

namespace BufferReader

def get (n : Nat) : BufferReader Bytes := Codec.take none n

/-- The conversion of a slice into an array panics on another length. -/
def int (n : Nat) : BufferReader Int := do
  let b ← get n
  if b.length = n then return beInt b else throw (some .panicked)

def sized (length : Int) : BufferReader Bytes := if length < 0 then throw none else get length.toNat

def utf8 (b : Bytes) : BufferReader String :=
  match Codec.ofUtf8 b with
  | some s => return s
  | none => throw none

def recordCtx : BufferReader RecordContext := do
  let timestamp ← int 8
  let offset ← int 8
  let length ← int 4
  let raw ← sized length
  let topic ← utf8 raw
  let partition ← int 4
  -- the header count
  let _ ← get 4
  return { topic, partition, offset, timestamp }

def readAddValue : BufferReader (Option Bytes) := do
  let length ← int 4
  if length = -1 then return none else return some (← sized length)

/-- The old value, which may be marked as the prior one. -/
def readOld (prior : Option Bytes) : BufferReader (Option Bytes) := do
  let tag ← int 4
  if tag = -1 then return none
  else if tag = -2 then return prior
  else return some (← sized tag)

def change : BufferReader BufferedChange := do
  let ctx ← recordCtx
  let prior ← readAddValue
  let old ← readOld prior
  let new ← readAddValue
  let bufferTime ← int 8
  return { ctx, prior, old, new, bufferTime }

end BufferReader

/-- `try_deserialize_buffer_change`; bytes after the buffer time are not looked at. -/
def tryDeserializeBufferChange (bytes : Bytes) : Except ProcessorError (Option BufferedChange) :=
  match BufferReader.change.run bytes with
  | .ok (c, _) => .ok (some c)
  | .error none => .ok none
  | .error (some e) => .error e

structure SuppressEntry where
  keyBytes : Bytes
  newBytes : Option Bytes
  oldBytes : Option Bytes
  recordTs : Int
  deriving DecidableEq, Repr

def SuppressEntry.size (e : SuppressEntry) : Nat := e.keyBytes.length + (e.newBytes.map List.length).getD 0

abbrev Slot := Int ×ₗ Nat

structure SuppressBytesStore (K V : Type) where
  changelogTopic : Topic
  logging : Bool
  keySerde : Serde K
  valueSerde : Serde V
  entries : SortedMap Slot SuppressEntry
  index : SortedMap Bytes Slot
  seq : Nat
  byteSize : Nat
  changelog : List (Bytes × Option Bytes)

namespace SuppressBytesStore

variable {K V : Type} (s : SuppressBytesStore K V)

def inMemory (keySerde : Serde K) (valueSerde : Serde V) (changelogTopic : Topic) :
    SuppressBytesStore K V where
  changelogTopic := changelogTopic
  logging := true
  keySerde := keySerde
  valueSerde := valueSerde
  entries := .empty
  index := .empty
  seq := 0
  byteSize := 0
  changelog := []

def setLogging (on : Bool) : SuppressBytesStore K V := { s with logging := on }

def keyBytes (key : K) : Bytes := s.keySerde.serialize s.changelogTopic key

def valueBytes (value : V) : Bytes :=
  s.valueSerde.serialize s.changelogTopic value

/-- Take an entry out of the slots and of the count of bytes. An indexed slot that is missing panics, and
so does a count that would go below zero. -/
def dropSlot (slot : Slot) : Except ProcessorError (SuppressEntry × SuppressBytesStore K V) :=
  match s.entries.get? slot with
  | none => .error .panicked
  | some e =>
    if e.size ≤ s.byteSize then
      .ok (e, { s with entries := s.entries.erase slot, byteSize := s.byteSize - e.size })
    else .error .panicked

def removeExisting (kb : Bytes) : Except ProcessorError (Option Bytes × SuppressBytesStore K V) :=
  match s.index.get? kb with
  | none => .ok (none, s)
  | some slot => do
    let (e, s) ← { s with index := s.index.erase kb }.dropSlot slot
    return (e.newBytes, s)

def insertSlot (bufferTime : Int) (e : SuppressEntry) : SuppressBytesStore K V :=
  let slot : Slot := toLex (bufferTime, s.seq)
  { s with
    seq := s.seq + 1
    index := s.index.insert e.keyBytes slot
    byteSize := s.byteSize + e.size
    entries := s.entries.insert slot e }

def put (key : K) (bufferTime : Int) (change : Change V) (ctx : RecordContext) :
    Except ProcessorError (SuppressBytesStore K V) := do
  let kb := s.keyBytes key
  let newBytes := change.new.map s.valueBytes
  let oldBytes := change.old.map s.valueBytes
  let (existingNew, s) ← s.removeExisting kb
  let s := s.insertSlot bufferTime ⟨kb, newBytes, oldBytes, ctx.timestamp⟩
  if s.logging then
    -- the first write of a key has the old value of its change as the prior one
    let value ← serializeBufferChange ctx (existingNew <|> oldBytes) oldBytes newBytes bufferTime
    return { s with changelog := s.changelog ++ [(kb, some value)] }
  else return s

def decodeKey (kb : Bytes) : Except ProcessorError K :=
  match s.keySerde.deserialize s.changelogTopic kb with
  | .ok k => .ok k
  | .error _ => .error .panicked

def decodeOption : Option Bytes → Except ProcessorError (Option V)
  | none => .ok none
  | some vb =>
    match s.valueSerde.deserialize s.changelogTopic vb with
    | .ok v => .ok (some v)
    | .error _ => .error .panicked

def tombstone (kb : Bytes) : SuppressBytesStore K V :=
  if s.logging then { s with changelog := s.changelog ++ [(kb, none)] } else s

def popSlot (slot : Slot) : Except ProcessorError ((K × Change V × Int) × SuppressBytesStore K V) := do
  let (e, s) ← s.dropSlot slot
  let s := { s with index := s.index.erase e.keyBytes }.tombstone e.keyBytes
  let key ← s.decodeKey e.keyBytes
  let old ← s.decodeOption e.oldBytes
  let new ← s.decodeOption e.newBytes
  return ((key, ⟨old, new⟩, e.recordTs), s)

def evictLoop (threshold : Int) : Nat → SuppressBytesStore K V →
    Except ProcessorError (List (K × Change V × Int) × SuppressBytesStore K V)
  | 0, s => .ok ([], s)
  | n + 1, s =>
    match s.entries.entries with
    | [] => .ok ([], s)
    | (slot, _) :: _ =>
      if threshold < (ofLex slot).1 then .ok ([], s)
      else do
        let (x, s) ← s.popSlot slot
        let (xs, s) ← evictLoop threshold n s
        return (x :: xs, s)

def evictWhile (threshold : Int) :
    Except ProcessorError (List (K × Change V × Int) × SuppressBytesStore K V) :=
  evictLoop threshold s.entries.entries.length s

def evictOldest : Except ProcessorError (Option (K × Change V × Int) × SuppressBytesStore K V) :=
  match s.entries.entries with
  | [] => .ok (none, s)
  | (slot, _) :: _ => do
    let (x, s) ← s.popSlot slot
    return (some x, s)

def len : Nat := s.entries.entries.length

end SuppressBytesStore

end KrabkaStreams
