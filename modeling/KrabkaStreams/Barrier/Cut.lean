import KrabkaStreams.Lib.Codec
import KrabkaStreams.Record
import Mathlib.Data.Prod.Lex
import Mathlib.Data.String.Basic

/-!
# Cuts of the barrier topic

The decoder of the `__barrier_state` records and the layout it reads: signed big-endian integers,
strings with an `i16` length, arrays with an `i32` count.
-/

namespace KrabkaStreams.Barrier

open BigEndian Codec

def recordVersion : Int := 0

def cutKind : Int := 2

def keyPart : String := "key"

def valuePart : String := "cut value"

inductive CutStatus
  | complete
  | partialCut
  deriving DecidableEq, Repr

def CutStatus.code : CutStatus → Int
  | complete => 0
  | partialCut => 1

/-- One epoch's cut; the missing partitions are a set. -/
structure BarrierCut where
  group : String
  epoch : Int
  triggeredAt : Int
  completedAt : Int
  status : CutStatus
  offsets : SortedMap String (SortedMap Int Int)
  missing : SortedMap (String ×ₗ Int) Unit
  deriving DecidableEq

def BarrierCut.complete (c : BarrierCut) : Bool := c.status = .complete

def BarrierCut.offset (c : BarrierCut) (topic : String) (partition : Int) : Option Int :=
  (c.offsets.get? topic).bind (·.get? partition)

structure BarrierKey where
  kind : Int
  group : String
  epoch : Int
  deriving DecidableEq, Repr

variable (key : BarrierKey)

def BarrierKey.isCut : Bool := key.kind = cutKind

def malformed (part message : String) : StreamsClientError := .barrierFormat part message

abbrev Reader := Codec.Reader StreamsClientError

namespace Reader

variable (part : String)

def truncated : StreamsClientError := malformed part s!"truncated barrier state {part}"

def finish : Reader Unit := Codec.finish (malformed part s!"trailing bytes in barrier state {part}")

def int (n : Nat) : Reader Int := do return beInt (← take (truncated part) n)

def i8 : Reader Int := int part 1

def i16 : Reader Int := int part 2

def i32 : Reader Int := int part 4

def i64 : Reader Int := int part 8

def utf8 (bytes : Bytes) : Reader String :=
  match ofUtf8 bytes with
  | some s => pure s
  | none => throw (malformed part s!"non-UTF-8 string in barrier state {part}")

def nonneg (what : String) (n : Int) : Reader Nat :=
  if n < 0 then throw (malformed part s!"negative {what} length {n} in barrier state {part}") else pure n.toNat

def string : Reader String := do
  let n ← i16 part
  let length ← nonneg part "string" n
  let bytes ← take (truncated part) length
  utf8 part bytes

def count : Reader Nat := do
  let n ← i32 part
  nonneg part "array" n

def version : Reader Unit := do
  let version ← i16 part
  if version = recordVersion then pure ()
  else throw (malformed part s!"unsupported barrier state {part} version {version}")

def partitionOffset (entry : SortedMap Int Int) : Reader (SortedMap Int Int) := do
  let partition ← i32 part
  let offset ← i64 part
  pure (entry.insert partition offset)

def topicOffsets (offsets : SortedMap String (SortedMap Int Int)) :
    Reader (SortedMap String (SortedMap Int Int)) := do
  let topic ← string part
  let partitions ← count part
  let entry ← times (partitionOffset part) partitions ((offsets.get? topic).getD .empty)
  pure (offsets.insert topic entry)

def cutOffsets : Reader (SortedMap String (SortedMap Int Int)) := do
  let topics ← count part
  times (topicOffsets part) topics .empty

def missingPartition (missing : SortedMap (String ×ₗ Int) Unit) : Reader (SortedMap (String ×ₗ Int) Unit) := do
  let topic ← string part
  let partition ← i32 part
  pure (missing.insert (toLex (topic, partition)) ())

def missingPartitions : Reader (SortedMap (String ×ₗ Int) Unit) := do
  let partitions ← count part
  times (missingPartition part) partitions .empty

end Reader

open Reader

def CutStatus.fromCode (code : Int) : Reader CutStatus :=
  if code = 0 then pure .complete
  else if code = 1 then pure .partialCut
  else throw (malformed valuePart s!"unknown barrier cut status {code}")

def decodeKey (data : Bytes) : Except StreamsClientError BarrierKey :=
  let decode : Reader BarrierKey := do
    version keyPart
    let kind ← i16 keyPart
    let group ← string keyPart
    let epoch ← i64 keyPart
    finish keyPart
    pure { kind, group, epoch }
  (·.1) <$> decode.run data

def decodeCutValue (data : Bytes) : Except StreamsClientError BarrierCut :=
  let decode : Reader BarrierCut := do
    version valuePart
    let triggeredAt ← i64 valuePart
    let completedAt ← i64 valuePart
    let code ← i8 valuePart
    let status ← CutStatus.fromCode code
    let offsets ← cutOffsets valuePart
    let missing ← missingPartitions valuePart
    finish valuePart
    pure { group := key.group, epoch := key.epoch, triggeredAt, completedAt, status, offsets, missing }
  (·.1) <$> decode.run data

def decodeBarrierCut (key : Bytes) (value : Option Bytes) : Except StreamsClientError (Option BarrierCut) := do
  let key ← decodeKey key
  if !key.isCut then return none
  else match value with
    | none => return none
    | some value => some <$> decodeCutValue key value

def putString (s : String) : Bytes := beIntBytes 2 (Codec.utf8 s).length ++ Codec.utf8 s

def putArray {α : Type} (put : α → Bytes) (l : List α) : Bytes := beIntBytes 4 l.length ++ l.flatMap put

def encodeKey : Bytes :=
  beIntBytes 2 recordVersion ++ (beIntBytes 2 key.kind ++ (putString key.group ++ beIntBytes 8 key.epoch))

/-- The value of a cut, with its offsets by topic and its missing partitions as they are listed. -/
def encodeCutValue (c : BarrierCut) (topics : List (String × List (Int × Int)))
    (missing : List (String × Int)) : Bytes :=
  beIntBytes 2 recordVersion ++ (beIntBytes 8 c.triggeredAt ++ (beIntBytes 8 c.completedAt ++
    (beIntBytes 1 c.status.code ++
      (putArray (fun t => putString t.1 ++ putArray (fun e => beIntBytes 4 e.1 ++ beIntBytes 8 e.2) t.2) topics ++
        putArray (fun m => putString m.1 ++ beIntBytes 4 m.2) missing))))

end KrabkaStreams.Barrier
