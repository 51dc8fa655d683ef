import KrabkaStreams.Lib.PrefixRange
import KrabkaStreams.Stores.Schema

/-!
# The messages and the store of the foreign-key join

Both messages are encoded with a flag for a missing hash, and the rest of a response is its foreign
value, if there is a rest. The store scans by the prefix of a foreign key. The readers panic on bytes
that are too short.
-/

namespace KrabkaStreams

open BigEndian

inductive Instruction
  | propagateOnlyIfFkValAvailable
  | propagateNullIfNoFkValAvailable
  | deleteKeyAndPropagate
  | deleteKeyNoPropagate
  deriving DecidableEq, Repr

namespace Instruction

def toByte : Instruction → UInt8
  | deleteKeyNoPropagate => 0
  | deleteKeyAndPropagate => 1
  | propagateNullIfNoFkValAvailable => 2
  | propagateOnlyIfFkValAvailable => 3

def fromByte (b : UInt8) : Option Instruction :=
  if b = 0 then some deleteKeyNoPropagate
  else if b = 1 then some deleteKeyAndPropagate
  else if b = 2 then some propagateNullIfNoFkValAvailable
  else if b = 3 then some propagateOnlyIfFkValAvailable
  else none

/-- The instructions that take a subscription back. -/
def isDelete : Instruction → Bool
  | deleteKeyAndPropagate => true
  | deleteKeyNoPropagate => true
  | _ => false

end Instruction

def hashNullFlag : UInt8 := 0x80

def versionByte (version : UInt8) (hash : Option Bytes) : UInt8 :=
  if hash.isNone then version ||| hashNullFlag else version

def readHash (first : UInt8) (bytes : Bytes) : Except ProcessorError (Option Bytes × Bytes) :=
  if first &&& hashNullFlag ≠ 0 then .ok (none, bytes)
  else if bytes.length < 16 then .error .panicked
  else .ok (some (bytes.take 16), bytes.drop 16)

structure SubscriptionWrapper where
  instruction : Instruction
  hash : Option Bytes
  primaryKey : Bytes
  primaryPartition : Int
  deriving DecidableEq, Repr

namespace SubscriptionWrapper

def serialize (w : SubscriptionWrapper) : Bytes :=
  versionByte 1 w.hash :: w.instruction.toByte ::
    (w.hash.getD [] ++ (w.primaryKey ++ beIntBytes 4 w.primaryPartition))

def deserialize (bytes : Bytes) : Except ProcessorError SubscriptionWrapper :=
  match bytes with
  | first :: second :: rest => do
    let some instruction := Instruction.fromByte second | throw .panicked
    let (hash, rest) ← readHash first rest
    let (primaryKey, partition) ← splitSuffix 4 rest
    return ⟨instruction, hash, primaryKey, beInt partition⟩
  | _ => .error .panicked

end SubscriptionWrapper

structure SubscriptionResponseWrapper where
  hash : Option Bytes
  foreignValue : Option Bytes
  deriving DecidableEq, Repr

namespace SubscriptionResponseWrapper

def serialize (w : SubscriptionResponseWrapper) : Bytes :=
  versionByte 0 w.hash :: (w.hash.getD [] ++ w.foreignValue.getD [])

def deserialize (bytes : Bytes) : Except ProcessorError SubscriptionResponseWrapper :=
  match bytes with
  | first :: rest => do
    let (hash, rest) ← readHash first rest
    return ⟨hash, if rest.isEmpty then none else some rest⟩
  | _ => .error .panicked

end SubscriptionResponseWrapper

/-- The length of a foreign key has to fit a `u32`. -/
def foreignPrefix (fk : Bytes) : Except ProcessorError Bytes :=
  if fk.length < 2 ^ 32 then .ok (beBytes 4 fk.length ++ fk) else .error .panicked

def combinedKey (fk pk : Bytes) : Except ProcessorError Bytes := do
  let fkPart ← foreignPrefix fk
  return fkPart ++ pk

def splitCombinedKey (k : Bytes) : Except ProcessorError (Bytes × Bytes) :=
  if k.length < 4 ∨ k.length < 4 + beNat (k.take 4) then .error .panicked
  else .ok ((k.drop 4).take (beNat (k.take 4)), (k.drop 4).drop (beNat (k.take 4)))

def rangeUpper (fk : Bytes) : Except ProcessorError Bytes := PrefixRange.upper <$> foreignPrefix fk

/-- `SubscriptionBytesStore` over the in-memory backend. -/
structure SubscriptionBytesStore where
  backend : SortedMap Bytes Bytes
  changelog : List (Bytes × Option Bytes)
  logging : Bool

variable (s : SubscriptionBytesStore)

namespace SubscriptionBytesStore

def inMemory : SubscriptionBytesStore := ⟨.empty, [], true⟩

def record (key : Bytes) (value : Option Bytes) : SubscriptionBytesStore :=
  if s.logging then { s with changelog := s.changelog ++ [(key, value)] } else s

def put (fk pk : Bytes) (w : SubscriptionWrapper) (recordTs : Int) :
    Except ProcessorError SubscriptionBytesStore := do
  let key ← combinedKey fk pk
  let value := wrapValue recordTs w.serialize
  return { s with backend := s.backend.insert key value }.record key (some value)

def decode (raw : Bytes) : Except ProcessorError SubscriptionWrapper := do
  let (_, w) ← unwrapValue raw
  SubscriptionWrapper.deserialize w

def delete (fk pk : Bytes) : Except ProcessorError (Option SubscriptionWrapper × SubscriptionBytesStore) := do
  let key ← combinedKey fk pk
  let prev ← match s.backend.get? key with
    | none => .ok none
    | some raw => some <$> decode raw
  return (prev, { s with backend := s.backend.erase key }.record key none)

def subscribersAmong (fk : Bytes) : List (Bytes × Bytes) → Except ProcessorError (List (Bytes × SubscriptionWrapper))
  | [] => .ok []
  | (k, raw) :: entries => do
    let (gfk, gpk) ← splitCombinedKey k
    if gfk ≠ fk then subscribersAmong fk entries
    else do
      let w ← decode raw
      let rest ← subscribersAmong fk entries
      return (gpk, w) :: rest

def rangeByForeign (fk : Bytes) : Except ProcessorError (List (Bytes × SubscriptionWrapper)) := do
  let lo ← foreignPrefix fk
  let hi ← rangeUpper fk
  subscribersAmong fk (s.backend.range lo hi)

/-- A write to the store: a subscription under its time, or a delete. -/
structure Write where
  fk : Bytes
  pk : Bytes
  entry : Option (Int × SubscriptionWrapper)
  deriving DecidableEq

def write (o : Write) : Except ProcessorError SubscriptionBytesStore :=
  match o.entry with
  | some (recordTs, w) => s.put o.fk o.pk w recordTs
  | none => do
    let (_, s) ← s.delete o.fk o.pk
    return s

/-- What the last write to a pair of keys left: the subscription it put, nothing after a delete. -/
def live (ops : List Write) (fk pk : Bytes) : Option SubscriptionWrapper :=
  (ops.filter fun o => o.fk = fk ∧ o.pk = pk).getLast?.bind fun o => o.entry.map (·.2)

end SubscriptionBytesStore

end KrabkaStreams
