import KrabkaStreams.Lib.Pruned
import KrabkaStreams.Stores.Query
import KrabkaStreams.Value

/-!
# The versioned store

Each key has a chain of versions by the time from which they are valid. A version whose successor is at
or below the horizon is evicted, and a write below such a successor is dropped.
-/

namespace KrabkaStreams

structure VersionedRecord (V : Type) where
  value : V
  validFrom : Int
  validTo : Option Int
  deriving DecidableEq, Repr

abbrev VersionChain := SortedMap Int (Option Bytes)

variable (chain : VersionChain)

namespace VersionChain

def latest : Option (Int × Option Bytes) := chain.entries.getLast?

def validAt (asOf : Int) : Option (Int × Option Bytes) :=
  (chain.entries.filter fun e => e.1 ≤ asOf).getLast?

def firstFrom (t : Int) : Option Int := (chain.entries.find? fun e => t ≤ e.1).map Prod.fst

/-- The loop over the neighbours among `times`: a version whose successor is at or below the horizon
goes. -/
def evict (h : Int) : List Int → VersionChain → VersionChain
  | t :: next :: times, chain => evict h (next :: times) (if next ≤ h then chain.erase t else chain)
  | _, chain => chain

end VersionChain

/-- `VersionedBytesStore`. -/
structure VersionedBytesStore (K V : Type) where
  changelogTopic : Topic
  historyRetention : Int
  keySerde : Serde K
  valueSerde : Serde V
  chains : SortedMap Bytes VersionChain
  observedStreamTime : Int
  changelog : List (Bytes × Option Bytes × Int)
  logging : Bool

namespace VersionedBytesStore

variable {K V : Type} (s : VersionedBytesStore K V) (key : K)

def inMemory (historyRetention : Int) (keySerde : Serde K) (valueSerde : Serde V) (changelogTopic : Topic) :
    VersionedBytesStore K V where
  changelogTopic := changelogTopic
  historyRetention := historyRetention
  keySerde := keySerde
  valueSerde := valueSerde
  chains := .empty
  observedStreamTime := i64Min
  changelog := []
  logging := true

def horizon : Int := saturatingSub s.observedStreamTime s.historyRetention

/-- Whether a version from `validFrom` is superseded below the horizon. Only a key with a chain is looked
at, and the bound of the lookup can overflow. -/
def superseded (key : Bytes) (validFrom : Int) : Except ProcessorError Bool :=
  match s.chains.get? key with
  | none => .ok false
  | some chain => do
    let lo ← checkedI64 (validFrom + 1)
    return (chain.firstFrom lo).any fun next => next ≤ s.horizon

def insertRaw (key : Bytes) (validFrom : Int) (value : Option Bytes) :
    Except ProcessorError (VersionedBytesStore K V × Bool) := do
  let s := { s with observedStreamTime := max s.observedStreamTime validFrom }
  if ← s.superseded key validFrom then return (s, false)
  let chain : VersionChain := ((s.chains.get? key).getD .empty).insert validFrom value
  let chain := chain.evict s.horizon (chain.entries.map Prod.fst)
  return ({ s with chains := s.chains.insert key chain }, true)

def keyBytes : Bytes := s.keySerde.serialize s.changelogTopic key

def write (value : Option Bytes) (timestamp : Int) : Except ProcessorError (VersionedBytesStore K V) := do
  let kb := s.keyBytes key
  let (s, inserted) ← s.insertRaw kb timestamp value
  if inserted && s.logging then return { s with changelog := s.changelog ++ [(kb, value, timestamp)] }
  else return s

def put (value : Option V) (timestamp : Int) : Except ProcessorError (VersionedBytesStore K V) :=
  s.write key (value.map (s.valueSerde.serialize s.changelogTopic)) timestamp

/-- Both reads expect that the value can be decoded. -/
def decode (raw : Bytes) : Except ProcessorError V :=
  match s.valueSerde.deserialize s.changelogTopic raw with
  | .ok v => .ok v
  | .error _ => .error .panicked

/-- The latest version, if the key has one and it is not a tombstone. -/
def get : Except ProcessorError (Option (VersionedRecord V)) :=
  match (s.chains.get? (s.keyBytes key)).bind VersionChain.latest with
  | some (validFrom, some raw) => do
    let value ← s.decode raw
    return some ⟨value, validFrom, none⟩
  | _ => .ok none

/-- The version that is valid at `asOf`; the bound of the lookup of its successor can overflow. -/
def getAsOf (asOf : Int) : Except ProcessorError (Option (VersionedRecord V)) :=
  match s.chains.get? (s.keyBytes key) with
  | none => .ok none
  | some chain => match chain.validAt asOf with
    | some (validFrom, some raw) => do
      let lo ← checkedI64 (asOf + 1)
      let value ← s.decode raw
      return some ⟨value, validFrom, chain.firstFrom lo⟩
    | _ => .ok none

def delete (timestamp : Int) :
    Except ProcessorError (Option (VersionedRecord V) × VersionedBytesStore K V) := do
  let prev ← s.getAsOf key timestamp
  let s ← s.write key none timestamp
  return (prev, s)

def applyChangelogTs (entry : Bytes × Option Bytes × Int) :
    Except ProcessorError (VersionedBytesStore K V) := do
  let (s, _) ← s.insertRaw entry.1 entry.2.2 entry.2.1
  return s

/-- The versions that are not tombstones and whose validity meets the instants from `lo` to `hi`. -/
def overlapping (lo hi : Int) : List (Int × Bytes × Option Int) :=
  chain.intervals.filterMap fun (validFrom, value, validTo) =>
    if validFrom ≤ hi ∧ validTo.all (lo < ·) then value.map (validFrom, ·, validTo) else none

def record (e : Int × Bytes × Option Int) : Except ProcessorError (VersionedRecord V) := do
  let value ← s.decode e.2.1
  return ⟨value, e.1, e.2.2⟩

def multiVersionedKey (fromTs toTs : Option Int) (descending : Bool) :
    Except ProcessorError (List (VersionedRecord V)) := do
  let lo := fromTs.getD i64Min
  let hi := toTs.getD i64Max
  let out ← match s.chains.get? (s.keyBytes key) with
    | some chain => (overlapping chain lo hi).mapM s.record
    | none => .ok []
  return if descending then out.reverse else out

/-- As `getAsOf`, but the successor is looked up before a tombstone is told from a value. -/
def versionedKeyAsOf (asOf : Int) : Except ProcessorError (Option (VersionedRecord V)) :=
  match s.chains.get? (s.keyBytes key) with
  | none => .ok none
  | some chain => match chain.validAt asOf with
    | none => .ok none
    | some (validFrom, value) => do
      let lo ← checkedI64 (asOf + 1)
      let validTo := chain.firstFrom lo
      match value with
      | none => return none
      | some raw => some <$> s.record (validFrom, raw, validTo)

/-- The answers of the store, by the kind of the query. -/
inductive Answer (V : Type)
  | version (record : Option (VersionedRecord V))
  | versions (records : List (VersionedRecord V))

/-- The outer error is a panic, the inner one a failure of the query. -/
def iq2Execute : Iq2Query K → Except ProcessorError (Except Iq2Failure (Answer V))
  | .versionedKey key asOf => match key.downcast with
    | .error failure => .ok (.error failure)
    | .ok key => do
      let record ← match asOf with
        | none => s.get key
        | some t => s.versionedKeyAsOf key t
      return .ok (.version record)
  | .multiVersionedKey key fromTs toTs descending => match key.downcast with
    | .error failure => .ok (.error failure)
    | .ok key => do
      let records ← s.multiVersionedKey key fromTs toTs descending
      return .ok (.versions records)
  | _ => .ok (.error .unknownQueryType)

end VersionedBytesStore

end KrabkaStreams
