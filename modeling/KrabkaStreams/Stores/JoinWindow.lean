import KrabkaStreams.Stores.KeyValue
import KrabkaStreams.Stores.Schema

/-!
# The window store of a stream-stream join

A put takes the next sequence number into its composite key, so two puts of one key and timestamp are
two entries. The replay writes the logged entries back.
-/

namespace KrabkaStreams

structure JoinWindowBytesStore (K V : Type) where
  changelogTopic : Topic
  backend : SortedMap Bytes Bytes
  keySerde : Serde K
  valueSerde : Serde V
  changelog : List (Bytes × Option Bytes)
  logging : Bool
  seqnum : Nat

namespace JoinWindowBytesStore

variable {K V : Type} (s : JoinWindowBytesStore K V)

def inMemory (keySerde : Serde K) (valueSerde : Serde V) (changelogTopic : Topic) :
    JoinWindowBytesStore K V where
  changelogTopic := changelogTopic
  backend := .empty
  keySerde := keySerde
  valueSerde := valueSerde
  changelog := []
  logging := true
  seqnum := 0

def keyBytes (key : K) : Bytes := s.keySerde.serialize s.changelogTopic key

def valueBytes (value : V) : Bytes :=
  s.valueSerde.serialize s.changelogTopic value

def decodeValue (raw : Bytes) : Except ProcessorError V :=
  match s.valueSerde.deserialize s.changelogTopic raw with
  | .ok v => .ok v
  | .error _ => .error .panicked

/-- The sequence number of the next put, which wraps after 31 bits. -/
def nextSeqnum : Nat × JoinWindowBytesStore K V :=
  (s.seqnum, { s with seqnum := (s.seqnum + 1) % 2 ^ 31 })

def put (key : K) (timestamp : Int) (value : V) : JoinWindowBytesStore K V :=
  let kb := s.keyBytes key
  let (seq, s) := s.nextSeqnum
  let sk := storeKey kb timestamp seq
  let raw := s.valueBytes value
  let s := { s with backend := s.backend.insert sk raw }
  if s.logging then { s with changelog := s.changelog ++ [(sk, some raw)] } else s

def scanned (kb : Bytes) (e : Bytes × Bytes) : Except ProcessorError (List (Int × V)) := do
  if (← keyBytesOf e.1) ≠ kb then return []
  let ts ← windowStartOf e.1
  let v ← s.decodeValue e.2
  return [(ts, v)]

def fetch (key : K) (timeFrom timeTo : Int) : Except ProcessorError (List (Int × V)) := do
  let kb := s.keyBytes key
  let lo := storeKey kb (max timeFrom 0) 0
  let hi := storeKey kb (saturatingAdd timeTo 1) 0
  return (← (s.backend.range lo hi).mapM (s.scanned kb)).flatten

/-- The restore path: the sequence number stays as it is. -/
def applyChangelog (key : Bytes) (value : Option Bytes) : JoinWindowBytesStore K V :=
  { s with backend := putOrDelete s.backend key value }

def clear : JoinWindowBytesStore K V :=
  { s with backend := .empty, changelog := [], seqnum := 0 }

end JoinWindowBytesStore

structure JoinPut (K V : Type) where
  key : K
  timestamp : Int
  value : V
  deriving DecidableEq, Repr

namespace JoinWindowBytesStore

variable {K V : Type} (s : JoinWindowBytesStore K V)

def putAll (puts : List (JoinPut K V)) : JoinWindowBytesStore K V :=
  puts.foldl (fun s p => s.put p.key p.timestamp p.value) s

def replay (entries : List (Bytes × Option Bytes)) : JoinWindowBytesStore K V :=
  entries.foldl (fun s e => s.applyChangelog e.1 e.2) s

/-- The store `s`, cleared, after a replay of the changelog of the puts `old` and the puts `new`. -/
def restored (old new : List (JoinPut K V)) : JoinWindowBytesStore K V :=
  (s.clear.replay ((inMemory s.keySerde s.valueSerde s.changelogTopic).putAll old).changelog).putAll new

def Wants (key : K) (timeFrom timeTo : Int) (p : JoinPut K V) : Prop :=
  s.keyBytes p.key = s.keyBytes key ∧ timeFrom ≤ p.timestamp ∧ p.timestamp ≤ timeTo ∧ 0 ≤ p.timestamp

instance (key : K) (timeFrom timeTo : Int) (p : JoinPut K V) :
    Decidable (s.Wants key timeFrom timeTo p) := instDecidableAnd

/-- A fetch returns every put of the key in the range, as often as it was put. -/
def FetchesAll (puts : List (JoinPut K V)) (key : K) (timeFrom timeTo : Int) : Prop :=
  ∃ found, s.fetch key timeFrom timeTo = .ok found ∧
    found.Perm ((puts.filter (s.Wants key timeFrom timeTo)).map fun p => (p.timestamp, p.value))

/-- Two puts of one position, key and timestamp: the later one takes the entry of the earlier one. -/
def Collide (p q : JoinPut K V) : Prop :=
  s.keyBytes p.key = s.keyBytes q.key ∧ p.timestamp = q.timestamp

/-- What a restored store needs for a fetch to return everything. An upper bound below `-1` sorts behind
every timestamp that is not negative; up to the last `i64` the scan stops before it; and no wanted put of
the old part has the position, the key and the timestamp of a new one. -/
structure Separated (old new : List (JoinPut K V)) (key : K) (timeFrom timeTo : Int) : Prop where
  below : timeTo < -1 → ∀ p ∈ old ++ new, s.keyBytes p.key = s.keyBytes key →
    ¬ (max timeFrom 0 ≤ p.timestamp ∨ p.timestamp ≤ timeTo)
  last : timeTo = i64Max → ∀ p ∈ old ++ new, s.keyBytes p.key = s.keyBytes key → p.timestamp ≠ i64Max
  apart : ∀ (i : Nat) p q, old[i]? = some p → new[i]? = some q → s.Wants key timeFrom timeTo p → ¬ s.Collide p q

end JoinWindowBytesStore

end KrabkaStreams
