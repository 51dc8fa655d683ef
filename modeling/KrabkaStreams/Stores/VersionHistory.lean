import KrabkaStreams.Stores.Versioned

/-!
# The history of a versioned store

What a versioned store is for: the complete history of the writes gives each key a value from each of
its instants on, up to the next one (`IsVersion`). The store forgets what is below its horizon. From the
horizon on it should answer as the history does.
-/

namespace KrabkaStreams

inductive VersionedWrite (K V : Type)
  | put (key : K) (value : Option V) (timestamp : Int)
  | delete (key : K) (timestamp : Int)

namespace VersionedWrite

variable {K V : Type}

def key : VersionedWrite K V → K
  | put key _ _ => key
  | delete key _ => key

def value : VersionedWrite K V → Option V
  | put _ value _ => value
  | delete _ _ => none

def timestamp : VersionedWrite K V → Int
  | put _ _ timestamp => timestamp
  | delete _ timestamp => timestamp

end VersionedWrite

section

variable {K V : Type}

def VersionedBytesStore.perform (s : VersionedBytesStore K V) :
    VersionedWrite K V → Except ProcessorError (VersionedBytesStore K V)
  | .put key value timestamp => s.put key value timestamp
  | .delete key timestamp => do
    let (_, s) ← s.delete key timestamp
    return s

/-- The last write to `k` at each instant. -/
def written [DecidableEq K] (ws : List (VersionedWrite K V)) (k : K) (t : Int) : Option (Option V) :=
  (ws.reverse.find? fun w => w.key = k ∧ w.timestamp = t).map (·.value)

/-- No write moves the horizon above `t`. -/
def FromHorizon (retention : Int) (ws : List (VersionedWrite K V)) (t : Int) : Prop :=
  ∀ w ∈ ws, w.timestamp - retention ≤ t

instance (retention : Int) (ws : List (VersionedWrite K V)) (t : Int) : Decidable (FromHorizon retention ws t) :=
  inferInstanceAs (Decidable (∀ w ∈ ws, w.timestamp - retention ≤ t))

def IsVersion (f : Int → Option (Option V)) (r : VersionedRecord V) : Prop :=
  f r.validFrom = some (some r.value) ∧ Next f r.validFrom r.validTo

/-- The last write at the greatest instant up to `asOf`, and the least instant of a write after it. -/
def ValidAt (f : Int → Option (Option V)) (asOf : Int) (r : VersionedRecord V) : Prop :=
  f r.validFrom = some (some r.value) ∧ r.validFrom ≤ asOf ∧ (∀ t, r.validFrom < t → t ≤ asOf → f t = none) ∧
    Next f asOf r.validTo

namespace VersionedRecord

/-- The record is valid at some instant from `lo` to `hi`. -/
def Meets (lo hi : Int) (r : VersionedRecord V) : Prop := r.validFrom ≤ hi ∧ ∀ n ∈ r.validTo, lo < n

def Precedes (descending : Bool) (r r' : VersionedRecord V) : Prop :=
  if descending then r'.validFrom < r.validFrom else r.validFrom < r'.validFrom

end VersionedRecord

end

end KrabkaStreams
