import KrabkaStreams.Dsl.TableSemantics
import KrabkaStreams.Stores.Versioned

/-!
# A table from a topic over a versioned store

The source writes a version at the time of the record and forwards the change of the value that was valid
at that time. The aggregate of a grouping behind it is compared with the latest versions.
-/

namespace KrabkaStreams

variable {K V KR VR T : Type}

def VersionedKTableSourceProcessor.process (store : VersionedBytesStore K V) (r : Record K V) :
    Except ProcessorError (VersionedBytesStore K V × List (Record K (Change V))) := do
  let some key := r.key | throw .panicked
  let old ← store.getAsOf key r.timestamp
  let store ← store.put key (some r.value) r.timestamp
  return (store, [⟨some key, .update (old.map (·.value)) r.value, r.timestamp⟩])

/-- A grouping of a versioned table, as it runs: the store of the source, and that of the aggregate. -/
structure VersionedGroupBy (K V KR T : Type) where
  source : VersionedBytesStore K V
  aggregate : TableStore KR T

namespace VersionedGroupBy

def step [DecidableEq KR] (g : GroupedTable K V KR VR T) (s : VersionedGroupBy K V KR T)
    (r : KeyedRecord K V) (reading : Reading) : Except ProcessorError (VersionedGroupBy K V KR T) := do
  let (source, changes) ← VersionedKTableSourceProcessor.process s.source ⟨some r.key, r.value, r.timestamp⟩
  let aggregate ← g.feedAll reading changes s.aggregate
  return ⟨source, aggregate⟩

def run [DecidableEq KR] (g : GroupedTable K V KR VR T) (s : VersionedGroupBy K V KR T) :
    List (KeyedRecord K V × Reading) → Except ProcessorError (VersionedGroupBy K V KR T)
  | [] => .ok s
  | (r, reading) :: rest => do
    let s ← step g s r reading
    run g s rest

/-- The run returns, and the aggregates are the folds of the latest versions. -/
def FoldsLatest [DecidableEq KR] (g : GroupedTable K V KR VR T) (start : VersionedGroupBy K V KR T)
    (xs : List (KeyedRecord K V × Reading)) : Prop :=
  ∃ s rows, run g start xs = .ok s ∧
    (∀ k, ∃ latest, s.source.get k = .ok latest ∧ latest.map (·.value) = rows k) ∧
    g.FoldsRows s.aggregate rows

/-- A record of a key that was seen before is not older than the records of the key, and is not at the
last instant. -/
def InOrder (xs : List (KeyedRecord K V)) : Prop :=
  xs.Pairwise fun r r' => r.key = r'.key → r.timestamp ≤ r'.timestamp ∧ r'.timestamp < i64Max

end VersionedGroupBy

end KrabkaStreams
