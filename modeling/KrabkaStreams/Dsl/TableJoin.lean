import KrabkaStreams.Dsl.StreamJoin
import KrabkaStreams.Dsl.Table
import KrabkaStreams.Dsl.WindowSemantics
import KrabkaStreams.Stores.Versioned

/-!
# The join of two tables

A processor on each side joins the two sides of a change with the current value of the other table. A
cached table forwards its changes when the task flushes the caches, one store after the other.
-/

namespace KrabkaStreams

variable {K V W VA VB VR : Type}

def JoinKind.result (kind : JoinKind) (joiner : Option VA → Option VB → VR) (a : Option VA) (b : Option VB) :
    Option VR :=
  if (a.isSome || !kind.aRequired) && (b.isSome || !kind.bRequired) && (a.isSome || b.isSome) then
    some (joiner a b)
  else none

inductive SideStore (K V : Type)
  | plain (s : TableStore K V)
  | versioned (s : VersionedBytesStore K V)

def SideStore.current : SideStore K V → K → Except ProcessorError (Option V)
  | .plain s, key => s.get key
  | .versioned s, key => do
    let latest ← s.get key
    return latest.map (·.value)

/-- A change of a versioned side is out of order when its store has a later version. -/
def outOfOrder (self : Option (VersionedBytesStore K V)) (key : K) (timestamp : Int) :
    Except ProcessorError Bool :=
  match self with
  | none => .ok false
  | some s => do
    let latest ← s.get key
    return latest.any fun r => timestamp < r.validFrom

/-- What the two processors share: `rule` is the join row of a value of the own side and one of the
other. -/
def joinChange (rule : Option V → Option W → Option VR) (self : Option (VersionedBytesStore K V))
    (other : SideStore K W) (r : Record K (Change V)) :
    Except ProcessorError (List (Record K (Change VR))) := do
  let some key := r.key | throw .panicked
  if ← outOfOrder self key r.timestamp then return []
  let current ← other.current key
  let old := rule r.value.old current
  let new := rule r.value.new current
  if old.isSome || new.isSome then return [⟨some key, ⟨old, new⟩, r.timestamp⟩] else return []

structure KTableKTableJoinThisProcessor (VA VB VR : Type) where
  joiner : Option VA → Option VB → VR
  kind : JoinKind

def KTableKTableJoinThisProcessor.process (p : KTableKTableJoinThisProcessor VA VB VR)
    (self : Option (VersionedBytesStore K VA)) (other : SideStore K VB) (r : Record K (Change VA)) :
    Except ProcessorError (List (Record K (Change VR))) :=
  joinChange (fun a b => p.kind.result p.joiner a b) self other r

structure KTableKTableJoinOtherProcessor (VA VB VR : Type) where
  joiner : Option VA → Option VB → VR
  kind : JoinKind

def KTableKTableJoinOtherProcessor.process (p : KTableKTableJoinOtherProcessor VA VB VR)
    (self : Option (VersionedBytesStore K VB)) (other : SideStore K VA) (r : Record K (Change VB)) :
    Except ProcessorError (List (Record K (Change VR))) :=
  joinChange (fun b a => p.kind.result p.joiner a b) self other r

/-- A join of two source tables that are not versioned. `thisFirst`: the node that owns the store of the
first table comes before the other owner. -/
structure TableJoin (VA VB VR : Type) where
  kind : JoinKind
  joiner : Option VA → Option VB → VR
  thisFirst : Bool

inductive TableJoinEvent (K VA VB : Type)
  | this (r : KeyedRecord K VA)
  | other (r : KeyedRecord K VB)
  | flush

namespace TableJoin

structure State (K VA VB : Type) where
  this : TableStore K VA
  other : TableStore K VB

variable (j : TableJoin VA VB VR) (s : State K VA VB)

def joinThis (changes : List (Record K (Change VA))) :
    Except ProcessorError (List (Record K (Change VR))) := do
  let outs ← changes.mapM (KTableKTableJoinThisProcessor.process ⟨j.joiner, j.kind⟩ none (.plain s.other))
  return outs.flatten

def joinOther (changes : List (Record K (Change VB))) :
    Except ProcessorError (List (Record K (Change VR))) := do
  let outs ← changes.mapM (KTableKTableJoinOtherProcessor.process ⟨j.joiner, j.kind⟩ none (.plain s.this))
  return outs.flatten

def flushThis : Except ProcessorError (State K VA VB × List (Record K (Change VR))) := do
  let (changes, this) ← s.this.flushCache
  let s := { s with this := this }
  let out ← j.joinThis s changes
  return (s, out)

def flushOther : Except ProcessorError (State K VA VB × List (Record K (Change VR))) := do
  let (changes, other) ← s.other.flushCache
  let s := { s with other := other }
  let out ← j.joinOther s changes
  return (s, out)

def flushCaches : Except ProcessorError (State K VA VB × List (Record K (Change VR))) := do
  let (s, out) ← if j.thisFirst then j.flushThis s else j.flushOther s
  let (s, out') ← if j.thisFirst then j.flushOther s else j.flushThis s
  return (s, out ++ out')

/-- An event: the state after it, and what the join forwards. The forwarder of a source was resolved from
its store. -/
def step : TableJoinEvent K VA VB → Except ProcessorError (State K VA VB × List (Record K (Change VR)))
  | .this r => do
    let (this, changes) ← KTableSourceProcessor.process ⟨⟨s.this.isCached⟩⟩ s.this r.ctx
      ⟨some r.key, r.value, r.timestamp⟩
    let s := { s with this := this }
    let out ← j.joinThis s changes
    return (s, out)
  | .other r => do
    let (other, changes) ← KTableSourceProcessor.process ⟨⟨s.other.isCached⟩⟩ s.other r.ctx
      ⟨some r.key, r.value, r.timestamp⟩
    let s := { s with other := other }
    let out ← j.joinOther s changes
    return (s, out)
  | .flush => j.flushCaches s

def run (j : TableJoin VA VB VR) (s : State K VA VB) :
    List (TableJoinEvent K VA VB) → Except ProcessorError (State K VA VB × List (Record K (Change VR)))
  | [] => .ok (s, [])
  | x :: xs => do
    let (s, out) ← j.step s x
    let (s, rest) ← j.run s xs
    return (s, out ++ rest)

end TableJoin

end KrabkaStreams
