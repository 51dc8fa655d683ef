import KrabkaStreams.Record

/-!
# Windows and the records of the DSL

The DSL is typed: a record carries its own key and value types, a windowed key names its window, and a
table passes on changes. The extents of a window are whole milliseconds, within the bounds its
constructors assert.
-/

namespace KrabkaStreams

structure Record (K V : Type) where
  key : Option K
  value : V
  timestamp : Int
  deriving DecidableEq, Repr

structure Window where
  start : Int
  stop : Int
  deriving DecidableEq, Repr

structure Windowed (K : Type) where
  key : K
  window : Window
  deriving DecidableEq, Repr

/-- The value a table propagates; without a new one it is a tombstone. -/
structure Change (V : Type) where
  old : Option V
  new : Option V
  deriving DecidableEq, Repr

def Change.update {V : Type} (old : Option V) (new : V) : Change V := ⟨old, some new⟩

def Change.tombstone {V : Type} (old : Option V) : Change V := ⟨old, none⟩

inductive EmitStrategy
  | onWindowUpdate
  | onWindowClose
  deriving DecidableEq, Repr

/-- The forwards of a cached store are left to the flush of its cache. -/
structure TupleForwarder where
  cached : Bool
  deriving DecidableEq, Repr

def TupleForwarder.maybeForwardChange {K VA : Type} (f : TupleForwarder) (key : K) (change : Change VA)
    (ts : Int) : List (Record K (Change VA)) :=
  if f.cached then [] else [⟨some key, change, ts⟩]

structure TimeWindows where
  size : Int
  advance : Int
  grace : Int
  advance_pos : 1 ≤ advance
  advance_le_size : advance ≤ size
  size_le : size ≤ i64Max
  grace_nonneg : 0 ≤ grace
  grace_le : grace ≤ i64Max

namespace TimeWindows

def startsFrom (t advance : Int) : Nat → Int → Except ProcessorError (List Int)
  | 0, _ => .ok []
  | n + 1, start =>
    if start ≤ t then do
      let next ← checkedI64 (start + advance)
      let rest ← startsFrom t advance n next
      return start :: rest
    else .ok []

/-- The window starts that `t` falls into; there are at most `t + 1` of them. -/
def windowsFor (w : TimeWindows) (t : Int) : Except ProcessorError (List Int) :=
  startsFrom t w.advance (t + 1).toNat (max 0 (t - w.size + w.advance) / w.advance * w.advance)

end TimeWindows

end KrabkaStreams
