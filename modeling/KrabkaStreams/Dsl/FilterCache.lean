import KrabkaStreams.Dsl.Table
import Mathlib.Logic.Function.Basic

/-!
# A filter with a cached store

With a cached store a filter leaves its changes to the flush, which should forward for each key the
changes since the last one in one step (`Collapses`).
-/

namespace KrabkaStreams

variable {K V : Type}

inductive FilterEvent (K V : Type)
  | change (key : K) (c : Change V) (ts : Int) (ctx : RecordContext)
  | flush

def collapse : List (Change V) → List (Change V)
  | [] => []
  | c :: cs => [⟨c.old, ((c :: cs).getLast (List.cons_ne_nil c cs)).new⟩]

def changesAt [DecidableEq K] (rs : List (Record K (Change V))) (k : K) : List (Change V) :=
  (rs.filter fun r => r.key = some k).map (·.value)

namespace FilterEvent

/-- The old side of each change is the row that was there. -/
def Coherent [DecidableEq K] (rows : K → Option V) : List (FilterEvent K V) → Prop
  | [] => True
  | .change k c _ _ :: xs => c.old = rows k ∧ Coherent (Function.update rows k c.new) xs
  | .flush :: xs => Coherent rows xs

def Passes (predicate : K → V → Bool) (e : K × Change V) : Prop :=
  (e.2.old.filter (predicate e.1)).isSome ∨ (e.2.new.filter (predicate e.1)).isSome

instance (predicate : K → V → Bool) (e : K × Change V) : Decidable (Passes predicate e) :=
  inferInstanceAs (Decidable (_ ∨ _))

/-- Of the changes of a key between two flushes, one at least passes. -/
def SomePass (predicate : K → V → Bool) (seen : List (K × Change V)) : List (FilterEvent K V) → Prop
  | [] => True
  | .change k c _ _ :: xs => SomePass predicate (seen ++ [(k, c)]) xs
  | .flush :: xs => (∀ e ∈ seen, ∃ e' ∈ seen, e'.1 = e.1 ∧ Passes predicate e') ∧ SomePass predicate [] xs

end FilterEvent

/-- The filter with a plain store and with a cached one on the same events. `pending` is what the plain one has
forwarded since the last flush. A change is forwarded at once or not at all, and a flush forwards for each
key the pending changes in one step. -/
def Collapses [DecidableEq K] (predicate : K → V → Bool) (plain cached : TableStore K V)
    (pending : List (Record K (Change V))) : List (FilterEvent K V) → Prop
  | [] => True
  | .change k c ts ctx :: xs =>
    match KTableFilterProcessor.process ⟨predicate, ⟨plain.isCached⟩⟩ plain ctx ⟨some k, c, ts⟩,
      KTableFilterProcessor.process ⟨predicate, ⟨cached.isCached⟩⟩ cached ctx ⟨some k, c, ts⟩ with
    | .ok (plain, out), .ok (cached, []) => Collapses predicate plain cached (pending ++ out) xs
    | _, _ => False
  | .flush :: xs => match cached.flushCache with
    | .ok (changes, cached) => (∀ k, changesAt changes k = collapse (changesAt pending k)) ∧
      Collapses predicate plain cached [] xs
    | .error _ => False

end KrabkaStreams
