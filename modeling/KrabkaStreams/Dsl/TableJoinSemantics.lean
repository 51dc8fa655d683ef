import KrabkaStreams.Dsl.TableJoin

/-!
# What the output of a table join is for

The changes that are forwarded for a key are the steps of one table: each starts from where the one before
it ended (`Telescopes`). After a flush the table is the join of the two tables (`CoherentStream`).
-/

namespace KrabkaStreams

variable {K VA VB VR : Type}

def changesOf [DecidableEq K] (k : K) (outs : List (Record K (Change VR))) : List (Change VR) :=
  outs.filterMap fun r => if r.key = some k then some r.value else none

/-- Each change starts from the end of the one before it, the first one from `last`. -/
def Telescopes (last : Option VR) : List (Change VR) → Prop
  | [] => True
  | c :: cs => c.old = last ∧ Telescopes c.new cs

def lastNew (last : Option VR) (cs : List (Change VR)) : Option VR := cs.foldl (fun _ c => c.new) last

namespace TableJoin

/-- The run returns, the changes of every key telescope, and if it ends with a flush, the last one ends
with the join of the current rows. -/
def CoherentStream [DecidableEq K] (j : TableJoin VA VB VR) (start : State K VA VB)
    (xs : List (TableJoinEvent K VA VB)) : Prop :=
  ∃ s outs, j.run start xs = .ok (s, outs) ∧ ∀ k, Telescopes none (changesOf k outs) ∧
    (xs.getLast? = some .flush → ∃ a b, s.this.get k = .ok a ∧ s.other.get k = .ok b ∧
      lastNew none (changesOf k outs) = j.kind.result j.joiner a b)

/-- The first record is staged in a cache when the second one changes the other table at its key. -/
def Meets (thisCached otherCached : Bool) : TableJoinEvent K VA VB → TableJoinEvent K VA VB → Prop
  | .this r, .other r' => thisCached = true ∧ r.key = r'.key
  | .other r, .this r' => otherCached = true ∧ r.key = r'.key
  | _, _ => False

instance [DecidableEq K] (thisCached otherCached : Bool) (x y : TableJoinEvent K VA VB) :
    Decidable (Meets thisCached otherCached x y) :=
  match x, y with
  | .this _, .other _ => inferInstanceAs (Decidable (_ ∧ _))
  | .other _, .this _ => inferInstanceAs (Decidable (_ ∧ _))
  | .this _, .this _ => .isFalse id
  | .other _, .other _ => .isFalse id
  | .this _, .flush => .isFalse id
  | .other _, .flush => .isFalse id
  | .flush, _ => .isFalse id

/-- No record meets one of the other table that came after the last flush; `staged` came after it so
far. -/
def Separated (thisCached otherCached : Bool) (staged : List (TableJoinEvent K VA VB)) :
    List (TableJoinEvent K VA VB) → Prop
  | [] => True
  | .flush :: xs => Separated thisCached otherCached [] xs
  | x :: xs => (∀ y ∈ staged, ¬ Meets thisCached otherCached y x) ∧
    Separated thisCached otherCached (x :: staged) xs

instance decidableSeparated [DecidableEq K] (thisCached otherCached : Bool) :
    ∀ staged xs : List (TableJoinEvent K VA VB), Decidable (Separated thisCached otherCached staged xs)
  | _, [] => .isTrue trivial
  | _, .flush :: xs => decidableSeparated thisCached otherCached [] xs
  | staged, .this r :: xs =>
    have := decidableSeparated thisCached otherCached (.this r :: staged) xs
    inferInstanceAs (Decidable (_ ∧ _))
  | staged, .other r :: xs =>
    have := decidableSeparated thisCached otherCached (.other r :: staged) xs
    inferInstanceAs (Decidable (_ ∧ _))

end TableJoin

end KrabkaStreams
