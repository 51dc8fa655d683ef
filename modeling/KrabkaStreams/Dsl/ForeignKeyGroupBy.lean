import KrabkaStreams.Dsl.ForeignKeySemantics
import KrabkaStreams.Dsl.TableSemantics

/-!
# A grouping behind a foreign-key join

The resolver never knows the old side of a change, so the aggregates behind it are the folds of the
joined rows (`FoldsJoin`) only while no change touches a row of the output (`OnlyAdds`).
-/

namespace KrabkaStreams

variable {K VA KO VB V KR VR T : Type}

structure ForeignKeyGroupBy (K VA KO VB V KR VR T : Type) where
  join : ForeignKeyJoin K VA KO VB V
  grouped : GroupedTable K V KR VR T

namespace ForeignKeyGroupBy

structure State (K VA KO VB KR T : Type) where
  join : ForeignKeyJoin.State K VA KO VB
  aggregate : TableStore KR T

variable [DecidableEq K] [DecidableEq KO] [DecidableEq KR]

def step (t : ForeignKeyGroupBy K VA KO VB V KR VR T) (s : State K VA KO VB KR T) (x : FkEvent K VA KO VB)
    (reading : Reading) : Except ProcessorError (State K VA KO VB KR T) := do
  let (join, changes) ← t.join.step s.join x
  let aggregate ← t.grouped.feedAll reading changes s.aggregate
  return ⟨join, aggregate⟩

def run (t : ForeignKeyGroupBy K VA KO VB V KR VR T) (s : State K VA KO VB KR T) :
    List (FkEvent K VA KO VB × Reading) → Except ProcessorError (State K VA KO VB KR T)
  | [] => .ok s
  | (x, reading) :: rest => do
    let s ← t.step s x reading
    t.run s rest

/-- The run returns, and the aggregates are the folds of the join of the current rows. -/
def FoldsJoin (t : ForeignKeyGroupBy K VA KO VB V KR VR T) (start : State K VA KO VB KR T)
    (xs : List (FkEvent K VA KO VB × Reading)) : Prop :=
  ∃ s, t.run start xs = .ok s ∧ t.grouped.FoldsRows s.aggregate
    (t.join.joinRows (FkEvent.leftRows (xs.map Prod.fst)) (FkEvent.rightRows (xs.map Prod.fst)))

end ForeignKeyGroupBy

namespace ForeignKeyJoin

/-- The event does not touch a row of the join: a left change is of a key without one, and a right row is
new or has no left row. -/
def Adds (j : ForeignKeyJoin K VA KO VB V) (left : K → Option VA) (right : KO → Option VB) :
    FkEvent K VA KO VB → Prop
  | .left k _ _ _ => j.joinRows left right k = none
  | .right f _ _ => right f = none ∨ ∀ k, ∀ v ∈ left k, j.fkExtractor v ≠ f
  | _ => True

def OnlyAdds [DecidableEq K] [DecidableEq KO] (j : ForeignKeyJoin K VA KO VB V) (left : K → Option VA)
    (right : KO → Option VB) : List (FkEvent K VA KO VB) → Prop
  | [] => True
  | x :: xs => j.Adds left right x ∧ j.OnlyAdds (FkEvent.applyLeft left x) (FkEvent.applyRight right x) xs

instance [DecidableEq KO] [Fintype K] (j : ForeignKeyJoin K VA KO VB V) (left : K → Option VA)
    (right : KO → Option VB) : DecidablePred (j.Adds left right)
  | .left k _ _ _ => inferInstanceAs (Decidable (j.joinRows left right k = none))
  | .right f _ _ => inferInstanceAs (Decidable (right f = none ∨ ∀ k, ∀ v ∈ left k, j.fkExtractor v ≠ f))
  | .register _ => isTrue trivial
  | .respond _ => isTrue trivial

instance decidableOnlyAdds [DecidableEq K] [DecidableEq KO] [Fintype K] (j : ForeignKeyJoin K VA KO VB V) :
    ∀ (left : K → Option VA) (right : KO → Option VB), DecidablePred (j.OnlyAdds left right)
  | _, _, [] => isTrue trivial
  | left, right, x :: xs =>
    have := decidableOnlyAdds j (FkEvent.applyLeft left x) (FkEvent.applyRight right x) xs
    inferInstanceAs (Decidable (_ ∧ _))

end ForeignKeyJoin

end KrabkaStreams
