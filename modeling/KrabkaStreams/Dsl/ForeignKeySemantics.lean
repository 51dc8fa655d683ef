import KrabkaStreams.Dsl.ForeignKeyProtocol

/-!
# What a foreign-key join is for

When nothing is in flight, the output should be the join of the current rows (`Converges`). An inner
join needs for it that no older message is under way where it sends one that is not answered
(`SafeRun`).
-/

namespace KrabkaStreams

variable {K VA KO VB VR : Type} [DecidableEq K]

def applyChanges (t : K → Option VR) (outs : List (Record K (Change VR))) : K → Option VR :=
  outs.foldl (fun t r => match r.key with
    | some k => Function.update t k r.value.new
    | none => t) t

def tableOf (outs : List (Record K (Change VR))) : K → Option VR := applyChanges (fun _ => none) outs

namespace FkEvent

/-- The event does not delete a left row that exists. -/
def KeepsLeftRow (rows : K → Option VA) : FkEvent K VA KO VB → Prop
  | .left k none _ _ => rows k = none
  | _ => True

def KeepsLeftRows (rows : K → Option VA) : List (FkEvent K VA KO VB) → Prop
  | [] => True
  | x :: xs => KeepsLeftRow rows x ∧ KeepsLeftRows (applyLeft rows x) xs

end FkEvent

namespace ForeignKeyJoin

def protocol (j : ForeignKeyJoin K VA KO VB VR) : FkProtocol VA KO VB VR := ⟨j.fkExtractor, j.joiner, j.isLeft⟩

def joinRows (j : ForeignKeyJoin K VA KO VB VR) (left : K → Option VA) (right : KO → Option VB) (k : K) :
    Option VR :=
  match left k with
  | none => none
  | some a => match right (j.fkExtractor a) with
    | some b => some (j.joiner a (some b))
    | none => if j.isLeft then some (j.joiner a none) else none

/-- No message in flight can still change the output row of `k`. -/
def Idle (j : ForeignKeyJoin K VA KO VB VR) (s : State K VA KO VB) (k : K) : Prop :=
  s.responses k = [] ∧ ∀ f, ∀ r ∈ s.registrations f, r.value.primaryKey = j.kSerde.serialize "" k →
    r.value.instruction ≠ .propagateNullIfNoFkValAvailable ∧ r.value.instruction ≠ .deleteKeyAndPropagate

/-- When an event of an inner join may happen. A left row is not added, and does not change its value under
the same foreign key, without a right row while an older message may still put something into the output.
A right row does not vanish while a registration is on the way to it that is answered only with a value. -/
def Safe (j : ForeignKeyJoin K VA KO VB VR) (s : State K VA KO VB) (left : K → Option VA)
    (right : KO → Option VB) : FkEvent K VA KO VB → Prop
  | .left k (some n) _ _ => right (j.fkExtractor n) = none →
    (∀ o ∈ left k, j.fkExtractor o = j.fkExtractor n) → j.Idle s k
  | .right f none _ => right f ≠ none → ∀ r ∈ s.registrations f,
    r.value.instruction ≠ .propagateOnlyIfFkValAvailable
  | _ => True

variable [DecidableEq KO]

def SafeRun (j : ForeignKeyJoin K VA KO VB VR) (s : State K VA KO VB) (left : K → Option VA)
    (right : KO → Option VB) : List (FkEvent K VA KO VB) → Prop
  | [] => True
  | x :: xs => j.Safe s left right x ∧ match j.step s x with
    | .ok (s, _) => j.SafeRun s (FkEvent.applyLeft left x) (FkEvent.applyRight right x) xs
    | .error _ => True

/-- The run returns, and if nothing is left in flight, the output is the join of the current rows. -/
def Converges (j : ForeignKeyJoin K VA KO VB VR) (start : State K VA KO VB) (xs : List (FkEvent K VA KO VB)) :
    Prop :=
  ∃ s outs, j.run start xs = .ok (s, outs) ∧
    (s.Drained → tableOf outs = j.joinRows (FkEvent.leftRows xs) (FkEvent.rightRows xs))

/-- Every change happens when the messages of the changes before it are delivered, and in the end nothing is
in flight. -/
def Propagated (j : ForeignKeyJoin K VA KO VB VR) (s : State K VA KO VB) : List (FkEvent K VA KO VB) → Prop
  | [] => s.Drained
  | x :: xs => (x.IsChange → s.Drained) ∧ match j.step s x with
    | .ok (s, _) => j.Propagated s xs
    | .error _ => True

section Decidable

instance : DecidablePred (FkEvent.IsChange : FkEvent K VA KO VB → Prop)
  | .left .. => isTrue trivial
  | .right .. => isTrue trivial
  | .register _ => isFalse id
  | .respond _ => isFalse id

instance [Fintype K] [Fintype KO] (s : State K VA KO VB) : Decidable s.Drained :=
  inferInstanceAs (Decidable (_ ∧ _))

instance [Fintype KO] (j : ForeignKeyJoin K VA KO VB VR) (s : State K VA KO VB) (k : K) : Decidable (j.Idle s k) :=
  inferInstanceAs (Decidable (_ ∧ _))

instance [Fintype KO] (j : ForeignKeyJoin K VA KO VB VR) (s : State K VA KO VB) (left : K → Option VA)
    (right : KO → Option VB) : DecidablePred (j.Safe s left right)
  | .left k (some n) _ _ => inferInstanceAs (Decidable (right (j.fkExtractor n) = none →
      (∀ o ∈ left k, j.fkExtractor o = j.fkExtractor n) → j.Idle s k))
  | .left _ none _ _ => isTrue trivial
  | .right f none _ => inferInstanceAs (Decidable (right f ≠ none → ∀ r ∈ s.registrations f, _))
  | .right _ (some _) _ => isTrue trivial
  | .register _ => isTrue trivial
  | .respond _ => isTrue trivial

instance decidableSafeRun [Fintype KO] (j : ForeignKeyJoin K VA KO VB VR) :
    ∀ (s : State K VA KO VB) (left : K → Option VA) (right : KO → Option VB), DecidablePred (j.SafeRun s left right)
  | _, _, _, [] => isTrue trivial
  | s, left, right, x :: xs =>
    have : Decidable (match j.step s x with
      | .ok (s, _) => j.SafeRun s (FkEvent.applyLeft left x) (FkEvent.applyRight right x) xs
      | .error _ => True) := match j.step s x with
      | .ok (s, _) => decidableSafeRun j s _ _ xs
      | .error _ => isTrue trivial
    inferInstanceAs (Decidable (_ ∧ _))

instance decidablePropagated [Fintype K] [Fintype KO] (j : ForeignKeyJoin K VA KO VB VR) :
    ∀ s : State K VA KO VB, DecidablePred (j.Propagated s)
  | s, [] => inferInstanceAs (Decidable s.Drained)
  | s, x :: xs =>
    have : Decidable (match j.step s x with
      | .ok (s, _) => j.Propagated s xs
      | .error _ => True) := match j.step s x with
      | .ok (s, _) => decidablePropagated j s xs
      | .error _ => isTrue trivial
    inferInstanceAs (Decidable (_ ∧ _))

end Decidable

end ForeignKeyJoin

end KrabkaStreams
