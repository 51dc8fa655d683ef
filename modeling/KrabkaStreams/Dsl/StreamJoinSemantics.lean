import KrabkaStreams.Dsl.StreamJoin
import KrabkaStreams.Lib.Runs

/-!
# What a stream-stream join is for

The inner join forwards every pair once (`JoinsExactly`); the others also pad each record without a
partner (`PadsUnmatched`), and none that is in a pair (`NeverBoth`). The records of a result are read
off the join that forwards the two sides as they are (`tagged`).
-/

namespace KrabkaStreams

variable {K A B VO : Type} (j : StreamJoin K A B VO)

namespace JoinRecord

def isLeft : JoinRecord K A B → Bool
  | left .. => true
  | right .. => false

def key : JoinRecord K A B → K
  | left k _ _ => k
  | right k _ _ => k

def timestamp : JoinRecord K A B → Int
  | left _ _ t => t
  | right _ _ t => t

def value : JoinRecord K A B → A ⊕ B
  | left _ a _ => .inl a
  | right _ b _ => .inr b

def slot (x : JoinRecord K A B) : Int × Bool × K := (x.timestamp, x.isLeft, x.key)

end JoinRecord

def JoinWindows.Pairs (w : JoinWindows) (left right : Int) : Prop :=
  -w.before ≤ right - left ∧ right - left ≤ w.after

instance (w : JoinWindows) (left right : Int) : Decidable (w.Pairs left right) := instDecidableAnd

def joinTimeOf (xs : List (JoinRecord K A B)) : Int := xs.foldl (fun t x => max t x.timestamp) 0

namespace StreamJoin

def run (xs : List (JoinRecord K A B)) : Except ProcessorError (State K A B × List (List (Record K VO))) :=
  Runs.run j.step j.start xs

def reach (isLeft : Bool) : Int :=
  if isLeft then j.windows.after else j.windows.before

section Pairs

variable (j : StreamJoin K A B VO) (xs : List (JoinRecord K A B))

/-- The result a record makes with an earlier one: the serialized keys are compared in the topic of the
store the earlier one is in. -/
def partner : JoinRecord K A B → JoinRecord K A B → Option (Record K VO)
  | .left k a t, .right k' b t' =>
    if j.keySerde.serialize j.rightTopic k' = j.keySerde.serialize j.rightTopic k ∧ j.windows.Pairs t t' then
      some ⟨some k, j.joiner (some a) (some b), max t t'⟩
    else none
  | .right k b t, .left k' a t' =>
    if j.keySerde.serialize j.leftTopic k' = j.keySerde.serialize j.leftTopic k ∧ j.windows.Pairs t' t then
      some ⟨some k, j.joiner (some a) (some b), max t t'⟩
    else none
  | _, _ => none

/-- The results of all pairs, each one at the later of its two records; `earlier` came before. -/
def pairsFrom : List (JoinRecord K A B) → List (JoinRecord K A B) → List (Record K VO)
  | _, [] => []
  | earlier, x :: xs => earlier.filterMap (j.partner x) ++ pairsFrom (earlier ++ [x]) xs

def pairs : List (Record K VO) := j.pairsFrom [] xs

/-- The run returns, and what it forwarded is the result of every pair, once. -/
def JoinsExactly : Prop :=
  ∃ s outs, j.run xs = .ok (s, outs) ∧ outs.flatten.Perm (j.pairs xs)

/-- No window reaches past the last `i64`, and one that reaches it meets no partner there. -/
def EndsBefore : Prop :=
  ∀ pre x post, xs = pre ++ x :: post → x.timestamp + j.reach x.isLeft ≤ i64Max ∧
    (x.timestamp + j.reach x.isLeft = i64Max → ∀ y ∈ pre, y.timestamp = i64Max → j.partner x y = none)

end Pairs

def tagged : StreamJoin K A B (Option A × Option B) where
  windows := j.windows
  kind := j.kind
  joiner := Prod.mk
  keySerde := j.keySerde
  leftSerde := j.leftSerde
  rightSerde := j.rightSerde
  outerStore := j.outerStore
  leftTopic := j.leftTopic
  rightTopic := j.rightTopic
  outerTopic := j.outerTopic

def result (o : Record K (Option A × Option B)) : Record K VO :=
  ⟨o.key, j.joiner o.value.1 o.value.2, o.timestamp⟩

end StreamJoin

namespace JoinRecord

def padded : JoinRecord K A B → Record K (Option A × Option B)
  | left k a t => ⟨some k, (some a, none), t⟩
  | right k b t => ⟨some k, (none, some b), t⟩

end JoinRecord

/-- A left and a right record of one key in each other's window. -/
def JoinWindows.Matches (w : JoinWindows) : JoinRecord K A B → JoinRecord K A B → Prop
  | .left k _ t, .right k' _ t' => k = k' ∧ w.Pairs t t'
  | .right k _ t, .left k' _ t' => k = k' ∧ w.Pairs t' t
  | _, _ => False

instance [DecidableEq K] (w : JoinWindows) : (x y : JoinRecord K A B) → Decidable (w.Matches x y)
  | .left _ _ _, .right _ _ _ => instDecidableAnd
  | .right _ _ _, .left _ _ _ => instDecidableAnd
  | .left _ _ _, .left _ _ _ => instDecidableFalse
  | .right _ _ _, .right _ _ _ => instDecidableFalse

namespace StreamJoin

section Unmatched

variable (j : StreamJoin K A B VO) (xs : List (JoinRecord K A B)) (x : JoinRecord K A B)

def Emits (isLeft : Bool) : Prop := if isLeft then j.kind.bRequired = false else j.kind.aRequired = false

def Unmatched : Prop :=
  ∀ y ∈ xs, ¬ j.windows.Matches x y

/-- The stream time that has to be passed for the record to be forwarded without a match. -/
def closing : Int := x.timestamp + j.reach x.isLeft + j.windows.grace

/-- The side processes a record when the window and the grace of `x` have passed. -/
def Closes : Prop :=
  ∃ pre y post, xs = pre ++ y :: post ∧ y.isLeft = x.isLeft ∧ j.closing x < joinTimeOf (pre ++ [y])

/-- The run returns, and each record of an emitting side that has no match and has closed was forwarded
without one, as often as it was read. -/
def PadsUnmatched [DecidableEq K] [DecidableEq A] [DecidableEq B] (xs : List (JoinRecord K A B)) : Prop :=
  ∃ s outs, j.tagged.run xs = .ok (s, outs) ∧ j.run xs = .ok (s, outs.map (List.map j.result)) ∧
    ∀ x ∈ xs, j.Emits x.isLeft → j.Unmatched xs x → j.Closes xs x →
      outs.flatten.count x.padded = xs.count x

/-- The run returns, and the records of a joined result were not forwarded without a match. -/
def NeverBoth : Prop :=
  ∃ s outs, j.tagged.run xs = .ok (s, outs) ∧ j.run xs = .ok (s, outs.map (List.map j.result)) ∧
    ∀ k a t b t', JoinRecord.left k a t ∈ xs → JoinRecord.right k b t' ∈ xs → j.windows.Pairs t t' →
      ⟨some k, (some a, some b), max t t'⟩ ∈ outs.flatten →
        (JoinRecord.left k a t).padded ∉ outs.flatten ∧ (JoinRecord.right k b t').padded ∉ outs.flatten

/-- The ends of the windows and of the grace are `i64` numbers. -/
def Headroom : Prop :=
  ∀ x ∈ xs, x.timestamp + j.reach x.isLeft ≤ i64Max ∧ (j.Emits x.isLeft → j.closing x ≤ i64Max)

/-- A record of an emitting side that has no match comes alone: an earlier one with its key and its
timestamp can be in the buffer only until the stream time has passed the window. -/
def ComesAlone : Prop :=
  ∀ pre x post, xs = pre ++ x :: post → j.Emits x.isLeft → j.Unmatched xs x →
    (∃ y ∈ pre, y.slot = x.slot) → x.timestamp + j.reach x.isLeft < joinTimeOf (pre ++ [x])

/-- The grace of a record has not passed when it is read. -/
def InGrace : Prop :=
  ∀ pre x post, xs = pre ++ x :: post → joinTimeOf (pre ++ [x]) ≤ x.timestamp + j.windows.grace

/-- A record of an emitting side that is read when its window has passed, and has no match yet, gets none. -/
def NoLateMatch : Prop :=
  ∀ pre x post, xs = pre ++ x :: post → j.Emits x.isLeft → j.Unmatched pre x →
    x.timestamp + j.reach x.isLeft < joinTimeOf (pre ++ [x]) → j.Unmatched post x

end Unmatched

end StreamJoin

end KrabkaStreams
