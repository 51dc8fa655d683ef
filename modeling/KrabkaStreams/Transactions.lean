import KrabkaStreams.Lib.History
import KrabkaStreams.Thread
import Mathlib.Data.Multiset.Basic

/-!
# Exactly-once, read off the history

Every send happens inside a transaction (`SentInTransaction`), a transaction that commits holds what was
produced since the last one (`CommitsWithOutputs`), and an interval in which a step failed is rolled
back (`SpoiledRolledBack`).
-/

namespace KrabkaStreams

open Effect

/-- A transaction is open after a begin that returned and before the next call that ends one,
whatever the outcome of that call. -/
def txnStep (b : Bool) : Event → Bool
  | .txnBegun true => true
  | .txnCommitted _ => false
  | .txnAborted _ => false
  | _ => b

def inTransaction (h : List Event) : Bool := h.foldl txnStep false

def SentInTransaction (h : List Event) : Event → Prop
  | .sent _ _ _ => inTransaction h = true
  | _ => True

/-- Outside a transaction, a wall-clock pass finds empty buffers and no due punctuator, and a task
that closes has empty buffers and clean caches. -/
def QuietOutside (_ : List Event) : Event → Prop
  | .ticking _ inTxn quiet => inTxn = true ∨ quiet = true
  | .closing _ inTxn quiet _ => inTxn = true ∨ quiet = true
  | _ => True

instance (h : List Event) (ev : Event) : Decidable (SentInTransaction h ev) := by
  unfold SentInTransaction
  split <;> infer_instance

instance (h : List Event) (ev : Event) : Decidable (QuietOutside h ev) := by
  unfold QuietOutside
  split <;> infer_instance

/-- What the source records of an interval made the graphs emit, and what the open transaction
accepted. -/
structure Interval where
  owed : List ProducerRecord
  sent : List ProducerRecord
  deriving DecidableEq

namespace Interval

/-- An interval ends with a commit, or with the rollback of every task. -/
def step (i : Interval) : Event → Interval
  | .emitted _ .records records => { i with owed := i.owed ++ records }
  | .emitted _ .flush records => { i with owed := i.owed ++ records }
  | .sent _ r (some _) => { i with sent := i.sent ++ [r] }
  | .txnBegun true => { i with sent := [] }
  | .txnCommitted true => { i with owed := [] }
  | .recovered => { i with owed := [] }
  | _ => i

def of (h : List Event) : Interval := h.foldl step ⟨[], []⟩

end Interval

/-- No offset is committed outside a transaction, and one that commits accepted every record owed,
as often as it was emitted. -/
def CommitsWithOutputs (h : List Event) : Event → Prop
  | .offsetsCommitted _ _ _ => False
  | .txnCommitted true =>
    (↑(Interval.of h).owed : Multiset ProducerRecord) ≤ ↑(Interval.of h).sent
  | _ => True

/-- A task that closes has no offset that waits for a commit. -/
def ClosesSettled (_ : List Event) : Event → Prop
  | .closing _ _ _ settled => settled = true
  | _ => True

def RollsBack (_ : List Event) : Event → Prop
  | .failed _ .rollback => False
  | _ => True

/-- A fenced producer begins and commits no transaction any more. -/
def FencedFinal (h : List Event) : Event → Prop
  | .txnBegun true => .fenced ∉ h
  | .txnCommitted true => .fenced ∉ h
  | _ => True

instance (h : List Event) (ev : Event) : Decidable (CommitsWithOutputs h ev) := by
  unfold CommitsWithOutputs
  split <;> infer_instance

instance (h : List Event) (ev : Event) : Decidable (ClosesSettled h ev) := by
  unfold ClosesSettled
  split <;> infer_instance

instance (h : List Event) (ev : Event) : Decidable (RollsBack h ev) := by
  unfold RollsBack
  split <;> infer_instance

instance (h : List Event) (ev : Event) : Decidable (FencedFinal h ev) := by
  unfold FencedFinal
  split <;> infer_instance

inductive Health
  | sound
  | spoiled
  /-- Its transaction was aborted, and the tasks are still to be rolled back. -/
  | aborted
  deriving DecidableEq, Repr

/-- The transaction the producer has not ended yet, and how the interval fares. -/
structure Cycle where
  opened : Bool
  health : Health
  deriving DecidableEq

def TaskStep.spoils : TaskStep → Bool
  | .processOnce => true
  | .punctuateStreamTime => true
  | .punctuateWallClock => true
  | .flushCaches _ => true
  | _ => false

namespace Cycle

def spoil (c : Cycle) : Cycle := if c.opened then { c with health := .spoiled } else c

def step (c : Cycle) : Event → Cycle
  | .txnBegun true => { c with opened := true }
  | .txnCommitted true => { c with opened := false }
  | .txnAborted true => ⟨false, if c.health = .spoiled then .aborted else c.health⟩
  | .failed _ s => if s.spoils then c.spoil else c
  | .sent _ _ none => c.spoil
  | .recovered => if c.health = .aborted then { c with health := .sound } else c
  | _ => c

def of (h : List Event) : Cycle := h.foldl step ⟨false, .sound⟩

end Cycle

/-- A spoiled transaction is not committed, and no other one begins before the abort and the
rollback of every task. -/
def SpoiledRolledBack (h : List Event) : Event → Prop
  | .txnCommitted true => (Cycle.of h).health = .sound
  | .txnBegun true => (Cycle.of h).health = .sound
  | _ => True

/-- In an open transaction, no wall-clock pass fails, and no cache flush of a task that closes. -/
def PassesSucceed (h : List Event) : Event → Prop
  | .failed _ .punctuateWallClock => (Cycle.of h).opened = false
  | .failed _ (.flushCaches .close) => (Cycle.of h).opened = false
  | _ => True

/-- A producer with an open transaction begins no other one. -/
def BeginsWhenClosed (h : List Event) : Event → Prop
  | .txnBegun true => (Cycle.of h).opened = false
  | _ => True

instance (h : List Event) (ev : Event) : Decidable (SpoiledRolledBack h ev) := by
  unfold SpoiledRolledBack
  split <;> infer_instance

instance (h : List Event) (ev : Event) : Decidable (PassesSucceed h ev) := by
  unfold PassesSucceed
  split <;> infer_instance

instance (h : List Event) (ev : Event) : Decidable (BeginsWhenClosed h ev) := by
  unfold BeginsWhenClosed
  split <;> infer_instance

end KrabkaStreams
