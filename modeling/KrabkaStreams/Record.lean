import Mathlib.Data.List.Basic
import Mathlib.Order.Basic

/-!
# Records, offsets and errors

The data that crosses the boundaries of a task. The `i64` of the source are `Int` here: where arithmetic
can leave the range it clamps if the source saturates, and panics if the source computes plainly.
-/

namespace KrabkaStreams

abbrev Bytes := List UInt8

abbrev Topic := String

def i64Min : Int := -9223372036854775808

def i64Max : Int := 9223372036854775807

def saturatingAdd (a b : Int) : Int := max i64Min (min i64Max (a + b))

def saturatingSub (a b : Int) : Int := max i64Min (min i64Max (a - b))

def IsI64 (x : Int) : Prop := i64Min ≤ x ∧ x ≤ i64Max

instance (x : Int) : Decidable (IsI64 x) := inferInstanceAs (Decidable (_ ∧ _))

structure TopicPartition where
  topic : Topic
  partition : Int
  deriving DecidableEq, Repr

/-- A record as a fetch returns it; the value of a tombstone is `none`. -/
structure FetchedRec where
  offset : Int
  key : Option Bytes
  value : Option Bytes
  timestamp : Int
  deriving DecidableEq, Repr

structure FetchBatch where
  records : List FetchedRec
  deriving DecidableEq, Repr

def FetchBatch.nextOffset (b : FetchBatch) (current : Int) : Int :=
  match b.records.getLast? with
  | none => current
  | some r => r.offset + 1

inductive IsolationLevel
  | readUncommitted
  | readCommitted
  deriving DecidableEq, Repr

inductive ProcessingGuarantee
  | atLeastOnce
  | exactlyOnceV2
  deriving DecidableEq, Repr

structure OutputRecord where
  topic : Topic
  key : Option Bytes
  value : Option Bytes
  timestamp : Int
  deriving DecidableEq, Repr

/-- One entry of a store's changelog buffer; without a timestamp the producer stamps its own. -/
structure ChangelogEntry where
  key : Bytes
  value : Option Bytes
  timestamp : Option Int
  deriving DecidableEq, Repr

structure ChangelogRecord where
  topic : Topic
  entry : ChangelogEntry
  deriving DecidableEq, Repr

structure RecordContext where
  topic : Topic
  partition : Int
  offset : Int
  timestamp : Int
  deriving DecidableEq, Repr

structure ErasedRecord (V : Type) where
  key : Option V
  value : V
  timestamp : Int
  deriving DecidableEq, Repr

inductive ProcessorError
  | downcast (node : String)
  | serde (node message : String)
  | unknownSubtopology (id : String)
  /-- The source panics here: an index out of range or a failed `expect`. -/
  | panicked
  /-- The bound of the model on the dispatches of one drain was too small. -/
  | outOfBudget
  deriving DecidableEq, Repr

inductive ProducerError
  | fencedProducer
  | other (code : Int)
  deriving DecidableEq, Repr

inductive StreamsClientError
  | transport (code : Int)
  | server (code : Int)
  | runtime (message : String)
  | processor (error : ProcessorError)
  | producer (error : ProducerError)
  | barrierFormat (part message : String)
  | snapshot (message : String)
  /-- The bound of the model on the batches of one restore was too small. -/
  | outOfBudget
  deriving DecidableEq, Repr

def checkedI64 (x : Int) : Except ProcessorError Int := if IsI64 x then .ok x else .error .panicked

/-- A newer epoch fenced the producer: fatal for the thread, never retried. -/
def StreamsClientError.isProducerFenced : StreamsClientError → Bool
  | .producer .fencedProducer => true
  | _ => false

end KrabkaStreams
