import KrabkaStreams.Lib.History
import KrabkaStreams.Task
import Mathlib.Data.Multiset.Basic

/-!
# At-least-once delivery

The ledger follows every record from the graph that emitted it to the flush that awaited its delivery.
An offset may be committed when nothing that was emitted is still on the way.
-/

namespace KrabkaStreams

open Effect

structure Ledger where
  emitted : List ProducerRecord
  inFlight : List (Nat × ProducerRecord)
  delivered : List ProducerRecord
  deriving DecidableEq

namespace Ledger

def step (l : Ledger) : Event → Ledger
  | .emitted _ _ records => { l with emitted := l.emitted ++ records }
  | .sent _ r (some handle) => { l with inFlight := l.inFlight ++ [(handle, r)] }
  | .flushed handles =>
    { l with
      inFlight := l.inFlight.filter fun e => e.1 ∉ handles
      delivered := l.delivered ++ (l.inFlight.filter fun e => e.1 ∈ handles).map Prod.snd }
  | _ => l

def of (h : List Event) : Ledger := h.foldl step ⟨[], [], []⟩

end Ledger

/-- Every record emitted before a successful commit was accepted by a send and awaited by a later
flush, as often as it was emitted. -/
def CommitsDelivered (pre : List Event) : Event → Prop
  | .offsetsCommitted _ _ true =>
    (↑(Ledger.of pre).emitted : Multiset ProducerRecord) ≤ ↑(Ledger.of pre).delivered
  | _ => True

/-- No send is refused, and no accepted record fails to be delivered. -/
def NothingRefused (_ : List Event) : Event → Prop
  | .sent _ _ none => False
  | .deliveryFailed _ => False
  | _ => True

instance (pre : List Event) : ∀ ev, Decidable (CommitsDelivered pre ev)
  | .offsetsCommitted _ _ true =>
    inferInstanceAs (Decidable ((_ : Multiset ProducerRecord) ≤ _))
  | .offsetsCommitted _ _ false | .sourceFetched .. | .changelogFetched .. | .piped .. | .emitted ..
  | .sent .. | .flushed .. | .deliveryFailed .. | .txnBegun .. | .txnOffsetsSent .. | .txnCommitted ..
  | .txnAborted .. | .fenced | .failed .. | .recovered | .closing .. | .ticking .. | .polling ..
  | .flushing .. =>
    isTrue trivial

inductive TaskCall
  | processOnce
  | commit
  | closeProcessors
  deriving DecidableEq, Repr

namespace StreamTask

variable {E P M S V : Type} [Broker E] [StateStore S V] [Processor P M S V]

def perform : TaskCall → TaskM E P M S V Unit
  | .processOnce => processOnce false
  | .commit => commit
  | .closeProcessors => closeProcessors

def run (calls : List TaskCall) (s : TaskState E P M S V) : TaskState E P M S V × List Event :=
  Eff.runAll perform calls s

end StreamTask

end KrabkaStreams
