import KrabkaStreams.Storage

/-!
# Stores without a changelog

A store with logging disabled is built with the empty changelog topic; the suppress and the grace
buffers also with the switch off. A restore turns every switch off and on again. `Untouched`: no event
of a run reads or writes the empty topic.
-/

namespace KrabkaStreams

open Effect StateStore

/-- Whether an event reads or writes the changelog of a store without one. A changelog record is pinned to the
partition of its task, a record of a sink is not. -/
def OnBehalf : Event → Prop
  | .changelogFetched _ topic _ _ => topic = ""
  | .sent _ record _ => record.topic = "" ∧ record.partition.isSome
  | _ => False

instance : DecidablePred OnBehalf
  | .changelogFetched _ topic _ _ => inferInstanceAs (Decidable (topic = ""))
  | .sent _ record _ => inferInstanceAs (Decidable (record.topic = "" ∧ record.partition.isSome = true))
  | .sourceFetched .. | .piped .. | .emitted .. | .flushed .. | .deliveryFailed .. | .offsetsCommitted ..
  | .txnBegun .. | .txnOffsetsSent .. | .txnCommitted .. | .txnAborted .. | .fenced | .failed .. | .recovered
  | .closing .. | .ticking .. | .polling .. | .flushing .. => inferInstanceAs (Decidable False)

def Untouched (h : List Event) : Prop := ∀ ev ∈ h, ¬ OnBehalf ev

instance (h : List Event) : Decidable (Untouched h) := inferInstanceAs (Decidable (∀ ev ∈ h, ¬ OnBehalf ev))

section

variable {P M S V : Type} [StateStore S V]

def Off (s : S) : Prop := setLogging s false = s

/-- What a call can do to a store: a store whose switch is off logs nothing and keeps the switch. -/
def QuietStep (s s' : S) : Prop :=
  changelogTopic s' = changelogTopic s ∧ (Off s → Off s' ∧ changelog s' = changelog s)

class QuietStore (S : Type) {V : outParam Type} [StateStore S V] : Prop where
  flush : ∀ s : S, QuietStep s (flushCacheInto s).2
  take_off : ∀ s : S, Off s → Off (takeChangelogTs s).2
  clear_off : ∀ s : S, Off s → Off (clear s)
  restored : ∀ (s s' : S) data, restoreSnapshot s data = .ok s' →
    changelogTopic s' = changelogTopic s ∧ changelog s' = [] ∧ isDirty s' = false ∧ (Off s → Off s')

/-- The processors reach the stores through their typed surface, which logs under the switch alone. -/
class QuietProcessor (P M S V : Type) [StateStore S V] [Processor P M S V] : Prop where
  init_stores : ∀ (p : P) (m : M) (c : ProcessorContext S),
    StoreRegistry.Rel QuietStep c.stores (Processor.init (V := V) p m c).stores
  process_stores : ∀ (p : P) (m : M) (c : ProcessorContext S) (r : ErasedRecord V) o,
    Processor.process p m c r = .ok o → StoreRegistry.Rel QuietStep c.stores o.stores
  punctuate_stores : ∀ (p : P) (m : M) (c : ProcessorContext S) (t : Int),
    StoreRegistry.Rel QuietStep c.stores (Processor.punctuate (V := V) p m c t).stores

structure Spared (P M S V : Type) [Processor P M S V] (name : String) : Prop where
  init : ∀ (p : P) (m : M) (c : ProcessorContext S) s, (name, s) ∈ (Processor.init (V := V) p m c).stores →
    (name, s) ∈ c.stores
  process : ∀ (p : P) (m : M) (c : ProcessorContext S) (r : ErasedRecord V) o s,
    Processor.process p m c r = .ok o → (name, s) ∈ o.stores → (name, s) ∈ c.stores
  punctuate : ∀ (p : P) (m : M) (c : ProcessorContext S) (t : Int) s,
    (name, s) ∈ (Processor.punctuate (V := V) p m c t).stores → (name, s) ∈ c.stores

/-- Every store without a changelog has its switch off, or no processor writes it. -/
def SwitchedOff [Processor P M S V] (t : StreamTask P M S V) : Prop :=
  ∀ e ∈ t.graph.stores, changelogTopic e.2 = "" → Off e.2 ∨ Spared P M S V e.1

end

def TaskOp.restores : TaskOp → Bool
  | .restore | .restoreStep | .rollback => true
  | _ => false

section Switch

variable {E P M S V : Type} [StateStore S V]

def On (s : S) : Prop := setLogging s true = s

class LoggingStore (S : Type) {V : outParam Type} [StateStore S V] : Prop where
  take_on : ∀ s : S, On s → On (takeChangelogTs s).2
  flush_on : ∀ s : S, On s → On (flushCacheInto s).2

class LoggingProcessor (P M S V : Type) [StateStore S V] [Processor P M S V] : Prop where
  init_stores : ∀ (p : P) (m : M) (c : ProcessorContext S),
    StoreRegistry.Rel (fun s s' => On s → On s') c.stores (Processor.init (V := V) p m c).stores
  process_stores : ∀ (p : P) (m : M) (c : ProcessorContext S) (r : ErasedRecord V) o,
    Processor.process p m c r = .ok o → StoreRegistry.Rel (fun s s' => On s → On s') c.stores o.stores
  punctuate_stores : ∀ (p : P) (m : M) (c : ProcessorContext S) (t : Int),
    StoreRegistry.Rel (fun s s' => On s → On s') c.stores (Processor.punctuate (V := V) p m c t).stores

inductive WorkCall
  | restore
  | restoreStep
  | rollback
  | processOnce (gated : Bool)
  deriving DecidableEq, Repr

namespace WorkCall

variable [Broker E] [Processor P M S V]

def perform : WorkCall → TaskM E P M S V Unit
  | .restore => StreamTask.restore
  | .restoreStep => StreamTask.restoreStep
  | .rollback => StreamTask.rollback
  | .processOnce gated => StreamTask.processOnce gated

def restores : WorkCall → Bool
  | .restore | .restoreStep | .rollback => true
  | .processOnce _ => false

def after (calls : List WorkCall) (s : TaskState E P M S V) : TaskState E P M S V := (Eff.runAll perform calls s).1

/-- The last call of `calls` that restores, if there is one, returned. -/
def LastRestoreReturned (calls : List WorkCall) (s : TaskState E P M S V) : Prop :=
  ∀ pre c post, calls = pre ++ c :: post → c.restores = true → (∀ c' ∈ post, c'.restores = false) →
    c.perform.result (after pre s) = .ok ()

end WorkCall

variable [Processor P M S V]

/-- The graphs a `process_once` takes `g` through. -/
inductive Graph.Within (g : Graph P M S V) : Graph P M S V → Prop
  | here : Within g g
  | pipe {g' : Graph P M S V} (topic : Topic) (partition offset : Int) (key : Option Bytes) (value : Bytes)
    (timestamp : Int) : Within g g' → Within g (g'.pipe topic partition offset key value timestamp).2
  | takeOutput {g' : Graph P M S V} : Within g g' → Within g g'.takeOutput.2
  | drainChangelogs {g' : Graph P M S V} (reuse : List Topic) : Within g g' → Within g (g'.drainChangelogs reuse).2
  | punctuateStreamTime {g' : Graph P M S V} (streamTime : Int) : Within g g' →
    Within g (g'.punctuateStreamTime streamTime).2

def StreamTask.LogsAll (t : StreamTask P M S V) (r : StoreRegistry S) : Prop :=
  ∀ name s₀ s, (name, s₀) ∈ t.graph.stores → On s₀ → (name, s) ∈ r → On s

/-- Whenever a `process_once` of the run pipes a record, every store that was built with logging on has it on. -/
def LogsWhenPiping [Broker E] (calls : List WorkCall) (s : TaskState E P M S V) : Prop :=
  ∀ pre gated post, calls = pre ++ .processOnce gated :: post →
    (∃ task topic partition offset, Event.piped task topic partition offset
      ∈ (StreamTask.processOnce gated).events (WorkCall.after pre s)) →
    ∀ g, (WorkCall.after pre s).own.graph.Within g → s.own.LogsAll g.stores

end Switch

end KrabkaStreams
