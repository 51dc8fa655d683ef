import KrabkaStreams.Logging
import KrabkaStreams.Punctuation
import KrabkaStreams.ThreadRuns

/-!
# The schedules of an activation

Processors that register a fixed list of schedules in `init`. A demotion leaves the schedules in the
graph, so it is the promotion that must find none.
-/

namespace KrabkaStreams

def ScheduleEntry.request {P : Type} (e : ScheduleEntry P) : Nat × ScheduleRequest P :=
  (e.nodeIdx, ⟨e.interval, e.ty, e.punctuator, e.cancel⟩)

/-- `init` of a processor registers its list, and nothing else registers a schedule. -/
structure FixedSchedules (P M S V : Type) [Processor P M S V] (list : P → List (ScheduleRequest P)) : Prop where
  init : ∀ (p : P) (m : M) (c : ProcessorContext S), (Processor.init (V := V) p m c).schedules = list p
  process : ∀ (p : P) (m : M) (c : ProcessorContext S) (r : ErasedRecord V) o,
    Processor.process p m c r = .ok o → o.schedules = []
  punctuate : ∀ (p : P) (m : M) (c : ProcessorContext S) (t : Int),
    (Processor.punctuate (V := V) p m c t).schedules = []

namespace Graph

variable {P M S V : Type} (list : P → List (ScheduleRequest P)) (g : Graph P M S V)

def nodeSchedules (n : ErasedNode P V × Nat) : List (Nat × ScheduleRequest P) :=
  match n.1 with
  | .processorNode p => (list p).map fun q => (n.2, q)
  | .sinkNode _ _ => []

def expected : List (Nat × ScheduleRequest P) :=
  g.nodes.zipIdx.flatMap (nodeSchedules list)

def unset (q : Nat × ScheduleRequest P) : Bool := !g.cancelled.contains q.2.cancel

/-- The schedules are the entries of the lists, once each, those apart that were cancelled. -/
def OneSet : Prop :=
  (g.schedules.map ScheduleEntry.request).filter g.unset = (g.expected list).filter g.unset

variable [Processor P M S V]

def firedRequests (g : Graph P M S V) (ty : PunctuationType) (now : Int) : List (Nat × ScheduleRequest P) :=
  (g.passFires ty now).filterMap fun i => g.dropCancelled.schedules[i]?.map ScheduleEntry.request

/-- One set of schedules, and every pass fires each of them at most once. -/
structure Scheduled (list : P → List (ScheduleRequest P)) (g : Graph P M S V) : Prop where
  oneSet : g.OneSet list
  firesOnce : ∀ ty now, (g.firedRequests ty now).Sublist (g.expected list)

end Graph

namespace StreamThread

variable {E P M S V : Type} [StateStore S V] [Processor P M S V]

/-- Every active task has one set of schedules, also at every point of a `process_once`. -/
def SchedulesOnce (list : P → List (ScheduleRequest P)) (s : ThreadState E P M S V) : Prop :=
  ∀ e ∈ s.own.tasks, e.2.role = .active → ∀ g, e.2.graph.Within g → g.Scheduled list

/-- An assignment makes a task active only when nothing is scheduled in its graph. -/
def PromotesUnscheduled (c : Call P M S V) (s : ThreadState E P M S V) : Prop :=
  match c with
  | .applyAssignment a _ => ∀ e ∈ s.own.tasks, e.2.role ≠ .active → roleOf a e.1 = some .active →
      e.2.graph.schedules = []
  | .pollAll | .commitAll => True

instance (c : Call P M S V) (s : ThreadState E P M S V) : Decidable (PromotesUnscheduled c s) :=
  match c with
  | .applyAssignment a _ => inferInstanceAs (Decidable (∀ e ∈ s.own.tasks, e.2.role ≠ .active →
      roleOf a e.1 = some .active → e.2.graph.schedules = []))
  | .pollAll => .isTrue trivial
  | .commitAll => .isTrue trivial

end StreamThread

end KrabkaStreams
