import KrabkaStreams.Lib.History
import KrabkaStreams.Thread

/-!
# Role discipline

An active task reads, produces and commits (`RoleDisciplined`); another one takes `StandbyStep`s alone.
The thread polls every at-least-once task alike: `StandbysHeld` and `StandbysClean` say that this found
nothing to do.
-/

namespace KrabkaStreams

open Effect StateStore

variable {P M S V : Type}

/-- The tasks an event fetches a source, pipes a record, sends or commits offsets for. -/
def Event.workers : Event → List TaskRef
  | .sourceFetched task .. => [task]
  | .piped task .. => [task]
  | .sent task .. => [task]
  | .offsetsCommitted task .. => [task]
  | .txnOffsetsSent parts _ => (parts.filter fun p => p.2 ≠ []).map Prod.fst
  | _ => []

def RoleDisciplined (_ : List Event) (ev : Event) : Prop := ∀ task ∈ ev.workers, task.role = .active

/-- A poll that reaches a task which is not active finds all its source partitions at a cut. -/
def StandbysHeld (_ : List Event) : Event → Prop
  | .polling task held => task.role = .active ∨ held = true
  | _ => True

/-- A flush that reaches a task which is not active finds its buffers and its caches empty. -/
def StandbysClean (_ : List Event) : Event → Prop
  | .flushing task quiet => task.role = .active ∨ quiet = true
  | _ => True

instance (h : List Event) (ev : Event) : Decidable (RoleDisciplined h ev) :=
  inferInstanceAs (Decidable (∀ task ∈ ev.workers, task.role = .active))

instance (h : List Event) : ∀ ev, Decidable (StandbysHeld h ev)
  | .polling .. => inferInstanceAs (Decidable (_ ∨ _))
  | .sourceFetched .. | .changelogFetched .. | .piped .. | .emitted .. | .sent .. | .flushed _
  | .deliveryFailed _ | .offsetsCommitted .. | .txnBegun _ | .txnOffsetsSent .. | .txnCommitted _
  | .txnAborted _ | .fenced | .failed .. | .recovered | .closing .. | .ticking .. | .flushing .. =>
    inferInstanceAs (Decidable True)

instance (h : List Event) : ∀ ev, Decidable (StandbysClean h ev)
  | .flushing .. => inferInstanceAs (Decidable (_ ∨ _))
  | .sourceFetched .. | .changelogFetched .. | .piped .. | .emitted .. | .sent .. | .flushed _
  | .deliveryFailed _ | .offsetsCommitted .. | .txnBegun _ | .txnOffsetsSent .. | .txnCommitted _
  | .txnAborted _ | .fenced | .failed .. | .recovered | .closing .. | .ticking .. | .polling .. =>
    inferInstanceAs (Decidable True)

def InOrder (offset : Int) (recs : List FetchedRec) : Prop :=
  (recs.Pairwise fun a b => a.offset < b.offset) ∧ ∀ r ∈ recs, offset ≤ r.offset

def OrderedFetch (E : Type) [Broker E] : Prop :=
  ∀ (env : E) topic partition offset level b,
    (Broker.fetch env topic partition offset level).1 = .ok b → InOrder offset b.records

section Standby

variable [StateStore S V]

inductive StandbyStep (E : Type) [Broker E] : StreamTask P M S V → StreamTask P M S V → Prop
  /-- The stores and their saved offsets stay as they are. -/
  | other {t t' : StreamTask P M S V} : t'.graph.stores = t.graph.stores →
    t'.changelogOffsets = t.changelogOffsets → t'.partition = t.partition →
    t'.guarantee = t.guarantee → StandbyStep E t t'
  /-- Buffers without a record to send are taken out. -/
  | drained {t : StreamTask P M S V} : t.buffered = [] → StandbyStep E t t.emptied
  | logging (t : StreamTask P M S V) (on : Bool) : StandbyStep E t (t.setGraph (t.graph.setLogging on))
  | wipe (t : StreamTask P M S V) : StandbyStep E t (t.setGraph t.graph.clearStores)
  | lookup (t : StreamTask P M S V) (topic : Topic) :
    StandbyStep E t (t.withOffset topic (t.savedOffset topic))
  /-- Records of the changelog of one store are applied to it, from its saved offset on and in
  offset order. The offset they reach is saved, unless an error ended the replay. -/
  | replay {t t' : StreamTask P M S V} {name : String} {recs : List FetchedRec} :
    t.Reads E name recs → InOrder (t.savedOffset (t.changelogTopicOf name)) recs →
    t' = t.applied name recs ∨ t' = (t.applied name recs).withOffset (t.changelogTopicOf name)
      (offsetAfter (t.savedOffset (t.changelogTopicOf name)) recs) →
    StandbyStep E t t'

def Created (g : ProcessingGuarantee) (key : TaskKey) (t : StreamTask P M S V) : Prop :=
  ∃ (topology : BuiltTopology P M S V) (app : String) (cache : Nat) (graph : Graph P M S V)
    (globals : StoreRegistry S) (sources : List TopicPartition) (role : TaskRole),
    topology.instantiate app cache = .ok graph ∧
      t = .new key.1 { graph with globals := globals } sources role g

/-- Of the tasks after a call, each one that is not active came there by standby steps alone: from
its creation, or from the task at its key before the call, unless the call demoted it. -/
def StandbysReplay (E : Type) [Broker E] (g : ProcessingGuarantee)
    (before after : OrdMap TaskKey (StreamTask P M S V)) : Prop :=
  ∀ e ∈ after, e.2.role ≠ .active →
    (∃ t, Created g e.1 t ∧ Relation.ReflTransGen (StandbyStep E) t e.2) ∨
      ∃ t, (e.1, t) ∈ before ∧ (t.role = .active ∨ Relation.ReflTransGen (StandbyStep E) t e.2)

end Standby

end KrabkaStreams
