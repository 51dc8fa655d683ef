import KrabkaStreams.Task

/-!
# Recovery from the changelogs

A changelog partition is a list of committed records in offset order. `replayAll` is what the restore
loop replays, store by store, from the saved offsets; `Replay` is what the restoring methods do to a
task, step by step.
-/

namespace KrabkaStreams

open Effect StateStore

variable {E P M S V : Type}

/-- The committed records of one partition of every topic, in offset order. -/
structure CommittedLogs where
  records : Topic → List FetchedRec
  sorted : ∀ topic, (records topic).Pairwise fun a b => a.offset < b.offset
  nonneg : ∀ topic, ∀ r ∈ records topic, 0 ≤ r.offset

def recordsFrom (log : List FetchedRec) (offset : Int) : List FetchedRec :=
  log.filter fun r => offset ≤ r.offset

def offsetAfter (offset : Int) (recs : List FetchedRec) : Int :=
  recs.foldl (fun o r => max o (r.offset + 1)) offset

/-- A committed read of a partition returns records of the log from the offset on, and none only at
the end; it may also fail. -/
def Serves (E : Type) [Broker E] (partition : Int) (logs : CommittedLogs) : Prop :=
  ∀ (e : E) topic offset b, (Broker.fetch e topic partition offset .readCommitted).1 = .ok b →
    b.records <+: recordsFrom (logs.records topic) offset ∧
      (b.records = [] → recordsFrom (logs.records topic) offset = [])

def ServesAt (E : Type) [Broker E] (level : IsolationLevel) (partition : Int) (logs : CommittedLogs) :
    Prop :=
  ∀ (e : E) topic offset b, (Broker.fetch e topic partition offset level).1 = .ok b →
    b.records <+: recordsFrom (logs.records topic) offset ∧
      (b.records = [] → recordsFrom (logs.records topic) offset = [])

inductive ReadFrom (E : Type) [Broker E] (topic : Topic) (partition : Int) (level : IsolationLevel) :
    Int → List FetchedRec → Prop
  | nil (offset : Int) : ReadFrom E topic partition level offset []
  | batch (env : E) {offset : Int} {b : FetchBatch} {recs : List FetchedRec} :
    (Broker.fetch env topic partition offset level).1 = .ok b →
    ReadFrom E topic partition level (offsetAfter offset b.records) recs →
    ReadFrom E topic partition level offset (b.records ++ recs)

namespace StreamTask

variable [StateStore S V]

def applied (name : String) (recs : List FetchedRec) (t : StreamTask P M S V) : StreamTask P M S V :=
  t.setGraph { t.graph with stores := OrdMap.modify t.graph.stores name fun s => applyAll s recs }

def withOffset (topic : Topic) (offset : Int) (t : StreamTask P M S V) : StreamTask P M S V :=
  { t with changelogOffsets := t.changelogOffsets.insert topic offset }

def Reads (E : Type) [Broker E] (t : StreamTask P M S V) (name : String) (recs : List FetchedRec) :
    Prop :=
  ReadFrom E (t.changelogTopicOf name) t.partition t.isolation
    (t.savedOffset (t.changelogTopicOf name)) recs

inductive Replay (E : Type) [Broker E] : StreamTask P M S V → StreamTask P M S V → Prop
  | positions (t : StreamTask P M S V) (positions : OrdMap (Topic × Int) Int) :
    Replay E t { t with positions := positions }
  | dropPending (t : StreamTask P M S V) : Replay E t { t with pending := [] }
  | logging (t : StreamTask P M S V) (on : Bool) : Replay E t (t.setGraph (t.graph.setLogging on))
  | wipe (t : StreamTask P M S V) : Replay E t (t.setGraph t.graph.clearStores)
  /-- The saved offset of a changelog is read, and `0` is saved where there was none. -/
  | lookup (t : StreamTask P M S V) (topic : Topic) : Replay E t (t.withOffset topic (t.savedOffset topic))
  | replayed (t : StreamTask P M S V) {name : String} {recs : List FetchedRec} : t.Reads E name recs →
    Replay E t ((t.applied name recs).withOffset (t.changelogTopicOf name)
      (offsetAfter (t.savedOffset (t.changelogTopicOf name)) recs))
  /-- A replay that an error ended: the offset it reached is not saved. -/
  | interrupted (t : StreamTask P M S V) {name : String} {recs : List FetchedRec} :
    t.Reads E name recs → Replay E t (t.applied name recs)

end StreamTask

section Rebuild

variable [StateStore S V]

def wiped (s : S) : S := setLogging (clear s) false

def rebuilt (s : S) (log : List FetchedRec) : S := setLogging (applyAll (wiped s) log) true

def replayAll (logs : CommittedLogs) :
    StoreRegistry S → OrdMap Topic Int → StoreRegistry S × OrdMap Topic Int
  | [], offsets => ([], offsets)
  | (name, s) :: r, offsets =>
    let topic := changelogTopic s
    let saved := (offsets.get? topic).getD 0
    let recs := recordsFrom (logs.records topic) saved
    let rest := replayAll logs r (offsets.insert topic (offsetAfter saved recs))
    ((name, applyAll s recs) :: rest.1, rest.2)

/-- A rollback that returns leaves every store as the fold of its whole changelog partition,
whatever the environment answers elsewhere. -/
def RollbackRebuilds (t : StreamTask P M S V) : Prop :=
  ∀ (E : Type) [Broker E] (w : World E) (logs : CommittedLogs), Serves E t.partition logs →
    StreamTask.rollback.result ⟨t, w⟩ = .ok () →
      (StreamTask.rollback.final ⟨t, w⟩).own.graph.stores
        = t.graph.stores.map fun e => (e.1, rebuilt e.2 (logs.records (changelogTopic e.2)))

/-- No store of the task has a saved changelog offset past the start of its log, and no two of them
share a changelog topic. -/
def StartsAtLogStart (t : StreamTask P M S V) : Prop :=
  (∀ e ∈ t.graph.stores, t.savedOffset (changelogTopic e.2) ≤ 0) ∧
    (t.graph.stores.map fun e => changelogTopic e.2).Nodup

inductive RestoreCall
  | step
  | full
  deriving DecidableEq, Repr

def RestoreCall.perform [Broker E] : RestoreCall → TaskM E P M S V Unit
  | .step => StreamTask.restoreStep
  | .full => StreamTask.restore

def restoreAfter [Broker E] (calls : List RestoreCall) : TaskM E P M S V Unit := do
  calls.forM RestoreCall.perform
  StreamTask.restore

structure Unrestored (t : StreamTask P M S V) : Prop where
  offsets : t.changelogOffsets = []
  empty : ∀ e ∈ t.graph.stores, clear e.2 = e.2

/-- A restore that returns leaves every store as the fold of its whole changelog partition, whatever
restore calls came before it and whatever the environment answers elsewhere. -/
def RestoreCompletes (t : StreamTask P M S V) : Prop :=
  ∀ (E : Type) [Broker E] (w : World E) (logs : CommittedLogs) (calls : List RestoreCall),
    ServesAt E t.isolation t.partition logs →
    (restoreAfter calls).result ⟨t, w⟩ = .ok () →
      ((restoreAfter calls).final ⟨t, w⟩).own.graph.stores
        = t.graph.stores.map fun e => (e.1, rebuilt e.2 (logs.records (changelogTopic e.2)))

def OneTopicPerStore (t : StreamTask P M S V) : Prop :=
  (t.graph.stores.map fun e => changelogTopic e.2).Nodup

end Rebuild

end KrabkaStreams
