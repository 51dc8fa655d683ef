import KrabkaStreams.Rewind
import KrabkaStreams.Stores.KeyValue
import KrabkaStreams.Thread

/-!
# Where the stores of a thread keep their bytes

The in-memory backend is a new map at each call, the file backend the file `state_dir/app_id/store.db`.
`StoredThread` is a thread whose tasks reach their bytes through such handles; `Separate` is that no
task changes a store of another one.
-/

namespace KrabkaStreams

open Effect StateStore

inductive StoreBackend
  | inMemory
  | turso (stateDir : String)
  deriving DecidableEq, Repr

inductive Place
  | memory (task : TaskKey) (store : String)
  | file (stateDir appId store : String)
  deriving DecidableEq, Repr

/-- `open`, for the store `store` of the task `task`. The path of a file is made from the application id and the
name of the store. -/
def StoreBackend.place (backend : StoreBackend) (appId : String) (task : TaskKey) (store : String) : Place :=
  match backend with
  | .inMemory => .memory task store
  | .turso stateDir => .file stateDir appId store

class BackedStore (S : Type) where
  bytes : S → Option (SortedMap Bytes Bytes)
  withBytes : S → SortedMap Bytes Bytes → S

open BackedStore

/-- The bytes can be replaced, and a snapshot can replace them by other ones. -/
class LawfulBackedStore (S : Type) {V : outParam Type} [StateStore S V] [BackedStore S] : Prop where
  bytes_withBytes : ∀ (s : S) m, bytes (withBytes s m) = (bytes s).map fun _ => m
  withBytes_of_none : ∀ (s : S) m, bytes s = none → withBytes s m = s
  rewritable : ∀ (s : S) m, bytes s = some m →
    ∃ data s' m', restoreSnapshot s data = .ok s' ∧ bytes s' = some m' ∧ m' ≠ m

instance {A : Type} : BackedStore (KeyValueBytesStore A) where
  bytes s := match s.backing with
    | .plain m => some m
    | .cached c => some c.inner
  withBytes s m := match s.backing with
    | .plain _ => { s with backing := .plain m }
    | .cached c => { s with backing := .cached { c with inner := m } }

/-- A thread, the backend of its stores, and what the places hold. -/
structure StoredThread (P M S V : Type) where
  thread : StreamThread P M S V
  backend : StoreBackend
  cells : Place → SortedMap Bytes Bytes

inductive TaskOp
  | init
  | processOnce (gated : Bool)
  | punctuateStreamTime
  | punctuateWallClock (now : Int)
  | flushCaches (kind : EmitKind)
  | commit
  | seekToStart
  | restore
  | restoreStep
  | rollback
  | snapshotAtBarrier
  | restoreToCut (cut : BarrierCut) (snapshot : TaskSnapshot)
  | closeProcessors

def TaskOp.perform {E P M S V : Type} [Broker E] [StateStore S V] [Processor P M S V] :
    TaskOp → TaskM E P M S V Unit
  | .init => StreamTask.init
  | .processOnce gated => StreamTask.processOnce gated
  | .punctuateStreamTime => StreamTask.punctuateStreamTime
  | .punctuateWallClock now => StreamTask.punctuateWallClock now
  | .flushCaches kind => StreamTask.flushCaches kind
  | .commit => StreamTask.commit
  | .seekToStart => StreamTask.seekToStart
  | .restore => StreamTask.restore
  | .restoreStep => StreamTask.restoreStep
  | .rollback => StreamTask.rollback
  | .snapshotAtBarrier => do
    let _ ← StreamTask.snapshotAtBarrier
    pure ()
  | .restoreToCut cut snapshot => StreamTask.restoreToCut cut snapshot
  | .closeProcessors => StreamTask.closeProcessors

namespace StoredThread

variable {E P M S V : Type} [BackedStore S] (st : StoredThread P M S V) (key : TaskKey)

def place (store : String) : Place :=
  st.backend.place st.thread.applicationId key store

def attach (name : String) (s : S) : S :=
  withBytes s (st.cells (st.place key name))

def load (t : StreamTask P M S V) : StreamTask P M S V :=
  t.setGraph { t.graph with stores := t.graph.stores.map fun e => (e.1, st.attach key e.1 e.2) }

def handles (t : StreamTask P M S V) : List String :=
  (StoreRegistry.names t.graph.stores).filter fun name => ((OrdMap.get? t.graph.stores name).bind bytes).isSome

/-- The cells after the task `key` went from `t` to `t'`: its handles write what the stores of `t'` hold. -/
def save (t t' : StreamTask P M S V) : Place → SortedMap Bytes Bytes :=
  fun p =>
    match (handles t).find? fun name => st.place key name = p with
    | none => st.cells p
    | some name => ((OrdMap.get? t'.graph.stores name).bind bytes).getD (st.cells p)

def onTask (m : TaskM E P M S V Unit) :
    Eff (Shared (StoredThread P M S V) (World E)) Event StreamsClientError Unit :=
  fun s =>
    match s.own.thread.tasks.get? key with
    | none => (.ok (), s, [])
    | some t =>
      let r := m ⟨s.own.load key t, s.world⟩
      let tasks := s.own.thread.tasks.insert key r.2.1.own
      (r.1, ⟨{ s.own with thread := s.own.thread.setTasks tasks, cells := s.own.save key t r.2.1.own }, r.2.1.world⟩,
        r.2.2)

def content (name : String) : Option S :=
  (st.thread.tasks.get? key).bind fun t => (OrdMap.get? t.graph.stores name).map (st.attach key name)

variable [StateStore S V] [Processor P M S V]

/-- No operation of a task changes a store of another task. -/
def Separate (st : StoredThread P M S V) : Prop :=
  ∀ (E : Type) [Broker E] (w : World E) (a b : TaskKey) (op : TaskOp) (name : String), a ≠ b →
    (((onTask a op.perform).final ⟨st, w⟩).own.content b name) = st.content b name

/-- The stores are in memory, or no two tasks have a store of the same name over the backend. -/
def Apart : Prop :=
  st.backend = .inMemory ∨ ∀ a b ta tb name, a ≠ b → st.thread.tasks.get? a = some ta →
    st.thread.tasks.get? b = some tb → name ∈ handles ta → name ∉ handles tb

end StoredThread

end KrabkaStreams
