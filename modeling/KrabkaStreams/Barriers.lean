import KrabkaStreams.ThreadRewind
import KrabkaStreams.ThreadRuns

/-!
# The pending cut of a thread and of its tasks

A thread keeps the cut it waits for, and each active task a copy of it, taken at the poll that adopts
the cut. A task that becomes active later has none.
-/

namespace KrabkaStreams

open Effect StateStore

namespace StreamThread

variable {E P M S V : Type}

/-- The calls on a thread that aligns on a barrier group. -/
inductive BarrierCall (P M S V : Type) [StateStore S V]
  | call (c : Call P M S V)
  | restoreToEpoch (epoch : Int)
  | restoreToLatestCut

/-- Every active task holds the pending cut; without one no task holds any. -/
def CutsAgree (th : StreamThread P M S V) : Prop :=
  (∀ cut ∈ th.pendingBarrier, ∀ e ∈ th.tasks, e.2.role = .active → e.2.pendingCut = some cut) ∧
    (th.pendingBarrier = none → ∀ e ∈ th.tasks, e.2.pendingCut = none)

instance (th : StreamThread P M S V) : Decidable (CutsAgree th) :=
  inferInstanceAs (Decidable ((∀ cut ∈ th.pendingBarrier, ∀ e ∈ th.tasks, e.2.role = .active → e.2.pendingCut = some cut) ∧
    (th.pendingBarrier = none → ∀ e ∈ th.tasks, e.2.pendingCut = none)))

section Polls

variable [Broker E] [StateStore S V]

def beginPoll : ThreadM E P M S V Unit := do
  let th ← current
  (if th.globalOffsets.isEmpty then pure () else pollGlobals)
  refreshBarrier

def pollTasks [Processor P M S V] : ProcessingGuarantee → ThreadM E P M S V Unit
  | .atLeastOnce => do
    forTasks fun _ => processAny
    finishPoll
  | .exactlyOnceV2 => do
    match ← eosBeginAndProcess.attempt with
    | .error e => recover e
    | .ok () => finishPoll

/-- A poll of the thread, as far as it comes to process tasks, starts with cuts that agree. -/
def PollsInStep (s : ThreadState E P M S V) : Prop :=
  beginPoll.result s = .ok () → CutsAgree (beginPoll.final s).own

instance : DecidablePred (PollsInStep (E := E) (P := P) (M := M) (S := S) (V := V)) := fun s =>
  inferInstanceAs (Decidable (beginPoll.result s = .ok () → CutsAgree (beginPoll.final s).own))

end Polls

section Conditions

variable [StateStore S V]

/-- While a cut is pending, an assignment names as active only tasks that hold it. -/
def NamesHolding (a : StreamsAssignment) (th : StreamThread P M S V) : Prop :=
  ∀ cut ∈ th.pendingBarrier, ∀ e ∈ desired a, e.2.1 = .active → (th.tasks.get? e.1).bind (·.pendingCut) = some cut

def Accepts (snapshot : TaskSnapshot) (t : StreamTask P M S V) : Bool := (t.graph.restoreStoreSnapshots snapshot).1.isOk

variable [CutArchive E]

/-- There is a snapshot at the cut for each of the keys, and the stores of the task take it. -/
def Loads (group : String) (cut : BarrierCut) (th : StreamThread P M S V) : List TaskKey → World E → Bool
  | [], _ => true
  | key :: keys, w =>
    match loadSnapshot group cut key w with
    | (.ok (some snapshot), w', _) => (th.tasks.get? key).all (Accepts snapshot) && Loads group cut th keys w'
    | _ => false

/-- There is no snapshot at the cut for the first of the keys. -/
def Misses (group : String) (cut : BarrierCut) : List TaskKey → World E → Bool
  | [], _ => false
  | key :: _, w =>
    match loadSnapshot group cut key w with
    | (.ok (some _), _, _) => false
    | _ => true

/-- A rewind that is made while a cut is pending: either it stops before the first task, or it goes through for every
active task and no other task holds a cut. -/
def RewindsAll (epoch : Option Int) (s : ThreadState E P M S V) : Prop :=
  ∀ b ∈ s.own.barrier, b.pending = none ∨ ∀ cut ∈ ((completeCut epoch).result s).toOption,
    Misses b.group cut s.own.activeTaskKeys ((completeCut epoch).final s).world ∨
      (Loads b.group cut s.own s.own.activeTaskKeys ((completeCut epoch).final s).world ∧
        ∀ e ∈ s.own.tasks, e.2.role ≠ .active → e.2.pendingCut = none)

def BarrierCall.KeepsCuts : BarrierCall P M S V → ThreadState E P M S V → Prop
  | .call (.applyAssignment a _), s => NamesHolding a s.own
  | .call .pollAll, _ => True
  | .call .commitAll, _ => True
  | .restoreToEpoch epoch, s => RewindsAll (some epoch) s
  | .restoreToLatestCut, s => RewindsAll none s

instance (a : StreamsAssignment) (th : StreamThread P M S V) : Decidable (NamesHolding a th) :=
  inferInstanceAs (Decidable (∀ cut ∈ th.pendingBarrier, ∀ e ∈ desired a, e.2.1 = .active →
    (th.tasks.get? e.1).bind (·.pendingCut) = some cut))

instance (epoch : Option Int) (s : ThreadState E P M S V) : Decidable (RewindsAll epoch s) :=
  inferInstanceAs (Decidable (∀ b ∈ s.own.barrier, b.pending = none ∨ ∀ cut ∈ ((completeCut epoch).result s).toOption,
    Misses b.group cut s.own.activeTaskKeys ((completeCut epoch).final s).world ∨
      (Loads b.group cut s.own s.own.activeTaskKeys ((completeCut epoch).final s).world ∧
        ∀ e ∈ s.own.tasks, e.2.role ≠ .active → e.2.pendingCut = none)))

instance : ∀ (c : BarrierCall P M S V) (s : ThreadState E P M S V), Decidable (c.KeepsCuts s)
  | .call (.applyAssignment a _), s => inferInstanceAs (Decidable (NamesHolding a s.own))
  | .call .pollAll, _ => .isTrue trivial
  | .call .commitAll, _ => .isTrue trivial
  | .restoreToEpoch epoch, s => inferInstanceAs (Decidable (RewindsAll (some epoch) s))
  | .restoreToLatestCut, s => inferInstanceAs (Decidable (RewindsAll none s))

end Conditions

variable [Broker E] [CutArchive E] [StateStore S V] [Processor P M S V]

def BarrierCall.perform (guarantee : ProcessingGuarantee) : BarrierCall P M S V → ThreadM E P M S V Unit
  | .call c => StreamThread.perform guarantee c
  | .restoreToEpoch epoch => do let _ ← StreamThread.restoreToEpoch epoch; pure ()
  | .restoreToLatestCut => do let _ ← StreamThread.restoreToLatestCut; pure ()

end StreamThread

end KrabkaStreams
