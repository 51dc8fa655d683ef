import KrabkaStreams.Rewind
import KrabkaStreams.Thread

/-!
# Rewinding a thread to a cut

`restore_to_epoch` reads a complete cut of the barrier group and rewinds the active tasks one by one, each to the
snapshot stored for it. The thread forgets its pending cut after the last task, so an error on the way leaves it pending.
-/

namespace KrabkaStreams

open Effect StateStore

class CutArchive (E : Type) where
  completeCutAt : E → String → Int → Except StreamsClientError (Option BarrierCut) × E
  latestCompleteCut : E → String → Except StreamsClientError (Option BarrierCut) × E
  loadSnapshot : E → SnapshotKey → Except StreamsClientError (Option TaskSnapshot) × E

namespace StreamThread

variable {E P M S V : Type} [CutArchive E] [StateStore S V]

def noBarrierGroup : StreamsClientError := .runtime "restoring to a cut needs a barrier group"

def noCompleteCut (group : String) : Option Int → StreamsClientError
  | some epoch => .runtime s!"barrier group {group} has no complete cut at epoch {epoch}"
  | none => .runtime s!"barrier group {group} has no complete cut"

def noSnapshot (task group : String) (epoch : Int) : StreamsClientError :=
  .snapshot s!"no snapshot for task {task} of barrier group {group} at epoch {epoch}"

def completeCut (epoch : Option Int) : ThreadM E P M S V BarrierCut := do
  let th ← current
  match th.barrier with
  | none => throw noBarrierGroup
  | some b =>
    let found ← (World.call fun e =>
      match epoch with
      | some n => CutArchive.completeCutAt e b.group n
      | none => CutArchive.latestCompleteCut e b.group).onWorld
    match found with
    | none => throw (noCompleteCut b.group epoch)
    | some cut => pure cut

def loadSnapshot (group : String) (cut : BarrierCut) (key : TaskKey) : WorldM E (Option TaskSnapshot) :=
  World.call fun e => CutArchive.loadSnapshot e ⟨taskId key, group, cut.epoch⟩

def rewindTask (group : String) (cut : BarrierCut) (key : TaskKey) : ThreadM E P M S V Unit := do
  match ← (loadSnapshot group cut key).onWorld with
  | none => throw (noSnapshot (taskId key) group cut.epoch)
  | some snapshot => onTask key (StreamTask.restoreToCut cut snapshot)

def finishRewind (cut : BarrierCut) : ThreadM E P M S V Unit :=
  update fun th =>
    { th with barrier := th.barrier.map fun b => { b with pending := none, lastEpoch := cut.epoch } }

def restoreToCut (cut : BarrierCut) : ThreadM E P M S V BarrierCut := do
  let th ← current
  match th.barrier with
  | none => throw noBarrierGroup
  | some b =>
    th.activeTaskKeys.forM (rewindTask b.group cut)
    finishRewind cut
    pure cut

def restoreToEpoch (epoch : Int) : ThreadM E P M S V BarrierCut := do
  restoreToCut (← completeCut (some epoch))

def restoreToLatestCut : ThreadM E P M S V BarrierCut := do
  restoreToCut (← completeCut none)

end StreamThread

end KrabkaStreams
