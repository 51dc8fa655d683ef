import KrabkaStreams.Task

/-!
# Rewinding a task to a cut

`restore_to_cut` replaces every store by its payload of the snapshot at the cut, moves every source partition the
cut names to its marker, and leaves these offsets for the next commit.
-/

namespace KrabkaStreams

open Effect StateStore

variable {E P M S V : Type} [StateStore S V]

/-- Replace the stores one by one. A store the snapshot does not name is wiped, and a payload that is refused
ends the pass with the stores before it replaced. -/
def restoreStores (snapshot : TaskSnapshot) : StoreRegistry S → Except StreamsClientError Unit × StoreRegistry S
  | [] => (.ok (), [])
  | (name, s) :: rest =>
    match snapshot.get? name with
    | none => ((restoreStores snapshot rest).1, (name, clear s) :: (restoreStores snapshot rest).2)
    | some data =>
      match restoreSnapshot s data with
      | .error e => (.error e, (name, s) :: rest)
      | .ok s' => ((restoreStores snapshot rest).1, (name, s') :: (restoreStores snapshot rest).2)

def Graph.restoreStoreSnapshots (g : Graph P M S V) (snapshot : TaskSnapshot) :
    Except StreamsClientError Unit × Graph P M S V :=
  ((restoreStores snapshot g.stores).1, { g with stores := (restoreStores snapshot g.stores).2 })

namespace StreamTask

def seekToMarker (cut : BarrierCut) (tp : Topic × Int) : TaskM E P M S V Unit :=
  match cut.offset tp.1 tp.2 with
  | none => pure ()
  | some offset => advance tp offset

def restoreToCut (cut : BarrierCut) (snapshot : TaskSnapshot) : TaskM E P M S V Unit := do
  update fun t => { t with pendingCut := none, pending := [] }
  let t ← current
  update (·.setGraph (t.graph.restoreStoreSnapshots snapshot).2)
  match (t.graph.restoreStoreSnapshots snapshot).1 with
  | .error e => throw e
  | .ok () => t.positions.keys.forM (seekToMarker cut)

end StreamTask

end KrabkaStreams
