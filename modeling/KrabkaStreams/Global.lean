import KrabkaStreams.Recovery

/-!
# The global stores

One manager for all tasks of a thread. The bootstrap reads every partition from zero to its end; the
resume offsets are kept by topic and partition, and a poll finds the store of a topic by turning the map
from stores to topics around.
-/

namespace KrabkaStreams

open Effect

/-- `GlobalStateManager`, and the resume offsets that the thread keeps beside it. -/
structure Globals (S : Type) where
  stores : StoreRegistry S
  topics : OrdMap String Topic
  offsets : OrdMap (Topic × Int) Int

abbrev GlobalM (E S : Type) := Eff (Shared (Globals S) (World E)) Event StreamsClientError

namespace Globals

variable {E S V : Type}

def update (f : Globals S → Globals S) : GlobalM E S Unit := modify fun s => { s with own := f s.own }

/-- Apply records in order. A record without a key goes to the empty key, and records for a store that is
not there are dropped. -/
def applyRecords [StateStore S V] (store : String) (recs : List FetchedRec) : GlobalM E S Unit :=
  update fun g => { g with stores := g.stores.modify store fun s => StateStore.applyAll s recs }

variable [Broker E] [StateStore S V]

def fetch (topic : Topic) (partition offset : Int) : GlobalM E S FetchBatch :=
  (World.call fun e => Broker.fetch e topic partition offset .readUncommitted).onWorld

def bootstrapLoop (store : String) (topic : Topic) (partition : Int) : Nat → Int → GlobalM E S Int
  | 0, _ => throw .outOfBudget
  | n + 1, offset => do
    let batch ← fetch topic partition offset
    match batch.records with
    | [] => pure offset
    | r :: rs =>
      applyRecords store (r :: rs)
      let next := offsetAfter offset (r :: rs)
      if offset < next then bootstrapLoop store topic partition n next else pure next

def bootstrapPartition (store : String) (topic : Topic) (offsets : OrdMap (Topic × Int) Int) (partition : Int) :
    GlobalM E S (OrdMap (Topic × Int) Int) := do
  let offset ← bootstrapLoop store topic partition (← get).world.budget 0
  return offsets.insert (topic, partition) offset

def bootstrapStore (offsets : OrdMap (Topic × Int) Int) (entry : String × Topic) :
    GlobalM E S (OrdMap (Topic × Int) Int) := do
  let partitions ← (World.call fun e => Broker.partitions e entry.2).onWorld
  partitions.foldlM (bootstrapPartition entry.1 entry.2) offsets

def bootstrap : GlobalM E S Unit := do
  let offsets ← (← get).own.topics.foldlM bootstrapStore []
  update fun g => { g with offsets := offsets }

/-- The store of a topic. Where several stores read the topic, the last one of the iteration stays in the
map. -/
def topicToStore (g : Globals S) (topic : Topic) : Option String :=
  (g.topics.reverse.find? fun e => e.2 = topic).map Prod.fst

def pollPartition (tp : Topic × Int) : GlobalM E S Unit := do
  let g := (← get).own
  match g.topicToStore tp.1 with
  | none => pure ()
  | some store =>
    let offset := (g.offsets.get? tp).getD 0
    let batch ← fetch tp.1 tp.2 offset
    applyRecords store batch.records
    update fun g => { g with offsets := g.offsets.insert tp (offsetAfter offset batch.records) }

/-- One pass over the resume offsets, in the order in which their hash map gives the partitions. -/
def pollOnce (partitions : List (Topic × Int)) : GlobalM E S Unit := partitions.forM pollPartition

end Globals

end KrabkaStreams
