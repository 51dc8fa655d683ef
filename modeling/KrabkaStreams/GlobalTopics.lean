import KrabkaStreams.Global
import KrabkaStreams.Stores.KeyValue

/-!
# What the global stores are for

`GrowingLogs.Folds`: a store is what the records below the resume offsets make of an empty one.
`Globals.Reached` are the states of a manager while the logs grow.
-/

namespace KrabkaStreams

open Effect

structure GlobalStoreSpec (A : Type) where
  name : String
  topic : Topic
  keySerde : Serde A
  valueSerde : Serde A

namespace Globals

variable {A : Type}

def add (g : Globals (KeyValueBytesStore A)) (spec : GlobalStoreSpec A) : Globals (KeyValueBytesStore A) :=
  { g with
    stores := g.stores.insert spec.name (.inMemory spec.name spec.keySerde spec.valueSerde "")
    topics := g.topics.insert spec.name spec.topic }

/-- The stores of a topology, in the order in which the hash map of the topics gives them. -/
def build (specs : List (GlobalStoreSpec A)) : Globals (KeyValueBytesStore A) := specs.foldl add ⟨[], [], []⟩

end Globals

def foldRecords (m : SortedMap Bytes Bytes) (recs : List FetchedRec) : SortedMap Bytes Bytes :=
  recs.foldl (fun m r => putOrDelete m (r.key.getD []) r.value) m

/-- The logs behind the fetcher. They only grow, a fetch returns records of the log from the offset on, and
each key occurs in one partition of a topic only. -/
structure GrowingLogs (E : Type) [Broker E] where
  records : E → Topic → Int → List FetchedRec
  sorted : ∀ e topic p, (records e topic p).Pairwise fun a b => a.offset < b.offset
  nonneg : ∀ e topic p, ∀ r ∈ records e topic p, 0 ≤ r.offset
  keyed : ∀ e topic p q, ∀ r ∈ records e topic p, ∀ r' ∈ records e topic q, r.key.getD [] = r'.key.getD [] → p = q
  fetch_grows : ∀ (e : E) topic p offset level t q, records e t q <+: records (Broker.fetch e topic p offset level).2 t q
  fetch_serves : ∀ (e : E) topic p offset level b, (Broker.fetch e topic p offset level).1 = .ok b →
    b.records <+: recordsFrom (records (Broker.fetch e topic p offset level).2 topic p) offset
  partitions_grows : ∀ (e : E) topic t q, records e t q <+: records (Broker.partitions e topic).2 t q
  partitions_nodup : ∀ (e : E) topic ps, (Broker.partitions e topic).1 = .ok ps → ps.Nodup

namespace GrowingLogs

variable {E : Type} [Broker E] (logs : GrowingLogs E)

def upTo (e : E) (topic : Topic) (partition offset : Int) : List FetchedRec :=
  (logs.records e topic partition).filter fun r => r.offset < offset

def Grows (e e' : E) : Prop := ∀ topic p, logs.records e topic p <+: logs.records e' topic p

/-- The content of a store of `topic` is the fold of each partition up to its resume offset. -/
def Folds (e : E) (offsets : OrdMap (Topic × Int) Int) (topic : Topic) (content : SortedMap Bytes Bytes) :
    Prop :=
  ∀ k v, content.get? k = some v ↔ ∃ p o, offsets.get? (topic, p) = some o ∧
    (foldRecords .empty (logs.upTo e topic p o)).get? k = some v

end GrowingLogs

section

variable {E A : Type} [Broker E]

def Globals.TrackTopics (logs : GrowingLogs E) (s : Shared (Globals (KeyValueBytesStore A)) (World E)) : Prop :=
  ∀ name topic, (name, topic) ∈ s.own.topics →
    ∃ store m, s.own.stores.get? name = some store ∧ store.backing = .plain m ∧
      logs.Folds s.world.env s.own.offsets topic m

/-- What a thread does to its global stores: a bootstrap that returned, then polls, whatever they return,
while the logs grow. -/
inductive Globals.Reached (logs : GrowingLogs E) (specs : List (GlobalStoreSpec A)) :
    Shared (Globals (KeyValueBytesStore A)) (World E) → Prop
  | bootstrapped (w : World E) : Globals.bootstrap.result ⟨Globals.build specs, w⟩ = .ok () →
    Reached logs specs (Globals.bootstrap.final ⟨Globals.build specs, w⟩)
  | polled {s : Shared (Globals (KeyValueBytesStore A)) (World E)} {partitions : List (Topic × Int)} : Reached logs specs s →
    partitions.Perm s.own.offsets.keys → Reached logs specs ((Globals.pollOnce partitions).final s)
  | grown {s : Shared (Globals (KeyValueBytesStore A)) (World E)} (w : World E) : Reached logs specs s → logs.Grows s.world.env w.env →
    Reached logs specs ⟨s.own, w⟩

end

end KrabkaStreams
