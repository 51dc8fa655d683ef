import KrabkaStreams.Lib.EncodedMap
import KrabkaStreams.Proofs.Bytes
import KrabkaStreams.Stores.Table

/-!
# The store of a table as a table

A put and a delete are updates of the map that the store reads as. With serdes that give back what was
serialized, the store holds a partial function from keys to values (`Rows`).
-/

namespace KrabkaStreams

variable {K V : Type} (s : TableStore K V) (key : K)

namespace TableStore

theorem view_put (v : V) :
    (s.put key v).backing.view = s.backing.view.insert (s.keyBytes key) (s.valueBytes v) := by
  unfold put
  rw [ByteStore.put_eq]
  exact Backing.view_put _ _ _ _

theorem serdes_put (v : V) :
    (s.put key v).keySerde = s.keySerde ∧ (s.put key v).valueSerde = s.valueSerde ∧
      (s.put key v).changelogTopic = s.changelogTopic := by
  unfold put
  rw [ByteStore.put_eq]
  exact ⟨rfl, rfl, rfl⟩

def without : TableStore K V := ⟨s.toByteStore.remove (s.keyBytes key)⟩

theorem view_without : (s.without key).backing.view = s.backing.view.erase (s.keyBytes key) := by
  unfold without
  rw [ByteStore.remove_eq]
  exact Backing.view_delete _ _ _

theorem serdes_without :
    (s.without key).keySerde = s.keySerde ∧ (s.without key).valueSerde = s.valueSerde ∧
      (s.without key).changelogTopic = s.changelogTopic := by
  unfold without
  rw [ByteStore.remove_eq]
  exact ⟨rfl, rfl, rfl⟩

theorem delete_eq {s : TableStore K V} {key : K} {prev : Option V} (h : s.get key = .ok prev) :
    s.delete key = .ok (prev, s.without key) := by
  unfold TableStore.get at h
  unfold TableStore.delete
  rw [h]
  rfl

def rowEncoding (h : s.keySerde.Lawful) : SortedMap.Encoding Bytes Bytes K V where
  index _ := True
  value _ := True
  key := s.keyBytes
  val := s.valueBytes
  inj _ _ he := ByteStore.keyBytes_inj h he

structure Rows (f : K → Option V) : Prop where
  key : s.keySerde.Lawful
  value : s.valueSerde.Lawful
  table : SortedMap.Holds (s.rowEncoding key) s.backing.view f

namespace Rows

variable {s : TableStore K V} {f : K → Option V}

theorem inMemory {keySerde : Serde K} {valueSerde : Serde V} (hk : keySerde.Lawful)
    (hv : valueSerde.Lawful) (topic : Topic) :
    (TableStore.inMemory keySerde valueSerde topic).Rows fun _ => none :=
  ⟨hk, hv, .empty _⟩

theorem get (h : s.Rows f) (k : K) : s.get k = .ok (f k) := by
  have hget := h.table.at_key (i := k) trivial
  unfold TableStore.get
  rw [Backing.get_eq_view, show s.backing.view.get? (s.keyBytes k) = _ from hget]
  rcases hf : f k with _ | v
  · rfl
  · show some <$> s.decodeValue (s.valueBytes v) = _
    rw [ByteStore.decodeValue_valueBytes h.value]
    rfl

theorem transfer (h : s.Rows f) {s' : TableStore K V} {f' : K → Option V}
    (hs : s'.keySerde = s.keySerde ∧ s'.valueSerde = s.valueSerde ∧ s'.changelogTopic = s.changelogTopic)
    (ht : SortedMap.Holds (s.rowEncoding h.key) s'.backing.view f') : s'.Rows f' := by
  obtain ⟨⟨topic, backing, ks, vs, log, logging, ctx⟩⟩ := s'
  obtain ⟨rfl, rfl, rfl⟩ := hs
  exact ⟨h.key, h.value, ht⟩

theorem put [DecidableEq K] (h : s.Rows f) (k : K) (v : V) :
    (s.put k v).Rows (Function.update f k (some v)) := by
  refine h.transfer (serdes_put s k v) ?_
  rw [view_put]
  exact h.table.insert (i := k) (b := v) trivial trivial

theorem without [DecidableEq K] (h : s.Rows f) (k : K) :
    (s.without k).Rows (Function.update f k none) := by
  refine h.transfer (serdes_without s k) ?_
  rw [view_without]
  exact h.table.erase (i := k) trivial

theorem delete (h : s.Rows f) (k : K) : s.delete k = .ok (f k, s.without k) := delete_eq (h.get k)

end Rows

end TableStore

end KrabkaStreams
