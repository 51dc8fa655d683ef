import KrabkaStreams.Proofs.Cache
import KrabkaStreams.Stores.Bytes

/-!
# What a byte store reads as

A backing, plain or cached, reads as one map, its `view`. The processing path writes to the view.
-/

namespace KrabkaStreams

variable (b : Backing)

namespace Backing

def view : Backing → SortedMap Bytes Bytes
  | plain m => m
  | cached c => c.view

theorem get_eq_view (k : Bytes) : b.get k = b.view.get? k := by
  cases b with
  | plain m => rfl
  | cached c => exact c.get_eq_view k

theorem scanAll_eq_view : b.scanAll = b.view.entries := by
  cases b with
  | plain m => rfl
  | cached c => exact c.scanAll_eq_view

theorem range_eq_view {lo hi : Bytes} (h : lo ≤ hi) : b.range lo hi = .ok (b.view.range lo hi) := by
  cases b with
  | plain m => rfl
  | cached c => exact c.range_eq_view h

theorem view_put (k v : Bytes) (ctx : RecordContext) : (b.put k v ctx).view = b.view.insert k v := by
  cases b with
  | plain m => rfl
  | cached c => exact c.view_put k v ctx

theorem view_delete (k : Bytes) (ctx : RecordContext) : (b.delete k ctx).2.view = b.view.erase k := by
  cases b with
  | plain m => rfl
  | cached c => exact c.view_delete k ctx

end Backing

theorem Serde.Lawful.inj {A : Type} {serde : Serde A} (h : serde.Lawful) {topic : Topic} {a b : A}
    (he : serde.serialize topic a = serde.serialize topic b) : a = b := by
  have ha := h topic a
  rw [he, h topic b] at ha
  exact (Except.ok.inj ha).symm

namespace ByteStore

variable {K V : Type} (s : ByteStore K V)

def logged (kb : Bytes) (vb : Option Bytes) : List (Bytes × Option Bytes) :=
  if s.backing.isCached then s.changelog
  else if s.logging then s.changelog ++ [(kb, vb)] else s.changelog

theorem put_eq (kb vb : Bytes) :
    s.put kb vb = { s with
      backing := s.backing.put kb vb s.writeCtx, changelog := s.logged kb (some vb) } := by
  unfold put logged record
  split
  · rfl
  · dsimp only
    split <;> rfl

theorem remove_eq (kb : Bytes) :
    s.remove kb = { s with
      backing := (s.backing.delete kb s.writeCtx).2, changelog := s.logged kb none } := by
  unfold remove logged record
  split
  · rfl
  · dsimp only
    split <;> rfl

theorem decodeKey_keyBytes {s : ByteStore K V} (h : s.keySerde.Lawful) (k : K) :
    s.decodeKey (s.keyBytes k) = .ok k := by
  unfold decodeKey keyBytes
  rw [h]

theorem decodeValue_valueBytes {s : ByteStore K V} (h : s.valueSerde.Lawful) (v : V) :
    s.decodeValue (s.valueBytes v) = .ok v := by
  unfold decodeValue valueBytes
  rw [h]

theorem keyBytes_inj {s : ByteStore K V} (h : s.keySerde.Lawful) {k k' : K}
    (he : s.keyBytes k = s.keyBytes k') : k = k' :=
  Serde.Lawful.inj h he

end ByteStore

end KrabkaStreams
