import KrabkaStreams.Lib.EncodedMap
import KrabkaStreams.Lib.Lists
import KrabkaStreams.Proofs.Bytes
import KrabkaStreams.Proofs.Schema
import KrabkaStreams.Stores.Session

/-!
# The session store as a table

A session store holds a table from keys, session starts and session ends to aggregates, which the search
for the sessions of a key reads between two keys.
-/

namespace KrabkaStreams

open BigEndian Lists

variable {K V : Type}

theorem sessionKey_lt_iff (kb : Bytes) {a b c d : Int} (ha : IsTime a) (hb : IsTime b) (hc : IsTime c)
    (hd : IsTime d) : sessionKey kb a b < sessionKey kb c d ↔ b < d ∨ b = d ∧ a < c := by
  unfold sessionKey
  rw [append_lt_append_iff rfl, append_lt_append_iff (by simp), putI64_lt_iff hb hd,
    putI64_lt_iff ha hc]
  constructor
  · rintro (h | ⟨-, h | ⟨h, h'⟩⟩)
    · exact absurd h (lt_irrefl _)
    · exact .inl h
    · exact .inr ⟨putI64_inj hb.isI64 hd.isI64 h, h'⟩
  · rintro (h | ⟨rfl, h'⟩)
    · exact .inr ⟨rfl, .inl h⟩
    · exact .inr ⟨rfl, .inr ⟨rfl, h'⟩⟩

def sessionEncoding (s : ByteStore K V) (h : s.keySerde.Lawful) :
    SortedMap.Encoding Bytes Bytes (K × Int × Int) V where
  index i := IsTime i.2.1 ∧ IsTime i.2.2
  value _ := True
  key i := sessionKey (s.keyBytes i.1) i.2.1 i.2.2
  val := s.valueBytes
  inj hi hj he := by
    obtain ⟨hk, hs, ht⟩ := sessionKey_inj hi.1.isI64 hj.1.isI64 hi.2.isI64 hj.2.isI64 he
    exact Prod.ext (ByteStore.keyBytes_inj h hk) (Prod.ext hs ht)

namespace SessionBytesStore

structure Holds (s : SessionBytesStore K V) (f : K × Int × Int → Option V) : Prop where
  key : s.keySerde.Lawful
  value : s.valueSerde.Lawful
  table : SortedMap.Holds (sessionEncoding s.toByteStore key) s.backing.view f

theorem Holds.inMemory {keySerde : Serde K} {valueSerde : Serde V} (hk : keySerde.Lawful)
    (hv : valueSerde.Lawful) (topic : Topic) :
    (SessionBytesStore.inMemory keySerde valueSerde topic).Holds fun _ => none :=
  ⟨hk, hv, .empty _⟩

variable {s : SessionBytesStore K V} {f : K × Int × Int → Option V}

theorem Holds.setRecordContext (h : s.Holds f) (ctx : RecordContext) :
    (s.setRecordContext ctx).Holds f :=
  ⟨h.key, h.value, h.table⟩

theorem Holds.put [DecidableEq K] (h : s.Holds f) (k : K) {a b : Int} (ha : IsTime a) (hb : IsTime b)
    (v : V) : (s.put k a b v).Holds (Function.update f (k, a, b) (some v)) := by
  have hins := h.table.insert (i := (k, a, b)) (b := v) ⟨ha, hb⟩ trivial
  unfold SessionBytesStore.put
  rw [ByteStore.put_eq]
  refine ⟨h.key, h.value, ?_⟩
  rw [Backing.view_put]
  exact hins

theorem Holds.remove [DecidableEq K] (h : s.Holds f) (k : K) {a b : Int} (ha : IsTime a) (hb : IsTime b) :
    (s.remove k a b).Holds (Function.update f (k, a, b) none) := by
  have hdel := h.table.erase (i := (k, a, b)) ⟨ha, hb⟩
  unfold SessionBytesStore.remove
  rw [ByteStore.remove_eq]
  refine ⟨h.key, h.value, ?_⟩
  rw [Backing.view_delete]
  exact hdel

def spanOf (e : (K × Int × Int) × V) : Int × Int × V := (e.1.2.1, e.1.2.2, e.2)

theorem Holds.overlapping [DecidableEq K] (h : s.Holds f) (k : K) (a b : Int) {e : (K × Int × Int) × V}
    (hf : f e.1 = some e.2) :
    s.overlapping (s.keyBytes k) a b ((sessionEncoding s.toByteStore h.key).entry e)
      = .ok (if e.1.1 ≠ k ∨ ¬ (a ≤ e.1.2.2 ∧ e.1.2.1 ≤ b) then [] else [spanOf e]) := by
  obtain ⟨⟨hstart, hstop⟩, -⟩ := h.table.valid hf
  show s.overlapping (s.keyBytes k) a b
    (sessionKey (s.keyBytes e.1.1) e.1.2.1 e.1.2.2, s.valueBytes e.2) = _
  unfold SessionBytesStore.overlapping
  rw [sessionKeyBytesOf_sessionKey, sessionEndOf_sessionKey _ _ hstop.isI64,
    sessionStartOf_sessionKey _ hstart.isI64]
  by_cases hk : e.1.1 = k
  · by_cases hr : a ≤ e.1.2.2 ∧ e.1.2.1 ≤ b
    · simp only [bind, Except.bind, pure, Except.pure, hk, hr, ne_eq, not_true_eq_false, if_false,
        and_self, if_true, or_self, ByteStore.decodeValue_valueBytes h.value]
      rfl
    · rw [if_pos (.inr hr)]
      simp only [bind, Except.bind, pure, Except.pure, hk, if_neg hr, ne_eq, not_true_eq_false, if_false]
  · have hkb : s.keyBytes e.1.1 ≠ s.keyBytes k := fun he => hk (ByteStore.keyBytes_inj h.key he)
    rw [if_pos (.inl hk)]
    simp only [bind, Except.bind, pure, Except.pure, if_pos hkb]

theorem between_bounds (kb : Bytes) {a x y : Int} (ha : a ≤ i64Max) (hx : IsTime x) (hy : IsTime y) :
    sessionKey kb 0 (max a 0) ≤ sessionKey kb x y ∧ sessionKey kb x y < sessionKey kb i64Max i64Max ↔
      a ≤ y ∧ ¬ (x = i64Max ∧ y = i64Max) := by
  have hmax : IsTime i64Max := ⟨by decide, le_rfl⟩
  have hzero : IsTime 0 := ⟨le_rfl, by decide⟩
  have hlo : IsTime (max a 0) := ⟨le_max_right _ _, max_le ha (by decide)⟩
  have hx' := hx.2
  have hy' := hy.2
  rw [← not_lt, sessionKey_lt_iff kb hx hy hzero hlo, sessionKey_lt_iff kb hx hy hmax hmax]
  obtain ⟨hx0, -⟩ := hx
  obtain ⟨hy0, -⟩ := hy
  omega

theorem lower_le_upper (kb : Bytes) {a : Int} (ha : a ≤ i64Max) :
    sessionKey kb 0 (max a 0) ≤ sessionKey kb i64Max i64Max := by
  have hmax : IsTime i64Max := ⟨by decide, le_rfl⟩
  have hzero : IsTime 0 := ⟨le_rfl, by decide⟩
  have hlo : IsTime (max a 0) := ⟨le_max_right _ _, max_le ha (by decide)⟩
  have hmax0 : (0 : Int) < i64Max := by decide
  rw [← not_lt, sessionKey_lt_iff kb hmax hmax hzero hlo]
  omega

theorem Holds.findSessions [DecidableEq K] (h : s.Holds f) (k : K) {a : Int} (ha : a ≤ i64Max) (b : Int) :
    ∃ found, s.findSessions k a b = .ok found ∧
      (∀ c, c ∈ found ↔ f (k, c.1, c.2.1) = some c.2.2 ∧ (a ≤ c.2.1 ∧ c.1 ≤ b) ∧
        ¬ (c.1 = i64Max ∧ c.2.1 = i64Max)) ∧
      (found.map fun c => (c.1, c.2.1)).Nodup := by
  let kb := s.keyBytes k
  obtain ⟨es, hes, hmem, hsorted⟩ :=
    h.table.range (sessionKey kb 0 (max a 0)) (sessionKey kb i64Max i64Max)
  refine ⟨(es.filter fun e => ¬ (e.1.1 ≠ k ∨ ¬ (a ≤ e.1.2.2 ∧ e.1.2.1 ≤ b))).map spanOf, ?_,
    fun c => ?_, ?_⟩
  · unfold SessionBytesStore.findSessions
    dsimp only
    rw [Backing.range_eq_view _ (lower_le_upper _ ha), show s.backing.view.range _ _ = _ from hes]
    exact mapM_flatten fun e he => h.overlapping k a b ((hmem e).mp he).1
  · simp only [List.mem_map, List.mem_filter, spanOf, hmem, decide_eq_true_eq]
    constructor
    · rintro ⟨e, ⟨⟨hf, hbounds⟩, hkeep⟩, rfl⟩
      obtain ⟨⟨hstart, hstop⟩, -⟩ := h.table.valid hf
      have hk : e.1.1 = k := not_not.mp fun hne => hkeep (.inl hne)
      have hr : a ≤ e.1.2.2 ∧ e.1.2.1 ≤ b := not_not.mp fun hne => hkeep (.inr hne)
      subst hk
      exact ⟨hf, hr, ((between_bounds kb ha hstart hstop).mp hbounds).2⟩
    · rintro ⟨hf, hr, hlast⟩
      obtain ⟨⟨hstart, hstop⟩, -⟩ := h.table.valid hf
      refine ⟨((k, c.1, c.2.1), c.2.2), ⟨⟨hf, ?_⟩, ?_⟩, rfl⟩
      · exact (between_bounds kb ha hstart hstop).mpr ⟨hr.1, hlast⟩
      · rintro (hne | hne)
        · exact hne rfl
        · exact hne hr
  · rw [List.map_map]
    refine List.pairwise_map.mpr ((hsorted.filter _).imp_of_mem fun {x y} hx hy hxy he => ?_)
    simp only [List.mem_filter, decide_eq_true_eq, not_or, not_not] at hx hy
    have hsame : x.1 = y.1 := Prod.ext (hx.2.1.trans hy.2.1.symm) he
    rw [hsame] at hxy
    exact lt_irrefl _ hxy

def flatEntry (e : (K × Int × Int) × V) : K × Int × Int × V := (e.1.1, e.1.2.1, e.1.2.2, e.2)

theorem Holds.closedBy (h : s.Holds f) (c : Int) {e : (K × Int × Int) × V} (hf : f e.1 = some e.2) :
    s.closedBy c ((sessionEncoding s.toByteStore h.key).entry e)
      = .ok (if c < e.1.2.2 then [] else [flatEntry e]) := by
  obtain ⟨⟨hstart, hstop⟩, -⟩ := h.table.valid hf
  show s.closedBy c (sessionKey (s.keyBytes e.1.1) e.1.2.1 e.1.2.2, s.valueBytes e.2) = _
  unfold SessionBytesStore.closedBy
  rw [sessionKeyBytesOf_sessionKey, sessionEndOf_sessionKey _ _ hstop.isI64,
    sessionStartOf_sessionKey _ hstart.isI64]
  by_cases hr : c < e.1.2.2
  · simp only [bind, Except.bind, pure, Except.pure, if_pos hr]
  · simp only [bind, Except.bind, pure, Except.pure, if_neg hr, ByteStore.decodeKey_keyBytes h.key,
      ByteStore.decodeValue_valueBytes h.value]
    rfl

theorem Holds.findClosedSessions (h : s.Holds f) (c : Int) :
    ∃ found, s.findClosedSessions c = .ok found ∧
      (∀ e, e ∈ found ↔ f (e.1, e.2.1, e.2.2.1) = some e.2.2.2 ∧ e.2.2.1 ≤ c) ∧
      (found.map fun e => (e.1, e.2.1, e.2.2.1)).Nodup := by
  obtain ⟨es, hes, hmem, hsorted⟩ := h.table.entries
  refine ⟨(es.filter fun e => ¬ c < e.1.2.2).map flatEntry, ?_, fun e => ?_, ?_⟩
  · unfold SessionBytesStore.findClosedSessions
    rw [Backing.scanAll_eq_view, hes]
    exact mapM_flatten fun e he => h.closedBy c ((hmem e).mp he)
  · simp only [List.mem_map, List.mem_filter, hmem, flatEntry, decide_eq_true_eq, not_lt]
    constructor
    · rintro ⟨e', ⟨hf, hr⟩, rfl⟩
      exact ⟨hf, hr⟩
    · rintro ⟨hf, hr⟩
      exact ⟨((e.1, e.2.1, e.2.2.1), e.2.2.2), ⟨hf, hr⟩, rfl⟩
  · rw [List.map_map]
    refine List.pairwise_map.mpr ((hsorted.filter _).imp fun {x y} hxy he => ?_)
    have hne : x.1 = y.1 := he
    rw [hne] at hxy
    exact lt_irrefl _ hxy

end SessionBytesStore

end KrabkaStreams
