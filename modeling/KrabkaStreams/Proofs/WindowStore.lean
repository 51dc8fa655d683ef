import KrabkaStreams.Lib.EncodedMap
import KrabkaStreams.Lib.Lists
import KrabkaStreams.Lib.Runs
import KrabkaStreams.Proofs.Bytes
import KrabkaStreams.Proofs.Changed
import KrabkaStreams.Proofs.Schema
import KrabkaStreams.Stores.Window

/-!
# The window store as a table

A window store holds a table from keys and window starts to timestamps and aggregates. Its reads are
reads of the table, and a put is an update.
-/

namespace KrabkaStreams

open Lists

variable {K V : Type} {e : (K × Int) × Int × V}

def windowEncoding (s : ByteStore K V) (h : s.keySerde.Lawful) :
    SortedMap.Encoding Bytes Bytes (K × Int) (Int × V) where
  index i := IsI64 i.2
  value b := IsI64 b.1
  key i := storeKey (s.keyBytes i.1) i.2 0
  val b := wrapValue b.1 (s.valueBytes b.2)
  inj hi hj he := by
    obtain ⟨hk, hw⟩ := storeKey_inj hi hj he
    exact Prod.ext (ByteStore.keyBytes_inj h hk) hw

namespace WindowBytesStore

/-- The entries of the store are those of the table. -/
structure Holds (s : WindowBytesStore K V) (f : K × Int → Option (Int × V)) : Prop where
  key : s.keySerde.Lawful
  value : s.valueSerde.Lawful
  table : SortedMap.Holds (windowEncoding s.toByteStore key) s.backing.view f

theorem Holds.inMemory {keySerde : Serde K} {valueSerde : Serde V} (hk : keySerde.Lawful)
    (hv : valueSerde.Lawful) (topic : Topic) (size : Int) :
    (WindowBytesStore.inMemory keySerde valueSerde topic size).Holds fun _ => none :=
  ⟨hk, hv, .empty _⟩

theorem Holds.inMemory_enableCache {keySerde : Serde K} {valueSerde : Serde V} (hk : keySerde.Lawful)
    (hv : valueSerde.Lawful) (topic : Topic) (size : Int) :
    (WindowBytesStore.inMemory keySerde valueSerde topic size).enableCache.Holds fun _ => none :=
  ⟨hk, hv, .empty _⟩

variable {s : WindowBytesStore K V} {f : K × Int → Option (Int × V)}

theorem Holds.setRecordContext (h : s.Holds f) (ctx : RecordContext) :
    (s.setRecordContext ctx).Holds f :=
  ⟨h.key, h.value, h.table⟩

theorem Holds.decodeWrapped (h : s.Holds f) {ts : Int} (ht : IsI64 ts) (v : V) :
    s.decodeWrapped (wrapValue ts (s.valueBytes v)) = .ok (ts, v) := by
  unfold WindowBytesStore.decodeWrapped
  rw [unwrapValue_wrapValue ht]
  show (do let v ← s.decodeValue (s.valueBytes v); pure (ts, v)) = _
  rw [ByteStore.decodeValue_valueBytes h.value]
  rfl

theorem Holds.fetchSingle (h : s.Holds f) (k : K) {ws : Int} (hw : IsI64 ws) :
    s.fetchSingle k ws = .ok (f (k, ws)) := by
  have hget := h.table.at_key (i := (k, ws)) hw
  unfold WindowBytesStore.fetchSingle
  rw [Backing.get_eq_view, show s.backing.view.get? (storeKey (s.keyBytes k) ws 0) = _ from hget]
  rcases hf : f (k, ws) with _ | ⟨ts, v⟩
  · rfl
  · show some <$> s.decodeWrapped (wrapValue ts (s.valueBytes v)) = _
    rw [h.decodeWrapped (h.table.valid hf).2 v]
    rfl

theorem Holds.put [DecidableEq K] (h : s.Holds f) (k : K) {ws ts : Int} (hw : IsI64 ws) (v : V)
    (ht : IsI64 ts) : (s.put k ws v ts).Holds (Function.update f (k, ws) (some (ts, v))) := by
  have hins := h.table.insert (i := (k, ws)) (b := (ts, v)) hw ht
  unfold WindowBytesStore.put
  rw [ByteStore.put_eq]
  refine ⟨h.key, h.value, ?_⟩
  rw [Backing.view_put]
  exact hins

def flatEntry (e : (K × Int) × Int × V) : K × Int × Int × V := (e.1.1, e.1.2, e.2)

theorem Holds.inRange (h : s.Holds f) (a b : Int) (hf : f e.1 = some e.2) :
    s.inRange a b ((windowEncoding s.toByteStore h.key).entry e)
      = .ok (if e.1.2 < a ∨ b < e.1.2 then [] else [flatEntry e]) := by
  obtain ⟨hw, ht⟩ := h.table.valid hf
  show s.inRange a b (storeKey (s.keyBytes e.1.1) e.1.2 0, wrapValue e.2.1 (s.valueBytes e.2.2)) = _
  unfold WindowBytesStore.inRange
  rw [windowStartOf_storeKey _ hw, keyBytesOf_storeKey, h.decodeWrapped ht]
  by_cases hr : e.1.2 < a ∨ b < e.1.2
  · rw [if_pos hr]
    simp only [bind, Except.bind, pure, Except.pure, if_pos hr]
  · rw [if_neg hr]
    simp only [bind, Except.bind, pure, Except.pure, if_neg hr, ByteStore.decodeKey_keyBytes h.key]
    rfl

theorem Holds.fetchAllInRange (h : s.Holds f) (a b : Int) :
    ∃ found, s.fetchAllInRange a b = .ok found ∧
      (∀ e, e ∈ found ↔ f (e.1, e.2.1) = some e.2.2 ∧ a ≤ e.2.1 ∧ e.2.1 ≤ b) ∧
      (found.map fun e => (e.1, e.2.1)).Nodup := by
  obtain ⟨es, hes, hmem, hsorted⟩ := h.table.entries
  refine ⟨(es.filter fun e => ¬ (e.1.2 < a ∨ b < e.1.2)).map flatEntry, ?_, fun e => ?_, ?_⟩
  · unfold WindowBytesStore.fetchAllInRange
    rw [Backing.scanAll_eq_view, hes]
    exact mapM_flatten fun e he => h.inRange a b ((hmem e).mp he)
  · simp only [List.mem_map, List.mem_filter, hmem, flatEntry, decide_eq_true_eq]
    constructor
    · rintro ⟨e', ⟨hf, hr⟩, rfl⟩
      exact ⟨hf, by dsimp only; omega⟩
    · rintro ⟨hf, hr⟩
      exact ⟨((e.1, e.2.1), e.2.2), ⟨hf, by dsimp only; omega⟩, rfl⟩
  · rw [List.map_map]
    refine List.pairwise_map.mpr ((hsorted.filter _).imp fun {x y} hxy he => ?_)
    have hne : x.1 = y.1 := he
    rw [hne] at hxy
    exact lt_irrefl _ hxy

def startEntry (e : (K × Int) × Int × V) : Int × Int × V := (e.1.2, e.2)

theorem Holds.scanned [DecidableEq K] (h : s.Holds f) (k : K) (hf : f e.1 = some e.2) :
    s.scanned (s.keyBytes k) ((windowEncoding s.toByteStore h.key).entry e)
      = .ok (if e.1.1 ≠ k then [] else [startEntry e]) := by
  obtain ⟨hw, ht⟩ := h.table.valid hf
  show s.scanned (s.keyBytes k)
    (storeKey (s.keyBytes e.1.1) e.1.2 0, wrapValue e.2.1 (s.valueBytes e.2.2)) = _
  unfold WindowBytesStore.scanned
  rw [windowStartOf_storeKey _ hw, keyBytesOf_storeKey, h.decodeWrapped ht]
  by_cases hk : e.1.1 = k
  · simp only [bind, Except.bind, pure, Except.pure, hk, ne_eq, not_true_eq_false, if_false]
    rfl
  · have hkb : s.keyBytes e.1.1 ≠ s.keyBytes k := fun he => hk (ByteStore.keyBytes_inj h.key he)
    rw [if_pos hk]
    simp only [bind, Except.bind, pure, Except.pure, if_pos hkb]

theorem Holds.iqScanned [DecidableEq K] (h : s.Holds f) (k : K) (hf : f e.1 = some e.2) :
    iqScanned (s.keyBytes k) ((windowEncoding s.toByteStore h.key).entry e)
      = .ok (if e.1.1 ≠ k then [] else [(e.1.2, s.valueBytes e.2.2)]) := by
  obtain ⟨hw, ht⟩ := h.table.valid hf
  show WindowBytesStore.iqScanned (s.keyBytes k)
    (storeKey (s.keyBytes e.1.1) e.1.2 0, wrapValue e.2.1 (s.valueBytes e.2.2)) = _
  unfold WindowBytesStore.iqScanned
  rw [windowStartOf_storeKey _ hw, keyBytesOf_storeKey, unwrapValue_wrapValue ht]
  by_cases hk : e.1.1 = k
  · simp only [bind, Except.bind, pure, Except.pure, hk, ne_eq, not_true_eq_false, if_false]
  · have hkb : s.keyBytes e.1.1 ≠ s.keyBytes k := fun he => hk (ByteStore.keyBytes_inj h.key he)
    rw [if_pos hk]
    simp only [bind, Except.bind, pure, Except.pure, if_pos hkb]

theorem range_storeKey (kb : Bytes) {a b : Int} (hfit : s.isCached → a % 2 ^ 64 ≤ b % 2 ^ 64) :
    s.backing.range (storeKey kb a 0) (storeKey kb b 0)
      = .ok (s.backing.view.range (storeKey kb a 0) (storeKey kb b 0)) := by
  rcases hb : s.backing with m | c
  · rfl
  · refine Backing.range_eq_view _ (not_lt.mp fun hlt => ?_)
    have hle := hfit (by unfold ByteStore.isCached; rw [hb]; rfl)
    have := (storeKey_lt_bound_iff kb b a (by omega)).mp hlt
    omega

theorem Holds.scans [DecidableEq K] (h : s.Holds f) (k : K) {a b : Int}
    (hfit : s.isCached → a % 2 ^ 64 ≤ saturatingAdd b 1 % 2 ^ 64) :
    ∃ found, s.fetchWithTs k a b = .ok found ∧
      s.iqWindowFetch (s.keyBytes k) a b = .ok (found.map fun e => (e.1, s.valueBytes e.2.2)) ∧
      (∀ e, e ∈ found ↔ f (k, e.1) = some e.2 ∧ a % 2 ^ 64 ≤ e.1 % 2 ^ 64 ∧
        e.1 % 2 ^ 64 < saturatingAdd b 1 % 2 ^ 64) ∧
      found.Pairwise fun x y => x.1 % 2 ^ 64 < y.1 % 2 ^ 64 := by
  have hlt := fun x y => storeKey_lt_bound_iff (s.keyBytes k) x y (show 0 < 2 ^ 31 by omega)
  obtain ⟨es, hes, hmem, hsorted⟩ :=
    h.table.range (storeKey (s.keyBytes k) a 0) (storeKey (s.keyBytes k) (saturatingAdd b 1) 0)
  refine ⟨(es.filter fun e => ¬ e.1.1 ≠ k).map startEntry, ?_, ?_, fun e => ?_, ?_⟩
  · unfold WindowBytesStore.fetchWithTs
    dsimp only
    rw [range_storeKey _ hfit, hes]
    exact mapM_flatten fun e he => h.scanned k ((hmem e).mp he).1
  · unfold WindowBytesStore.iqWindowFetch
    rw [range_storeKey _ hfit, hes]
    rw [List.map_map]
    exact mapM_flatten fun e he => h.iqScanned k ((hmem e).mp he).1
  · simp only [List.mem_map, List.mem_filter, hmem, startEntry, decide_eq_true_eq, not_not]
    constructor
    · rintro ⟨⟨⟨k', ws⟩, e⟩, ⟨⟨hf, hlo, hhi⟩, rfl⟩, rfl⟩
      exact ⟨hf, not_lt.mp fun hc => not_lt.mpr hlo ((hlt _ _).mpr hc), (hlt _ _).mp hhi⟩
    · rintro ⟨hf, hlo, hhi⟩
      refine ⟨((k, e.1), e.2), ⟨⟨hf, ?_, (hlt _ _).mpr hhi⟩, rfl⟩, rfl⟩
      exact not_lt.mp fun hc => not_lt.mpr hlo ((hlt _ _).mp hc)
  · refine List.pairwise_map.mpr ((hsorted.filter _).imp_of_mem fun {x y} hx hy hxy => ?_)
    obtain ⟨⟨k₁, ws₁⟩, e₁⟩ := x
    obtain ⟨⟨k₂, ws₂⟩, e₂⟩ := y
    simp only [List.mem_filter, decide_eq_true_eq, not_not] at hx hy
    obtain ⟨-, rfl⟩ := hx
    obtain ⟨-, rfl⟩ := hy
    exact (hlt _ _).mp hxy

theorem Holds.fetchWithTs [DecidableEq K] (h : s.Holds f) {k : K}
    (h0 : ∀ {ws e}, f (k, ws) = some e → 0 ≤ ws) {a b : Int} (ha : IsTime a) (hb : IsTime b)
    (hab : a ≤ b) :
    ∃ found, s.fetchWithTs k a b = .ok found ∧
      (∀ e, e ∈ found ↔ f (k, e.1) = some e.2 ∧ a ≤ e.1 ∧ e.1 < saturatingAdd b 1) ∧
      found.Pairwise fun x y => x.1 < y.1 := by
  simp only [IsTime, saturatingAdd, i64Min, i64Max] at *
  obtain ⟨found, hfound, -, hmem, hsorted⟩ := h.scans k (a := a) (b := b) fun _ => by
    simp only [saturatingAdd, i64Min, i64Max]
    omega
  have htime : ∀ {e}, e ∈ found → 0 ≤ e.1 ∧ e.1 ≤ 9223372036854775807 := fun he =>
    ⟨h0 ((hmem _).mp he).1, (h.table.valid ((hmem _).mp he).1).1.2⟩
  refine ⟨found, hfound, fun e => ?_, hsorted.imp_of_mem fun hx hy hxy => ?_⟩
  · rw [hmem]
    simp only [saturatingAdd, i64Min, i64Max]
    refine and_congr_right fun hf => ?_
    have h1 := h0 hf
    have h2 : e.1 ≤ 9223372036854775807 := (h.table.valid hf).1.2
    omega
  · have h1 := htime hx
    have h2 := htime hy
    omega

section Exactness

variable [DecidableEq K] {k : K} (timeFrom : Int) {timeTo : Int}

theorem Holds.scans_lists (h : s.Holds f) (h0 : ∀ ws e, f (k, ws) = some e → 0 ≤ ws) {a : Int}
    (hfit : s.isCached → a % 2 ^ 64 ≤ saturatingAdd timeTo 1 % 2 ^ 64) :
    ∃ found, s.fetchWithTs k a timeTo = .ok found ∧
      s.iqWindowFetch (s.keyBytes k) a timeTo = .ok (found.map fun e => (e.1, s.valueBytes e.2.2)) ∧
      ∀ {R : Type} (g : Int × V → R),
        ListsWindows f k timeFrom timeTo g (found.map fun e => (e.1, g e.2)) ↔ ∀ ws e, f (k, ws) = some e →
          (a % 2 ^ 64 ≤ ws ∧ ws < saturatingAdd timeTo 1 % 2 ^ 64 ↔ timeFrom ≤ ws ∧ ws ≤ timeTo) := by
  obtain ⟨found, hfetch, hiq, hmem, hsorted⟩ := h.scans k hfit
  have hmod : ∀ ws e, f (k, ws) = some e → ws % 2 ^ 64 = ws := fun ws e hf => by
    have h1 := h0 ws e hf
    have h2 : ws ≤ 9223372036854775807 := (h.table.valid hf).1.2
    omega
  refine ⟨found, hfetch, hiq, fun g => ⟨fun hl ws e hf => ?_, fun hagree => ⟨fun ws x => ?_, ?_⟩⟩⟩
  · have hrow := hl.1 ws (g e)
    simp only [List.mem_map, Prod.mk.injEq, Prod.exists, hmem] at hrow
    constructor
    · rintro ⟨hlo, hhi⟩
      obtain ⟨h1, h2, -⟩ := hrow.mp ⟨ws, e.1, e.2, ⟨hf, by rw [hmod ws e hf]; exact ⟨hlo, hhi⟩⟩, rfl, rfl⟩
      exact ⟨h1, h2⟩
    · rintro ⟨h1, h2⟩
      obtain ⟨ws', v, t, ⟨-, hin⟩, rfl, -⟩ := hrow.mpr ⟨h1, h2, e.1, e.2, hf, rfl⟩
      rwa [hmod _ e hf] at hin
  · simp only [List.mem_map, Prod.mk.injEq, hmem]
    constructor
    · rintro ⟨⟨ws', e⟩, ⟨hf, hin⟩, rfl, rfl⟩
      rw [hmod _ e hf, hagree _ e hf] at hin
      exact ⟨hin.1, hin.2, e, hf, rfl⟩
    · rintro ⟨h1, h2, e, hf, rfl⟩
      exact ⟨(ws, e), ⟨hf, by rw [hmod ws e hf, hagree ws e hf]; exact ⟨h1, h2⟩⟩, rfl, rfl⟩
  · refine List.pairwise_map.mpr (hsorted.imp_of_mem fun {x y} hx hy hxy => ?_)
    rwa [hmod _ _ ((hmem x).mp hx).1, hmod _ _ ((hmem y).mp hy).1] at hxy

omit [DecidableEq K] in
theorem fits_of_fetchWithTs {a : Int} {l : List (Int × Int × V)} (hok : s.fetchWithTs k a timeTo = .ok l)
    (hc : s.isCached) : a % 2 ^ 64 ≤ saturatingAdd timeTo 1 % 2 ^ 64 := by
  refine not_lt.mp fun hlt => ?_
  have hkeys := (storeKey_lt_bound_iff (s.keyBytes k) _ _ (show 0 < 2 ^ 31 by omega)).mpr hlt
  unfold WindowBytesStore.fetchWithTs at hok
  rcases hb : s.backing with m | c
  · rw [ByteStore.isCached, hb] at hc
    cases hc
  · have herr : s.backing.range (storeKey (s.keyBytes k) a 0)
        (storeKey (s.keyBytes k) (saturatingAdd timeTo 1) 0) = .error .panicked := by
      rw [hb]
      show (c.cache.range _ _ >>= _) = _
      unfold NamedCache.range
      rw [if_pos hkeys]
      rfl
    dsimp only at hok
    rw [herr] at hok
    cases hok

theorem scansExactly_iff_boundsServed (h : s.Holds f) (h0 : ∀ ws e, f (k, ws) = some e → 0 ≤ ws)
    (ha : IsI64 timeFrom) (hb : IsI64 timeTo) :
    s.ScansExactly f k timeFrom timeTo ↔ s.BoundsServed f k timeFrom timeTo := by
  have htime : ∀ ws e, f (k, ws) = some e → ws ≤ i64Max := fun ws e hf => (h.table.valid hf).1.2
  constructor
  · intro hx
    obtain ⟨l, hl, hlists⟩ := hx.fetchWithTs
    obtain ⟨l₂, hl₂, hlists₂⟩ := hx.iq2
    have hfit := fits_of_fetchWithTs hl
    obtain ⟨found, hfound, -, hiff⟩ := h.scans_lists timeFrom h0 hfit
    have hagree := (hiff id).mp (by cases hl.symm.trans hfound; simpa using hlists)
    have hclamped : ∀ ws e, f (k, ws) = some e →
        (max timeFrom 0 % 2 ^ 64 ≤ ws ∧ ws < saturatingAdd timeTo 1 % 2 ^ 64 ↔ timeFrom ≤ ws ∧ ws ≤ timeTo) := by
      have hl₂' : s.fetch k (max timeFrom 0) timeTo = .ok l₂ := Except.ok.inj hl₂
      obtain ⟨l₃, hl₃, hmap⟩ := Runs.bind_eq_ok.mp hl₂'
      obtain ⟨found, hfound, -, hiff⟩ := h.scans_lists timeFrom h0 (fits_of_fetchWithTs hl₃)
      refine (hiff Prod.snd).mp ?_
      cases hl₃.symm.trans hfound
      cases hmap
      exact hlists₂
    have hlast : timeTo = i64Max → f (k, i64Max) = none := fun hmax => by
      rcases hf : f (k, i64Max) with _ | e
      · rfl
      · have h1 := hagree _ e hf
        simp only [IsI64, saturatingAdd, i64Min, i64Max] at *
        omega
    refine ⟨fun hneg ws hws => ?_, fun hneg ws hws => ?_, hlast, fun hc => ?_⟩ <;>
      simp only [IsI64, saturatingAdd, i64Min, i64Max] at ha hb htime hfit hagree hclamped
    · rcases hf : f (k, ws) with _ | e
      · rfl
      · have h1 := h0 ws e hf
        have h2 := hagree ws e hf
        omega
    · rcases hf : f (k, ws) with _ | e
      · rfl
      · have h1 := h0 ws e hf
        have h2 := htime ws e hf
        have h3 := hclamped ws e hf
        omega
    · have h1 := hfit hc
      omega
  · intro hs
    have hlower : ∀ ws e, f (k, ws) = some e → ¬ (timeFrom < 0 ∧ ws ≤ timeTo) := fun ws e hf hc => by
      rw [hs.lower hc.1 ws hc.2] at hf
      cases hf
    have hupper : ∀ ws e, f (k, ws) = some e → ¬ (timeTo < -1 ∧ timeFrom ≤ ws) := fun ws e hf hc => by
      rw [hs.upper hc.1 ws hc.2] at hf
      cases hf
    have hlast : ∀ ws e, f (k, ws) = some e → ¬ (timeTo = i64Max ∧ ws = i64Max) := fun ws e hf hc => by
      rw [hc.2, hs.last hc.1] at hf
      cases hf
    have hcached := hs.cached
    have hscan : ∀ a, a = timeFrom ∨ a = max timeFrom 0 →
        (s.isCached → a % 2 ^ 64 ≤ saturatingAdd timeTo 1 % 2 ^ 64) ∧ ∀ ws e, f (k, ws) = some e →
          (a % 2 ^ 64 ≤ ws ∧ ws < saturatingAdd timeTo 1 % 2 ^ 64 ↔ timeFrom ≤ ws ∧ ws ≤ timeTo) := by
      intro a hcase
      simp only [IsI64, saturatingAdd, i64Min, i64Max] at *
      refine ⟨fun hc => ?_, fun ws e hf => ?_⟩
      · have h1 := hcached hc
        omega
      · have h1 := h0 ws e hf
        have h2 := htime ws e hf
        have h3 := hlower ws e hf
        have h4 := hupper ws e hf
        have h5 := hlast ws e hf
        omega
    obtain ⟨hfit, hagree⟩ := hscan timeFrom (.inl rfl)
    obtain ⟨found, hfound, hiq, hiff⟩ := h.scans_lists timeFrom h0 hfit
    obtain ⟨hfit', hagree'⟩ := hscan (max timeFrom 0) (.inr rfl)
    obtain ⟨found', hfound', -, hiff'⟩ := h.scans_lists timeFrom h0 hfit'
    refine ⟨⟨found, hfound, ?_⟩, ⟨_, ?_, (hiff Prod.snd).mpr hagree⟩, ⟨_, hiq, (hiff _).mpr hagree⟩,
      ⟨_, congrArg Except.ok ?_, (hiff' Prod.snd).mpr hagree'⟩⟩
    · simpa using (hiff id).mpr hagree
    · unfold WindowBytesStore.fetch
      rw [hfound]
      rfl
    · unfold WindowBytesStore.fetch
      rw [hfound']
      rfl

end Exactness

def octetWindow : WindowBytesStore UInt8 UInt8 :=
  (inMemory Changed.octetSerde Changed.octetSerde "windows" 10).put 7 0 1 5

def octetTable : UInt8 × Int → Option (Int × UInt8) := Function.update (fun _ => none) (7, 0) (some (5, 1))

theorem octetWindow_holds : octetWindow.Holds octetTable :=
  (Holds.inMemory Changed.octetSerde_lawful Changed.octetSerde_lawful _ _).put 7 ⟨by decide, by decide⟩ 1
    ⟨by decide, by decide⟩

theorem scansExactly_octetWindow : octetWindow.ScansExactly octetTable 7 0 10 := by
  refine (scansExactly_iff_boundsServed 0 octetWindow_holds (fun ws e hf => ?_) ⟨by decide, by decide⟩
    ⟨by decide, by decide⟩).mpr ⟨nofun, nofun, nofun, fun _ => .inl (by decide)⟩
  by_cases hws : ws = 0
  · exact hws.ge
  · rw [octetTable, Function.update_of_ne (by simpa using hws)] at hf
    cases hf

/-- The first instant is asked for from before it: the scan finds nothing at all. -/
theorem not_scansExactly_octetWindow : ¬ octetWindow.ScansExactly octetTable 7 (-1) 10 := fun h => by
  obtain ⟨l, hl, hlists⟩ := h.fetchWithTs
  have hnone : octetWindow.fetchWithTs 7 (-1) 10 = .ok [] := by rfl
  cases hl.symm.trans hnone
  exact absurd ((hlists.1 0 (5, 1)).mpr ⟨by decide, by decide, (5, 1), rfl, rfl⟩) List.not_mem_nil

end WindowBytesStore

end KrabkaStreams
