import KrabkaStreams.Dsl.StreamJoinSemantics
import KrabkaStreams.Lib.Lists
import KrabkaStreams.Proofs.Schema
import KrabkaStreams.Proofs.TableStore
import KrabkaStreams.Proofs.TimeWindows

/-!
# The buffer of the unmatched records as a table

The buffer holds a table: a match takes entries out (`forget_spec`), a record without one goes into its
place (`pad_spec`), and the scan forwards what closed (`closeScan_spec`).
-/

namespace KrabkaStreams

open BigEndian Lists Runs

variable {K W VThis VOther VO : Type} {i : Int × Bool × K}

theorem outerKeyTs_outerKey {t : Int} (ht : IsI64 t) (side : Bool) (kb : Bytes) :
    outerKeyTs (outerKey t side kb) = .ok t := by
  unfold outerKeyTs outerKey
  rw [if_neg (by simp), getI64_putI64_append ht]

theorem outerKeySideLeft_outerKey (t : Int) (side : Bool) (kb : Bytes) :
    outerKeySideLeft (outerKey t side kb) = .ok side := by
  have hget : (outerKey t side kb)[8]? = some (if side then 0 else 1) := by
    unfold outerKey
    rw [List.getElem?_append_right (by simp)]
    simp
  unfold outerKeySideLeft
  rw [hget]
  cases side <;> rfl

theorem outerKeyKeyBytes_outerKey (t : Int) (side : Bool) (kb : Bytes) :
    outerKeyKeyBytes (outerKey t side kb) = .ok kb := by
  unfold outerKeyKeyBytes outerKey
  rw [if_neg (by simp; omega), List.drop_append, List.drop_of_length_le (by simp)]
  simp

theorem outerKey_inj {t t' : Int} (ht : IsI64 t) (ht' : IsI64 t') {side side' : Bool} {kb kb' : Bytes}
    (h : outerKey t side kb = outerKey t' side' kb') : t = t' ∧ side = side' ∧ kb = kb' := by
  have hts := outerKeyTs_outerKey ht side kb
  have hside := outerKeySideLeft_outerKey t side kb
  have hkb := outerKeyKeyBytes_outerKey t side kb
  rw [h, outerKeyTs_outerKey ht'] at hts
  rw [h, outerKeySideLeft_outerKey] at hside
  rw [h, outerKeyKeyBytes_outerKey] at hkb
  exact ⟨(Except.ok.inj hts).symm, (Except.ok.inj hside).symm, (Except.ok.inj hkb).symm⟩

theorem putI64_le_outerKey_iff {lo t : Int} (hlo : IsTime lo) (ht : IsTime t) (side : Bool) (kb : Bytes) :
    putI64 lo ≤ outerKey t side kb ↔ lo ≤ t := by
  unfold outerKey
  rw [← List.append_nil (putI64 lo), ← not_lt, append_lt_append_iff (by simp), putI64_lt_iff ht hlo]
  constructor
  · intro h
    by_contra hlt
    exact h (.inl (by omega))
  · rintro hle (hlt | ⟨-, hlt⟩)
    · omega
    · exact absurd hlt (by simp)

theorem outerKey_lt_putI64_iff {hi t : Int} (hhi : IsTime hi) (ht : IsTime t) (side : Bool) (kb : Bytes) :
    outerKey t side kb < putI64 hi ↔ t < hi := by
  have h := putI64_le_outerKey_iff hhi ht side kb
  rw [← not_le, h, not_le]

def outerEncoding {keySerde : Serde K} (h : keySerde.Lawful) (outerStore : String) (val : W → Bytes) :
    SortedMap.Encoding Bytes Bytes (Int × Bool × K) W where
  index i := IsTime i.1
  value _ := True
  key i := outerKey i.1 i.2.1 (keySerde.serialize outerStore i.2.2)
  val := val
  inj hi hj he := by
    obtain ⟨ht, hs, hk⟩ := outerKey_inj hi.isI64 hj.isI64 he
    exact Prod.ext ht (Prod.ext hs (Serde.Lawful.inj h hk))

structure Buffered {keySerde : Serde K} (h : keySerde.Lawful) (outerStore : String) (val : W → Bytes)
    (s : TableStore Bytes Bytes) (f : Int × Bool × K → Option W) : Prop where
  keys : s.keySerde = bytesSerde
  values : s.valueSerde = bytesSerde
  table : SortedMap.Holds (outerEncoding h outerStore val) s.backing.view f

namespace Buffered

variable {keySerde : Serde K} {hk : keySerde.Lawful} {outerStore : String} {val : W → Bytes}
  {s : TableStore Bytes Bytes} {f : Int × Bool × K → Option W}

theorem keyBytes (h : Buffered hk outerStore val s f) (b : Bytes) : s.keyBytes b = b := by
  unfold ByteStore.keyBytes
  rw [h.keys]
  rfl

theorem valueBytes (h : Buffered hk outerStore val s f) (b : Bytes) : s.valueBytes b = b := by
  unfold ByteStore.valueBytes
  rw [h.values]
  rfl

theorem decodeEntry (h : Buffered hk outerStore val s f) (e : Bytes × Bytes) : s.decodeEntry e = .ok e := by
  unfold TableStore.decodeEntry ByteStore.decodeKey ByteStore.decodeValue
  rw [h.keys, h.values]
  rfl

theorem put [DecidableEq K] (h : Buffered hk outerStore val s f) (hi : IsTime i.1) (w : W) :
    Buffered hk outerStore val
      (s.put (outerKey i.1 i.2.1 (keySerde.serialize outerStore i.2.2)) (val w))
      (Function.update f i (some w)) where
  keys := (TableStore.serdes_put ..).1.trans h.keys
  values := (TableStore.serdes_put ..).2.1.trans h.values
  table := by
    rw [TableStore.view_put, h.keyBytes, h.valueBytes]
    exact h.table.insert (i := i) (b := w) hi trivial

theorem delete [DecidableEq K] (h : Buffered hk outerStore val s f) (hi : IsTime i.1) : ∃ prev s',
      s.delete (outerKey i.1 i.2.1 (keySerde.serialize outerStore i.2.2)) = .ok (prev, s') ∧
        Buffered hk outerStore val s' (Function.update f i none) := by
  have hget : ∀ b : Bytes, s.get b = .ok (s.backing.get (s.keyBytes b)) := fun b => by
    unfold TableStore.get
    rcases s.backing.get (s.keyBytes b) with _ | vb
    · rfl
    · show some <$> s.decodeValue vb = _
      unfold ByteStore.decodeValue
      rw [h.values]
      rfl
  refine ⟨_, _, TableStore.delete_eq (hget _), ?_, ?_, ?_⟩
  · exact (TableStore.serdes_without ..).1.trans h.keys
  · exact (TableStore.serdes_without ..).2.1.trans h.values
  · rw [TableStore.view_without, h.keyBytes]
    exact h.table.erase (i := i) hi

theorem range (h : Buffered hk outerStore val s f) {lo hi : Int} (hlo : IsTime lo) (hhi : IsTime hi)
    (hle : lo ≤ hi) :
    ∃ es : List ((Int × Bool × K) × W), s.range (putI64 lo) (putI64 hi)
        = .ok (es.map (outerEncoding hk outerStore val).entry) ∧
      (∀ e, e ∈ es ↔ f e.1 = some e.2 ∧ lo ≤ e.1.1 ∧ e.1.1 < hi) ∧ (es.map Prod.fst).Nodup := by
  obtain ⟨es, hes, hmem, hsorted⟩ := h.table.range (putI64 lo) (putI64 hi)
  have hbounds : putI64 lo ≤ putI64 hi := by
    rw [← not_lt, putI64_lt_iff hhi hlo]
    omega
  refine ⟨es, ?_, fun e => ?_, ?_⟩
  · unfold TableStore.range
    rw [h.keyBytes, h.keyBytes, Backing.range_eq_view _ hbounds, hes]
    show (es.map (outerEncoding hk outerStore val).entry).mapM s.decodeEntry = _
    rw [mapM_eq_map fun e _ => h.decodeEntry e, List.map_id']
  · rw [hmem]
    refine and_congr_right fun hf => ?_
    have ht := (h.table.valid hf).1
    exact and_congr (putI64_le_outerKey_iff hlo ht _ _) (outerKey_lt_putI64_iff hhi ht _ _)
  · exact List.pairwise_map.mpr (hsorted.imp fun {a b} hab he => hab.ne (congrArg _ he))

end Buffered

namespace KStreamKStreamJoinProcessor

section Processor

variable {p : KStreamKStreamJoinProcessor K VThis VOther VO} {o : OuterSide K VThis}
  {hk : o.keySerde.Lawful} {val : W → Bytes} {tag : VThis → W} {s : TableStore Bytes Bytes}
  {f : Int × Bool × K → Option W}

theorem forget_spec [DecidableEq K] (key : K) :
    ∀ (found : List Int) {s : TableStore Bytes Bytes} {f : Int × Bool × K → Option W},
      Buffered hk o.outerStore val s f → (∀ t ∈ found, IsTime t) →
      ∃ s', p.forget (o.keySerde.serialize o.outerStore key) found s = .ok s' ∧
        Buffered hk o.outerStore val s' fun i => if i.1 ∈ found ∧ i.2 = (!p.sideLeft, key) then none else f i
  | [], s, f, h, _ => ⟨s, rfl, by simpa using h⟩
  | t :: found, s, f, h, ht => by
    obtain ⟨prev, s₁, hdel, h₁⟩ := h.delete (i := (t, !p.sideLeft, key)) (ht t (by simp))
    obtain ⟨s', hrest, h'⟩ := forget_spec key found h₁ fun t' ht' => ht t' (List.mem_cons_of_mem _ ht')
    refine ⟨s', ?_, ?_⟩
    · unfold forget
      rw [hdel]
      exact hrest
    · convert h' using 2 with i
      by_cases hi : i = (t, !p.sideLeft, key)
      · subst hi
        simp
      · rw [Function.update_of_ne hi]
        have hne : i.2 = (!p.sideLeft, key) → i.1 ≠ t := fun h2 h1 => hi (Prod.ext h1 h2)
        by_cases hf : i.1 ∈ found ∧ i.2 = (!p.sideLeft, key)
        · rw [if_pos hf, if_pos ⟨List.mem_cons_of_mem _ hf.1, hf.2⟩]
        · rw [if_neg hf, if_neg fun h => hf ⟨(List.mem_cons.mp h.1).resolve_left (hne h.2), h.2⟩]

def ClosedAt (p : KStreamKStreamJoinProcessor K VThis VOther VO) (streamTime : Int) (i : Int × Bool × K) :
    Prop := i.2.1 = p.sideLeft ∧ i.1 + p.lookback + p.grace < streamTime

instance (p : KStreamKStreamJoinProcessor K VThis VOther VO) (streamTime : Int) :
    DecidablePred (p.ClosedAt streamTime) := fun _ => instDecidableAnd

def Tags (p : KStreamKStreamJoinProcessor K VThis VOther VO) (o : OuterSide K VThis) (val : W → Bytes)
    (tag : VThis → W) : Prop :=
  ∀ v, val (tag v) = if p.sideLeft then outerValueLeft (o.valueSerde.serialize o.outerStore v)
    else outerValueRight (o.valueSerde.serialize o.outerStore v)

theorem pad_late {kb : Bytes} {key : K} {v : VThis} {t streamTime : Int} (hto : IsI64 (t + p.fetchAfter))
    (hlate : t + p.fetchAfter < streamTime) :
    p.pad o kb key v t streamTime s = .ok (s, [⟨some key, p.joiner v none, t⟩]) := by
  unfold pad
  rw [checkedI64_eq_ok.mpr ⟨hto, rfl⟩]
  exact if_pos hlate

theorem pad_spec [DecidableEq K] (htag : p.Tags o val tag) (h : Buffered hk o.outerStore val s f) {key : K}
    {v : VThis} {t streamTime : Int} (ht : IsTime t) (hto : IsI64 (t + p.fetchAfter))
    (hlate : ¬ t + p.fetchAfter < streamTime) :
    ∃ s', p.pad o (o.keySerde.serialize o.outerStore key) key v t streamTime s = .ok (s', []) ∧
      Buffered hk o.outerStore val s' (Function.update f (t, p.sideLeft, key) (some (tag v))) := by
  refine ⟨_, ?_, h.put (i := (t, p.sideLeft, key)) ht (tag v)⟩
  unfold pad
  rw [checkedI64_eq_ok.mpr ⟨hto, rfl⟩, htag]
  exact if_neg hlate

theorem isOwn_entry (i : Int × Bool × K) (w : W) :
    p.isOwn ((outerEncoding hk o.outerStore val).entry (i, w)) = .ok (decide (i.2.1 = p.sideLeft)) := by
  show (do return decide ((← outerKeySideLeft (outerKey _ _ _)) = p.sideLeft)) = _
  rw [outerKeySideLeft_outerKey]
  rfl

structure Room (p : KStreamKStreamJoinProcessor K VThis VOther VO) (t : Int) : Prop where
  window : IsI64 (t + p.lookback)
  grace : IsI64 (t + p.lookback + p.grace)

theorem isClosed_entry (hi : IsTime i.1) (hroom : p.Room i.1) (streamTime : Int) (w : W) :
    p.isClosed streamTime ((outerEncoding hk o.outerStore val).entry (i, w))
      = .ok (decide (i.1 + p.lookback + p.grace < streamTime)) := by
  show (do
    let stop ← checkedI64 ((← outerKeyTs (outerKey _ _ _)) + p.lookback)
    let close ← checkedI64 (stop + p.grace)
    return decide (close < streamTime)) = _
  rw [outerKeyTs_outerKey hi.isI64]
  show (do
    let stop ← checkedI64 (i.1 + p.lookback)
    let close ← checkedI64 (stop + p.grace)
    return decide (close < streamTime)) = _
  rw [checkedI64_eq_ok.mpr ⟨hroom.window, rfl⟩]
  show (do
    let close ← checkedI64 (i.1 + p.lookback + p.grace)
    return decide (close < streamTime)) = _
  rw [checkedI64_eq_ok.mpr ⟨hroom.grace, rfl⟩]
  rfl

theorem decoded_entry (htag : p.Tags o val tag) (hv : o.valueSerde.Lawful) (hi : IsTime i.1) (v : VThis) :
    decoded o ((outerEncoding hk o.outerStore val).entry (i, tag v))
      = .ok (i.1, (outerEncoding hk o.outerStore val).key i, v, i.2.2) := by
  have hval : ∃ side, outerValueDecode (val (tag v)) = .ok (side, o.valueSerde.serialize o.outerStore v) := by
    rw [htag v]
    cases p.sideLeft
    · exact ⟨false, rfl⟩
    · exact ⟨true, rfl⟩
  obtain ⟨side, hval⟩ := hval
  show decoded o (outerKey i.1 i.2.1 (o.keySerde.serialize o.outerStore i.2.2), val (tag v)) = _
  unfold decoded
  simp only [hval, hv o.outerStore v, outerKeyKeyBytes_outerKey, hk o.outerStore, outerKeyTs_outerKey hi.isI64, bind,
    Except.bind, pure, Except.pure]
  rfl

def forwardOf (p : KStreamKStreamJoinProcessor K VThis VOther VO) (e : (Int × K) × VThis) : Record K VO :=
  ⟨some e.1.2, p.joiner e.2 none, e.1.1⟩

theorem release_spec [DecidableEq K] :
    ∀ (es : List ((Int × K) × VThis)) {s : TableStore Bytes Bytes} {f : Int × Bool × K → Option W},
      Buffered hk o.outerStore val s f → (∀ e ∈ es, IsTime e.1.1) →
      ∃ s', p.release (es.map fun e => (e.1.1,
          (outerEncoding hk o.outerStore val).key (e.1.1, p.sideLeft, e.1.2), e.2, e.1.2)) s
            = .ok (s', es.map p.forwardOf) ∧
        Buffered hk o.outerStore val s' fun i =>
          if i ∈ es.map fun e => (e.1.1, p.sideLeft, e.1.2) then none else f i
  | [], s, f, h, _ => ⟨s, rfl, by simpa using h⟩
  | e :: es, s, f, h, ht => by
    obtain ⟨prev, s₁, hdel, h₁⟩ := h.delete (i := (e.1.1, p.sideLeft, e.1.2)) (ht e (by simp))
    obtain ⟨s', hrest, h'⟩ := release_spec es h₁ fun e' he' => ht e' (List.mem_cons_of_mem _ he')
    refine ⟨s', ?_, ?_⟩
    · exact bind_eq_ok.mpr ⟨_, hdel, bind_eq_ok.mpr ⟨_, hrest, rfl⟩⟩
    · convert h' using 2 with i
      by_cases hi : i = (e.1.1, p.sideLeft, e.1.2)
      · subst hi
        simp
      · rw [Function.update_of_ne hi]
        exact if_congr (by rw [List.map_cons, List.mem_cons, or_iff_right hi]) rfl rfl

theorem closeScan_spec [DecidableEq K] (htag : p.Tags o val tag) (hinj : Function.Injective tag)
    (hv : o.valueSerde.Lawful) (h : Buffered hk o.outerStore val s f) {streamTime : Int}
    (hst : IsTime streamTime) (hgrace : 0 ≤ p.lookback + p.grace)
    (hown : ∀ t k w, f (t, p.sideLeft, k) = some w → p.Room t ∧ ∃ v, w = tag v) :
    ∃ (s' : TableStore Bytes Bytes) (es : List ((Int × K) × VThis)), p.closeScan o streamTime s = .ok (s', es.map p.forwardOf) ∧
      (Buffered hk o.outerStore val s' fun i => if p.ClosedAt streamTime i then none else f i) ∧
      (es.map Prod.fst).Nodup ∧
      ∀ e, e ∈ es ↔ f (e.1.1, p.sideLeft, e.1.2) = some (tag e.2) ∧
        e.1.1 + p.lookback + p.grace < streamTime := by
  have h0 : IsTime 0 := ⟨le_refl _, by decide⟩
  have hhi : IsTime (saturatingAdd streamTime 1) ∧ 0 ≤ saturatingAdd streamTime 1 ∧
      (∀ t, t < streamTime → t < saturatingAdd streamTime 1) := by
    simp only [IsTime, saturatingAdd, i64Min, i64Max] at hst ⊢
    exact ⟨by omega, by omega, fun t ht => by omega⟩
  obtain ⟨hhi, hle, hbelow⟩ := hhi
  obtain ⟨es₀, hrange, hmem₀, hnodup₀⟩ := h.range h0 hhi hle
  let own := es₀.filter fun e => decide (e.1.2.1 = p.sideLeft)
  let closed := own.filter fun e => decide (e.1.1 + p.lookback + p.grace < streamTime)
  have hmemOwn : ∀ e ∈ own, f (e.1.1, p.sideLeft, e.1.2.2) = some e.2 ∧ IsTime e.1.1 := fun e he => by
    obtain ⟨he, hside⟩ := List.mem_filter.mp he
    have hf := ((hmem₀ e).mp he).1
    refine ⟨?_, (h.table.valid hf).1⟩
    rw [← of_decide_eq_true hside]
    exact hf
  -- the closed entries are entries of the side, so their values are tagged ones
  obtain ⟨es, hes, hesMem⟩ := SortedMap.exists_eq_map
    (g := fun e : (Int × K) × VThis => ((e.1.1, p.sideLeft, e.1.2), tag e.2))
    (P := fun e => IsTime e.1.1) closed fun x hx => by
      obtain ⟨hf, ht⟩ := hmemOwn x (List.mem_of_mem_filter hx)
      obtain ⟨-, v, hw⟩ := hown _ _ _ hf
      have hside := of_decide_eq_true (List.mem_filter.mp (List.mem_of_mem_filter hx)).2
      exact ⟨((x.1.1, x.1.2.2), v), ht, Prod.ext (Prod.ext rfl (Prod.ext hside.symm rfl)) hw.symm⟩
  have hfilter₁ := filterM_map_eq (f := p.isOwn) (g := (outerEncoding hk o.outerStore val).entry) (l := es₀)
    fun e _ => isOwn_entry e.1 e.2
  have hfilter₂ := filterM_map_eq (f := p.isClosed streamTime)
    (g := (outerEncoding hk o.outerStore val).entry) (l := own) fun e he => by
      obtain ⟨hf, ht⟩ := hmemOwn e he
      exact isClosed_entry ht (hown _ _ _ hf).1 streamTime e.2
  have hdecoded : (closed.map (outerEncoding hk o.outerStore val).entry).mapM (decoded o)
      = .ok (es.map fun e => (e.1.1,
          (outerEncoding hk o.outerStore val).key (e.1.1, p.sideLeft, e.1.2), e.2, e.1.2)) := by
    rw [hes, List.map_map, List.mapM_map]
    exact mapM_eq_map fun e he => decoded_entry htag hv (hesMem e he) e.2
  obtain ⟨s', hrelease, h'⟩ := release_spec (p := p) es h hesMem
  have hclosedMem : ∀ e, e ∈ es ↔ f (e.1.1, p.sideLeft, e.1.2) = some (tag e.2) ∧
      e.1.1 + p.lookback + p.grace < streamTime := fun e => by
    have hiff : e ∈ es ↔ ((e.1.1, p.sideLeft, e.1.2), tag e.2) ∈ closed := by
      rw [hes, List.mem_map]
      refine ⟨fun he => ⟨e, he, rfl⟩, ?_⟩
      rintro ⟨e', he', heq⟩
      have hv' : e'.2 = e.2 := hinj (congrArg Prod.snd heq)
      have ht' : e'.1.1 = e.1.1 := congrArg (·.1.1) heq
      have hk' : e'.1.2 = e.1.2 := congrArg (·.1.2.2) heq
      rwa [← Prod.ext (Prod.ext ht' hk') hv']
    rw [hiff, List.mem_filter, List.mem_filter, hmem₀]
    simp only [decide_eq_true_eq]
    constructor
    · rintro ⟨⟨⟨hf, -⟩, -⟩, hclose⟩
      exact ⟨hf, hclose⟩
    · rintro ⟨hf, hclose⟩
      exact ⟨⟨⟨hf, (h.table.valid hf).1.1, hbelow _ (by omega)⟩, trivial⟩, hclose⟩
  refine ⟨s', es, ?_, ?_, ?_, hclosedMem⟩
  · unfold closeScan
    rw [hrange]
    show (do
      let own ← (es₀.map _).filterM p.isOwn
      let closed ← own.filterM (p.isClosed streamTime)
      p.release (← closed.mapM (decoded o)) s) = _
    rw [hfilter₁]
    show (do
      let closed ← (own.map _).filterM (p.isClosed streamTime)
      p.release (← closed.mapM (decoded o)) s) = _
    rw [hfilter₂]
    show (do p.release (← (closed.map _).mapM (decoded o)) s) = _
    rw [hdecoded]
    exact hrelease
  · convert h' using 2 with i
    rcases hf : f i with _ | w
    · rw [ite_self, ite_self]
    · refine if_congr ⟨fun hc => ?_, fun hi => ?_⟩ rfl rfl
      · obtain ⟨t, side, k⟩ := i
        obtain ⟨rfl, hclose⟩ := hc
        obtain ⟨-, v, rfl⟩ := hown _ _ _ hf
        exact List.mem_map.mpr ⟨((t, k), v), (hclosedMem _).mpr ⟨hf, hclose⟩, rfl⟩
      · obtain ⟨e, he, rfl⟩ := List.mem_map.mp hi
        exact ⟨rfl, ((hclosedMem e).mp he).2⟩
  · have hsub := (List.filter_sublist.trans List.filter_sublist : closed.Sublist es₀).map Prod.fst
    have hnd : (closed.map Prod.fst).Nodup := hsub.nodup hnodup₀
    rw [hes, List.map_map] at hnd
    exact (List.Nodup.of_map (fun tk : Int × K => (tk.1, p.sideLeft, tk.2)) (by rwa [List.map_map]))

def entered [DecidableEq K] (p : KStreamKStreamJoinProcessor K VThis VOther VO) (tag : VThis → W) (key : K)
    (v : VThis) (t : Int) (found : List Int) (streamTime : Int) (f : Int × Bool × K → Option W) :
    Int × Bool × K → Option W := fun i =>
  if i = (t, p.sideLeft, key) ∧ p.emitUnmatched = true ∧ found = [] ∧ ¬ t + p.fetchAfter < streamTime then
    some (tag v)
  else if i.1 ∈ found ∧ i.2 = (!p.sideLeft, key) then none else f i

def eager (p : KStreamKStreamJoinProcessor K VThis VOther VO) (key : K) (v : VThis) (t : Int)
    (found : List Int) (streamTime : Int) : List ((Int × K) × VThis) :=
  if p.emitUnmatched = true ∧ found = [] ∧ t + p.fetchAfter < streamTime then [((t, key), v)] else []

theorem enter_spec [DecidableEq K] (htag : p.Tags o val tag) (h : Buffered hk o.outerStore val s f) (key : K)
    (v : VThis) {t : Int} (streamTime : Int) {found : List Int} (ht : IsTime t) (hto : IsI64 (t + p.fetchAfter))
    (hfound : ∀ t ∈ found, IsTime t) :
    ∃ s₁ s₂, p.forget (o.keySerde.serialize o.outerStore key) found s = .ok s₁ ∧
      (if p.emitUnmatched && found.isEmpty then
        p.pad o (o.keySerde.serialize o.outerStore key) key v t streamTime s₁
      else .ok (s₁, [])) = .ok (s₂, (p.eager key v t found streamTime).map p.forwardOf) ∧
      Buffered hk o.outerStore val s₂ (p.entered tag key v t found streamTime f) := by
  obtain ⟨s₁, hforget, h₁⟩ := forget_spec (p := p) key found h hfound
  have hcond : (p.emitUnmatched && found.isEmpty) = true ↔ p.emitUnmatched = true ∧ found = [] := by simp
  by_cases hemit : p.emitUnmatched = true ∧ found = []
  · by_cases hlate : t + p.fetchAfter < streamTime
    · refine ⟨s₁, s₁, hforget, ?_, ?_⟩
      · rw [if_pos (hcond.mpr hemit), pad_late hto hlate, eager, if_pos ⟨hemit.1, hemit.2, hlate⟩]
        rfl
      · convert h₁ using 2
        exact if_neg fun hc => hc.2.2.2 hlate
    · obtain ⟨s₂, hpad, h₂⟩ := pad_spec htag h₁ (v := v) ht hto hlate
      refine ⟨s₁, s₂, hforget, ?_, ?_⟩
      · rw [if_pos (hcond.mpr hemit), hpad, eager, if_neg fun hc => hlate hc.2.2]
        rfl
      · refine (funext fun i => ?_ : p.entered tag key v t found streamTime f = _) ▸ h₂
        by_cases hi : i = (t, p.sideLeft, key)
        · rw [hi, Function.update_self]
          exact if_pos ⟨rfl, hemit.1, hemit.2, hlate⟩
        · rw [Function.update_of_ne hi]
          exact if_neg fun hc => hi hc.1
  · refine ⟨s₁, s₁, hforget, ?_, ?_⟩
    · rw [if_neg fun hc => hemit (hcond.mp hc), eager, if_neg fun hc => hemit ⟨hc.1, hc.2.1⟩]
      rfl
    · convert h₁ using 2
      exact if_neg fun hc => hemit ⟨hc.2.1, hc.2.2.1⟩

theorem outerPart_spec [DecidableEq K] (htag : p.Tags o val tag) (hinj : Function.Injective tag)
    (hv : o.valueSerde.Lawful) {buffer : OuterBuffer} (h : Buffered hk o.outerStore val buffer.store f)
    (key : K) (v : VThis) {t : Int} {found : List Int} (ht : IsTime t) (hto : IsI64 (t + p.fetchAfter))
    (hfound : ∀ t ∈ found, IsTime t) (hst : IsTime (max buffer.tracker.streamTime t))
    (hgrace : 0 ≤ p.lookback + p.grace) (hroom : p.emitUnmatched = true → p.Room t)
    (hown : ∀ t k w, f (t, p.sideLeft, k) = some w → p.Room t ∧ ∃ v, w = tag v) :
    ∃ (s' : TableStore Bytes Bytes) (es : List ((Int × K) × VThis)),
      p.outerPart o key v t found buffer = .ok (⟨s', ⟨max buffer.tracker.streamTime t⟩⟩,
        (p.eager key v t found (max buffer.tracker.streamTime t) ++ es).map p.forwardOf) ∧
      (Buffered hk o.outerStore val s' fun i =>
        if p.ClosedAt (max buffer.tracker.streamTime t) i then none
        else p.entered tag key v t found (max buffer.tracker.streamTime t) f i) ∧
      (es.map Prod.fst).Nodup ∧
      ∀ e, e ∈ es ↔ p.entered tag key v t found (max buffer.tracker.streamTime t) f
          (e.1.1, p.sideLeft, e.1.2) = some (tag e.2) ∧
        e.1.1 + p.lookback + p.grace < max buffer.tracker.streamTime t := by
  obtain ⟨s₁, s₂, hforget, hpad, h₂⟩ :=
    enter_spec htag h key v (max buffer.tracker.streamTime t) ht hto hfound
  have hown₂ : ∀ t' k w, p.entered tag key v t found (max buffer.tracker.streamTime t) f (t', p.sideLeft, k)
      = some w → p.Room t' ∧ ∃ v, w = tag v := by
    intro t' k w hw
    unfold entered at hw
    split at hw
    · rename_i hc
      cases hc.1
      exact ⟨hroom hc.2.1, v, (Option.some.inj hw).symm⟩
    · split at hw
      · cases hw
      · exact hown _ _ _ hw
  obtain ⟨s', es, hscan, h', hnodup, hmem⟩ := closeScan_spec htag hinj hv h₂ hst hgrace hown₂
  refine ⟨s', es, ?_, h', hnodup, hmem⟩
  unfold outerPart
  simp only [hforget]
  refine (ite_bind_of_ok hpad).trans ?_
  rw [List.map_append]
  exact bind_eq_ok.mpr ⟨_, hscan, rfl⟩

end Processor

end KStreamKStreamJoinProcessor

end KrabkaStreams
