import KrabkaStreams.Lib.EncodedMap
import KrabkaStreams.Lib.Lists
import KrabkaStreams.Proofs.Schema
import KrabkaStreams.Stores.JoinWindow

/-!
# The join window store as a list of its puts

The store retains the list of its puts (`Retains.put`, `Retains.fetch`). A replay leaves the sequence
number at zero, so a later put may take the entry of a replayed one (`retains_restored`).
-/

namespace KrabkaStreams

open Lists

variable {K V : Type} {puts : List (JoinPut K V)} {e : (Bytes × Int × Nat) × V}

def joinEncoding (valueBytes : V → Bytes) : SortedMap.Encoding Bytes Bytes (Bytes × Int × Nat) V where
  index i := IsI64 i.2.1 ∧ i.2.2 < 2 ^ 31
  value _ := True
  key i := storeKey i.1 i.2.1 i.2.2
  val := valueBytes
  inj hi hj he := by
    obtain ⟨hk, ht, hs⟩ := storeKey_inj_seq hi.1 hj.1 hi.2 hj.2 he
    exact Prod.ext hk (Prod.ext ht hs)

namespace JoinWindowBytesStore

theorem put_eq (s : JoinWindowBytesStore K V) (key : K) (t : Int) (v : V) :
    s.put key t v = { s with
      backend := s.backend.insert (storeKey (s.keyBytes key) t s.seqnum) (s.valueBytes v)
      changelog := if s.logging then
        s.changelog ++ [(storeKey (s.keyBytes key) t s.seqnum, some (s.valueBytes v))] else s.changelog
      seqnum := (s.seqnum + 1) % 2 ^ 31 } := by
  show (if s.logging = true then _ else _) = _
  split <;> rfl

structure Retains (s : JoinWindowBytesStore K V) (ws : List ((Bytes × Int × Nat) × V)) : Prop where
  value : s.valueSerde.Lawful
  list : SortedMap.HoldsList (joinEncoding s.valueBytes) s.backend ws

def numbered (s : JoinWindowBytesStore K V) (puts : List (JoinPut K V)) :
    List ((Bytes × Int × Nat) × V) :=
  puts.zipIdx.map fun p => ((s.keyBytes p.1.key, p.1.timestamp, p.2), p.1.value)

theorem numbered_snoc (s : JoinWindowBytesStore K V) (puts : List (JoinPut K V)) (p : JoinPut K V) :
    s.numbered (puts ++ [p])
      = s.numbered puts ++ [((s.keyBytes p.key, p.timestamp, puts.length), p.value)] := by
  simp [numbered, List.zipIdx_append]

theorem mem_numbered {s : JoinWindowBytesStore K V} :
    e ∈ s.numbered puts ↔ ∃ p, puts[e.1.2.2]? = some p ∧
      s.keyBytes p.key = e.1.1 ∧ p.timestamp = e.1.2.1 ∧ p.value = e.2 := by
  unfold numbered
  rw [List.mem_map]
  constructor
  · rintro ⟨⟨p, i⟩, hp, rfl⟩
    exact ⟨p, List.mk_mem_zipIdx_iff_getElem?.mp hp, rfl, rfl, rfl⟩
  · obtain ⟨⟨kb, t, i⟩, v⟩ := e
    rintro ⟨p, hp, rfl, rfl, rfl⟩
    exact ⟨(p, i), List.mk_mem_zipIdx_iff_getElem?.mpr hp, rfl⟩

theorem lt_of_mem_numbered {s : JoinWindowBytesStore K V} (he : e ∈ s.numbered puts) :
    e.1.2.2 < puts.length := by
  obtain ⟨p, hp, -⟩ := mem_numbered.mp he
  exact (List.getElem?_eq_some_iff.mp hp).1

theorem filter_numbered (s : JoinWindowBytesStore K V) (test : Bytes → Int → Bool)
    (puts : List (JoinPut K V)) :
    ((s.numbered puts).filter fun e => test e.1.1 e.1.2.1).map (fun e => (e.1.2.1, e.2))
      = (puts.filter fun p => test (s.keyBytes p.key) p.timestamp).map fun p => (p.timestamp, p.value) := by
  induction puts using List.reverseRecOn with
  | nil => rfl
  | append_singleton puts p ih =>
    rw [numbered_snoc, List.filter_append, List.filter_append, List.map_append, List.map_append, ih]
    by_cases h : test (s.keyBytes p.key) p.timestamp <;> simp [h]

variable {s : JoinWindowBytesStore K V} {ws : List ((Bytes × Int × Nat) × V)}

theorem Retains.put (h : s.Retains ws) (key : K) {t : Int} (ht : IsI64 t) (v : V)
    (hseq : s.seqnum < 2 ^ 31) :
    (s.put key t v).Retains
      ((ws.filter fun e => e.1 ≠ (s.keyBytes key, t, s.seqnum))
        ++ [((s.keyBytes key, t, s.seqnum), v)]) := by
  rw [put_eq]
  exact ⟨h.value, h.list.insert (i := (s.keyBytes key, t, s.seqnum)) ⟨ht, hseq⟩ trivial⟩

theorem Retains.scanned (h : s.Retains ws) (kb : Bytes) (he : e ∈ ws) :
    s.scanned kb ((joinEncoding s.valueBytes).entry e)
      = .ok (if e.1.1 ≠ kb then [] else [(e.1.2.1, e.2)]) := by
  obtain ⟨⟨ht, -⟩, -⟩ := h.list.valid he
  have hdec : s.decodeValue (s.valueBytes e.2) = .ok e.2 := by
    unfold JoinWindowBytesStore.decodeValue JoinWindowBytesStore.valueBytes
    rw [h.value]
  show s.scanned kb (storeKey e.1.1 e.1.2.1 e.1.2.2, s.valueBytes e.2) = _
  unfold JoinWindowBytesStore.scanned
  rw [keyBytesOf_storeKey, windowStartOf_storeKey _ ht, hdec]
  by_cases hk : e.1.1 = kb
  · rw [if_neg (by simpa using hk)]
    simp [bind, Except.bind, pure, Except.pure, hk]
  · rw [if_pos hk]
    simp [bind, Except.bind, pure, Except.pure, hk]

/-- What a fetch reads: the timestamps of the key between the bounds, as unsigned numbers. -/
def InScan (kb : Bytes) (timeFrom timeTo : Int) (kb' : Bytes) (t : Int) : Bool :=
  kb' = kb ∧ max timeFrom 0 % 2 ^ 64 ≤ t % 2 ^ 64 ∧ t % 2 ^ 64 < saturatingAdd timeTo 1 % 2 ^ 64

theorem Retains.fetch (h : s.Retains ws) (key : K) (timeFrom timeTo : Int) :
    ∃ found, s.fetch key timeFrom timeTo = .ok found ∧
      found.Perm ((ws.filter fun e => InScan (s.keyBytes key) timeFrom timeTo e.1.1 e.1.2.1).map
        fun e => (e.1.2.1, e.2)) := by
  let kb := s.keyBytes key
  obtain ⟨es, hes, hperm⟩ := h.list.range (storeKey kb (max timeFrom 0) 0)
    (storeKey kb (saturatingAdd timeTo 1) 0)
  have hmem : ∀ e ∈ es, e ∈ ws := fun e he => List.mem_of_mem_filter (hperm.subset he)
  refine ⟨(es.filter fun e => ¬ e.1.1 ≠ kb).map fun e => (e.1.2.1, e.2), ?_, ?_⟩
  · unfold JoinWindowBytesStore.fetch
    dsimp only
    rw [show s.backend.range _ _ = _ from hes]
    exact mapM_flatten fun e he => h.scanned kb (hmem e he)
  · refine (List.Perm.map _ (hperm.filter _)).trans (.of_eq ?_)
    rw [List.filter_filter]
    refine congrArg _ (List.filter_congr fun e he => ?_)
    have hseq := (h.list.valid he).1.2
    by_cases hk : e.1.1 = kb
    · have hlo : storeKey kb (max timeFrom 0) 0 ≤ storeKey kb e.1.2.1 e.1.2.2
          ↔ max timeFrom 0 % 2 ^ 64 ≤ e.1.2.1 % 2 ^ 64 := by
        rw [← not_lt, storeKey_lt_bound_iff kb _ _ hseq, not_lt]
      have hhi := storeKey_lt_bound_iff kb e.1.2.1 (saturatingAdd timeTo 1) hseq
      simp [InScan, joinEncoding, hk, hlo, hhi, kb]
    · simp [InScan, hk, kb]

theorem inScan_iff {kb kb' : Bytes} {timeFrom timeTo t : Int} (hf : IsI64 timeFrom) (hto : IsI64 timeTo)
    (ht : IsI64 t) (h : -1 ≤ timeTo) : InScan kb timeFrom timeTo kb' t = true ↔
      kb' = kb ∧ timeFrom ≤ t ∧ t ≤ timeTo ∧ 0 ≤ t ∧ (timeTo = i64Max → t ≠ i64Max) := by
  simp only [IsI64, i64Min, i64Max] at hf hto ht
  unfold InScan
  rw [decide_eq_true_eq]
  simp only [saturatingAdd, i64Min, i64Max]
  refine and_congr_right fun _ => ?_
  omega

theorem inScan_iff_of_below {kb kb' : Bytes} {timeFrom timeTo t : Int} (hf : IsI64 timeFrom)
    (hto : IsI64 timeTo) (ht : IsI64 t) (h : timeTo < -1) : InScan kb timeFrom timeTo kb' t = true ↔
      kb' = kb ∧ (max timeFrom 0 ≤ t ∨ t ≤ timeTo) := by
  simp only [IsI64, i64Min, i64Max] at hf hto ht
  unfold InScan
  rw [decide_eq_true_eq]
  simp only [saturatingAdd, i64Min, i64Max]
  refine and_congr_right fun _ => ?_
  omega

theorem putAll_snoc (s : JoinWindowBytesStore K V) (puts : List (JoinPut K V)) (p : JoinPut K V) :
    s.putAll (puts ++ [p]) = (s.putAll puts).put p.key p.timestamp p.value :=
  List.foldl_append

theorem putAll_frame (s : JoinWindowBytesStore K V) (puts : List (JoinPut K V)) :
    (s.putAll puts).keyBytes = s.keyBytes ∧ (s.putAll puts).valueBytes = s.valueBytes ∧
      (s.putAll puts).logging = s.logging := by
  induction puts using List.reverseRecOn with
  | nil => exact ⟨rfl, rfl, rfl⟩
  | append_singleton puts p ih =>
    rw [putAll_snoc, put_eq]
    exact ih

theorem seqnum_putAll (hs : s.seqnum = 0) (hlen : puts.length < 2 ^ 31) :
    (s.putAll puts).seqnum = puts.length := by
  induction puts using List.reverseRecOn with
  | nil => exact hs
  | append_singleton puts p ih =>
    rw [List.length_append, List.length_singleton] at hlen ⊢
    rw [putAll_snoc, put_eq]
    show ((s.putAll puts).seqnum + 1) % 2 ^ 31 = _
    rw [ih (by omega)]
    omega

theorem Retains.putAll (h : s.Retains ws) (hs : s.seqnum = 0) (hlen : puts.length < 2 ^ 31)
    (ht : ∀ p ∈ puts, IsI64 p.timestamp) :
    (s.putAll puts).Retains
      ((ws.filter fun e => e.1 ∉ (s.numbered puts).map Prod.fst) ++ s.numbered puts) := by
  induction puts using List.reverseRecOn with
  | nil =>
    have hall : (ws.filter fun e => e.1 ∉ (s.numbered []).map Prod.fst) = ws := by simp [numbered]
    rw [hall]
    simpa [numbered, JoinWindowBytesStore.putAll] using h
  | append_singleton puts p ih =>
    have hlen' : puts.length < 2 ^ 31 := by
      rw [List.length_append, List.length_singleton] at hlen
      omega
    have hseq := seqnum_putAll hs hlen'
    have hput := (ih hlen' fun q hq => ht q (List.mem_append_left _ hq)).put p.key (ht p (by simp))
      p.value (by rw [hseq]; exact hlen')
    rw [← putAll_snoc, hseq, (s.putAll_frame puts).1, List.filter_append] at hput
    -- no earlier position is the new one, so only the entries retained before can be taken
    have hkeep : ((s.numbered puts).filter fun e =>
        e.1 ≠ (s.keyBytes p.key, p.timestamp, puts.length)) = s.numbered puts := by
      refine List.filter_eq_self.mpr fun e he => ?_
      have hlt := lt_of_mem_numbered he
      rw [decide_eq_true_eq]
      rintro heq
      rw [heq] at hlt
      exact lt_irrefl _ hlt
    rw [hkeep, List.filter_filter, List.append_assoc, ← numbered_snoc] at hput
    convert hput using 3
    rw [numbered_snoc, List.map_append]
    funext e
    rw [Bool.eq_iff_iff]
    simp [and_comm]

theorem fetch_putAll (hv : s.valueSerde.Lawful) (hempty : s.backend = .empty) (hs : s.seqnum = 0)
    (hlen : puts.length < 2 ^ 31) (ht : ∀ p ∈ puts, IsTime p.timestamp) (key : K) {timeFrom timeTo : Int}
    (hf : IsI64 timeFrom) (hto : IsI64 timeTo) (h : -1 ≤ timeTo) :
    ∃ found, (s.putAll puts).fetch key timeFrom timeTo = .ok found ∧
      found.Perm ((puts.filter fun p => s.keyBytes p.key = s.keyBytes key ∧ timeFrom ≤ p.timestamp ∧
        p.timestamp ≤ timeTo ∧ (timeTo = i64Max → p.timestamp ≠ i64Max)).map
          fun p => (p.timestamp, p.value)) := by
  have hnew : s.Retains [] := ⟨hv, hempty ▸ .empty _⟩
  obtain ⟨found, hfound, hperm⟩ :=
    (hnew.putAll hs hlen fun p hp => (ht p hp).isI64).fetch key timeFrom timeTo
  refine ⟨found, hfound, hperm.trans (.of_eq ?_)⟩
  rw [(s.putAll_frame puts).1, List.filter_nil, List.nil_append,
    filter_numbered s (InScan (s.keyBytes key) timeFrom timeTo)]
  refine congrArg _ (List.filter_congr fun p hp => ?_)
  rw [Bool.eq_iff_iff, inScan_iff hf hto (ht p hp).isI64 h, decide_eq_true_eq]
  have h0 := (ht p hp).1
  tauto

/-- The keys and the timestamps in the store are those of the puts: a put may take the entry of an earlier
one after the sequence number went round, but only at its own key and timestamp. -/
structure Covers (s : JoinWindowBytesStore K V) (puts : List (JoinPut K V)) : Prop where
  seqnum : s.seqnum < 2 ^ 31
  entries : ∃ ws, s.Retains ws ∧
    ∀ kb t, (∃ n v, ((kb, t, n), v) ∈ ws) ↔ ∃ p ∈ puts, s.keyBytes p.key = kb ∧ p.timestamp = t

theorem Covers.empty (hv : s.valueSerde.Lawful) (hempty : s.backend = .empty) (hs : s.seqnum = 0) :
    s.Covers [] where
  seqnum := by rw [hs]; decide
  entries := ⟨[], ⟨hv, hempty ▸ .empty _⟩, by simp⟩

theorem Covers.put (h : s.Covers puts) (key : K) {t : Int} (ht : IsI64 t) (v : V) :
    (s.put key t v).Covers (puts ++ [⟨key, t, v⟩]) := by
  obtain ⟨hseq, ws, hws, hmem⟩ := h
  have hframe : (s.put key t v).keyBytes = s.keyBytes := by
    rw [put_eq]
    rfl
  refine ⟨?_, _, hws.put key ht v hseq, fun kb t' => ?_⟩
  · rw [put_eq]
    exact Nat.mod_lt _ (by decide)
  · have hiff := hmem kb t'
    rw [hframe]
    constructor
    · rintro ⟨n, v', he⟩
      rcases List.mem_append.mp he with he | he
      · obtain ⟨p, hp, hpk⟩ := hiff.mp ⟨n, v', List.mem_of_mem_filter he⟩
        exact ⟨p, List.mem_append_left _ hp, hpk⟩
      · cases List.mem_singleton.mp he
        exact ⟨_, List.mem_append_right _ (List.mem_singleton_self _), rfl, rfl⟩
    · rintro ⟨p, hp, hk, hpt⟩
      by_cases hsame : kb = s.keyBytes key ∧ t' = t
      · exact ⟨s.seqnum, v, List.mem_append_right _ (by rw [hsame.1, hsame.2]; simp)⟩
      · rcases List.mem_append.mp hp with hp | hp
        · obtain ⟨n, v', he⟩ := hiff.mpr ⟨p, hp, hk, hpt⟩
          refine ⟨n, v', List.mem_append_left _ (List.mem_filter.mpr ⟨he, decide_eq_true ?_⟩)⟩
          intro heq
          cases heq
          exact hsame ⟨rfl, rfl⟩
        · cases List.mem_singleton.mp hp
          exact absurd ⟨hk.symm, hpt.symm⟩ hsame

theorem covers_putAll (hv : s.valueSerde.Lawful) (hempty : s.backend = .empty) (hs : s.seqnum = 0)
    (ht : ∀ p ∈ puts, IsI64 p.timestamp) : (s.putAll puts).Covers puts := by
  induction puts using List.reverseRecOn with
  | nil => exact .empty hv hempty hs
  | append_singleton puts p ih =>
    rw [putAll_snoc]
    exact (ih fun q hq => ht q (List.mem_append_left _ hq)).put p.key (ht p (by simp)) p.value

theorem Covers.fetch (h : s.Covers puts) (ht : ∀ p ∈ puts, IsTime p.timestamp) (key : K)
    {timeFrom timeTo : Int} (hf : IsI64 timeFrom) (hto : IsI64 timeTo) (h0 : -1 ≤ timeTo) :
    ∃ found, s.fetch key timeFrom timeTo = .ok found ∧ ∀ t, t ∈ found.map Prod.fst ↔
      ∃ p ∈ puts, s.keyBytes p.key = s.keyBytes key ∧ p.timestamp = t ∧ timeFrom ≤ t ∧ t ≤ timeTo ∧
        (timeTo = i64Max → t ≠ i64Max) := by
  obtain ⟨-, ws, hws, hmem⟩ := h
  obtain ⟨found, hfound, hperm⟩ := hws.fetch key timeFrom timeTo
  refine ⟨found, hfound, fun t => ?_⟩
  have hscan : ∀ e ∈ ws, InScan (s.keyBytes key) timeFrom timeTo e.1.1 e.1.2.1 = true ↔ _ := fun e he =>
    inScan_iff hf hto (hws.list.valid he).1.1 h0
  rw [(hperm.map Prod.fst).mem_iff, List.map_map, List.mem_map]
  constructor
  · rintro ⟨⟨⟨kb, t', n⟩, v⟩, he, rfl⟩
    obtain ⟨he, hin⟩ := List.mem_filter.mp he
    obtain ⟨hkb, hlo, hhi, -, hlast⟩ := (hscan _ he).mp hin
    obtain ⟨p, hp, hpk, hpt⟩ := (hmem kb t').mp ⟨n, v, he⟩
    exact ⟨p, hp, hpk.trans hkb, hpt, hlo, hhi, hlast⟩
  · rintro ⟨p, hp, hpk, rfl, hlo, hhi, hlast⟩
    obtain ⟨n, v, he⟩ := (hmem _ _).mpr ⟨p, hp, hpk, rfl⟩
    exact ⟨_, List.mem_filter.mpr ⟨he, (hscan _ he).mpr ⟨rfl, hlo, hhi, (ht p hp).1, hlast⟩⟩, rfl⟩

def logEntry (valueBytes : V → Bytes) (e : (Bytes × Int × Nat) × V) : Bytes × Option Bytes :=
  (storeKey e.1.1 e.1.2.1 e.1.2.2, some (valueBytes e.2))

theorem changelog_putAll (hs : s.seqnum = 0) (hlog : s.logging = true) (puts : List (JoinPut K V))
    (hlen : puts.length < 2 ^ 31) :
    (s.putAll puts).changelog = s.changelog ++ (s.numbered puts).map (logEntry s.valueBytes) := by
  induction puts using List.reverseRecOn with
  | nil => simp [putAll, numbered]
  | append_singleton puts p ih =>
    have hlen' : puts.length < 2 ^ 31 := by
      rw [List.length_append, List.length_singleton] at hlen
      omega
    obtain ⟨hk, hv, hl⟩ := s.putAll_frame puts
    rw [putAll_snoc, put_eq, numbered_snoc, List.map_append, ← List.append_assoc, ← ih hlen']
    rw [hl, hlog, if_pos rfl, seqnum_putAll hs hlen', hk, hv]
    rfl

theorem replay_retains (hempty : s.backend = .empty)
    (hws : (ws.map Prod.fst).Nodup) (hi : ∀ e ∈ ws, IsI64 e.1.2.1 ∧ e.1.2.2 < 2 ^ 31) :
    ∃ backend, s.replay (ws.map (logEntry s.valueBytes)) = { s with backend := backend } ∧
      SortedMap.HoldsList (joinEncoding s.valueBytes) backend ws := by
  induction ws using List.reverseRecOn with
  | nil =>
    refine ⟨s.backend, rfl, ?_⟩
    rw [hempty]
    exact .empty _
  | append_singleton ws e ih =>
    rw [List.map_append, List.nodup_append] at hws
    obtain ⟨backend, hrep, hlist⟩ := ih hws.1 fun e he => hi e (List.mem_append_left _ he)
    have hfresh : e.1 ∉ ws.map Prod.fst := fun hm => hws.2.2 _ hm e.1 (by simp) rfl
    have hrep' : s.replay ((ws ++ [e]).map (logEntry s.valueBytes)) = (s.replay
        (ws.map (logEntry s.valueBytes))).applyChangelog (logEntry s.valueBytes e).1
          (logEntry s.valueBytes e).2 := by
      unfold replay
      rw [List.map_append, List.foldl_append]
      rfl
    refine ⟨backend.insert (storeKey e.1.1 e.1.2.1 e.1.2.2) (s.valueBytes e.2), ?_, ?_⟩
    · rw [hrep', hrep]
      rfl
    · exact hlist.insert_fresh (i := e.1) (hi e (by simp)) trivial hfresh

theorem nodup_numbered (s : JoinWindowBytesStore K V) (puts : List (JoinPut K V)) :
    ((s.numbered puts).map Prod.fst).Nodup := by
  have hpos : ((s.numbered puts).map Prod.fst).map (fun i => i.2.2) = List.range puts.length := by
    simp [numbered, List.map_map, Function.comp_def, List.range_eq_range']
  exact List.Nodup.of_map _ (hpos ▸ List.nodup_range)

theorem retains_restored (hv : s.valueSerde.Lawful) {old new : List (JoinPut K V)}
    (hlen : old.length + new.length < 2 ^ 31) (ht : ∀ p ∈ old ++ new, IsI64 p.timestamp) :
    (s.restored old new).Retains
      (((s.numbered old).filter fun e => e.1 ∉ (s.numbered new).map Prod.fst) ++ s.numbered new) := by
  have hlog := changelog_putAll (s := inMemory s.keySerde s.valueSerde s.changelogTopic) rfl rfl
    old (by omega)
  have hi : ∀ e ∈ s.numbered old, IsI64 e.1.2.1 ∧ e.1.2.2 < 2 ^ 31 := fun e he => by
    obtain ⟨p, hp, -, hpt, -⟩ := mem_numbered.mp he
    have := lt_of_mem_numbered he
    exact ⟨hpt ▸ ht p (List.mem_append_left _ (List.mem_of_getElem? hp)), by omega⟩
  obtain ⟨backend, hrep, hlist⟩ := replay_retains (s := s.clear) rfl (s.nodup_numbered old) hi
  unfold restored
  rw [hlog]
  show Retains (putAll (s.clear.replay ((s.numbered old).map (logEntry s.valueBytes))) new) _
  rw [show s.clear.replay ((s.numbered old).map (logEntry s.valueBytes)) = _ from hrep]
  exact Retains.putAll (s := { s.clear with backend := backend }) ⟨hv, hlist⟩ rfl (by omega)
    fun p hp => ht p (List.mem_append_right _ hp)

def wanted (kb : Bytes) (timeFrom timeTo : Int) (kb' : Bytes) (t : Int) : Bool :=
  kb' = kb ∧ timeFrom ≤ t ∧ t ≤ timeTo ∧ 0 ≤ t

theorem keyBytes_restored (s : JoinWindowBytesStore K V) (old new : List (JoinPut K V)) :
    (s.restored old new).keyBytes = s.keyBytes := by
  have hrep : ∀ (t : JoinWindowBytesStore K V) es, (t.replay es).keyBytes = t.keyBytes := fun t es => by
    induction es generalizing t with
    | nil => rfl
    | cons e es ih => exact ih (t.applyChangelog e.1 e.2)
  unfold restored
  rw [(putAll_frame _ new).1, hrep]
  rfl

theorem wants_eq (s : JoinWindowBytesStore K V) (old new : List (JoinPut K V)) (key : K)
    (timeFrom timeTo : Int) :
    ((old ++ new).filter (s.Wants key timeFrom timeTo)).map (fun p => (p.timestamp, p.value))
      = ((s.numbered old ++ s.numbered new).filter fun e =>
        wanted (s.keyBytes key) timeFrom timeTo e.1.1 e.1.2.1).map fun e => (e.1.2.1, e.2) := by
  simp only [List.filter_append, List.map_append,
    filter_numbered s (wanted (s.keyBytes key) timeFrom timeTo)]
  rfl

section Restored

variable {old new : List (JoinPut K V)} {key : K} {timeFrom timeTo : Int}

theorem fetchesAll_restored_iff (hv : s.valueSerde.Lawful) (hlen : old.length + new.length < 2 ^ 31)
    (ht : ∀ p ∈ old ++ new, IsI64 p.timestamp) :
    (s.restored old new).FetchesAll (old ++ new) key timeFrom timeTo ↔
      (((((s.numbered old).filter fun e => e.1 ∉ (s.numbered new).map Prod.fst) ++ s.numbered new).filter
          fun e => InScan (s.keyBytes key) timeFrom timeTo e.1.1 e.1.2.1).map
        fun e => (e.1.2.1, e.2)).Perm
      (((s.numbered old ++ s.numbered new).filter fun e =>
        wanted (s.keyBytes key) timeFrom timeTo e.1.1 e.1.2.1).map fun e => (e.1.2.1, e.2)) := by
  obtain ⟨found, hfound, hperm⟩ := (retains_restored hv hlen ht).fetch key timeFrom timeTo
  rw [keyBytes_restored] at hperm
  have hwant : (s.restored old new).Wants key timeFrom timeTo = s.Wants key timeFrom timeTo := by
    funext p
    unfold Wants
    rw [keyBytes_restored]
  unfold FetchesAll
  simp only [hwant, wants_eq]
  constructor
  · rintro ⟨found', hfound', hperm'⟩
    cases hfound.symm.trans hfound'
    exact hperm.symm.trans hperm'
  · exact fun h => ⟨found, hfound, hperm.trans h⟩

theorem mem_append_numbered_of_mem {p : JoinPut K V} (hp : p ∈ old ++ new) :
    ∃ e ∈ s.numbered old ++ s.numbered new, e.1.1 = s.keyBytes p.key ∧ e.1.2.1 = p.timestamp := by
  have hmem : ∀ puts : List (JoinPut K V), p ∈ puts →
      ∃ e ∈ s.numbered puts, e.1.1 = s.keyBytes p.key ∧ e.1.2.1 = p.timestamp := fun puts hp => by
    obtain ⟨i, hi⟩ := List.mem_iff_getElem?.mp hp
    exact ⟨((s.keyBytes p.key, p.timestamp, i), p.value), mem_numbered.mpr ⟨p, hi, rfl, rfl, rfl⟩, rfl, rfl⟩
  rcases List.mem_append.mp hp with hp | hp
  · obtain ⟨e, he, h⟩ := hmem old hp
    exact ⟨e, List.mem_append_left _ he, h⟩
  · obtain ⟨e, he, h⟩ := hmem new hp
    exact ⟨e, List.mem_append_right _ he, h⟩

theorem exists_put_of_mem_append_numbered (he : e ∈ s.numbered old ++ s.numbered new) :
    ∃ p ∈ old ++ new, s.keyBytes p.key = e.1.1 ∧ p.timestamp = e.1.2.1 := by
  rcases List.mem_append.mp he with he | he
  · obtain ⟨p, hp, hk, ht, -⟩ := mem_numbered.mp he
    exact ⟨p, List.mem_append_left _ (List.mem_of_getElem? hp), hk, ht⟩
  · obtain ⟨p, hp, hk, ht, -⟩ := mem_numbered.mp he
    exact ⟨p, List.mem_append_right _ (List.mem_of_getElem? hp), hk, ht⟩

theorem fetchesAll_restored_iff_of_below (hv : s.valueSerde.Lawful)
    (hlen : old.length + new.length < 2 ^ 31) (ht : ∀ p ∈ old ++ new, IsI64 p.timestamp)
    (hf : IsI64 timeFrom) (hto : IsI64 timeTo) (h : timeTo < -1) :
    (s.restored old new).FetchesAll (old ++ new) key timeFrom timeTo ↔
      ∀ p ∈ old ++ new, s.keyBytes p.key = s.keyBytes key →
        ¬ (max timeFrom 0 ≤ p.timestamp ∨ p.timestamp ≤ timeTo) := by
  have hnone : (s.numbered old ++ s.numbered new).filter (fun e =>
      wanted (s.keyBytes key) timeFrom timeTo e.1.1 e.1.2.1) = [] := by
    refine List.filter_eq_nil_iff.mpr fun e _ he => ?_
    obtain ⟨-, -, hle, h0⟩ := of_decide_eq_true he
    omega
  rw [fetchesAll_restored_iff hv hlen ht, hnone, List.map_nil, List.perm_nil, List.map_eq_nil_iff,
    List.filter_eq_nil_iff]
  constructor
  · intro hscan p hp hk hout
    obtain ⟨e, he, hek, het⟩ := mem_append_numbered_of_mem (s := s) hp
    -- an entry that was taken has the key and the timestamp of the one that took it
    obtain ⟨e', he', hsame⟩ : ∃ e' ∈ ((s.numbered old).filter fun e =>
        e.1 ∉ (s.numbered new).map Prod.fst) ++ s.numbered new, e'.1 = e.1 := by
      rcases List.mem_append.mp he with he | he
      · by_cases htaken : e.1 ∈ (s.numbered new).map Prod.fst
        · obtain ⟨e', he', hsame⟩ := List.mem_map.mp htaken
          exact ⟨e', List.mem_append_right _ he', hsame⟩
        · exact ⟨e, List.mem_append_left _ (List.mem_filter.mpr ⟨he, by simpa using htaken⟩), rfl⟩
      · exact ⟨e, List.mem_append_right _ he, rfl⟩
    refine hscan e' he' ((inScan_iff_of_below hf hto ?_ h).mpr ?_)
    · rw [hsame, het]
      exact ht p hp
    · rw [hsame, hek, het]
      exact ⟨hk, hout⟩
  · intro hfree e he hscan
    have he' : e ∈ s.numbered old ++ s.numbered new := by
      rcases List.mem_append.mp he with he | he
      · exact List.mem_append_left _ (List.mem_of_mem_filter he)
      · exact List.mem_append_right _ he
    obtain ⟨p, hp, hk, hpt⟩ := exists_put_of_mem_append_numbered he'
    obtain ⟨hkb, hout⟩ := (inScan_iff_of_below hf hto (hpt ▸ ht p hp) h).mp hscan
    exact hfree p hp (hk.trans hkb) (hpt ▸ hout)

theorem fetchesAll_restored_iff_of_le (hv : s.valueSerde.Lawful)
    (hlen : old.length + new.length < 2 ^ 31) (ht : ∀ p ∈ old ++ new, IsI64 p.timestamp)
    (hf : IsI64 timeFrom) (hto : IsI64 timeTo) (h : -1 ≤ timeTo) :
    (s.restored old new).FetchesAll (old ++ new) key timeFrom timeTo ↔
      (∀ e ∈ s.numbered old, wanted (s.keyBytes key) timeFrom timeTo e.1.1 e.1.2.1 = true →
        e.1 ∉ (s.numbered new).map Prod.fst ∧ (timeTo = i64Max → e.1.2.1 ≠ i64Max)) ∧
      ∀ e ∈ s.numbered new, wanted (s.keyBytes key) timeFrom timeTo e.1.1 e.1.2.1 = true →
        (timeTo = i64Max → e.1.2.1 ≠ i64Max) := by
  let scan := fun e : (Bytes × Int × Nat) × V => InScan (s.keyBytes key) timeFrom timeTo e.1.1 e.1.2.1
  let want := fun e : (Bytes × Int × Nat) × V => wanted (s.keyBytes key) timeFrom timeTo e.1.1 e.1.2.1
  let left := fun e : (Bytes × Int × Nat) × V => decide (e.1 ∉ (s.numbered new).map Prod.fst)
  have hscan : ∀ e ∈ s.numbered old ++ s.numbered new, scan e = true ↔
      want e = true ∧ (timeTo = i64Max → e.1.2.1 ≠ i64Max) := fun e he => by
    obtain ⟨p, hp, -, hpt⟩ := exists_put_of_mem_append_numbered he
    simp only [scan, want, wanted]
    rw [inScan_iff hf hto (hpt ▸ ht p hp) h, decide_eq_true_eq]
    tauto
  have hold : ∀ e ∈ s.numbered old, (scan e && left e) = true → want e = true := fun e he hs => by
    rw [Bool.and_eq_true] at hs
    exact ((hscan e (List.mem_append_left _ he)).mp hs.1).1
  have hnew : ∀ e ∈ s.numbered new, scan e = true → want e = true := fun e he hs =>
    ((hscan e (List.mem_append_right _ he)).mp hs).1
  have hlenold := length_filter_eq_iff hold
  have hlennew := length_filter_eq_iff hnew
  rw [fetchesAll_restored_iff hv hlen ht, List.filter_append, List.filter_append, List.filter_filter]
  show ((((s.numbered old).filter fun e => scan e && left e) ++ (s.numbered new).filter scan).map _).Perm
    (((s.numbered old).filter want ++ (s.numbered new).filter want).map _) ↔ _
  constructor
  · intro hperm
    have hlength := hperm.length_eq
    rw [List.length_map, List.length_map, List.length_append, List.length_append] at hlength
    have hle : ((s.numbered old).filter fun e => scan e && left e).length
        ≤ ((s.numbered old).filter want).length := by
      rw [← List.countP_eq_length_filter, ← List.countP_eq_length_filter]
      exact List.countP_mono_left hold
    have hle' : ((s.numbered new).filter scan).length ≤ ((s.numbered new).filter want).length := by
      rw [← List.countP_eq_length_filter, ← List.countP_eq_length_filter]
      exact List.countP_mono_left hnew
    refine ⟨fun e he hw => ?_, fun e he hw => ?_⟩
    · have hs := hlenold.mp (by omega) e he hw
      rw [Bool.and_eq_true] at hs
      exact ⟨of_decide_eq_true hs.2, ((hscan e (List.mem_append_left _ he)).mp hs.1).2⟩
    · exact ((hscan e (List.mem_append_right _ he)).mp (hlennew.mp (by omega) e he hw)).2
  · rintro ⟨hwold, hwnew⟩
    have hbackold : ((s.numbered old).filter fun e => scan e && left e) = (s.numbered old).filter want := by
      refine List.filter_congr fun e he => ?_
      rw [Bool.eq_iff_iff]
      refine ⟨hold e he, fun hw => ?_⟩
      obtain ⟨hfree, hlast⟩ := hwold e he hw
      rw [Bool.and_eq_true]
      exact ⟨(hscan e (List.mem_append_left _ he)).mpr ⟨hw, hlast⟩, decide_eq_true hfree⟩
    have hbacknew : (s.numbered new).filter scan = (s.numbered new).filter want := by
      refine List.filter_congr fun e he => ?_
      rw [Bool.eq_iff_iff]
      exact ⟨hnew e he, fun hw => (hscan e (List.mem_append_right _ he)).mpr ⟨hw, hwnew e he hw⟩⟩
    rw [hbackold, hbacknew]

end Restored

/-- A fetch of a restored store returns every put of its key and range, old and new, exactly when the puts
are separated. -/
theorem fetchesAll_restored_iff_separated (s : JoinWindowBytesStore K V) (hv : s.valueSerde.Lawful)
    (old new : List (JoinPut K V)) (hlen : old.length + new.length < 2 ^ 31)
    (ht : ∀ p ∈ old ++ new, IsI64 p.timestamp) (key : K) (timeFrom timeTo : Int) (hf : IsI64 timeFrom)
    (hto : IsI64 timeTo) :
    (s.restored old new).FetchesAll (old ++ new) key timeFrom timeTo ↔
      s.Separated old new key timeFrom timeTo := by
  by_cases h : timeTo < -1
  · rw [fetchesAll_restored_iff_of_below hv hlen ht hf hto h]
    constructor
    · refine fun hfree => ⟨fun _ => hfree, fun hmax => ?_, fun i p q _ _ hw => ?_⟩
      · simp only [i64Max] at hmax
        omega
      · obtain ⟨-, -, hle, h0⟩ := hw
        omega
    · exact fun hsep => hsep.below h
  · rw [fetchesAll_restored_iff_of_le hv hlen ht hf hto (by omega)]
    constructor
    · rintro ⟨hold, hnew⟩
      refine ⟨fun hlt => absurd hlt h, fun hmax p hp hk hpmax => ?_, fun i p q hp hq hw hcol => ?_⟩
      · obtain ⟨e, he, hek, het⟩ := mem_append_numbered_of_mem (s := s) hp
        have hw : wanted (s.keyBytes key) timeFrom timeTo e.1.1 e.1.2.1 = true := by
          simp only [IsI64, i64Max] at hf hpmax hmax
          rw [hek, het, hpmax, hmax]
          exact decide_eq_true ⟨hk, hf.2, le_refl _, by omega⟩
        rcases List.mem_append.mp he with he | he
        · exact (hold e he hw).2 hmax (het.trans hpmax)
        · exact hnew e he hw hmax (het.trans hpmax)
      · have he : ((s.keyBytes p.key, p.timestamp, i), p.value) ∈ s.numbered old :=
          mem_numbered.mpr ⟨p, hp, rfl, rfl, rfl⟩
        refine (hold _ he (decide_eq_true hw)).1 (List.mem_map.mpr
          ⟨((s.keyBytes q.key, q.timestamp, i), q.value), mem_numbered.mpr ⟨q, hq, rfl, rfl, rfl⟩, ?_⟩)
        rw [hcol.1, hcol.2]
    · rintro ⟨-, hlast, hapart⟩
      have hmax : ∀ e ∈ s.numbered old ++ s.numbered new,
          wanted (s.keyBytes key) timeFrom timeTo e.1.1 e.1.2.1 = true →
            timeTo = i64Max → e.1.2.1 ≠ i64Max := fun e he hw heq => by
        obtain ⟨p, hp, hpk, hpt⟩ := exists_put_of_mem_append_numbered he
        exact hpt ▸ hlast heq p hp (hpk.trans (of_decide_eq_true hw).1)
      refine ⟨fun e he hw => ⟨fun htaken => ?_, hmax e (List.mem_append_left _ he) hw⟩,
        fun e he => hmax e (List.mem_append_right _ he)⟩
      obtain ⟨p, hp, hpk, hpt, -⟩ := mem_numbered.mp he
      obtain ⟨e', he', hsame⟩ := List.mem_map.mp htaken
      obtain ⟨q, hq, hqk, hqt, -⟩ := mem_numbered.mp he'
      rw [hsame] at hq hqk hqt
      have hwp : s.Wants key timeFrom timeTo p := by
        obtain ⟨hk, hrest⟩ := of_decide_eq_true hw
        exact ⟨hpk.trans hk, hpt ▸ hrest⟩
      exact hapart e.1.2.2 p q hp hq hwp ⟨hpk.trans hqk.symm, hpt.trans hqt.symm⟩

def byteJoinStore : JoinWindowBytesStore Bytes Bytes := inMemory bytesSerde bytesSerde "app-j-changelog"

theorem fetchesAll_restored_apart :
    byteJoinStore.valueSerde.Lawful ∧
      (byteJoinStore.restored [⟨[1], 5, [10]⟩] [⟨[1], 6, [11]⟩, ⟨[1], 5, [12]⟩]).FetchesAll
        ([⟨[1], 5, [10]⟩] ++ [⟨[1], 6, [11]⟩, ⟨[1], 5, [12]⟩]) [1] 0 10 := by
  refine ⟨fun _ _ => rfl, (fetchesAll_restored_iff_separated _ (fun _ _ => rfl) _ _ (by decide) ?_ _ _ _
    (by decide) (by decide)).mpr ⟨by decide, by decide, fun i p q hp hq _ hcol => ?_⟩⟩
  · decide
  · rcases i with _ | i
    · cases hp
      cases hq
      exact absurd hcol.2 (by decide)
    · simp at hp

/-- The put after the replay takes the entry of the replayed one. -/
theorem not_fetchesAll_restored_same :
    ¬ (byteJoinStore.restored [⟨[1], 5, [10]⟩] [⟨[1], 5, [11]⟩]).FetchesAll
      ([⟨[1], 5, [10]⟩] ++ [⟨[1], 5, [11]⟩]) [1] 0 10 := by
  rintro ⟨found, hfound, hperm⟩
  have hone : (byteJoinStore.restored [⟨[1], 5, [10]⟩] [⟨[1], 5, [11]⟩]).fetch [1] 0 10
      = .ok [(5, [11])] := by decide +kernel
  cases hone.symm.trans hfound
  exact absurd hperm.length_eq (by decide)

end JoinWindowBytesStore

end KrabkaStreams
