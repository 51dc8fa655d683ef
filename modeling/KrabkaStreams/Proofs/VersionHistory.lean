import KrabkaStreams.Lib.Lists
import KrabkaStreams.Proofs.Changed
import KrabkaStreams.Proofs.Versioned
import KrabkaStreams.Stores.VersionHistory

/-!
# The store answers as the history

The chain of a key is its history pruned at the horizon (`Remembers`), and a write keeps that, whether
it is inserted or dropped. A dropped write is not in the changelog either.
-/

namespace KrabkaStreams

variable {asOf : Int} {t : Int}

namespace VersionChain

variable {chain : VersionChain} {h t : Int}

theorem get?_evict (h : Int) : ∀ (times : List Int) (chain : VersionChain), times.Pairwise (· < ·) → ∀ t,
    (chain.evict h times).get? t = if t ∈ times ∧ ∃ n ∈ times, t < n ∧ n ≤ h then none else chain.get? t
  | [], _, _, t => by simp [evict]
  | [t₀], _, _, t => by
    have hnot : ¬ (t ∈ [t₀] ∧ ∃ n ∈ [t₀], t < n ∧ n ≤ h) := by simp; omega
    rw [if_neg hnot]
    rfl
  | t₀ :: next :: times, chain, hs, t => by
    obtain ⟨hhead, htail⟩ := List.pairwise_cons.mp hs
    have hnext : ∀ n ∈ next :: times, next ≤ n := fun n hn => by
      rcases List.mem_cons.mp hn with rfl | hn
      · exact le_rfl
      · exact ((List.pairwise_cons.mp htail).1 n hn).le
    unfold evict
    rw [get?_evict h (next :: times) _ htail t]
    rcases eq_or_ne t₀ t with rfl | hne
    · have hnot : t₀ ∉ next :: times := fun hin => lt_irrefl _ (hhead t₀ hin)
      rw [if_neg fun hc => hnot hc.1]
      have hiff : (t₀ ∈ t₀ :: next :: times ∧ ∃ n ∈ t₀ :: next :: times, t₀ < n ∧ n ≤ h) ↔ next ≤ h := by
        constructor
        · rintro ⟨-, n, hn, hlt, hle⟩
          rcases List.mem_cons.mp hn with rfl | hn
          · exact absurd hlt (lt_irrefl _)
          · exact (hnext n hn).trans hle
        · exact fun hle => ⟨List.mem_cons_self, next, by simp, hhead next List.mem_cons_self, hle⟩
      rw [if_congr hiff rfl rfl]
      split
      · rw [SortedMap.get?_erase, if_pos rfl]
      · rfl
    · have hiff : (t ∈ t₀ :: next :: times ∧ ∃ n ∈ t₀ :: next :: times, t < n ∧ n ≤ h) ↔
          (t ∈ next :: times ∧ ∃ n ∈ next :: times, t < n ∧ n ≤ h) := by
        refine ⟨fun ⟨ht, n, hn, hlt, hle⟩ => ?_, fun ⟨ht, n, hn, hc⟩ =>
          ⟨List.mem_cons_of_mem _ ht, n, List.mem_cons_of_mem _ hn, hc⟩⟩
        have ht' := (List.mem_cons.mp ht).resolve_left (Ne.symm hne)
        refine ⟨ht', n, (List.mem_cons.mp hn).resolve_left fun heq => ?_, hlt, hle⟩
        exact absurd (hhead t ht') (heq ▸ hlt).not_gt
      rw [if_congr hiff rfl rfl]
      have hget : (if next ≤ h then chain.erase t₀ else chain).get? t = chain.get? t := by
        split
        · rw [SortedMap.get?_erase, if_neg hne]
        · rfl
      rw [hget]

theorem mem_keys_iff : t ∈ chain.entries.map Prod.fst ↔ chain.get? t ≠ none := by
  rw [Ne, SortedMap.get?, SortedMap.lookupList_eq_none_iff, not_not]

theorem evict_pruned {f : Int → Option (Option Bytes)} (hp : Pruned h f chain) :
    Pruned h f (chain.evict h (chain.entries.map Prod.fst)) := by
  have hget := get?_evict h (chain.entries.map Prod.fst) chain (List.pairwise_map.mpr chain.sorted)
  refine hp.evict (fun t hnot => ?_) fun t hne hnone => ?_
  · rw [hget, if_neg]
    rintro ⟨-, n, hn, hlt, hle⟩
    exact hnot ⟨n, hlt, hle, mem_keys_iff.mp hn⟩
  · rw [hget, hnone, ite_self] at hne
    exact hne rfl

theorem validAt_eq_some_iff {v : Option Bytes} :
    chain.validAt asOf = some (t, v) ↔
      chain.get? t = some v ∧ t ≤ asOf ∧ ∀ t', t < t' → t' ≤ asOf → chain.get? t' = none := by
  let below : VersionChain := ⟨chain.entries.filter fun e => e.1 ≤ asOf, chain.sorted.filter _⟩
  have hmem : ∀ e, e ∈ below.entries ↔ chain.get? e.1 = some e.2 ∧ e.1 ≤ asOf := fun e => by
    rw [SortedMap.get?_eq_some_iff]
    exact List.mem_filter.trans (by simp)
  refine (below.getLast?_entries_iff (t, v)).trans ?_
  rw [hmem]
  refine and_assoc.trans (and_congr_right fun _ => and_congr_right fun _ => ⟨fun hmax t' hlt hle => ?_, fun hgap e he => ?_⟩)
  · by_contra hne
    obtain ⟨v', hv'⟩ := Option.ne_none_iff_exists'.mp hne
    exact absurd (hmax (t', v') ((hmem _).mpr ⟨hv', hle⟩)) hlt.not_ge
  · obtain ⟨hget, hle⟩ := (hmem e).mp he
    by_contra hnot
    rw [hgap e.1 (not_le.mp hnot) hle] at hget
    cases hget

theorem next_firstFrom (chain : VersionChain) (t : Int) : Next chain.get? t (chain.firstFrom (t + 1)) := by
  unfold firstFrom
  rcases hfind : chain.entries.find? fun e => t + 1 ≤ e.1 with _ | e
  · rw [hfind]
    intro t' hlt
    by_contra hne
    obtain ⟨v, hv⟩ := Option.ne_none_iff_exists'.mp hne
    have hnot := List.find?_eq_none.mp hfind (t', v) ((SortedMap.get?_eq_some_iff _ _ _).mp hv)
    exact hnot (by simpa [Int.add_one_le_iff] using hlt)
  · obtain ⟨hle, before, after, hentries, hbefore⟩ := List.find?_eq_some_iff_append.mp hfind
    have hs := chain.sorted
    rw [hentries] at hs
    have hmem : e ∈ chain.entries := by simp [hentries]
    rw [hfind]
    refine ⟨by simpa [Int.add_one_le_iff] using hle, by simp [(SortedMap.get?_eq_some_iff chain e.1 e.2).mpr hmem], fun t' hlt hlt' => ?_⟩
    by_contra hne
    obtain ⟨v, hv⟩ := Option.ne_none_iff_exists'.mp hne
    have hin := (SortedMap.get?_eq_some_iff _ _ _).mp hv
    rw [hentries, List.mem_append, List.mem_cons] at hin
    rcases hin with hin | heq | hin
    · have hnot := hbefore _ hin
      simp at hnot
      omega
    · exact hlt'.ne (congrArg Prod.fst heq)
    · exact lt_asymm hlt' ((List.pairwise_cons.mp (List.pairwise_append.mp hs).2.1).1 _ hin)

end VersionChain

section

variable {K V : Type} [DecidableEq K]

theorem written_snoc (ws : List (VersionedWrite K V)) (w : VersionedWrite K V) (k : K) :
    written (ws ++ [w]) k = if w.key = k then Function.update (written ws k) w.timestamp (some w.value)
      else written ws k := by
  funext t
  unfold written
  rw [List.reverse_append, List.reverse_singleton, List.singleton_append, List.find?_cons]
  by_cases hk : w.key = k
  · rw [if_pos hk, Function.update_apply]
    by_cases ht : w.timestamp = t
    · simp [hk, ht]
    · simp [ht, Ne.symm ht]
  · simp [hk]

theorem exists_of_written {ws : List (VersionedWrite K V)} {k : K} (h : written ws k t ≠ none) :
    ∃ w ∈ ws, w.timestamp = t := by
  obtain ⟨w, hw, -, ht⟩ : ∃ w ∈ ws, w.key = k ∧ w.timestamp = t := by simpa [written] using h
  exact ⟨w, hw, ht⟩

end

namespace VersionedBytesStore

variable {K V : Type} {s : VersionedBytesStore K V} {retention : Int} {ws : List (VersionedWrite K V)}

def chainOf (s : VersionedBytesStore K V) (key : Bytes) : VersionChain := (s.chains.get? key).getD .empty

def encoded (s : VersionedBytesStore K V) (f : Int → Option (Option V)) (t : Int) : Option (Option Bytes) :=
  (f t).map (Option.map (s.valueSerde.serialize s.changelogTopic))

theorem encoded_update (s : VersionedBytesStore K V) (f : Int → Option (Option V)) (t : Int) (v : Option V) :
    s.encoded (Function.update f t (some v)) =
      Function.update (s.encoded f) t (some (v.map (s.valueSerde.serialize s.changelogTopic))) := by
  funext t'
  unfold encoded
  by_cases h : t' = t
  · subst h
    simp
  · simp [h]

def recordBytes (s : VersionedBytesStore K V) (r : VersionedRecord V) : Int × Bytes × Option Int :=
  (r.validFrom, s.valueSerde.serialize s.changelogTopic r.value, r.validTo)

/-- The chain of each key is its history, pruned at the horizon, and all it has was serialized. -/
structure Remembers [DecidableEq K] (retention : Int) (ws : List (VersionedWrite K V)) (s : VersionedBytesStore K V) :
    Prop where
  key : s.keySerde.Lawful
  value : s.valueSerde.Lawful
  retains : s.historyRetention = retention
  upper : ∀ w ∈ ws, w.timestamp ≤ s.observedStreamTime
  observed : ws = [] ∧ s.observedStreamTime = i64Min ∨ ∃ w ∈ ws, w.timestamp = s.observedStreamTime
  pruned : ∀ k, Pruned s.horizon (s.encoded (written ws k)) (s.chainOf (s.keyBytes k))
  kept : ∀ k {t raw}, (s.chainOf (s.keyBytes k)).get? t = some (some raw) →
    ∃ v, raw = s.valueSerde.serialize s.changelogTopic v

def advance (s : VersionedBytesStore K V) (t : Int) : VersionedBytesStore K V :=
  { s with observedStreamTime := max s.observedStreamTime t }

theorem horizon_le_advance (s : VersionedBytesStore K V) (t : Int) : s.horizon ≤ (s.advance t).horizon := by
  unfold horizon saturatingSub advance
  dsimp only
  omega

theorem superseded_eq (s : VersionedBytesStore K V) (key : Bytes) (ht : IsI64 t) (hmax : t < i64Max) :
    s.superseded key t = .ok (((s.chainOf key).firstFrom (t + 1)).any fun next => next ≤ s.horizon) := by
  unfold superseded chainOf
  rcases s.chains.get? key with _ | chain
  · rfl
  · rw [checked_succ ht hmax]
    rfl

def inserted (s : VersionedBytesStore K V) (key : Bytes) (t : Int) (v : Option Bytes) : VersionChain :=
  VersionChain.evict s.horizon (((s.chainOf key).insert t v).entries.map Prod.fst) ((s.chainOf key).insert t v)

theorem insertRaw_eq (s : VersionedBytesStore K V) (key : Bytes) (v : Option Bytes) (ht : IsI64 t)
    (hmax : t < i64Max) :
    s.insertRaw key t v =
      .ok (if ((s.chainOf key).firstFrom (t + 1)).any (· ≤ (s.advance t).horizon) then (s.advance t, false)
        else ({ s.advance t with chains := s.chains.insert key ((s.advance t).inserted key t v) }, true)) := by
  show (superseded (s.advance t) key t >>= _) = _
  rw [superseded_eq _ _ ht hmax]
  show (if ((s.chainOf key).firstFrom (t + 1)).any (· ≤ (s.advance t).horizon) = true then _ else _) = _
  split <;> rfl

namespace Remembers

variable [DecidableEq K]

theorem inMemory {keySerde : Serde K} {valueSerde : Serde V} (hk : keySerde.Lawful)
    (hv : valueSerde.Lawful) (retention : Int) (topic : Topic) :
    Remembers retention [] (VersionedBytesStore.inMemory retention keySerde valueSerde topic) :=
  ⟨hk, hv, rfl, by simp, .inl ⟨rfl, rfl⟩, fun _ => .empty, fun _ _ _ h => by cases h⟩

theorem snoc (h : Remembers retention ws s) {w : VersionedWrite K V} (ht : IsI64 w.timestamp)
    {chains : SortedMap Bytes VersionChain}
    (hself : Pruned (s.advance w.timestamp).horizon (Function.update (s.encoded (written ws w.key)) w.timestamp
      (some (w.value.map (s.valueSerde.serialize s.changelogTopic)))) ((chains.get? (s.keyBytes w.key)).getD .empty))
    (hkept : ∀ {t raw}, ((chains.get? (s.keyBytes w.key)).getD .empty).get? t = some (some raw) →
      ∃ v, raw = s.valueSerde.serialize s.changelogTopic v)
    (hothers : ∀ key, s.keyBytes w.key ≠ key → chains.get? key = s.chains.get? key) :
    Remembers retention (ws ++ [w]) { s.advance w.timestamp with chains := chains } := by
  refine ⟨h.key, h.value, h.retains, fun w' hw' => ?_, .inr ?_, fun k => ?_, fun k t raw hget => ?_⟩
  · rcases List.mem_append.mp hw' with hw' | hw'
    · exact (h.upper w' hw').trans (le_max_left _ _)
    · rw [List.mem_singleton.mp hw']
      exact le_max_right _ _
  · show ∃ w' ∈ ws ++ [w], w'.timestamp = max s.observedStreamTime w.timestamp
    rcases h.observed with ⟨-, hmin⟩ | ⟨w', hw', htime⟩
    · exact ⟨w, by simp, by rw [hmin, max_eq_right ht.1]⟩
    · rcases le_total s.observedStreamTime w.timestamp with hle | hle
      · exact ⟨w, by simp, (max_eq_right hle).symm⟩
      · exact ⟨w', by simp [hw'], by rw [max_eq_left hle, htime]⟩
  · show Pruned (s.advance w.timestamp).horizon (s.encoded (written (ws ++ [w]) k))
      ((chains.get? (s.keyBytes k)).getD .empty)
    rw [written_snoc]
    by_cases hk : w.key = k
    · subst hk
      rw [if_pos rfl, encoded_update]
      exact hself
    · rw [if_neg hk, hothers (s.keyBytes k) fun heq => hk (Serde.Lawful.inj h.key heq)]
      exact (h.pruned k).mono (s.horizon_le_advance _)
  · change ((chains.get? (s.keyBytes k)).getD .empty).get? t = some (some raw) at hget
    by_cases hk : w.key = k
    · subst hk
      exact hkept hget
    · rw [hothers (s.keyBytes k) fun heq => hk (Serde.Lawful.inj h.key heq)] at hget
      exact h.kept k hget

theorem kept_inserted (h : Remembers retention ws s) {k : K} {t t' : Int} {v : Option V} {raw : Bytes}
    (hget : ((s.advance t).inserted (s.keyBytes k) t (v.map (s.valueSerde.serialize s.changelogTopic))).get? t' =
      some (some raw)) : ∃ v, raw = s.valueSerde.serialize s.changelogTopic v := by
  have hmem := VersionChain.evict_subset _ _ _ ((SortedMap.get?_eq_some_iff _ _ _).mp hget)
  rcases SortedMap.mem_insertList hmem with heq | hmem
  · obtain ⟨-, heq⟩ := Prod.mk.inj heq
    obtain ⟨v', -, rfl⟩ := Option.map_eq_some_iff.mp heq.symm
    exact ⟨v', rfl⟩
  · exact h.kept k ((SortedMap.get?_eq_some_iff _ _ _).mpr hmem)

theorem le_observed (h : Remembers retention ws s) {k : K} {n : Int} (hn : (s.chainOf (s.keyBytes k)).get? n ≠ none) :
    n ≤ s.observedStreamTime := by
  have hwritten : written ws k n ≠ none := fun hnone => (h.pruned k).written n hn (by simp [encoded, hnone])
  obtain ⟨w, hw, rfl⟩ := exists_of_written hwritten
  exact h.upper w hw

theorem insertRaw (h : Remembers retention ws s) {w : VersionedWrite K V} (ht : IsI64 w.timestamp)
    (hmax : w.timestamp < i64Max) :
    ∃ s' kept, s.insertRaw (s.keyBytes w.key) w.timestamp (w.value.map (s.valueSerde.serialize s.changelogTopic))
        = .ok (s', kept) ∧
      Remembers retention (ws ++ [w]) s' ∧ (kept = false → s' = s) := by
  have hmono := (h.pruned w.key).mono (s.horizon_le_advance w.timestamp)
  have hinserted := h.snoc (w := w) ht (by
    rw [SortedMap.get?_insert_self]
    exact VersionChain.evict_pruned (hmono.insert _ _)) (by
    rw [SortedMap.get?_insert_self]
    exact h.kept_inserted) fun key hne => SortedMap.get?_insert_of_ne hne
  rw [insertRaw_eq _ _ _ ht hmax]
  rcases hnext : (s.chainOf (s.keyBytes w.key)).firstFrom (w.timestamp + 1) with _ | n
  · exact ⟨_, true, rfl, hinserted, by simp⟩
  · have hn := VersionChain.next_firstFrom (s.chainOf (s.keyBytes w.key)) w.timestamp
    rw [hnext] at hn
    by_cases hle : n ≤ (s.advance w.timestamp).horizon
    · have hsame : s.advance w.timestamp = s := by
        unfold advance
        rw [max_eq_left (hn.1.le.trans (h.le_observed hn.2.1))]
      refine ⟨s.advance w.timestamp, false, by simp [hle], h.snoc ht ?_ (h.kept w.key) fun _ _ => rfl, fun _ => hsame⟩
      exact hmono.drop hn.1 hle hn.2.1 _
    · rw [if_neg (by simpa using hle)]
      exact ⟨_, true, rfl, hinserted, by simp⟩

theorem prunedAt (h : Remembers retention ws s) (ht : IsI64 t) (hfrom : FromHorizon retention ws t) (k : K) :
    Pruned t (s.encoded (written ws k)) (s.chainOf (s.keyBytes k)) := by
  rcases h.observed with ⟨rfl, -⟩ | ⟨w, hw, htime⟩
  · exact (h.pruned k).of_forall_none fun _ => rfl
  · refine (h.pruned k).mono ?_
    have hle := hfrom w hw
    unfold horizon saturatingSub
    unfold IsI64 at ht
    rw [h.retains, ← htime]
    omega

theorem isVersion_iff (h : Remembers retention ws s) (f : Int → Option (Option V)) (r : VersionedRecord V) :
    IsVersion f r ↔ s.encoded f r.validFrom = some (some (s.valueSerde.serialize s.changelogTopic r.value)) ∧
      Next (s.encoded f) r.validFrom r.validTo := by
  refine and_congr ?_ (Next.map_iff _).symm
  unfold encoded
  rw [Option.map_eq_some_iff]
  constructor
  · exact fun heq => ⟨some r.value, heq, rfl⟩
  · rintro ⟨_ | v, hv, heq⟩
    · cases heq
    · rw [hv, Serde.Lawful.inj h.value (Option.some.inj heq)]

theorem validAt_iff (h : Remembers retention ws s) (ht : IsI64 asOf) (hfrom : FromHorizon retention ws asOf)
    (k : K) (r : VersionedRecord V) :
    ValidAt (written ws k) asOf r ↔
      (s.chainOf (s.keyBytes k)).validAt asOf =
          some (r.validFrom, some (s.valueSerde.serialize s.changelogTopic r.value)) ∧
        (s.chainOf (s.keyBytes k)).firstFrom (asOf + 1) = r.validTo := by
  have hnext := VersionChain.next_firstFrom (s.chainOf (s.keyBytes k)) asOf
  rw [VersionChain.validAt_eq_some_iff]
  constructor
  · rintro ⟨hvalue, hle, hgap⟩
    obtain ⟨hv, ho⟩ := (Next.holds_iff hle).mpr hgap
    obtain ⟨hget, hv⟩ := ((h.prunedAt ht hfrom k).next_iff ho).mpr ((h.isVersion_iff _ r).mp ⟨hvalue, hv⟩)
    obtain ⟨hgap, hlast⟩ := (Next.holds_iff hle).mp ⟨hv, ho⟩
    exact ⟨⟨hget, hle, hgap⟩, hnext.unique hlast⟩
  · rintro ⟨⟨hget, hle, hgap⟩, hlast⟩
    rw [hlast] at hnext
    obtain ⟨hv, ho⟩ := (Next.holds_iff hle).mpr ⟨hgap, hnext⟩
    obtain ⟨hvalue, hv⟩ := (h.isVersion_iff _ r).mpr (((h.prunedAt ht hfrom k).next_iff ho).mp ⟨hget, hv⟩)
    exact ⟨hvalue, hle, (Next.holds_iff hle).mp ⟨hv, ho⟩⟩

theorem record (h : Remembers retention ws s) (v : V) (t : Int) (o : Option Int) :
    s.record (t, s.valueSerde.serialize s.changelogTopic v, o) = .ok ⟨v, t, o⟩ := by
  unfold VersionedBytesStore.record VersionedBytesStore.decode
  rw [h.value s.changelogTopic v]
  rfl

omit [DecidableEq K] in
theorem getAsOf_eq (s : VersionedBytesStore K V) (k : K) (ht : IsI64 asOf) (hmax : asOf < i64Max) :
    s.getAsOf k asOf = match (s.chainOf (s.keyBytes k)).validAt asOf with
      | some (validFrom, some raw) => some <$> s.record (validFrom, raw, (s.chainOf (s.keyBytes k)).firstFrom (asOf + 1))
      | _ => .ok none := by
  unfold VersionedBytesStore.getAsOf chainOf
  rcases s.chains.get? (s.keyBytes k) with _ | chain
  · rfl
  · dsimp only [Option.getD_some]
    rcases chain.validAt asOf with _ | ⟨validFrom, _ | raw⟩
    · rfl
    · rfl
    · rw [checked_succ ht hmax]
      show (s.decode raw >>= _) = some <$> (s.decode raw >>= _)
      rcases s.decode raw with e | v <;> rfl

theorem getAsOf (h : Remembers retention ws s) (ht : IsI64 asOf) (hmax : asOf < i64Max)
    (hfrom : FromHorizon retention ws asOf) (k : K) :
    ∃ o, s.getAsOf k asOf = .ok o ∧ ∀ r, o = some r ↔ ValidAt (written ws k) asOf r := by
  have hiff := h.validAt_iff ht hfrom k
  rw [getAsOf_eq s k ht hmax]
  rcases hvalid : (s.chainOf (s.keyBytes k)).validAt asOf with _ | ⟨validFrom, _ | raw⟩
  · exact ⟨none, rfl, fun r => by simp [hiff, hvalid]⟩
  · exact ⟨none, rfl, fun r => by simp [hiff, hvalid]⟩
  · obtain ⟨v, rfl⟩ := h.kept k (VersionChain.validAt_eq_some_iff.mp hvalid).1
    dsimp only
    rw [h.record]
    refine ⟨_, rfl, fun r => ?_⟩
    rw [hiff, hvalid]
    constructor
    · rintro ⟨rfl⟩
      exact ⟨rfl, rfl⟩
    · rintro ⟨hv, ho⟩
      obtain ⟨hfrom, hvalue⟩ := Prod.ext_iff.mp (Option.some.inj hv)
      have hvalue := Serde.Lawful.inj h.value (Option.some.inj hvalue)
      cases r
      simp_all

theorem recordBytes_injective (h : Remembers retention ws s) : Function.Injective s.recordBytes := by
  intro r r' heq
  obtain ⟨ht, heq⟩ := Prod.mk.inj heq
  obtain ⟨hbytes, ho⟩ := Prod.mk.inj heq
  have hv : r.value = r'.value := Serde.Lawful.inj h.value hbytes
  rcases r with ⟨v, t, o⟩
  rcases r' with ⟨v', t', o'⟩
  subst ht hv ho
  rfl

omit [DecidableEq K] in
theorem mem_overlapping {chain : VersionChain} {lo hi : Int} {e : Int × Bytes × Option Int} :
    e ∈ overlapping chain lo hi ↔
      (chain.get? e.1 = some (some e.2.1) ∧ Next chain.get? e.1 e.2.2) ∧ e.1 ≤ hi ∧ ∀ n ∈ e.2.2, lo < n := by
  obtain ⟨t, raw, o⟩ := e
  unfold overlapping
  rw [List.mem_filterMap, ← SortedMap.mem_intervals]
  constructor
  · rintro ⟨⟨t', value, o'⟩, hin, heq⟩
    dsimp only at heq
    split_ifs at heq with hmeets
    obtain ⟨raw', rfl, heq⟩ := Option.map_eq_some_iff.mp heq
    cases heq
    exact ⟨hin, hmeets.1, by simpa [Option.all_eq_true] using hmeets.2⟩
  · rintro ⟨hin, hle, ho⟩
    exact ⟨_, hin, if_pos ⟨hle, by simpa [Option.all_eq_true] using ho⟩⟩

omit [DecidableEq K] in
theorem overlapping_sorted (chain : VersionChain) (lo hi : Int) :
    (overlapping chain lo hi).Pairwise fun a b => a.1 < b.1 := by
  refine chain.intervals_sorted.filterMap _ fun e e' hlt a ha b hb => ?_
  dsimp only at ha hb
  split_ifs at ha hb
  obtain ⟨_, -, rfl⟩ := Option.map_eq_some_iff.mp ha
  obtain ⟨_, -, rfl⟩ := Option.map_eq_some_iff.mp hb
  exact hlt

omit [DecidableEq K] in
theorem multiVersionedKey_eq (s : VersionedBytesStore K V) (k : K) (fromTs toTs : Option Int) (descending : Bool) :
    s.multiVersionedKey k fromTs toTs descending = (fun out => if descending then out.reverse else out) <$>
      (overlapping (s.chainOf (s.keyBytes k)) (fromTs.getD i64Min) (toTs.getD i64Max)).mapM s.record := by
  unfold VersionedBytesStore.multiVersionedKey chainOf
  rcases s.chains.get? (s.keyBytes k) with _ | chain <;> rfl

theorem multiVersionedKey (h : Remembers retention ws s) {fromTs : Option Int} (toTs : Option Int) (descending : Bool)
    (ht : IsI64 (fromTs.getD i64Min)) (hfrom : FromHorizon retention ws (fromTs.getD i64Min)) (k : K) :
    ∃ rs, s.multiVersionedKey k fromTs toTs descending = .ok rs ∧ rs.Pairwise (VersionedRecord.Precedes descending) ∧
      ∀ r, r ∈ rs ↔ IsVersion (written ws k) r ∧ r.Meets (fromTs.getD i64Min) (toTs.getD i64Max) := by
  have hp := h.prunedAt ht hfrom k
  obtain ⟨rs, hrs⟩ : overlapping (s.chainOf (s.keyBytes k)) (fromTs.getD i64Min) (toTs.getD i64Max) ∈
      Set.range (List.map s.recordBytes) := by
    rw [Set.range_list_map]
    rintro ⟨t, raw, o⟩ he
    obtain ⟨v, rfl⟩ := h.kept k (mem_overlapping.mp he).1.1
    exact ⟨⟨v, t, o⟩, rfl⟩
  have hmem : ∀ r, r ∈ rs ↔ IsVersion (written ws k) r ∧ r.Meets (fromTs.getD i64Min) (toTs.getD i64Max) := fun r => by
    rw [← List.mem_map_of_injective h.recordBytes_injective, hrs, mem_overlapping, h.isVersion_iff]
    exact and_congr_left fun hmeets => hp.next_iff hmeets.2
  have hsorted : rs.Pairwise fun r r' => r.validFrom < r'.validFrom := by
    have hs := overlapping_sorted (s.chainOf (s.keyBytes k)) (fromTs.getD i64Min) (toTs.getD i64Max)
    rw [← hrs, List.pairwise_map] at hs
    exact hs
  have hall : (rs.map s.recordBytes).mapM s.record = .ok rs := by
    rw [List.mapM_map, Lists.mapM_eq_map fun r _ => h.record r.value r.validFrom r.validTo, List.map_id']
  rw [multiVersionedKey_eq, ← hrs, hall]
  refine ⟨_, rfl, ?_, fun r => ?_⟩
  · rcases descending
    · exact hsorted
    · exact List.pairwise_reverse.mpr hsorted
  · rw [← hmem]
    split
    · exact List.mem_reverse
    · rfl

theorem getAsOf_returns (h : Remembers retention ws s) (ht : IsI64 asOf) (hmax : asOf < i64Max) (k : K) :
    ∃ o, s.getAsOf k asOf = .ok o := by
  rw [getAsOf_eq s k ht hmax]
  rcases hvalid : (s.chainOf (s.keyBytes k)).validAt asOf with _ | ⟨validFrom, _ | raw⟩
  · exact ⟨none, rfl⟩
  · exact ⟨none, rfl⟩
  · obtain ⟨v, rfl⟩ := h.kept k (VersionChain.validAt_eq_some_iff.mp hvalid).1
    dsimp only
    rw [h.record]
    exact ⟨_, rfl⟩

end Remembers

theorem insertRaw_frame {key : Bytes} {v : Option Bytes} (ht : IsI64 t) (hmax : t < i64Max)
    {s' : VersionedBytesStore K V} {kept : Bool} (hraw : s.insertRaw key t v = .ok (s', kept))
    (changelog : List (Bytes × Option Bytes × Int)) :
    s'.changelog = s.changelog ∧ s'.logging = s.logging ∧
      insertRaw { s with changelog := changelog } key t v = .ok ({ s' with changelog := changelog }, kept) := by
  rw [insertRaw_eq _ _ _ ht hmax] at hraw
  have hpair := Except.ok.inj hraw
  have hcopy := insertRaw_eq { s with changelog := changelog } key v ht hmax
  split at hpair
  · rename_i hdrop
    cases hpair
    exact ⟨rfl, rfl, hcopy.trans (congrArg _ (if_pos hdrop))⟩
  · rename_i hkeep
    cases hpair
    exact ⟨rfl, rfl, hcopy.trans (congrArg _ (if_neg hkeep))⟩

/-- The store remembers the writes, and its changelog gives the store back. -/
structure Recorded [DecidableEq K] (retention : Int) (s₀ : VersionedBytesStore K V) (ws : List (VersionedWrite K V))
    (s : VersionedBytesStore K V) : Prop where
  remembers : Remembers retention ws s
  logs : s.logging = true
  replays : s.changelog.foldlM applyChangelogTs s₀ = .ok { s with changelog := [] }

namespace Recorded

variable [DecidableEq K] {s₀ : VersionedBytesStore K V} {w : VersionedWrite K V}

theorem write (h : Recorded retention s₀ ws s) (ht : IsI64 w.timestamp) (hmax : w.timestamp < i64Max) :
    ∃ s', s.write w.key (w.value.map (s.valueSerde.serialize s.changelogTopic)) w.timestamp = .ok s' ∧
      Recorded retention s₀ (ws ++ [w]) s' := by
  obtain ⟨s', kept, hraw, hrem, hdrop⟩ := h.remembers.insertRaw ht hmax
  obtain ⟨hlog, hlogging, hcopy⟩ := insertRaw_frame ht hmax hraw []
  show ∃ s'', (s.insertRaw _ _ _ >>= _) = Except.ok s'' ∧ _
  rw [hraw]
  rcases kept
  · obtain rfl := hdrop rfl
    exact ⟨s', rfl, hrem, h.logs, h.replays⟩
  · show ∃ s'', (if (true && s'.logging) = true then _ else _) = Except.ok s'' ∧ _
    rw [if_pos (show (true && s'.logging) = true from hlogging.trans h.logs)]
    refine ⟨_, rfl, ⟨hrem.key, hrem.value, hrem.retains, hrem.upper, hrem.observed, hrem.pruned, hrem.kept⟩,
      hlogging.trans h.logs, ?_⟩
    rw [hlog, List.foldlM_append, h.replays]
    show ((insertRaw _ _ _ _ >>= _) >>= _) = _
    rw [hcopy]
    rfl

theorem perform (h : Recorded retention s₀ ws s) (ht : IsI64 w.timestamp) (hmax : w.timestamp < i64Max) :
    ∃ s', s.perform w = .ok s' ∧ Recorded retention s₀ (ws ++ [w]) s' := by
  obtain ⟨s', hwrite, h'⟩ := h.write ht hmax
  rcases w with ⟨k, v, t⟩ | ⟨k, t⟩
  · exact ⟨s', hwrite, h'⟩
  · obtain ⟨o, hget⟩ := h.remembers.getAsOf_returns ht hmax k
    refine ⟨s', ?_, h'⟩
    show ((s.getAsOf k t >>= _) >>= _) = _
    rw [show s.getAsOf k t = .ok o from hget]
    rw [show s.write k none t = .ok s' from hwrite]
    rfl

theorem run : ∀ (ws' : List (VersionedWrite K V)) {ws : List (VersionedWrite K V)} {s : VersionedBytesStore K V},
    Recorded retention s₀ ws s → (∀ w ∈ ws', IsI64 w.timestamp ∧ w.timestamp < i64Max) →
      ∃ s', ws'.foldlM VersionedBytesStore.perform s = .ok s' ∧ Recorded retention s₀ (ws ++ ws') s'
  | [], ws, s, h, _ => ⟨s, rfl, by rwa [List.append_nil]⟩
  | w :: ws', ws, s, h, hts => by
    obtain ⟨ht, hmax⟩ := hts w List.mem_cons_self
    obtain ⟨s₁, hstep, h₁⟩ := h.perform ht hmax
    obtain ⟨s', hrun, h'⟩ := run ws' h₁ fun w hw => hts w (List.mem_cons_of_mem _ hw)
    rw [List.append_assoc] at h'
    exact ⟨s', by rw [List.foldlM_cons, hstep]; exact hrun, h'⟩

end Recorded

/-- From the horizon on the store answers as the complete history of the writes, and its changelog gives
the store back. -/
theorem answers_as_history [DecidableEq K] (retention : Int) (topic : Topic) (keySerde : Serde K) (valueSerde : Serde V)
    (hk : keySerde.Lawful) (hv : valueSerde.Lawful) (ws : List (VersionedWrite K V))
    (hts : ∀ w ∈ ws, IsI64 w.timestamp ∧ w.timestamp < i64Max) :
    ∃ s, ws.foldlM VersionedBytesStore.perform (inMemory retention keySerde valueSerde topic) = .ok s ∧
      (∀ k asOf, IsI64 asOf → asOf < i64Max → FromHorizon retention ws asOf →
        ∃ o, s.getAsOf k asOf = .ok o ∧ ∀ r, o = some r ↔ ValidAt (written ws k) asOf r) ∧
      (∀ k (fromTs toTs : Option Int) descending, IsI64 (fromTs.getD i64Min) → IsI64 (toTs.getD i64Max) →
        FromHorizon retention ws (fromTs.getD i64Min) → fromTs.getD i64Min ≤ toTs.getD i64Max →
        ∃ rs, s.iq2Execute (.multiVersionedKey (.own k) fromTs toTs descending) = .ok (.ok (.versions rs)) ∧
          rs.Pairwise (VersionedRecord.Precedes descending) ∧
          ∀ r, r ∈ rs ↔ IsVersion (written ws k) r ∧ r.Meets (fromTs.getD i64Min) (toTs.getD i64Max)) ∧
      s.changelog.foldlM applyChangelogTs (inMemory retention keySerde valueSerde topic) =
        .ok { s with changelog := [] } := by
  have hstart : Recorded retention (inMemory retention keySerde valueSerde topic) []
      (inMemory retention keySerde valueSerde topic) := ⟨.inMemory hk hv retention topic, rfl, rfl⟩
  obtain ⟨s, hrun, hrem, -, hreplays⟩ := Recorded.run ws hstart hts
  refine ⟨s, hrun, fun k asOf ht hmax hfrom => hrem.getAsOf ht hmax hfrom k,
    fun k fromTs toTs descending ht _ hfrom _ => ?_, hreplays⟩
  obtain ⟨rs, hanswer, hrs⟩ := hrem.multiVersionedKey toTs descending ht hfrom k
  refine ⟨rs, ?_, hrs⟩
  show (s.multiVersionedKey k fromTs toTs descending >>= _) = _
  rw [hanswer]
  rfl

def octetWrites : List (VersionedWrite UInt8 UInt8) :=
  [.put 1 (some 7) 100, .put 1 (some 8) 105, .delete 1 103, .put 2 (some 5) 120, .put 1 (some 9) 101]

theorem octetWrites_answered : ∃ s,
    octetWrites.foldlM VersionedBytesStore.perform (inMemory 10 Changed.octetSerde Changed.octetSerde "versions") = .ok s ∧
      ∃ o, s.getAsOf 1 110 = .ok o ∧ ∀ r, o = some r ↔ ValidAt (written octetWrites 1) 110 r := by
  obtain ⟨s, hrun, hget, -⟩ := answers_as_history 10 "versions" Changed.octetSerde Changed.octetSerde
    Changed.octetSerde_lawful Changed.octetSerde_lawful octetWrites (by decide)
  exact ⟨s, hrun, hget 1 110 (by decide) (by decide) (by decide)⟩

end VersionedBytesStore

end KrabkaStreams
