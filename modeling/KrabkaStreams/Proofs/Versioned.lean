import KrabkaStreams.Proofs.Bytes
import KrabkaStreams.Proofs.TimeWindows
import KrabkaStreams.Stores.Versioned

/-!
# Writes in order

A write that is not older than the versions of its key becomes the latest one (`Latest.put`), and what
was valid at its time is what was the latest before it (`Latest.getAsOf`).
-/

namespace KrabkaStreams

namespace VersionChain

variable {chain : VersionChain} {t : Int} {e : Int × Option Bytes}

theorem evict_subset (h : Int) : ∀ (times : List Int) (chain : VersionChain),
    e ∈ (chain.evict h times).entries → e ∈ chain.entries
  | t :: next :: times, chain, he => by
    have hmem := evict_subset h (next :: times) _ he
    split at hmem
    · exact (List.mem_filter.mp hmem).1
    · exact hmem
  | [], _, he => he
  | [_], _, he => he

theorem mem_evict (h : Int) : ∀ (times : List Int) (chain : VersionChain), e ∈ chain.entries →
    e.1 ∉ times.dropLast → e ∈ (chain.evict h times).entries
  | t :: next :: times, chain, he, hnot => by
    rw [List.dropLast_cons_cons, List.mem_cons, not_or] at hnot
    refine mem_evict h (next :: times) _ ?_ hnot.2
    split
    · exact List.mem_filter.mpr ⟨he, decide_eq_true hnot.1⟩
    · exact he
  | [], _, he, _ => he
  | [_], _, he, _ => he

theorem latest_evict (h : Int) (hl : chain.latest = some e) :
    (chain.evict h (chain.entries.map Prod.fst)).latest = some e := by
  obtain ⟨hmem, hmax⟩ := (chain.getLast?_entries_iff e).mp hl
  refine (SortedMap.getLast?_entries_iff _ e).mpr
    ⟨mem_evict h _ chain hmem ?_, fun e' he' => hmax e' (evict_subset h _ chain he')⟩
  obtain ⟨l, hl⟩ := List.getLast?_eq_some_iff.mp hl
  have hnodup := chain.nodup_keys
  rw [hl, List.map_append, List.map_singleton] at hnodup ⊢
  rw [List.dropLast_concat]
  exact fun hin => List.disjoint_of_nodup_append hnodup hin (List.mem_singleton_self _)

theorem latest_insert (h : ∀ e ∈ chain.entries, e.1 ≤ t) (v : Option Bytes) :
    VersionChain.latest (chain.insert t v) = some (t, v) := by
  refine (SortedMap.getLast?_entries_iff _ _).mpr
    ⟨(SortedMap.get?_eq_some_iff _ _ _).mp (chain.get?_insert_self t v), fun e he => ?_⟩
  rcases SortedMap.mem_insertList he with rfl | he
  · exact le_rfl
  · exact h e he

theorem validAt_eq_latest (h : ∀ e ∈ chain.entries, e.1 ≤ t) : chain.validAt t = chain.latest := by
  unfold validAt latest
  rw [List.filter_eq_self.mpr fun e he => decide_eq_true (h e he)]

theorem firstFrom_eq_none (h : ∀ e ∈ chain.entries, e.1 ≤ t) : chain.firstFrom (t + 1) = none := by
  unfold firstFrom
  rw [List.find?_eq_none.mpr fun e he => by
    have hle := h e he
    simp only [decide_eq_true_eq]
    omega]
  rfl

end VersionChain

namespace VersionedBytesStore

variable {K V : Type} {s : VersionedBytesStore K V} {f : K → Option (Int × V)} {k : K} {t : Int}

def version (s : VersionedBytesStore K V) (e : Int × V) : Int × Option Bytes :=
  (e.1, some (s.valueSerde.serialize s.changelogTopic e.2))

/-- The keys of `f` have chains, with `f` as their latest versions. -/
structure Latest (s : VersionedBytesStore K V) (f : K → Option (Int × V)) : Prop where
  key : s.keySerde.Lawful
  value : s.valueSerde.Lawful
  chain : ∀ k, (s.chains.get? (s.keyBytes k)).map VersionChain.latest = (f k).map fun e => some (s.version e)

/-- A write at `t` comes after the latest version of `k`, and has an instant after it. -/
def Follows (f : K → Option (Int × V)) (k : K) (t : Int) : Prop :=
  ∀ e, f k = some e → e.1 ≤ t ∧ t < i64Max

theorem checked_succ (ht : IsI64 t) (hmax : t < i64Max) : checkedI64 (t + 1) = .ok (t + 1) :=
  checkedI64_eq_ok.mpr ⟨⟨by unfold IsI64 at ht; omega, by omega⟩, rfl⟩

namespace Latest

theorem inMemory {keySerde : Serde K} {valueSerde : Serde V} (hk : keySerde.Lawful)
    (hv : valueSerde.Lawful) (retention : Int) (topic : Topic) :
    (VersionedBytesStore.inMemory retention keySerde valueSerde topic).Latest fun _ => none :=
  ⟨hk, hv, fun _ => rfl⟩

theorem chain_none (h : s.Latest f) (hf : f k = none) : s.chains.get? (s.keyBytes k) = none := by
  have hchain := h.chain k
  rw [hf] at hchain
  exact Option.map_eq_none_iff.mp hchain

theorem chain_some (h : s.Latest f) {e : Int × V} (hf : f k = some e) :
    ∃ chain, s.chains.get? (s.keyBytes k) = some chain ∧ chain.latest = some (s.version e) := by
  have hchain := h.chain k
  rw [hf] at hchain
  exact Option.map_eq_some_iff.mp hchain

theorem bounded {chain : VersionChain} {e : Int × Option Bytes} (h : chain.latest = some e) (ht : e.1 ≤ t) :
    ∀ e' ∈ chain.entries, e'.1 ≤ t :=
  fun e' he' => (((chain.getLast?_entries_iff e).mp h).2 e' he').trans ht

theorem decode (h : s.Latest f) (v : V) :
    s.decode (s.valueSerde.serialize s.changelogTopic v) = .ok v := by
  unfold VersionedBytesStore.decode
  rw [h.value s.changelogTopic v]

theorem get (h : s.Latest f) (k : K) : s.get k = .ok ((f k).map fun e => ⟨e.2, e.1, none⟩) := by
  unfold VersionedBytesStore.get
  rcases hf : f k with _ | e
  · rw [h.chain_none hf]
    rfl
  · obtain ⟨chain, hchain, hlast⟩ := h.chain_some hf
    rw [hchain, Option.bind_some, hlast]
    show (s.decode _ >>= _) = _
    rw [h.decode]
    rfl

theorem getAsOf (h : s.Latest f) (hfol : Follows f k t) (ht : IsI64 t) :
    ∃ o, s.getAsOf k t = .ok o ∧ o.map (·.value) = (f k).map Prod.snd := by
  unfold VersionedBytesStore.getAsOf
  rcases hf : f k with _ | e
  · rw [h.chain_none hf]
    exact ⟨none, rfl, rfl⟩
  · obtain ⟨chain, hchain, hlast⟩ := h.chain_some hf
    obtain ⟨hle, hmax⟩ := hfol e hf
    have hlo : checkedI64 (t + 1) = .ok (t + 1) := checked_succ ht hmax
    refine ⟨some ⟨e.2, e.1, chain.firstFrom (t + 1)⟩, ?_, rfl⟩
    rw [hchain]
    dsimp only
    rw [VersionChain.validAt_eq_latest (bounded hlast hle), hlast]
    rw [hlo]
    show (s.decode _ >>= _) = _
    rw [h.decode]
    rfl

theorem getD_bounded (h : s.Latest f) (hfol : Follows f k t) :
    ∀ e ∈ ((s.chains.get? (s.keyBytes k)).getD .empty).entries, e.1 ≤ t := by
  rcases hf : f k with _ | e
  · rw [h.chain_none hf]
    exact fun e he => absurd he List.not_mem_nil
  · obtain ⟨chain, hchain, hlast⟩ := h.chain_some hf
    rw [hchain]
    exact bounded hlast (hfol e hf).1

theorem not_superseded (h : s.Latest f) (hfol : Follows f k t) (ht : IsI64 t) :
    s.superseded (s.keyBytes k) t = .ok false := by
  unfold superseded
  rcases hf : f k with _ | e
  · rw [h.chain_none hf]
  · obtain ⟨chain, hchain, hlast⟩ := h.chain_some hf
    obtain ⟨hle, hmax⟩ := hfol e hf
    have hlo : checkedI64 (t + 1) = .ok (t + 1) := checked_succ ht hmax
    rw [hchain]
    rw [hlo]
    show Except.ok ((chain.firstFrom (t + 1)).any _) = _
    rw [VersionChain.firstFrom_eq_none (bounded hlast hle)]
    rfl

theorem insertRaw [DecidableEq K] (h : s.Latest f) (hfol : Follows f k t) (ht : IsI64 t) (v : V) :
    ∃ s', s.insertRaw (s.keyBytes k) t (some (s.valueSerde.serialize s.changelogTopic v)) = .ok (s', true) ∧
      s'.Latest (Function.update f k (some (t, v))) := by
  have hobs : Latest { s with observedStreamTime := max s.observedStreamTime t } f := ⟨h.key, h.value, h.chain⟩
  show ∃ s', (superseded _ _ _ >>= _) = Except.ok (s', true) ∧ _
  rw [show superseded _ (s.keyBytes k) t = _ from hobs.not_superseded hfol ht]
  refine ⟨_, rfl, h.key, h.value, fun k' => ?_⟩
  by_cases hk : k' = k
  · subst hk
    rw [Function.update_self]
    show Option.map _ (SortedMap.get? (SortedMap.insert _ (s.keyBytes k') _) (s.keyBytes k')) = _
    rw [SortedMap.get?_insert_self]
    exact congrArg some (VersionChain.latest_evict _ (VersionChain.latest_insert (h.getD_bounded hfol) _))
  · have hne : s.keyBytes k ≠ s.keyBytes k' := fun heq => hk (Serde.Lawful.inj h.key heq).symm
    rw [Function.update_of_ne hk]
    show Option.map _ (SortedMap.get? (SortedMap.insert _ (s.keyBytes k) _) (s.keyBytes k')) = _
    rw [SortedMap.get?_insert_of_ne hne]
    exact h.chain k'

theorem put [DecidableEq K] (h : s.Latest f) (hfol : Follows f k t) (ht : IsI64 t) (v : V) :
    ∃ s', s.put k (some v) t = .ok s' ∧ s'.Latest (Function.update f k (some (t, v))) := by
  obtain ⟨s₁, hraw, h₁⟩ := h.insertRaw hfol ht v
  unfold VersionedBytesStore.put write
  rw [Option.map_some]
  show ∃ s', (s.insertRaw _ _ _ >>= _) = Except.ok s' ∧ _
  rw [hraw]
  show ∃ s', (if (true && s₁.logging) = true then _ else _) = Except.ok s' ∧ _
  split
  · exact ⟨_, rfl, h₁.key, h₁.value, h₁.chain⟩
  · exact ⟨_, rfl, h₁⟩

end Latest

end VersionedBytesStore

end KrabkaStreams
