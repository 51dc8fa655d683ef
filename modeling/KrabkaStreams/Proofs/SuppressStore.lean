import KrabkaStreams.Dsl.Suppress
import Mathlib.Logic.Function.Basic

/-!
# The suppress buffer as a table

The buffer holds at most one pending change of a key, with its buffer time. A put replaces it, and an
eviction takes out exactly the changes that are due (`evictWhile_spec`).
-/

namespace KrabkaStreams

open Runs

variable {K V : Type} (threshold : Int) {b : Int × Change V × Int} {k : K}

namespace SuppressBytesStore

/-- The pending changes by key: the buffer time, the change and the record timestamp. -/
abbrev Table (K V : Type) := K → Option (Int × Change V × Int)

def entryFor (s : SuppressBytesStore K V) (k : K) (b : Int × Change V × Int) : SuppressEntry :=
  ⟨s.keyBytes k, b.2.1.new.map s.valueBytes, b.2.1.old.map s.valueBytes, b.2.2⟩

/-- The buffer is consistent and its pending changes are those of the table, whose keys are among those
that the key serde gives back. -/
structure Holds (D : K → Prop) (s : SuppressBytesStore K V) (g : Table K V) : Prop where
  key : ∀ {k}, D k → s.decodeKey (s.keyBytes k) = .ok k
  value : s.valueSerde.Lawful
  slot : ∀ {k b}, g k = some b → D k ∧ ∃ n < s.seq, s.index.get? (s.keyBytes k) = some (toLex (b.1, n)) ∧
    s.entries.get? (toLex (b.1, n)) = some (s.entryFor k b)
  entry : ∀ {slot e}, s.entries.get? slot = some e →
    ∃ k b, g k = some b ∧ s.index.get? (s.keyBytes k) = some slot
  index : ∀ {kb slot}, s.index.get? kb = some slot → ∃ k b, g k = some b ∧ s.keyBytes k = kb

variable {D : K → Prop} {s s' : SuppressBytesStore K V} {g : Table K V}

theorem Holds.inMemory {keySerde : Serde K} {valueSerde : Serde V} {topic : Topic}
    (hk : ∀ {k}, D k → keySerde.deserialize topic (keySerde.serialize topic k) = .ok k)
    (hv : valueSerde.Lawful) : (inMemory keySerde valueSerde topic).Holds D fun _ => none where
  key hD := by
    unfold decodeKey keyBytes SuppressBytesStore.inMemory
    rw [hk hD]
  value := hv
  slot h := by cases h
  entry h := by cases h
  index h := by cases h

theorem Holds.keyBytes_inj (h : s.Holds D g) {k k' : K} (hk : D k) (hk' : D k')
    (he : s.keyBytes k = s.keyBytes k') : k = k' := by
  have hd := h.key hk
  rw [he, h.key hk'] at hd
  exact (Except.ok.inj hd).symm

variable [DecidableEq K]

theorem Holds.remove (h : s.Holds D g) (hg : g k = some b) {slot : Slot}
    (hslot : s.index.get? (s.keyBytes k) = some slot) (size : Nat) (log : List (Bytes × Option Bytes)) :
    { s with
      entries := s.entries.erase slot, index := s.index.erase (s.keyBytes k)
      byteSize := size, changelog := log }.Holds D (Function.update g k none) := by
  obtain ⟨hD, n, -, hidx, hent⟩ := h.slot hg
  have hsl : slot = toLex (b.1, n) := Option.some.inj (hslot.symm.trans hidx)
  -- the slots and the key bytes of other keys are others
  have hkb : ∀ {k' b'}, g k' = some b' → k' ≠ k → s.keyBytes k ≠ s.keyBytes k' := fun hg' hne he =>
    hne (h.keyBytes_inj (h.slot hg').1 hD he.symm)
  constructor
  · exact h.key
  · exact h.value
  · intro k' b' hg'
    have hne : k' ≠ k := by
      rintro rfl
      rw [Function.update_self] at hg'
      cases hg'
    rw [Function.update_of_ne hne] at hg'
    obtain ⟨hD', n', hn', hidx', hent'⟩ := h.slot hg'
    refine ⟨hD', n', hn', ?_, ?_⟩
    · show (s.index.erase (s.keyBytes k)).get? (s.keyBytes k') = _
      rw [SortedMap.get?_erase, if_neg (hkb hg' hne), hidx']
    · rw [SortedMap.get?_erase, if_neg, hent']
      · rfl
      · rintro rfl
        rw [hsl, hent] at hent'
        exact hkb hg' hne (congrArg SuppressEntry.keyBytes (Option.some.inj hent'))
  · intro slot' e he
    rw [SortedMap.get?_erase] at he
    split at he
    · cases he
    · rename_i hne
      obtain ⟨k', b', hg', hidx'⟩ := h.entry he
      have hk : k' ≠ k := by
        rintro rfl
        exact hne (Option.some.inj (hslot.symm.trans hidx'))
      refine ⟨k', b', by rw [Function.update_of_ne hk, hg'], ?_⟩
      show (s.index.erase (s.keyBytes k)).get? (s.keyBytes k') = _
      rw [SortedMap.get?_erase, if_neg (hkb hg' hk), hidx']
  · intro kb slot' hi
    rw [SortedMap.get?_erase] at hi
    split at hi
    · cases hi
    · rename_i hne
      obtain ⟨k', b', hg', rfl⟩ := h.index hi
      have hk : k' ≠ k := by
        rintro rfl
        exact hne rfl
      exact ⟨k', b', by rw [Function.update_of_ne hk, hg'], rfl⟩

theorem Holds.insert (h : s.Holds D g) (hD : D k) (hg : g k = none) (b : Int × Change V × Int) :
    (s.insertSlot b.1 (s.entryFor k b)).Holds D (Function.update g k (some b)) := by
  have hkb : ∀ {k'}, D k' → k' ≠ k → s.keyBytes k ≠ s.keyBytes k' := fun hD' hne he =>
    hne (h.keyBytes_inj hD' hD he.symm)
  have hindex : ∀ {kb}, s.keyBytes k ≠ kb →
      (s.insertSlot b.1 (s.entryFor k b)).index.get? kb = s.index.get? kb := SortedMap.get?_insert_of_ne
  have hentries : ∀ {slot}, toLex (b.1, s.seq) ≠ slot →
      (s.insertSlot b.1 (s.entryFor k b)).entries.get? slot = s.entries.get? slot :=
    SortedMap.get?_insert_of_ne
  have hself : (s.insertSlot b.1 (s.entryFor k b)).index.get? (s.keyBytes k)
      = some (toLex (b.1, s.seq)) := SortedMap.get?_insert_self ..
  constructor
  · exact h.key
  · exact h.value
  · intro k' b' hg'
    by_cases hk : k' = k
    · subst hk
      rw [Function.update_self] at hg'
      cases hg'
      exact ⟨hD, s.seq, Nat.lt_succ_self _, hself, SortedMap.get?_insert_self ..⟩
    · rw [Function.update_of_ne hk] at hg'
      obtain ⟨hD', n, hn, hidx, hent⟩ := h.slot hg'
      refine ⟨hD', n, Nat.lt_succ_of_lt hn, (hindex (hkb hD' hk)).trans hidx, ?_⟩
      refine (hentries fun he => ?_).trans hent
      have := congrArg Prod.snd (toLex.injective he)
      omega
  · intro slot e he
    by_cases hs : toLex (b.1, s.seq) = slot
    · exact ⟨k, b, Function.update_self .., hs ▸ hself⟩
    · rw [hentries hs] at he
      obtain ⟨k', b', hg', hidx⟩ := h.entry he
      have hk : k' ≠ k := by
        rintro rfl
        rw [hg] at hg'
        cases hg'
      exact ⟨k', b', by rw [Function.update_of_ne hk, hg'], (hindex (hkb (h.slot hg').1 hk)).trans hidx⟩
  · intro kb slot hi
    by_cases hkb' : s.keyBytes k = kb
    · exact ⟨k, b, Function.update_self .., hkb'⟩
    · rw [hindex hkb'] at hi
      obtain ⟨k', b', hg', rfl⟩ := h.index hi
      have hk : k' ≠ k := by
        rintro rfl
        rw [hg] at hg'
        cases hg'
      exact ⟨k', b', by rw [Function.update_of_ne hk, hg'], rfl⟩

omit [DecidableEq K] in
theorem dropSlot_eq_ok {slot : Slot} {e : SuppressEntry} (h : s.dropSlot slot = .ok (e, s')) :
    s.entries.get? slot = some e ∧
      s' = { s with entries := s.entries.erase slot, byteSize := s.byteSize - e.size } := by
  unfold dropSlot at h
  rcases he : s.entries.get? slot with _ | e'
  · rw [he] at h
    cases h
  · rw [he] at h
    dsimp only at h
    split at h
    · cases h
      exact ⟨rfl, rfl⟩
    · cases h

theorem Holds.removeExisting (h : s.Holds D g) (hD : D k) {o : Option Bytes}
    (hr : s.removeExisting (s.keyBytes k) = .ok (o, s')) :
    s'.Holds D (Function.update g k none) ∧ s'.keySerde = s.keySerde ∧ s'.valueSerde = s.valueSerde ∧
      s'.changelogTopic = s.changelogTopic := by
  unfold SuppressBytesStore.removeExisting at hr
  rcases hi : s.index.get? (s.keyBytes k) with _ | slot
  · rw [hi] at hr
    cases hr
    have hg : g k = none := by
      rcases hg : g k with _ | b
      · rfl
      · obtain ⟨-, n, -, hidx, -⟩ := h.slot hg
        rw [hi] at hidx
        cases hidx
    rw [← hg, Function.update_eq_self]
    exact ⟨h, rfl, rfl, rfl⟩
  · rw [hi] at hr
    obtain ⟨⟨e, s₁⟩, hdrop, hr⟩ := bind_eq_ok.mp hr
    cases hr
    obtain ⟨-, rfl⟩ := dropSlot_eq_ok hdrop
    obtain ⟨k', b, hg, hkb⟩ := h.index hi
    cases h.keyBytes_inj (h.slot hg).1 hD hkb
    exact ⟨h.remove hg hi _ _, rfl, rfl, rfl⟩

theorem Holds.put (h : s.Holds D g) (hD : D k) {bufferTime : Int} {change : Change V} {ctx : RecordContext}
    (hp : s.put k bufferTime change ctx = .ok s') :
    s'.Holds D (Function.update g k (some (bufferTime, change, ctx.timestamp))) := by
  obtain ⟨⟨o, s₁⟩, hr, hp⟩ := bind_eq_ok.mp hp
  obtain ⟨hs₁, hks, hvs, htopic⟩ := h.removeExisting hD hr
  have hins := hs₁.insert hD (Function.update_self ..) (bufferTime, change, ctx.timestamp)
  rw [Function.update_idem] at hins
  have hentry : s₁.entryFor k (bufferTime, change, ctx.timestamp)
      = ⟨s.keyBytes k, change.new.map s.valueBytes, change.old.map s.valueBytes, ctx.timestamp⟩ := by
    unfold entryFor keyBytes valueBytes
    rw [hks, hvs, htopic]
  rw [hentry] at hins
  dsimp only at hp
  split at hp
  · obtain ⟨v, -, hp⟩ := bind_eq_ok.mp hp
    cases hp
    exact ⟨hins.key, hins.value, hins.slot, hins.entry, hins.index⟩
  · cases hp
    exact hins

omit [DecidableEq K] in
theorem Holds.decodeOption (h : s.Holds D g) (o : Option V) : s.decodeOption (o.map s.valueBytes) = .ok o := by
  cases o with
  | none => rfl
  | some v =>
    have hv : s.valueSerde.deserialize s.changelogTopic (s.valueBytes v) = .ok v := h.value _ _
    simp only [Option.map_some, SuppressBytesStore.decodeOption, hv]

omit [DecidableEq K] in
theorem tombstone_eq (s : SuppressBytesStore K V) (kb : Bytes) :
    ∃ log, s.tombstone kb = { s with changelog := log } := by
  unfold tombstone
  split
  · exact ⟨_, rfl⟩
  · exact ⟨s.changelog, rfl⟩

theorem Holds.popSlot (h : s.Holds D g) {slot : Slot} {x : K × Change V × Int}
    (hp : s.popSlot slot = .ok (x, s')) :
    g x.1 = some ((ofLex slot).1, x.2) ∧ s'.Holds D (Function.update g x.1 none) ∧
      s'.entries = s.entries.erase slot := by
  obtain ⟨⟨e, s₁⟩, hdrop, hp⟩ := bind_eq_ok.mp hp
  obtain ⟨he, rfl⟩ := dropSlot_eq_ok hdrop
  obtain ⟨k, b, hg, hidx⟩ := h.entry he
  obtain ⟨hD, n, -, hidx', hent⟩ := h.slot hg
  cases hidx.symm.trans hidx'
  cases he.symm.trans hent
  obtain ⟨log, hlog⟩ := tombstone_eq { s with
    entries := s.entries.erase (toLex (b.1, n)), byteSize := s.byteSize - (s.entryFor k b).size
    index := s.index.erase (s.keyBytes k) } (s.keyBytes k)
  have hrem := h.remove hg hidx (s.byteSize - (s.entryFor k b).size) log
  dsimp only at hp
  rw [show (s.entryFor k b).keyBytes = s.keyBytes k from rfl, hlog] at hp
  obtain ⟨key, hkey, hp⟩ := bind_eq_ok.mp hp
  obtain ⟨old, hold, hp⟩ := bind_eq_ok.mp hp
  obtain ⟨new, hnew, hp⟩ := bind_eq_ok.mp hp
  cases hp
  cases (hrem.key hD).symm.trans hkey
  cases (hrem.decodeOption b.2.1.old).symm.trans hold
  cases (hrem.decodeOption b.2.1.new).symm.trans hnew
  exact ⟨hg, hrem, rfl⟩

def kept (o : Option (Int × Change V × Int)) : Option (Int × Change V × Int) :=
  o.filter fun b => threshold < b.1

def left (k : K) (o : Option (Int × Change V × Int)) : List (K × Change V × Int) :=
  (o.filter fun b => b.1 ≤ threshold).toList.map fun b => (k, b.2)

omit [DecidableEq K] in
theorem kept_or_left (k : K) (b : Int × Change V × Int) :
    (threshold < b.1 ∧ kept threshold (some b) = some b ∧ left threshold k (some b) = []) ∨
      (b.1 ≤ threshold ∧ kept threshold (some b) = none ∧ left threshold k (some b) = [(k, b.2)]) := by
  unfold kept left
  rcases lt_or_ge threshold b.1 with hlt | hle
  · exact .inl ⟨hlt, Option.filter_some_pos (by simpa using hlt), by
      rw [Option.filter_some_neg (by simpa using hlt)]
      rfl⟩
  · exact .inr ⟨hle, Option.filter_some_neg (by simpa using hle), by
      rw [Option.filter_some_pos (by simpa using hle)]
      rfl⟩

def Table.after (g : Table K V) (threshold : Int) : Table K V := fun k => kept threshold (g k)

def Table.due (g : Table K V) (threshold : Int) (k : K) : List (K × Change V × Int) :=
  left threshold k (g k)

omit [DecidableEq K] in
theorem Holds.nothing_due (h : s.Holds D g) {threshold : Int}
    (hlate : ∀ e ∈ s.entries.entries, threshold < (ofLex e.1).1) :
    g.after threshold = g ∧ ∀ k, g.due threshold k = [] := by
  have hb : ∀ {k b}, g k = some b → threshold < b.1 := fun hg => by
    obtain ⟨-, n, -, -, hent⟩ := h.slot hg
    exact hlate _ ((SortedMap.get?_eq_some_iff _ _ _).mp hent)
  refine ⟨funext fun k => ?_, fun k => ?_⟩
  · unfold Table.after
    rcases hg : g k with _ | b
    · rfl
    · exact ((kept_or_left threshold k b).resolve_right fun hr => absurd (hb hg) (not_lt.mpr hr.1)).2.1
  · unfold Table.due
    rcases hg : g k with _ | b
    · rfl
    · exact ((kept_or_left threshold k b).resolve_right fun hr => absurd (hb hg) (not_lt.mpr hr.1)).2.2

theorem after_update {g : Table K V} {threshold : Int} (hg : g k = some b) (hb : b.1 ≤ threshold) :
    Table.after (Function.update g k none) threshold = g.after threshold := by
  funext k'
  unfold Table.after
  by_cases hk : k' = k
  · subst hk
    rw [Function.update_self, hg]
    exact ((kept_or_left threshold k' b).resolve_left fun hl => absurd hb (not_le.mpr hl.1)).2.1.symm
  · rw [Function.update_of_ne hk]

theorem due_update {g : Table K V} {threshold : Int} (hg : g k = some b) (hb : b.1 ≤ threshold) (k' : K) :
    g.due threshold k' = [(k, b.2)].filter (fun x => x.1 = k')
      ++ Table.due (Function.update g k none) threshold k' := by
  unfold Table.due
  by_cases hk : k' = k
  · subst hk
    rw [Function.update_self, hg,
      ((kept_or_left threshold k' b).resolve_left fun hl => absurd hb (not_le.mpr hl.1)).2.2]
    simp [left]
  · rw [Function.update_of_ne hk]
    simp [Ne.symm hk]

theorem evictLoop_spec {threshold : Int} : ∀ {n : Nat} {s s' : SuppressBytesStore K V} {g : Table K V}
    {out : List (K × Change V × Int)}, s.Holds D g → s.entries.entries.length ≤ n →
      evictLoop threshold n s = .ok (out, s') →
      s'.Holds D (g.after threshold) ∧ ∀ k, out.filter (fun x => x.1 = k) = g.due threshold k
  | 0, s, s', g, out, h, hn, he => by
    cases he
    have hnil := List.eq_nil_of_length_eq_zero (Nat.le_zero.mp hn)
    have hlate : ∀ e ∈ s.entries.entries, threshold < (ofLex e.1).1 := by simp [hnil]
    obtain ⟨hafter, hdue⟩ := h.nothing_due hlate
    exact ⟨by rwa [hafter], fun k => (hdue k).symm⟩
  | n + 1, s, s', g, out, h, hn, he => by
    unfold evictLoop at he
    rcases hent : s.entries.entries with _ | ⟨⟨slot, e⟩, rest⟩
    · rw [hent] at he
      cases he
      have hlate : ∀ e ∈ s.entries.entries, threshold < (ofLex e.1).1 := by simp [hent]
      obtain ⟨hafter, hdue⟩ := h.nothing_due hlate
      exact ⟨by rwa [hafter], fun k => (hdue k).symm⟩
    · rw [hent] at he
      dsimp only at he
      split at he
      · rename_i hlate
        cases he
        -- the later slots have no earlier buffer times
        have hall : ∀ e ∈ s.entries.entries, threshold < (ofLex e.1).1 := by
          intro e' he'
          rw [hent] at he'
          rcases List.mem_cons.mp he' with rfl | he'
          · exact hlate
          · have hs := s.entries.sorted
            rw [hent] at hs
            have hlt := (List.pairwise_cons.mp hs).1 e' he'
            rcases Prod.Lex.lt_iff.mp hlt with hlt | ⟨heq, -⟩
            · exact hlate.trans hlt
            · exact heq ▸ hlate
        obtain ⟨hafter, hdue⟩ := h.nothing_due hall
        exact ⟨by rwa [hafter], fun k => (hdue k).symm⟩
      · rename_i hle
        obtain ⟨⟨x, s₁⟩, hpop, he⟩ := bind_eq_ok.mp he
        obtain ⟨⟨xs, s₂⟩, hloop, he⟩ := bind_eq_ok.mp he
        cases he
        obtain ⟨hg, hs₁, hentries⟩ := h.popSlot hpop
        have hlen : s₁.entries.entries.length ≤ n := by
          rw [hentries, SortedMap.entries_erase_head hent]
          simp only [hent, List.length_cons] at hn
          omega
        obtain ⟨hs', hout⟩ := evictLoop_spec hs₁ hlen hloop
        refine ⟨by rwa [after_update hg (not_lt.mp hle)] at hs', fun k => ?_⟩
        rw [due_update hg (not_lt.mp hle), ← hout k, ← List.filter_append]
        rfl

theorem Holds.evictWhile (h : s.Holds D g) {threshold : Int} {out : List (K × Change V × Int)}
    (he : s.evictWhile threshold = .ok (out, s')) :
    s'.Holds D (g.after threshold) ∧ ∀ k, out.filter (fun x => x.1 = k) = g.due threshold k :=
  evictLoop_spec h le_rfl he

end SuppressBytesStore

end KrabkaStreams
