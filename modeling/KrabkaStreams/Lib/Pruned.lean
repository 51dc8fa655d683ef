import KrabkaStreams.Lib.SortedMap

/-!
# Pruned histories

The value of an instant counts up to the next instant with one (`Next`). A map keeps of a history what
can be seen from a horizon on (`Pruned`), and then the intervals that end above the horizon are those of
the history (`Pruned.next_iff`).
-/

def Next {κ α : Type} [LinearOrder κ] (f : κ → Option α) (t : κ) : Option κ → Prop
  | none => ∀ t', t < t' → f t' = none
  | some n => t < n ∧ f n ≠ none ∧ ∀ t', t < t' → t' < n → f t' = none

namespace Next

variable {κ α : Type} [LinearOrder κ] {f : κ → Option α} {t t' : κ} {o o' : Option κ}

theorem exists_le (h : Next f t o) (hlt : t < t') (hf : f t' ≠ none) : ∃ n, o = some n ∧ n ≤ t' := by
  rcases o with _ | n
  · exact absurd (h t' hlt) hf
  · exact ⟨n, rfl, not_lt.mp fun hn => hf (h.2.2 t' hlt hn)⟩

theorem congr {g : κ → Option α} (h : ∀ t', t < t' → f t' = g t') : Next f t o ↔ Next g t o := by
  rcases o with _ | n
  · exact forall₂_congr fun t' hlt => by rw [h t' hlt]
  · refine and_congr_right fun hn => ?_
    rw [h n hn]
    refine and_congr_right fun _ => forall₂_congr fun t' hlt => ?_
    rw [h t' hlt]

theorem unique (h : Next f t o) (h' : Next f t o') : o = o' := by
  rcases o with _ | n <;> rcases o' with _ | n'
  · rfl
  · exact absurd (h n' h'.1) h'.2.1
  · exact absurd (h' n h.1) h.2.1
  · obtain ⟨m, hm, hle⟩ := h.exists_le h'.1 h'.2.1
    obtain ⟨m', hm', hle'⟩ := h'.exists_le h.1 h.2.1
    cases hm
    cases hm'
    exact congrArg some (le_antisymm hle hle')

end Next

namespace Next

variable {κ α : Type} [LinearOrder κ] {f : κ → Option α} {t a : κ} {o : Option κ}

theorem map_iff {β : Type} (g : α → β) : Next (fun t => (f t).map g) t o ↔ Next f t o := by
  rcases o with _ | n <;> simp [Next]

theorem holds_iff (hle : t ≤ a) :
    (Next f t o ∧ ∀ n ∈ o, a < n) ↔ ((∀ t', t < t' → t' ≤ a → f t' = none) ∧ Next f a o) := by
  rcases o with _ | n
  · constructor
    · rintro ⟨h, -⟩
      exact ⟨fun t' hlt _ => h t' hlt, fun t' hlt => h t' (hle.trans_lt hlt)⟩
    · rintro ⟨hgap, h⟩
      refine ⟨fun t' hlt => ?_, by simp⟩
      rcases le_or_gt t' a with hta | hta
      · exact hgap t' hlt hta
      · exact h t' hta
  · constructor
    · rintro ⟨h, ha⟩
      have han := ha n rfl
      exact ⟨fun t' hlt hta => h.2.2 t' hlt (hta.trans_lt han),
        han, h.2.1, fun t' hlt hn => h.2.2 t' (hle.trans_lt hlt) hn⟩
    · rintro ⟨hgap, h⟩
      refine ⟨⟨hle.trans_lt h.1, h.2.1, fun t' hlt hn => ?_⟩, fun n' hn' => Option.some.inj hn' ▸ h.1⟩
      rcases le_or_gt t' a with hta | hta
      · exact hgap t' hlt hta
      · exact h.2.2 t' hta hn

end Next

namespace SortedMap

variable {κ α : Type} [LinearOrder κ] (m : SortedMap κ α)

def intervalsOf : List (κ × α) → List (κ × α × Option κ)
  | [] => []
  | e :: l => (e.1, e.2, l.head?.map Prod.fst) :: intervalsOf l

def intervals : List (κ × α × Option κ) := intervalsOf m.entries

omit [LinearOrder κ] in
theorem map_fst_intervalsOf : ∀ l : List (κ × α), (intervalsOf l).map Prod.fst = l.map Prod.fst
  | [] => rfl
  | _ :: l => congrArg _ (map_fst_intervalsOf l)

theorem intervals_sorted : m.intervals.Pairwise fun a b => a.1 < b.1 := by
  have hs := List.pairwise_map.mpr m.sorted
  rw [← map_fst_intervalsOf] at hs
  exact List.pairwise_map.mp hs

theorem next_head {l : List (κ × α)} {t : κ} (hs : l.Pairwise fun a b => a.1 < b.1) (hbelow : ∀ e ∈ l, t < e.1) :
    Next (lookupList l) t (l.head?.map Prod.fst) := by
  rcases l with _ | ⟨e, l⟩
  · exact fun _ _ => rfl
  · refine ⟨hbelow e List.mem_cons_self, by simp [lookupList], fun t' _ hlt => lookupList_eq_none_iff.mpr fun hin => ?_⟩
    obtain ⟨e', he', rfl⟩ := List.mem_map.mp hin
    rcases List.mem_cons.mp he' with rfl | he'
    · exact lt_irrefl _ hlt
    · exact lt_asymm hlt ((List.pairwise_cons.mp hs).1 e' he')

theorem mem_intervalsOf : ∀ {l : List (κ × α)}, l.Pairwise (fun a b => a.1 < b.1) → ∀ {t : κ} {a : α} {o : Option κ},
    ((t, a, o) ∈ intervalsOf l ↔ lookupList l t = some a ∧ Next (lookupList l) t o)
  | [], _, t, a, o => by simp [intervalsOf, lookupList]
  | e :: l, hs, t, a, o => by
    obtain ⟨hhead, htail⟩ := List.pairwise_cons.mp hs
    have hne : ∀ {t'}, e.1 ≠ t' → lookupList (e :: l) t' = lookupList l t' := fun h => by simp [lookupList, h]
    have habove : ∀ {t'}, e.1 ≤ t' → (Next (lookupList (e :: l)) t' o ↔ Next (lookupList l) t' o) := fun hle =>
      Next.congr fun _ hlt => hne (hle.trans_lt hlt).ne
    have hmem : (t, a, o) ∈ intervalsOf l ↔ lookupList l t = some a ∧ Next (lookupList l) t o := mem_intervalsOf htail
    rw [intervalsOf, List.mem_cons, hmem]
    rcases eq_or_ne e.1 t with rfl | ht
    · -- the head: the next key is the first one of the rest
      have hnone : lookupList l e.1 = none := lookupList_eq_none_iff.mpr fun hin => by
        obtain ⟨e', he', heq⟩ := List.mem_map.mp hin
        exact (hhead e' he').ne heq.symm
      have hhere : lookupList (e :: l) e.1 = some e.2 := by simp [lookupList]
      rw [hnone, hhere, habove le_rfl, Option.some_inj]
      constructor
      · rintro (heq | ⟨hcontra, -⟩)
        · cases heq
          exact ⟨rfl, next_head htail hhead⟩
        · cases hcontra
      · rintro ⟨rfl, hnext⟩
        rw [hnext.unique (next_head htail hhead)]
        exact .inl rfl
    · have hfalse : (t, a, o) ≠ (e.1, e.2, l.head?.map Prod.fst) := fun heq => ht (congrArg Prod.fst heq).symm
      rw [hne ht, or_iff_right hfalse]
      refine and_congr_right fun hget => (habove ?_).symm
      exact (hhead (t, a) ((lookupList_eq_some_iff htail t a).mp hget)).le

theorem mem_intervals {t : κ} {a : α} {o : Option κ} :
    (t, a, o) ∈ m.intervals ↔ m.get? t = some a ∧ Next m.get? t o :=
  mem_intervalsOf m.sorted

end SortedMap

/-- Where `m` is not as the history, it keeps a later instant at or below the horizon. -/
structure Pruned {κ α : Type} [LinearOrder κ] (h : κ) (f : κ → Option α) (m : SortedMap κ α) : Prop where
  written : ∀ t, m.get? t ≠ none → f t ≠ none
  agrees : ∀ t, m.get? t = f t ∨ ∃ n, t < n ∧ n ≤ h ∧ m.get? n ≠ none

namespace Pruned

variable {κ α : Type} [LinearOrder κ] {h h' t : κ} {f : κ → Option α} {m m' : SortedMap κ α} {a : α}

theorem empty : Pruned h (fun _ => none) (.empty : SortedMap κ α) :=
  ⟨fun _ hm => absurd rfl hm, fun _ => .inl rfl⟩

theorem mono (hp : Pruned h f m) (hle : h ≤ h') : Pruned h' f m :=
  ⟨hp.written, fun t => (hp.agrees t).imp_right fun ⟨n, hlt, hn, hm⟩ => ⟨n, hlt, hn.trans hle, hm⟩⟩

theorem of_forall_none (hp : Pruned h f m) (hf : ∀ t, f t = none) : Pruned h' f m := by
  have hm : ∀ t, m.get? t = none := fun t => by
    by_contra hne
    exact hp.written t hne (hf t)
  exact ⟨hp.written, fun t => .inl ((hm t).trans (hf t).symm)⟩

section

variable [DecidableEq κ]

theorem insert (hp : Pruned h f m) (t : κ) (a : α) : Pruned h (Function.update f t (some a)) (m.insert t a) := by
  have hkept : ∀ n, m.get? n ≠ none → (m.insert t a).get? n ≠ none := fun n hn => by
    rw [SortedMap.get?_insert]
    split
    · exact Option.some_ne_none a
    · exact hn
  constructor
  · intro t' hm
    by_cases ht : t = t'
    · subst ht
      simp
    · rw [SortedMap.get?_insert_of_ne ht] at hm
      rw [Function.update_of_ne (Ne.symm ht)]
      exact hp.written t' hm
  · intro t'
    by_cases ht : t = t'
    · subst ht
      exact .inl (by simp)
    · rw [SortedMap.get?_insert_of_ne ht, Function.update_of_ne (Ne.symm ht)]
      exact (hp.agrees t').imp_right fun ⟨n, hlt, hn, hm⟩ => ⟨n, hlt, hn, hkept n hm⟩

theorem drop (hp : Pruned h f m) {n : κ} (hlt : t < n) (hn : n ≤ h) (hm : m.get? n ≠ none) (a : α) :
    Pruned h (Function.update f t (some a)) m := by
  constructor
  · intro t' hm'
    by_cases ht : t' = t
    · subst ht
      simp
    · rw [Function.update_of_ne ht]
      exact hp.written t' hm'
  · intro t'
    by_cases ht : t' = t
    · subst ht
      exact .inr ⟨n, hlt, hn, hm⟩
    · rw [Function.update_of_ne ht]
      exact hp.agrees t'

end

theorem exists_last {n : κ} (hn : n ≤ h) (hm : m.get? n ≠ none) :
    ∃ l, n ≤ l ∧ l ≤ h ∧ m.get? l ≠ none ∧ ∀ l', l' ≤ h → m.get? l' ≠ none → l' ≤ l := by
  let below : SortedMap κ α := ⟨m.entries.filter fun e => e.1 ≤ h, m.sorted.filter _⟩
  have hbelow : ∀ l, below.get? l = if l ≤ h then m.get? l else none :=
    SortedMap.lookupList_filter (· ≤ h) m.entries
  have hmax : ∀ {e}, below.entries.getLast? = some e → ∀ l', l' ≤ h → m.get? l' ≠ none → l' ≤ e.1 := by
    intro e he l' hl' hm'
    obtain ⟨a', ha'⟩ := Option.ne_none_iff_exists'.mp hm'
    refine ((below.getLast?_entries_iff e).mp he).2 (l', a') ((SortedMap.get?_eq_some_iff _ _ _).mp ?_)
    rw [hbelow, if_pos hl', ha']
  rcases he : below.entries.getLast? with _ | e
  · have hnone := hbelow n
    rw [if_pos hn] at hnone
    unfold SortedMap.get? at hnone
    rw [List.getLast?_eq_none_iff.mp he] at hnone
    exact absurd hnone.symm hm
  · have hmem := ((below.getLast?_entries_iff e).mp he).1
    have hget := (SortedMap.get?_eq_some_iff below e.1 e.2).mpr hmem
    have hle : e.1 ≤ h := by simpa using (List.mem_filter.mp hmem).2
    rw [hbelow, if_pos hle] at hget
    exact ⟨e.1, hmax he n hn hm, hle, by simp [hget], hmax he⟩

theorem evict (hp : Pruned h f m) (hkeep : ∀ t, ¬ (∃ n, t < n ∧ n ≤ h ∧ m.get? n ≠ none) → m'.get? t = m.get? t)
    (hsub : ∀ t, m'.get? t ≠ none → m.get? t ≠ none) : Pruned h f m' := by
  refine ⟨fun t hm => hp.written t (hsub t hm), fun t => ?_⟩
  by_cases hex : ∃ n, t < n ∧ n ≤ h ∧ m.get? n ≠ none
  · obtain ⟨n, hlt, hn, hm⟩ := hex
    obtain ⟨l, hnl, hl, hml, hmax⟩ := exists_last hn hm
    refine .inr ⟨l, hlt.trans_le hnl, hl, ?_⟩
    rw [hkeep l fun ⟨l', hlt', hl', hm'⟩ => absurd (hmax l' hl' hm') hlt'.not_ge]
    exact hml
  · rw [hkeep t hex]
    exact .inl ((hp.agrees t).resolve_right hex)

theorem agrees_from (hp : Pruned h f m) (hnot : ∀ n, t < n → n ≤ h → m.get? n = none) (t' : κ) (hle : t ≤ t') :
    m.get? t' = f t' :=
  (hp.agrees t').resolve_right fun ⟨n, hlt, hn, hm⟩ => hm (hnot n (hle.trans_lt hlt) hn)

theorem next_iff (hp : Pruned h f m) {o : Option κ} (ho : ∀ n ∈ o, h < n) :
    (m.get? t = some a ∧ Next m.get? t o) ↔ (f t = some a ∧ Next f t o) := by
  -- an instant with a value after `t` and at or below the horizon would end the interval
  have hends : ∀ {g : κ → Option α}, Next g t o → ∀ n, t < n → n ≤ h → g n = none := by
    intro g hnext n hlt hle
    by_contra hne
    obtain ⟨n', rfl, hle'⟩ := hnext.exists_le hlt hne
    exact absurd (hle'.trans hle) (ho n' rfl).not_ge
  constructor
  · rintro ⟨ht, hnext⟩
    have hagree := hp.agrees_from (hends hnext)
    exact ⟨(hagree t le_rfl).symm.trans ht, (Next.congr fun t' hlt => hagree t' hlt.le).mp hnext⟩
  · rintro ⟨ht, hnext⟩
    have hnot : ∀ n, t < n → n ≤ h → m.get? n = none := fun n hlt hle => by
      by_contra hne
      exact hp.written n hne (hends hnext n hlt hle)
    have hagree := hp.agrees_from hnot
    exact ⟨(hagree t le_rfl).trans ht, (Next.congr fun t' hlt => hagree t' hlt.le).mpr hnext⟩

end Pruned
