import KrabkaStreams.Proofs.SlidingWrites

/-!
# The writes of early and of later records

A record before the window size leaves exact windows (`earlyWrites_good`), a later one when its right
window is stored or only one window straddles it (`normalWrites_good`): the scan takes the first that
does, not the last (`LastAt`).
-/

namespace KrabkaStreams

open Sliding KStreamSlidingWindowAggregateProcessor

variable {K V VA : Type} [DecidableEq K] {p : KStreamSlidingWindowAggregateProcessor K V VA}
  {recs : List (KeyedRecord K V)} {r : KeyedRecord K V} {f : K × Int → Option (Int × VA)} {k : K}
  {a b t : Int} {found : List (Int × Int × VA)}

/-- The last stored window of `k` that starts no later than `t`, and its entry. -/
structure LastAt (f : K × Int → Option (Int × VA)) (k : K) (t a : Int) (e : Int × VA) : Prop where
  stored : f (k, a) = some e
  le : a ≤ t
  last : ∀ b, (∃ e, f (k, b) = some e) → b ≤ t → b ≤ a

omit [DecidableEq K] in
theorem LastAt.unique {a' : Int} {e e' : Int × VA} (h : LastAt f k t a e) (h' : LastAt f k t a' e') :
    a = a' ∧ e = e' := by
  obtain rfl : a = a' := le_antisymm (h'.last a ⟨e, h.stored⟩ h.le) (h.last a' ⟨e', h'.stored⟩ h'.le)
  exact ⟨rfl, Option.some.inj (h.stored.symm.trans h'.stored)⟩

namespace Found

variable (hf : Found f k a (t + 1) found)

include hf

omit [DecidableEq K] in
theorem exists_lastAt {s : Int} (hs : s ≤ t) (hb : ∃ e, f (k, b) = some e) (hab : a ≤ b) (hbs : b ≤ s) :
    ∃ c e, a ≤ c ∧ LastAt f k s c e := by
  obtain ⟨e, he⟩ := hb
  have hmem : (b, e) ∈ found := (hf.mem_iff _).mpr ⟨he, hab, by show b ≤ t + 1; omega⟩
  rcases hl : lastWith (fun x => x.1 ≤ s) found with _ | x
  · exact absurd (decide_eq_true hbs) (lastWith_eq_none hl _ hmem)
  · obtain ⟨hx, hxs, hmax⟩ := lastWith_eq_some hf.sorted hl
    obtain ⟨hxf, hax, -⟩ := (hf.mem_iff x).mp hx
    refine ⟨x.1, x.2, hax, hxf, of_decide_eq_true hxs, ?_⟩
    rintro c ⟨e', hc⟩ hcs
    rcases lt_or_ge c a with hlt | hge
    · exact hlt.le.trans hax
    · exact hmax (c, e') ((hf.mem_iff _).mpr ⟨hc, hge, by show c ≤ t + 1; omega⟩) (decide_eq_true hcs)

omit [DecidableEq K] in
theorem mem_starts_iff (hab : a ≤ b) (hbt : b ≤ t + 1) :
    b ∈ found.map (·.1) ↔ ∃ e, f (k, b) = some e := by
  rw [List.mem_map]
  constructor
  · rintro ⟨e, he, rfl⟩
    exact ⟨e.2, ((hf.mem_iff e).mp he).1⟩
  · rintro ⟨e, he⟩
    exact ⟨(b, e), (hf.mem_iff _).mpr ⟨he, hab, hbt⟩, rfl⟩

omit [DecidableEq K] in
theorem any_start_iff (hab : a ≤ b) (hbt : b ≤ t + 1) :
    (found.any fun e => e.1 = b) = true ↔ ∃ e, f (k, b) = some e := by
  rw [← hf.mem_starts_iff hab hbt, List.any_eq_true, List.mem_map]
  simp only [decide_eq_true_eq]

omit [DecidableEq K] in
theorem lastWith_at (hab : a ≤ b) (hbt : b ≤ t + 1) (q : Int × VA → Bool) :
    (lastWith (fun e => e.1 = b ∧ q e.2) found).map (·.2) = (f (k, b)).filter q := by
  rcases hl : lastWith (fun e => e.1 = b ∧ q e.2) found with _ | z
  · rcases hb : f (k, b) with _ | e
    · rfl
    · have hmem : (b, e) ∈ found := (hf.mem_iff _).mpr ⟨hb, hab, hbt⟩
      have hq : ¬ q e := fun hq => lastWith_eq_none hl _ hmem (decide_eq_true ⟨rfl, hq⟩)
      simp [Option.filter, hq]
  · obtain ⟨hz, hzq, -⟩ := lastWith_eq_some hf.sorted hl
    obtain ⟨hzb, hzq⟩ := of_decide_eq_true hzq
    have hzf := ((hf.mem_iff z).mp hz).1
    rw [hzb] at hzf
    simp [Option.filter, hzf, hzq]

end Found

section Parts

variable (h : SlideInv p.windows p.init p.agg recs f) (ht : ∀ x ∈ recs, x.Timely)

include h ht

theorem rightWrites_due (hr : r.Timely) {seed : Option (Int × VA)} {already : Bool}
    (halready : already = true ↔ ∃ e, f (r.key, r.timestamp + 1) = some e)
    (hseed : already = false → ∀ x, seed.filter (fun x => r.timestamp < x.1) = some x →
      ∃ a, LastAt f r.key r.timestamp a x) :
    ∀ e ∈ rightWrites r.timestamp seed already, Due p.windows p.init p.agg recs r e := by
  unfold rightWrites
  cases already with
  | true => simp
  | false =>
    generalize hx : (seed.filter fun x => decide (r.timestamp < x.1)) = o
    rcases o with _ | x
    · simp
    · obtain ⟨a, hlast⟩ := hseed rfl x hx
      have hlt : r.timestamp < x.1 := of_decide_eq_true (Option.filter_eq_some_iff.mp hx).2
      have hno : ¬ ∃ e, f (r.key, r.timestamp + 1) = some e := fun he => by
        simpa using halready.mpr he
      rintro e he
      obtain rfl := List.mem_singleton.mp he
      refine ⟨?_, h.due_right ht hno hlast.stored hlast.le hlast.last hlt⟩
      have := hr.1
      omega

theorem rightWrites_next (hr : r.Timely) {seed : Option (Int × VA)} {already : Bool}
    (halready : already = true ↔ ∃ e, f (r.key, r.timestamp + 1) = some e)
    (hseed : already = false → ∀ x a, LastAt f r.key r.timestamp a x → r.timestamp < x.1 →
      seed.filter (fun x => r.timestamp < x.1) = some x)
    (hfound : Found f r.key a (r.timestamp + 1) found)
    (ha : a ≤ p.windows.leftStart r.timestamp) {u : Int} (hu : timesOf r.key recs u)
    (hlt : r.timestamp < u) (hle : u ≤ r.timestamp + 1 + p.windows.timeDifference) :
    (∃ e, f (r.key, r.timestamp + 1) = some e) ∨
      r.timestamp + 1 ∈ (rightWrites r.timestamp seed already).map (·.1) := by
  by_cases hno : ∃ e, f (r.key, r.timestamp + 1) = some e
  · exact .inl hno
  refine .inr ?_
  have hfalse : already = false := by simpa using mt halready.mp hno
  obtain ⟨b, hb, hbt, hub⟩ := (h.slides r.key).exists_start_le hno hr.1 hu hle
  have hb0 := (h.slides r.key).start_nonneg hb
  have hab : a ≤ b := by
    rw [SlidingWindows.leftStart] at ha
    omega
  obtain ⟨c, e, -, hlast⟩ := hfound.exists_lastAt le_rfl hb hab hbt
  have huc : u ≤ c + p.windows.timeDifference :=
    (h.slides r.key).le_of_later hno hr.1 hlast.last hu hle
  obtain ⟨-, -, -, hmax⟩ := h.latest ht hlast.stored
  have hue : u ≤ e.1 := hmax hu (hlast.le.trans hlt.le) huc
  have hx := hseed hfalse e c hlast (lt_of_lt_of_le hlt hue)
  simp [rightWrites, hfalse, hx]

omit ht in
theorem previousWrites_due (hr : r.Timely) {prev : Option Int} {starts : List Int}
    (hprev : ∀ q ∈ prev, timesOf r.key recs q ∧ q < r.timestamp)
    (hstarts : ∀ q ∈ prev, r.timestamp ≤ q + 1 + p.windows.timeDifference →
      (∃ e, f (r.key, q + 1) = some e) → q + 1 ∈ starts) :
    ∀ e ∈ previousWrites p r.key r.value r.timestamp prev starts,
      Due p.windows p.init p.agg recs r e := by
  unfold previousWrites
  cases prev with
  | none => simp
  | some q =>
    obtain ⟨hq, hqt⟩ := hprev q rfl
    have hq0 := (h.slides r.key).point_nonneg hq
    dsimp only
    split
    · rename_i hc
      intro e he
      obtain rfl := List.mem_singleton.mp he
      refine ⟨by show 0 ≤ q + 1; omega, SlideInv.due_first hr ?_ hqt hc.2⟩
      have hno : ¬ ∃ e, f (r.key, q + 1) = some e := fun he => hc.1 (hstarts q rfl hc.2 he)
      exact inWindow_eq_nil fun hu => (h.slides r.key).empty_after hno hq hu
    · simp

omit ht in
theorem previousWrites_previous {prev : Option Int} {starts : List Int} {q e : Int}
    (hstarts : q + 1 ∈ starts → ∃ e, f (r.key, q + 1) = some e)
    (hq : timesOf r.key recs q) (he : timesOf r.key recs e) (hqe : q ≤ e) (het : e ≤ r.timestamp)
    (hprev : e < r.timestamp → prev = some e) (hqt : q < r.timestamp)
    (hle : r.timestamp ≤ q + 1 + p.windows.timeDifference) :
    (∃ e, f (r.key, q + 1) = some e) ∨
      q + 1 ∈ (previousWrites p r.key r.value r.timestamp prev starts).map (·.1) := by
  rcases eq_or_lt_of_le hqe with rfl | hlt
  · by_cases hmem : q + 1 ∈ starts
    · exact .inl (hstarts hmem)
    · refine .inr ?_
      simp [previousWrites, hprev hqt, hmem, hle]
  · exact .inl ((h.slides r.key).right hq he hlt (by omega))

end Parts

section Early

section Seed

variable (ht : 0 ≤ t) (hfound : Found f k 0 (t + 1) found) (hnn : ∀ {a e}, f (k, a) = some e → 0 ≤ a)
  (hno : ¬ ∃ e, f (k, t + 1) = some e)

include ht hfound hnn hno

omit [DecidableEq K] ht hnn in
theorem Found.stored_le {e : Int × Int × VA} (he : e ∈ found) : f (k, e.1) = some e.2 ∧ e.1 ≤ t := by
  obtain ⟨hf, -, hle⟩ := (hfound.mem_iff e).mp he
  refine ⟨hf, ?_⟩
  rcases eq_or_lt_of_le hle with heq | hlt
  · exact absurd ⟨e.2, heq ▸ hf⟩ hno
  · omega

omit [DecidableEq K] in
theorem rightSeed_of_lastAt {e : Int × VA} (hlast : LastAt f k t a e) :
    ((earlyScan t found).rightSeed t).filter (fun x => t < x.1) = (some e).filter fun x => t < x.1 := by
  have hmem : ∀ {b e}, f (k, b) = some e → b ≤ t → (b, e) ∈ found := fun hb hbt =>
    (hfound.mem_iff _).mpr ⟨hb, hnn hb, by show _ ≤ t + 1; omega⟩
  have hmem_last := hmem hlast.stored hlast.le
  have hat := hlast.le
  have hsc : earlyScan t found = _ := earlyScan_eq ht found
  rw [hsc, EarlyScan.rightSeed]
  rcases hl : lastWith (fun e => e.1 ≠ 0 ∧ e.1 ≠ t + 1) found with _ | y
  · have hnone := lastWith_eq_none hl _ hmem_last
    simp only [ne_eq, decide_eq_true_eq, not_and_or, not_not] at hnone
    have ha : a = 0 := by omega
    rcases hc : lastWith (fun e => e.1 = 0) found with _ | z
    · exact absurd (decide_eq_true ha) (lastWith_eq_none hc _ hmem_last)
    · obtain ⟨hz, hz0, -⟩ := lastWith_eq_some hfound.sorted hc
      have hze : z.2 = e := by
        refine Option.some.inj ((hfound.stored_le hno hz).1.symm.trans ?_)
        rw [of_decide_eq_true hz0, ← ha, hlast.stored]
      simp [hze]
  · obtain ⟨hy, -, hmax⟩ := lastWith_eq_some hfound.sorted hl
    obtain ⟨hyf, hyt⟩ := hfound.stored_le hno hy
    have hy' : LastAt f k t y.1 y.2 := by
      refine ⟨hyf, hyt, ?_⟩
      rintro b ⟨e', hb⟩ hbt
      by_cases hb0 : b = 0
      · exact hb0 ▸ hnn hyf
      · exact hmax (b, e') (hmem hb hbt) (decide_eq_true ⟨hb0, by show b ≠ t + 1; omega⟩)
    rw [(hlast.unique hy').2]
    rfl

omit [DecidableEq K] in
theorem exists_lastAt_of_rightSeed {x : Int × VA}
    (hx : ((earlyScan t found).rightSeed t).filter (fun x => t < x.1) = some x) :
    ∃ a, LastAt f k t a x := by
  have hsc : earlyScan t found = _ := earlyScan_eq ht found
  have hin : ∃ b, f (k, b) = some x ∧ b ≤ t := by
    have hx := (Option.filter_eq_some_iff.mp hx).1
    rw [hsc, EarlyScan.rightSeed] at hx
    rcases Option.or_eq_some_iff.mp hx with hx | ⟨-, hx⟩
    · obtain ⟨e, he, rfl⟩ := Option.map_eq_some_iff.mp hx
      exact ⟨e.1, hfound.stored_le hno (lastWith_eq_some hfound.sorted he).1⟩
    · obtain ⟨e, he, rfl⟩ := Option.map_eq_some_iff.mp (Option.filter_eq_some_iff.mp hx).1
      exact ⟨e.1, hfound.stored_le hno (lastWith_eq_some hfound.sorted he).1⟩
  obtain ⟨b, hb, hbt⟩ := hin
  obtain ⟨a, e, -, hlast⟩ := hfound.exists_lastAt le_rfl ⟨x, hb⟩ (hnn hb) hbt
  rw [rightSeed_of_lastAt ht hfound hnn hno hlast] at hx
  obtain rfl := Option.some.inj (Option.filter_eq_some_iff.mp hx).1
  exact ⟨a, hlast⟩

end Seed

section Combined

variable (h : SlideInv p.windows p.init p.agg recs f) (hfound : Found f r.key 0 (r.timestamp + 1) found)
  (hr : r.Timely)

include hfound hr

omit [DecidableEq K] in
theorem combined_eq : (earlyScan r.timestamp found).combined = f (r.key, 0) := by
  have hsc : earlyScan r.timestamp found = _ := earlyScan_eq hr.1 found
  have h0 := hfound.lastWith_at le_rfl (by have := hr.1; omega) fun _ => true
  rw [hsc]
  simp only [and_true] at h0
  refine h0.trans ?_
  cases f (r.key, 0) <;> rfl

omit [DecidableEq K] in
theorem previousRecordTs_eq : (earlyScan r.timestamp found).previousRecordTs =
    ((f (r.key, 0)).filter fun e => e.1 < r.timestamp).map (·.1) := by
  have hsc : earlyScan r.timestamp found = _ := earlyScan_eq hr.1 found
  have h0 := hfound.lastWith_at le_rfl (by have := hr.1; omega) fun e => e.1 < r.timestamp
  rw [hsc, ← h0, Option.map_map]
  simp [Function.comp_def]

include h

theorem combinedWrites_due (hW : r.timestamp < p.windows.timeDifference) :
    ∀ e ∈ combinedWrites p r.key r.value r.timestamp (earlyScan r.timestamp found).combined,
      Due p.windows p.init p.agg recs r e := by
  rw [combined_eq hfound hr]
  intro e he
  obtain rfl := List.mem_singleton.mp he
  refine ⟨le_rfl, ?_⟩
  rcases hf : f (r.key, 0) with _ | x
  · refine SlideInv.due_first hr (inWindow_eq_nil fun {u} hu hc => ?_) hr.1 (by omega)
    have hd := (h.slides r.key).left hu
    rw [max_eq_left (by omega), hf] at hd
    obtain ⟨e, he⟩ := hd
    cases he
  · exact h.due_update hf hr.1 (by omega)

end Combined

theorem updateWrites_due (h : SlideInv p.windows p.init p.agg recs f) {l : List (Int × Int × VA)}
    (hl : ∀ e ∈ l, f (r.key, e.1) = some e.2 ∧ e.1 ≤ r.timestamp ∧
      r.timestamp ≤ e.1 + p.windows.timeDifference) :
    ∀ e ∈ updateWrites p r.key r.value r.timestamp l, Due p.windows p.init p.agg recs r e := by
  intro e he
  obtain ⟨x, hx, rfl⟩ := List.mem_map.mp he
  obtain ⟨hf, hle, hge⟩ := hl x hx
  exact ⟨(h.slides r.key).start_nonneg ⟨x.2, hf⟩, h.due_update hf hle hge⟩

theorem earlyWrites_good (h : SlideInv p.windows p.init p.agg recs f) (ht : ∀ x ∈ recs, x.Timely)
    (hr : r.Timely) (hW : r.timestamp < p.windows.timeDifference)
    (hfound : Found f r.key 0 (r.timestamp + 1) found) :
    Good p.windows p.init p.agg recs r f (earlyWrites p r.key r.value r.timestamp found) := by
  have hr0 := hr.1
  have hsc : earlyScan r.timestamp found = _ := earlyScan_eq hr0 found
  have hnn : ∀ {a e}, f (r.key, a) = some e → 0 ≤ a := fun hf =>
    (h.slides r.key).start_nonneg ⟨_, hf⟩
  have halready : (earlyScan r.timestamp found).rightWinAlreadyCreated = true ↔
      ∃ e, f (r.key, r.timestamp + 1) = some e := by
    rw [hsc]
    exact hfound.any_start_iff (by omega) le_rfl
  have hnone : (earlyScan r.timestamp found).rightWinAlreadyCreated = false →
      ¬ ∃ e, f (r.key, r.timestamp + 1) = some e := fun hfalse he => by simp [halready.mpr he] at hfalse
  have hstarts : ∀ {q}, 0 ≤ q → q < r.timestamp →
      (q + 1 ∈ (earlyScan r.timestamp found).windowStartTimes ↔ ∃ e, f (r.key, q + 1) = some e) := by
    intro q hq0 hqt
    rw [hsc]
    exact hfound.mem_starts_iff (by omega) (by omega)
  have hprev : ∀ q ∈ (earlyScan r.timestamp found).previousRecordTs,
      timesOf r.key recs q ∧ q < r.timestamp := by
    intro q hq
    rw [previousRecordTs_eq hfound hr] at hq
    obtain ⟨e, he, rfl⟩ := Option.map_eq_some_iff.mp hq
    obtain ⟨hf, hlt⟩ := Option.filter_eq_some_iff.mp he
    exact ⟨(h.latest ht hf).1, of_decide_eq_true hlt⟩
  have hupdate := updateWrites_due (r := r) h
    (l := found.filter fun e => 0 < e.1 ∧ e.1 < r.timestamp + 1) fun e he => by
      obtain ⟨hmem, hp⟩ := List.mem_filter.mp he
      have hp := of_decide_eq_true hp
      exact ⟨((hfound.mem_iff e).mp hmem).1, by omega, by omega⟩
  have hright : ∀ e ∈ rightWrites r.timestamp ((earlyScan r.timestamp found).rightSeed r.timestamp)
      (earlyScan r.timestamp found).rightWinAlreadyCreated, Due p.windows p.init p.agg recs r e :=
    rightWrites_due h ht hr halready
      fun hfalse x hx => exists_lastAt_of_rightSeed hr0 hfound hnn (hnone hfalse) hx
  have hprevious := previousWrites_due h hr hprev fun q hq _ he =>
    (hstarts ((h.slides r.key).point_nonneg (hprev q hq).1) (hprev q hq).2).mpr he
  have hcombined := combinedWrites_due h hfound hr hW
  have hzero : p.windows.leftStart r.timestamp = 0 := max_eq_left (by omega)
  have hwritten : (0 : Int) ∈ (earlyWrites p r.key r.value r.timestamp found).map (·.1) := by
    simp [earlyWrites, combinedWrites]
  refine ⟨?_, ?_, .inr (hzero ▸ hwritten), ?_, ?_⟩
  · simp only [earlyWrites, List.forall_mem_append]
    exact ⟨⟨⟨hupdate, hright⟩, hprevious⟩, hcombined⟩
  · intro a e hf hle hge
    rcases eq_or_lt_of_le (hnn hf) with h0 | h0
    · exact h0 ▸ hwritten
    · have hmem : (a, e) ∈ found := (hfound.mem_iff _).mpr ⟨hf, hnn hf, by show a ≤ r.timestamp + 1; omega⟩
      have hstraddle : (a, e) ∈ found.filter fun e => 0 < e.1 ∧ e.1 < r.timestamp + 1 :=
        List.mem_filter.mpr ⟨hmem, decide_eq_true ⟨h0, by show a < r.timestamp + 1; omega⟩⟩
      refine List.mem_map.mpr ⟨(a, max e.1 r.timestamp, p.agg r.key r.value e.2), ?_, rfl⟩
      simp only [earlyWrites, List.append_assoc]
      exact List.mem_append_left _ (List.mem_map_of_mem hstraddle)
  · intro q hq hqt hle
    have hq0 := (h.slides r.key).point_nonneg hq
    -- the window at zero has all early records, so its latest one is the previous record or a later one
    have hd := (h.slides r.key).left hq
    rw [max_eq_left (by omega)] at hd
    obtain ⟨e, he⟩ := hd
    obtain ⟨hT, -, heW, hmax⟩ := h.latest ht he
    have hqe : q ≤ e.1 := hmax hq hq0 (by omega)
    rcases lt_or_ge r.timestamp e.1 with hlt | hge
    · exact .inl ((h.slides r.key).right hq hT (by omega) (by omega))
    · have hprev : e.1 < r.timestamp → (earlyScan r.timestamp found).previousRecordTs = some e.1 := by
        intro hlt
        rw [previousRecordTs_eq hfound hr, he]
        simp [Option.filter, hlt]
      refine (previousWrites_previous h (hstarts hq0 hqt).mp hq hT hqe hge hprev hqt hle).imp_right ?_
      simp only [earlyWrites, List.map_append, List.mem_append]
      exact fun hmem => .inl (.inr hmem)
  · intro u hu hlt hle
    have hseed : (earlyScan r.timestamp found).rightWinAlreadyCreated = false → ∀ x a,
        LastAt f r.key r.timestamp a x → r.timestamp < x.1 →
        ((earlyScan r.timestamp found).rightSeed r.timestamp).filter (fun x => r.timestamp < x.1)
          = some x := by
      intro hfalse x a hlast hx
      rw [rightSeed_of_lastAt hr0 hfound hnn (hnone hfalse) hlast]
      simp [Option.filter, hx]
    have ha : 0 ≤ p.windows.leftStart r.timestamp := hzero.ge
    refine (rightWrites_next h ht hr halready hseed hfound ha hu hlt hle).imp_right ?_
    simp only [earlyWrites, List.map_append, List.mem_append]
    exact fun hmem => .inl (.inl (.inr hmem))

end Early

section Normal

variable (h : SlideInv p.windows p.init p.agg recs f) (ht : ∀ x ∈ recs, x.Timely)

/-- The right window of the record is stored, or at most one stored window straddles it when a later
record is within the window size. -/
def Straddled (w : SlidingWindows) (recs : List (KeyedRecord K V)) (r : KeyedRecord K V)
    (f : K × Int → Option (Int × VA)) : Prop :=
  (∃ v, timesOf r.key recs v ∧ r.timestamp < v ∧ v ≤ r.timestamp + w.timeDifference) →
    (∃ e, f (r.key, r.timestamp + 1) = some e) ∨
      ∀ a b, r.timestamp - w.timeDifference < a → a ≤ r.timestamp → (∃ e, f (r.key, a) = some e) →
        r.timestamp - w.timeDifference < b → b ≤ r.timestamp → (∃ e, f (r.key, b) = some e) → a = b

section Straddle

variable (hone : Straddled p.windows recs r f)
  (hfound : Found f r.key a (r.timestamp + 1) found) (ha : a ≤ r.timestamp - p.windows.timeDifference)
  (hno : ¬ ∃ e, f (r.key, r.timestamp + 1) = some e)

include h ht hone hfound hno

theorem exists_lastAt_of_firstStraddle {x : Int × VA}
    (hx : ((firstStraddle p.windows.timeDifference r.timestamp found).map (·.2)).filter
      (fun x => r.timestamp < x.1) = some x) :
    ∃ a, LastAt f r.key r.timestamp a x := by
  obtain ⟨hx, hlt⟩ := Option.filter_eq_some_iff.mp hx
  have hlt : r.timestamp < x.1 := of_decide_eq_true hlt
  obtain ⟨e, he, rfl⟩ := Option.map_eq_some_iff.mp hx
  have hp : r.timestamp < e.1 + p.windows.timeDifference ∧ e.1 ≤ r.timestamp := by
    have := List.find?_some he
    exact of_decide_eq_true this
  have hf := ((hfound.mem_iff e).mp (List.mem_of_find?_eq_some he)).1
  obtain ⟨hT, -, hle, -⟩ := h.latest ht hf
  have honly := (hone ⟨_, hT, hlt, by omega⟩).resolve_left hno
  refine ⟨e.1, hf, hp.2, fun b hb hbt => ?_⟩
  by_contra hgt
  have := honly e.1 b (by omega) hp.2 ⟨_, hf⟩ (by omega) hbt hb
  omega

include ha

theorem firstStraddle_of_lastAt {x : Int × VA} (hlast : LastAt f r.key r.timestamp b x)
    (hlt : r.timestamp < x.1) :
    ((firstStraddle p.windows.timeDifference r.timestamp found).map (·.2)).filter
      (fun x => r.timestamp < x.1) = some x := by
  have hbt := hlast.le
  obtain ⟨hT, -, hle, -⟩ := h.latest ht hlast.stored
  have honly := (hone ⟨_, hT, hlt, by omega⟩).resolve_left hno
  have hmem : (b, x) ∈ found :=
    (hfound.mem_iff _).mpr ⟨hlast.stored, by show a ≤ b; omega, by show b ≤ r.timestamp + 1; omega⟩
  rcases he : firstStraddle p.windows.timeDifference r.timestamp found with _ | e
  · exact absurd (decide_eq_true ⟨by omega, hbt⟩) (List.find?_eq_none.mp he _ hmem)
  · have hp : r.timestamp < e.1 + p.windows.timeDifference ∧ e.1 ≤ r.timestamp := by
      have := List.find?_some he
      exact of_decide_eq_true this
    have hf := ((hfound.mem_iff e).mp (List.mem_of_find?_eq_some he)).1
    have heb : e.1 = b := honly e.1 b (by omega) hp.2 ⟨_, hf⟩ (by omega) hbt ⟨_, hlast.stored⟩
    rw [heb, hlast.stored] at hf
    obtain rfl := Option.some.inj hf
    simp [Option.filter, hlt]

end Straddle

section Left

omit [DecidableEq K] in
theorem lastAt_of_lastWith (hfound : Found f k a (t + 1) found) {W : Int} (hW : 0 ≤ W)
    {x : Int × Int × VA} (hx : lastWith (fun e => e.1 + W < t) found = some x) :
    LastAt f k (t - W - 1) x.1 x.2 := by
  obtain ⟨hmem, hp, hmax⟩ := lastWith_eq_some hfound.sorted hx
  obtain ⟨hf, hax, -⟩ := (hfound.mem_iff x).mp hmem
  have hp := of_decide_eq_true hp
  refine ⟨hf, by omega, ?_⟩
  rintro b ⟨e, hb⟩ hbt
  rcases lt_or_ge b a with hlt | hge
  · exact hlt.le.trans hax
  · exact hmax (b, e) ((hfound.mem_iff _).mpr ⟨hb, hge, by show b ≤ t + 1; omega⟩)
      (decide_eq_true (by show b + W < t; omega))

omit [DecidableEq K] in
theorem lastWith_of_no_left (hfound : Found f k a (t + 1) found) {W : Int}
    (hno : ¬ ∃ e, f (k, t - W) = some e) :
    lastWith (fun e => e.1 + W < t ∨ e.1 + W = t ∧ e.2.1 < t) found
      = lastWith (fun e => e.1 + W < t) found := by
  unfold lastWith
  congr 1
  refine List.filter_congr fun e he => decide_eq_decide.mpr (or_iff_left ?_)
  rintro ⟨heq, -⟩
  exact hno ⟨e.2, by rw [show t - W = e.1 by omega]; exact ((hfound.mem_iff e).mp he).1⟩

include h ht

theorem exists_lastBefore (hno : ¬ ∃ e, f (r.key, r.timestamp - p.windows.timeDifference) = some e)
    (hWt : p.windows.timeDifference ≤ r.timestamp)
    (hfound : Found f r.key (max (r.timestamp - 2 * p.windows.timeDifference) 0) (r.timestamp + 1) found)
    {u : Int} (hu : timesOf r.key recs u) (hle : r.timestamp - p.windows.timeDifference ≤ u)
    (hlt : u < r.timestamp) :
    ∃ x, lastWith (fun e => e.1 + p.windows.timeDifference < r.timestamp) found = some x ∧
      timesOf r.key recs x.2.1 ∧ u ≤ x.2.1 ∧ x.2.1 < r.timestamp := by
  have hW := p.windows.timeDifference_nonneg
  obtain ⟨b, ⟨e, hb⟩, hbW, hub⟩ := (h.slides r.key).exists_start_before hno hu hle hlt hWt
  have hb0 := (h.slides r.key).start_nonneg ⟨e, hb⟩
  have hmem : (b, e) ∈ found := (hfound.mem_iff _).mpr
    ⟨hb, max_le (by show r.timestamp - 2 * p.windows.timeDifference ≤ b; omega) hb0,
      by show b ≤ r.timestamp + 1; omega⟩
  rcases hx : lastWith (fun e => e.1 + p.windows.timeDifference < r.timestamp) found with _ | x
  · exact absurd (decide_eq_true hbW) (lastWith_eq_none hx _ hmem)
  · have hlast := lastAt_of_lastWith hfound hW hx
    have hxle := hlast.le
    have hux := (h.slides r.key).le_of_earlier hno (fun b hb hbt => hlast.last b hb (by omega)) hu hle
      hlt hWt
    obtain ⟨hT, -, hxW, hmax⟩ := h.latest ht hlast.stored
    exact ⟨x, rfl, hT, hmax hu (by omega) hux, by omega⟩

theorem leftWrites_due (hr : r.Timely) (hWt : p.windows.timeDifference ≤ r.timestamp) (closeTime : Int)
    (hfound : Found f r.key (max (r.timestamp - 2 * p.windows.timeDifference) 0) (r.timestamp + 1) found) :
    ∀ e ∈ leftWrites p r.key r.value r.timestamp
        (normalScan p.windows.timeDifference r.timestamp closeTime (p.agg r.key r.value) found),
      Due p.windows p.init p.agg recs r e := by
  have hW := p.windows.timeDifference_nonneg
  unfold leftWrites
  split
  · simp
  rename_i hcreated
  have hno : ¬ ∃ e, f (r.key, r.timestamp - p.windows.timeDifference) = some e := by
    intro he
    obtain ⟨x, hx, hxs⟩ := List.mem_map.mp ((hfound.mem_starts_iff (by omega) (by omega)).mpr he)
    exact hcreated (List.any_eq_true.mpr ⟨x, hx, decide_eq_true (by omega)⟩)
  intro e he
  obtain rfl := List.mem_singleton.mp he
  refine ⟨by show 0 ≤ r.timestamp - p.windows.timeDifference; omega, ?_⟩
  -- a record at the same time would have left its window behind
  have hsame : ¬ timesOf r.key recs r.timestamp := fun hT => by
    have hd := (h.slides r.key).left hT
    rw [max_eq_right (by omega)] at hd
    exact hno hd
  simp only [normalScan, lastWith_of_no_left hfound hno]
  rcases hx : lastWith (fun e => e.1 + p.windows.timeDifference < r.timestamp) found with _ | x
  · refine SlideInv.due_first hr (inWindow_eq_nil fun {u} hu hc => ?_) (by omega) (by omega)
    have hne : u ≠ r.timestamp := fun he => hsame (he ▸ hu)
    obtain ⟨x, hx', -⟩ := exists_lastBefore h ht hno hWt hfound hu hc.1 (by omega)
    rw [hx] at hx'
    cases hx'
  · have hlast := lastAt_of_lastWith hfound hW hx
    have hxle := hlast.le
    have hempty : leftWindowNotEmpty ((some x).map (·.2.1)) r.timestamp p.windows.timeDifference = true ↔
        r.timestamp - p.windows.timeDifference ≤ x.2.1 := by
      simp [leftWindowNotEmpty]
    by_cases hc : r.timestamp - p.windows.timeDifference ≤ x.2.1
    · simp only [hempty.mpr hc, if_true]
      exact h.due_left ht hno hlast.stored hWt (by omega) (fun b hb hbt => hlast.last b hb (by omega)) hc
    · rw [if_neg (mt hempty.mp hc)]
      refine SlideInv.due_first hr (inWindow_eq_nil fun {u} hu hu' => ?_) (by omega) (by omega)
      have hne : u ≠ r.timestamp := fun he => hsame (he ▸ hu)
      obtain ⟨y, hy, -, huy, -⟩ := exists_lastBefore h ht hno hWt hfound hu hu'.1 (by omega)
      rw [hx] at hy
      cases hy
      omega

theorem exists_previous (hWt : p.windows.timeDifference ≤ r.timestamp) (closeTime : Int)
    (hfound : Found f r.key (max (r.timestamp - 2 * p.windows.timeDifference) 0) (r.timestamp + 1) found)
    {q : Int} (hq : timesOf r.key recs q) (hle : r.timestamp - p.windows.timeDifference ≤ q)
    (hlt : q < r.timestamp) :
    ∃ e, timesOf r.key recs e ∧ q ≤ e ∧ e ≤ r.timestamp ∧ (e < r.timestamp →
      (normalScan p.windows.timeDifference r.timestamp closeTime (p.agg r.key r.value)
        found).previousRecordTs = some e) := by
  by_cases hd : ∃ e, f (r.key, r.timestamp - p.windows.timeDifference) = some e
  · obtain ⟨e, he⟩ := hd
    obtain ⟨hT, -, heW, hmax⟩ := h.latest ht he
    refine ⟨e.1, hT, hmax hq hle (by omega), by omega, fun het => ?_⟩
    -- no window that ends at the record or before starts later than the left one
    have hmem : (r.timestamp - p.windows.timeDifference, e) ∈ found := (hfound.mem_iff _).mpr
      ⟨he, by show _ ≤ r.timestamp - p.windows.timeDifference; omega,
        by show r.timestamp - p.windows.timeDifference ≤ r.timestamp + 1; omega⟩
    rcases hx : lastWith (fun e => e.1 + p.windows.timeDifference < r.timestamp ∨
        e.1 + p.windows.timeDifference = r.timestamp ∧ e.2.1 < r.timestamp) found with _ | x
    · refine absurd (decide_eq_true (.inr ⟨?_, het⟩)) (lastWith_eq_none hx _ hmem)
      omega
    · obtain ⟨hxm, hxp, hxmax⟩ := lastWith_eq_some hfound.sorted hx
      have hxp := of_decide_eq_true hxp
      have hge : r.timestamp - p.windows.timeDifference ≤ x.1 :=
        hxmax _ hmem (decide_eq_true (.inr ⟨by
          omega, het⟩))
      have hxf := ((hfound.mem_iff x).mp hxm).1
      rw [show x.1 = r.timestamp - p.windows.timeDifference by omega, he] at hxf
      simp only [normalScan, hx, Option.map_some, Option.some.inj hxf]
  · obtain ⟨x, hx, hT, hqx, hxt⟩ := exists_lastBefore h ht hd hWt hfound hq hle hlt
    refine ⟨x.2.1, hT, hqx, hxt.le, fun _ => ?_⟩
    simp only [normalScan, lastWith_of_no_left hfound hd, hx]
    rfl

end Left

theorem normalWrites_good (h : SlideInv p.windows p.init p.agg recs f) (ht : ∀ x ∈ recs, x.Timely)
    (hr : r.Timely) (hWt : p.windows.timeDifference ≤ r.timestamp) (closeTime : Int)
    (hone : Straddled p.windows recs r f)
    (hfound : Found f r.key (max (r.timestamp - 2 * p.windows.timeDifference) 0) (r.timestamp + 1) found) :
    Good p.windows p.init p.agg recs r f (normalWrites p r.key r.value r.timestamp closeTime found) := by
  have hW := p.windows.timeDifference_nonneg
  have ha : max (r.timestamp - 2 * p.windows.timeDifference) 0 ≤ r.timestamp - p.windows.timeDifference := by
    omega
  have hleftStart : p.windows.leftStart r.timestamp = r.timestamp - p.windows.timeDifference :=
    max_eq_right (by omega)
  have halready : (found.any fun e => e.1 = r.timestamp + 1) = true ↔
      ∃ e, f (r.key, r.timestamp + 1) = some e := hfound.any_start_iff (by omega) le_rfl
  have hnone : (found.any fun e => e.1 = r.timestamp + 1) = false →
      ¬ ∃ e, f (r.key, r.timestamp + 1) = some e := fun hfalse he => by simp [halready.mpr he] at hfalse
  have hstarts : ∀ {q}, r.timestamp ≤ q + 1 + p.windows.timeDifference → q < r.timestamp →
      (q + 1 ∈ found.map (·.1) ↔ ∃ e, f (r.key, q + 1) = some e) := fun hq hqt =>
    hfound.mem_starts_iff (by omega) (by omega)
  have hprev : ∀ q ∈ (normalScan p.windows.timeDifference r.timestamp closeTime (p.agg r.key r.value)
      found).previousRecordTs, timesOf r.key recs q ∧ q < r.timestamp := by
    intro q hq
    obtain ⟨e, he, rfl⟩ := Option.map_eq_some_iff.mp hq
    obtain ⟨hmem, hp, -⟩ := lastWith_eq_some hfound.sorted he
    obtain ⟨hT, -, hle, -⟩ := h.latest ht ((hfound.mem_iff e).mp hmem).1
    have hp := of_decide_eq_true hp
    exact ⟨hT, by omega⟩
  have hupdate := updateWrites_due (r := r) h
    (l := found.filter fun e => r.timestamp ≤ e.1 + p.windows.timeDifference ∧ e.1 ≤ r.timestamp)
    fun e he => by
      obtain ⟨hmem, hp⟩ := List.mem_filter.mp he
      have hp := of_decide_eq_true hp
      exact ⟨((hfound.mem_iff e).mp hmem).1, hp.2, hp.1⟩
  have hright : ∀ e ∈ rightWrites r.timestamp
      ((firstStraddle p.windows.timeDifference r.timestamp found).map (·.2))
      (found.any fun e => e.1 = r.timestamp + 1), Due p.windows p.init p.agg recs r e :=
    rightWrites_due h ht hr halready fun hfalse x hx =>
      exists_lastAt_of_firstStraddle h ht hone hfound (hnone hfalse) hx
  have hprevious := previousWrites_due h hr hprev fun q hq hle he => (hstarts hle (hprev q hq).2).mpr he
  have hleft := leftWrites_due h ht hr hWt closeTime hfound
  have hleftStored : (∃ e, f (r.key, r.timestamp - p.windows.timeDifference) = some e) ∨
      r.timestamp - p.windows.timeDifference ∈
        (normalWrites p r.key r.value r.timestamp closeTime found).map (·.1) := by
    by_cases hcreated : (found.any fun e => e.1 + p.windows.timeDifference = r.timestamp) = true
    · obtain ⟨e, he, heq⟩ := List.any_eq_true.mp hcreated
      have heq := of_decide_eq_true heq
      exact .inl ⟨e.2, by
        rw [show r.timestamp - p.windows.timeDifference = e.1 by omega]
        exact ((hfound.mem_iff e).mp he).1⟩
    · refine .inr ?_
      simp only [normalWrites, List.map_append, List.mem_append, leftWrites, normalScan, hcreated]
      exact .inl (.inr (by simp))
  refine ⟨?_, ?_, ?_, ?_, ?_⟩
  · simp only [normalWrites, List.forall_mem_append]
    exact ⟨⟨⟨hupdate, hprevious⟩, hleft⟩, hright⟩
  · intro b e hf hle hge
    have hmem : (b, e) ∈ found := (hfound.mem_iff _).mpr
      ⟨hf, by show _ ≤ b; omega, by show b ≤ r.timestamp + 1; omega⟩
    refine List.mem_map.mpr ⟨(b, max e.1 r.timestamp, p.agg r.key r.value e.2), ?_, rfl⟩
    simp only [normalWrites, List.append_assoc]
    refine List.mem_append_left _ (List.mem_map.mpr ⟨(b, e), ?_, rfl⟩)
    exact List.mem_filter.mpr ⟨hmem, decide_eq_true ⟨hge, hle⟩⟩
  · rw [hleftStart]
    exact hleftStored
  · intro q hq hqt hle
    rcases eq_or_lt_of_le hle with heq | hlt
    · -- the window right after the previous record is the left one
      have hql : q + 1 = r.timestamp - p.windows.timeDifference := by omega
      rw [hql]
      exact hleftStored
    · obtain ⟨e, hT, hqe, het, hprev⟩ := exists_previous h ht hWt closeTime hfound hq (by omega) hqt
      refine (previousWrites_previous h (hstarts hle hqt).mp hq hT hqe het hprev hqt hle).imp_right ?_
      simp only [normalWrites, List.map_append, List.mem_append]
      exact fun hmem => .inl (.inl (.inr hmem))
  · intro u hu hlt hle
    have hseed : (found.any fun e => e.1 = r.timestamp + 1) = false → ∀ x c,
        LastAt f r.key r.timestamp c x → r.timestamp < x.1 →
        ((firstStraddle p.windows.timeDifference r.timestamp found).map (·.2)).filter
          (fun x => r.timestamp < x.1) = some x := fun hfalse x c hlast hx =>
      firstStraddle_of_lastAt h ht hone hfound ha (hnone hfalse) hlast hx
    refine (rightWrites_next h ht hr halready hseed hfound (hleftStart ▸ ha) hu hlt hle).imp_right ?_
    simp only [normalWrites, List.map_append, List.mem_append]
    exact fun hmem => .inr hmem

end Normal

end KrabkaStreams
