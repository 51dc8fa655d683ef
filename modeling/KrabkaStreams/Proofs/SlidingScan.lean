import KrabkaStreams.Dsl.SlidingSemantics
import KrabkaStreams.Proofs.WindowAggregate

/-!
# What the scans of the sliding aggregation collect

Each variable of a scan is a function of the windows it met: the first or the last one of a kind.
-/

namespace KrabkaStreams

open Runs KStreamSlidingWindowAggregateProcessor

variable {VA : Type} {t : Int} {found : List (Int × Int × VA)}

def lastWith (p : Int × Int × VA → Bool) (found : List (Int × Int × VA)) : Option (Int × Int × VA) :=
  (found.filter p).getLast?

theorem lastWith_snoc (p : Int × Int × VA → Bool) (found : List (Int × Int × VA)) (e : Int × Int × VA) :
    lastWith p (found ++ [e]) = if p e then some e else lastWith p found := by
  unfold lastWith
  rw [List.filter_append]
  by_cases h : p e <;> simp [h]

theorem lastWith_eq_some {p : Int × Int × VA → Bool} (hs : found.Pairwise fun x y => x.1 < y.1)
    {e : Int × Int × VA} (h : lastWith p found = some e) :
    e ∈ found ∧ p e ∧ ∀ x ∈ found, p x → x.1 ≤ e.1 := by
  induction found using List.reverseRecOn with
  | nil => simp [lastWith] at h
  | append_singleton found e' ih =>
    obtain ⟨hs', -, hlt⟩ := List.pairwise_append.mp hs
    rw [lastWith_snoc] at h
    split at h
    · rename_i hp
      cases h
      refine ⟨by simp, hp, fun x hx _ => ?_⟩
      rcases List.mem_append.mp hx with hx | hx
      · exact (hlt x hx e (by simp)).le
      · rw [List.mem_singleton.mp hx]
    · rename_i hp
      obtain ⟨he, hpe, hmax⟩ := ih hs' h
      refine ⟨List.mem_append_left _ he, hpe, fun x hx hpx => ?_⟩
      rcases List.mem_append.mp hx with hx | hx
      · exact hmax x hx hpx
      · exact absurd (List.mem_singleton.mp hx ▸ hpx) hp

theorem lastWith_eq_none {p : Int × Int × VA → Bool} (h : lastWith p found = none) : ∀ x ∈ found, ¬ p x := by
  intro x hx hp
  have hmem : x ∈ found.filter p := List.mem_filter.mpr ⟨hx, hp⟩
  rw [List.getLast?_eq_none_iff.mp h] at hmem
  cases hmem

namespace KStreamSlidingWindowAggregateProcessor

theorem earlyScan_eq (ht : 0 ≤ t) (found : List (Int × Int × VA)) :
    found.foldl (EarlyScan.visit t) .start =
      { combined := (lastWith (fun e => e.1 = 0) found).map (·.2)
        rightWinAgg := (lastWith (fun e => e.1 ≠ 0 ∧ e.1 ≠ t + 1) found).map (·.2)
        rightWinAlreadyCreated := found.any fun e => e.1 = t + 1
        previousRecordTs := (lastWith (fun e => e.1 = 0 ∧ e.2.1 < t) found).map (·.2.1)
        windowStartTimes := found.map (·.1) } := by
  induction found using List.reverseRecOn with
  | nil => rfl
  | append_singleton found e ih =>
    rw [List.foldl_append, ih]
    simp only [List.foldl_cons, List.foldl_nil, lastWith_snoc, List.any_append, List.map_append,
      EarlyScan.visit]
    by_cases h0 : e.1 = 0
    · by_cases hts : e.2.1 < t
      · simp [h0, hts, show (0 : Int) ≠ t + 1 by omega]
      · simp [h0, hts, show (0 : Int) ≠ t + 1 by omega]
    · by_cases h1 : e.1 = t + 1
      · simp [h1, show t + 1 ≠ 0 by omega]
      · simp [h0, h1]

def firstStraddle (W t : Int) (found : List (Int × Int × VA)) : Option (Int × Int × VA) :=
  found.find? fun e => t < e.1 + W ∧ e.1 ≤ t

def normalScan (W t closeTime : Int) (new : VA → VA) (found : List (Int × Int × VA)) : NormalScan VA where
  leftWinAgg := (lastWith (fun e => e.1 + W < t) found).map (·.2.2)
  rightWinAgg := (firstStraddle W t found).map (·.2)
  leftWinAlreadyCreated := found.any fun e => e.1 + W = t
  rightWinAlreadyCreated := found.any fun e => e.1 = t + 1
  previousRecordTs := (lastWith (fun e => e.1 + W < t ∨ e.1 + W = t ∧ e.2.1 < t) found).map (·.2.1)
  windowStartTimes := found.map (·.1)
  updatesToEmit := (found.filter fun e => t ≤ e.1 + W ∧ e.1 ≤ t).map fun e =>
    (e.1, max e.2.1 t, new e.2.2, decide (closeTime ≤ e.1 + W))

theorem normalScan_snoc {W closeTime : Int} (hW : 0 ≤ W) (new : VA → VA) (found : List (Int × Int × VA))
    {e : Int × Int × VA} (he : IsI64 (e.1 + W)) :
    NormalScan.visit W t closeTime new (normalScan W t closeTime new found) e
      = .ok (normalScan W t closeTime new (found ++ [e])) := by
  unfold NormalScan.visit
  simp only [checkedI64_eq_ok.mpr ⟨he, rfl⟩]
  show (if e.1 + W < t then _ else _) = _
  simp only [normalScan, firstStraddle, lastWith_snoc, List.any_append, List.map_append,
    List.filter_append, List.find?_append]
  rcases lt_trichotomy (e.1 + W) t with hlt | heq | hgt
  · have hne : e.1 ≠ t + 1 := by omega
    simp [hlt, hne, show ¬ t ≤ e.1 + W by omega, show ¬ t < e.1 + W by omega,
      show e.1 + W ≠ t by omega, pure, Except.pure]
  · have hne : e.1 ≠ t + 1 := by omega
    have hle : e.1 ≤ t := by omega
    by_cases hts : e.2.1 < t
    · simp [heq, hne, hle, hts, pure, Except.pure]
    · simp [heq, hne, hle, hts, pure, Except.pure]
  · by_cases hle : e.1 ≤ t
    · have hne : e.1 ≠ t + 1 := by omega
      simp [hgt, hle, hne, show ¬ e.1 + W < t by omega, show e.1 + W ≠ t by omega, hgt.le,
        pure, Except.pure]
    · by_cases h1 : e.1 = t + 1
      · simp [h1, show ¬ t + 1 + W < t by omega, show t + 1 + W ≠ t by omega, pure, Except.pure]
      · simp [hle, h1, show ¬ e.1 + W < t by omega, show e.1 + W ≠ t by omega, pure, Except.pure]

theorem normalScan_eq {W : Int} (hW : 0 ≤ W) (t closeTime : Int) (new : VA → VA)
    (hf : ∀ e ∈ found, IsI64 (e.1 + W)) :
    found.foldlM (NormalScan.visit W t closeTime new) .start = .ok (normalScan W t closeTime new found) := by
  induction found using List.reverseRecOn with
  | nil => rfl
  | append_singleton found e ih =>
    rw [List.foldlM_append, ih fun x hx => hf x (List.mem_append_left _ hx)]
    refine bind_eq_ok.mpr ⟨_, rfl, ?_⟩
    rw [List.foldlM_cons, normalScan_snoc hW new found (hf e (by simp))]
    rfl

end KStreamSlidingWindowAggregateProcessor

end KrabkaStreams
