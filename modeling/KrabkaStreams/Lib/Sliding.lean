import Mathlib.Algebra.Order.Group.Int
import Mathlib.Tactic.Common

/-!
# Windows that start where points ask for it

`Slides` says which windows of size `W` there are over some points: one ends at every point, and one
starts right after a point with a later one within reach. A new point finds what it needs in the
neighbouring windows (`Slides.before_iff`, `Slides.after_iff`, `Slides.empty_after`).
-/

namespace Sliding

/-- The windows, by their starts `D`, over the points `T`. -/
structure Slides (W : Int) (T D : Int → Prop) : Prop where
  point_nonneg : ∀ {t}, T t → 0 ≤ t
  start_nonneg : ∀ {a}, D a → 0 ≤ a
  held : ∀ {a}, D a → ∃ u, T u ∧ a ≤ u ∧ u ≤ a + W
  left : ∀ {t}, T t → D (max 0 (t - W))
  right : ∀ {q u}, T q → T u → q < u → u ≤ q + 1 + W → D (q + 1)

variable {W : Int} {T D D' : Int → Prop} {a t u q : Int}

namespace Slides

theorem empty (W : Int) : Slides W (fun _ => False) fun _ => False :=
  ⟨False.elim, False.elim, False.elim, False.elim, False.elim⟩

theorem exists_start (h : Slides W T D) (hu : T u) : ∃ b, D b ∧ b ≤ u ∧ u ≤ b + W ∧ (b = 0 ∨ b = u - W) := by
  have hnn := h.point_nonneg hu
  -- a window has a point, so its size is not negative
  obtain ⟨v, -, hv⟩ := h.held (h.left hu)
  have hd := h.left hu
  rcases le_total (u - W) 0 with hle | hle
  · rw [max_eq_left hle] at hd
    exact ⟨0, hd, hnn, by omega, .inl rfl⟩
  · rw [max_eq_right hle] at hd hv
    exact ⟨u - W, hd, by omega, by omega, .inr rfl⟩

section After

variable (h : Slides W T D) (hno : ¬ D (t + 1))

include h hno

theorem le_of_later (ht : 0 ≤ t) (hlast : ∀ b, D b → b ≤ t → b ≤ a) (hu : T u)
    (hut : u ≤ t + 1 + W) : u ≤ a + W := by
  obtain ⟨b, hb, -, hub, rfl | rfl⟩ := h.exists_start hu
  · have := hlast 0 hb ht
    omega
  · rcases eq_or_lt_of_le (show u - W ≤ t + 1 by omega) with he | hlt
    · exact absurd (he ▸ hb) hno
    · have := hlast _ hb (by omega)
      omega

theorem exists_start_le (ht : 0 ≤ t) (hu : T u) (hut : u ≤ t + 1 + W) :
    ∃ b, D b ∧ b ≤ t ∧ u ≤ b + W := by
  obtain ⟨b, hb, -, hub, rfl | rfl⟩ := h.exists_start hu
  · exact ⟨0, hb, ht, hub⟩
  · rcases eq_or_lt_of_le (show u - W ≤ t + 1 by omega) with he | hlt
    · exact absurd (he ▸ hb) hno
    · exact ⟨u - W, hb, by omega, hub⟩

theorem after_iff (ha : D a) (hat : a ≤ t) (hlast : ∀ b, D b → b ≤ t → b ≤ a) {v : Int}
    (hv : T v) (htv : t < v) (hva : v ≤ a + W) (hu : T u) :
    a ≤ u ∧ u ≤ a + W ↔ t + 1 ≤ u ∧ u ≤ t + 1 + W := by
  have ha0 := h.start_nonneg ha
  constructor
  · rintro ⟨hau, hua⟩
    refine ⟨?_, by omega⟩
    by_contra hlt
    -- a point before `v` has a window right after it, which starts later than `a`
    have hright := h.right hu hv (by omega) (by omega)
    rcases eq_or_lt_of_le (show u + 1 ≤ t + 1 by omega) with he | hlt'
    · exact hno (he ▸ hright)
    · have := hlast _ hright (by omega)
      omega
  · rintro ⟨htu, hut⟩
    exact ⟨by omega, h.le_of_later hno (ha0.trans hat) hlast hu hut⟩

end After

section Before

variable (h : Slides W T D) (hno : ¬ D (t - W))

include h hno

theorem le_of_earlier (hlast : ∀ b, D b → b + W < t → b ≤ a) (hu : T u) (htu : t - W ≤ u) (hut : u < t)
    (hWt : W ≤ t) : u ≤ a + W := by
  obtain ⟨b, hb, -, hub, rfl | rfl⟩ := h.exists_start hu
  · rcases eq_or_lt_of_le hWt with rfl | hlt
    · exact absurd (by simpa using hb) hno
    · have := hlast 0 hb (by omega)
      omega
  · have := hlast _ hb (by omega)
    omega

theorem exists_start_before (hu : T u) (htu : t - W ≤ u) (hut : u < t) (hWt : W ≤ t) :
    ∃ b, D b ∧ b + W < t ∧ u ≤ b + W := by
  obtain ⟨b, hb, -, hub, rfl | rfl⟩ := h.exists_start hu
  · rcases eq_or_lt_of_le hWt with rfl | hlt
    · exact absurd (by simpa using hb) hno
    · exact ⟨0, hb, by omega, hub⟩
  · exact ⟨u - W, hb, by omega, hub⟩

theorem before_iff (hWt : W ≤ t) (haW : a + W < t) (hlast : ∀ b, D b → b + W < t → b ≤ a)
    (hq : T q) (hqa : q ≤ a + W) (htq : t - W ≤ q) (hu : T u) :
    a ≤ u ∧ u ≤ a + W ↔ t - W ≤ u ∧ u ≤ t := by
  constructor
  · rintro ⟨hau, hua⟩
    refine ⟨?_, by omega⟩
    by_contra hlt
    have hright := h.right hu hq (by omega) (by omega)
    rcases eq_or_lt_of_le (show u + 1 ≤ t - W by omega) with he | hlt'
    · exact hno (he ▸ hright)
    · have := hlast _ hright (by omega)
      omega
  · rintro ⟨htu, hut⟩
    have hne : u ≠ t := by
      rintro rfl
      have hd := h.left hu
      rw [max_eq_right (by omega)] at hd
      exact hno hd
    exact ⟨by omega, h.le_of_earlier hno hlast hu htu (by omega) hWt⟩

end Before

theorem empty_after (h : Slides W T D) (hno : ¬ D (q + 1)) (hq : T q) (hu : T u) :
    ¬ (q + 1 ≤ u ∧ u ≤ q + 1 + W) :=
  fun hr => hno (h.right hq hu (by omega) hr.2)

/-- A new point, with windows that hold it or an old one, one that ends at it, and those right after it
and after a point it is within reach of. -/
theorem insert (h : Slides W T D) (ht : 0 ≤ t) (hD : ∀ {a}, D a → D' a)
    (hnew : ∀ {a}, D' a → D a ∨ 0 ≤ a ∧ ∃ u, (u = t ∨ T u) ∧ a ≤ u ∧ u ≤ a + W)
    (hleft : D' (max 0 (t - W))) (hprev : ∀ {q}, T q → q < t → t ≤ q + 1 + W → D' (q + 1))
    (hnext : ∀ {u}, T u → t < u → u ≤ t + 1 + W → D' (t + 1)) :
    Slides W (fun u => u = t ∨ T u) D' := by
  refine ⟨?_, ?_, ?_, ?_, ?_⟩
  · rintro u (rfl | hu)
    · exact ht
    · exact h.point_nonneg hu
  · intro a ha
    rcases hnew ha with ha | ⟨ha, -⟩
    · exact h.start_nonneg ha
    · exact ha
  · intro a ha
    rcases hnew ha with ha | ⟨-, hu⟩
    · obtain ⟨u, hu, hr⟩ := h.held ha
      exact ⟨u, .inr hu, hr⟩
    · exact hu
  · rintro u (rfl | hu)
    · exact hleft
    · exact hD (h.left hu)
  · rintro q u (rfl | hq) (rfl | hu) hlt hle
    · omega
    · exact hnext hu hlt hle
    · exact hprev hq hlt hle
    · exact hD (h.right hq hu hlt hle)

end Slides

end Sliding
