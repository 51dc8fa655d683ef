import Mathlib.Algebra.BigOperators.Group.List.Basic
import Mathlib.Algebra.Order.Group.Abs
import Mathlib.Algebra.Order.Group.Int
import Mathlib.Logic.Relation
import Mathlib.Order.Bounds.Basic
import Mathlib.Tactic.Common

/-!
# Clusters of points on a line

Points within a gap of each other are linked. `Clustered` describes the clusters by their extents
(`Clustered.interval_iff`); a new point merges those it touches (`Clustered.insert`).
-/

namespace Clusters

/-- A chain of points leads from one to the other, each within the gap of the next. -/
def Linked (gap : Int) (P : Int → Prop) : Int → Int → Prop :=
  Relation.ReflTransGen fun a b => P a ∧ P b ∧ |a - b| ≤ gap

variable {gap : Int} {P Q : Int → Prop} {a b c d t u x : Int}

namespace Linked

theorem single (ha : P a) (hb : P b) (hle : a ≤ b + gap) (hle' : b ≤ a + gap) : Linked gap P a b :=
  Relation.ReflTransGen.single ⟨ha, hb, abs_sub_le_iff.mpr ⟨by omega, by omega⟩⟩

theorem symm (h : Linked gap P a b) : Linked gap P b a := by
  induction h with
  | refl => exact .refl
  | @tail c d _ hstep ih =>
    obtain ⟨hc, hd, hcd⟩ := hstep
    rw [abs_sub_comm] at hcd
    exact .head ⟨hd, hc, hcd⟩ ih

theorem mono (h : Linked gap P a b) (hPQ : ∀ t, P t → Q t) : Linked gap Q a b :=
  Relation.ReflTransGen.mono (fun _ _ ⟨ha, hb, hab⟩ => ⟨hPQ _ ha, hPQ _ hb, hab⟩) _ _ h

theorem mem (h : Linked gap P a b) (ha : P a) : P b := by
  cases h with
  | refl => exact ha
  | tail _ hstep => exact hstep.2.1

theorem exists_near (h : Linked gap P a b) (ha : P a) (hax : a ≤ x) (hxb : x ≤ b) (hgap : 0 ≤ gap) :
    ∃ t, P t ∧ Linked gap P a t ∧ t ≤ x + gap ∧ x ≤ t + gap := by
  induction h with
  | refl => exact ⟨a, ha, .refl, by omega, by omega⟩
  | @tail c d hac hcd ih =>
    by_cases hxc : x ≤ c
    · exact ih hxc
    · have hnear := abs_sub_le_iff.mp hcd.2.2
      exact ⟨d, hcd.2.1, hac.tail hcd, by omega, by omega⟩

end Linked

def Apart (gap : Int) (S : Int → Int → Prop) : Prop :=
  ∀ ⦃a b c d⦄, S a b → S c d → (a = c ∧ b = d) ∨ b + gap < c ∨ d + gap < a

theorem Apart.mono {S T : Int → Int → Prop} (h : Apart gap T) (hST : ∀ a b, S a b → T a b) :
    Apart gap S :=
  fun _ _ _ _ hab hcd => h (hST _ _ hab) (hST _ _ hcd)

def Touches (gap x a b : Int) : Prop := x - gap ≤ b ∧ a ≤ x + gap

instance (gap x a b : Int) : Decidable (Touches gap x a b) := instDecidableAnd

/-- `lo` and `hi` are the extent of a point and of the intervals it touches. -/
structure Spans (gap : Int) (S : Int → Int → Prop) (x lo hi : Int) : Prop where
  lo_le : lo ≤ x
  le_hi : x ≤ hi
  holds : ∀ {a b}, S a b → Touches gap x a b → lo ≤ a ∧ b ≤ hi
  lo_eq : lo = x ∨ ∃ b, S lo b ∧ Touches gap x lo b
  hi_eq : hi = x ∨ ∃ a, S a hi ∧ Touches gap x a hi

def merged (gap : Int) (S : Int → Int → Prop) (x lo hi a b : Int) : Prop :=
  (a = lo ∧ b = hi) ∨ (S a b ∧ ¬ Touches gap x a b)

section Merge

variable {S : Int → Int → Prop} {lo hi : Int}

theorem Spans.apart (h : Spans gap S x lo hi) (hgap : 0 ≤ gap) (hS : Apart gap S)
    (hle : ∀ {a b}, S a b → a ≤ b) (hab : S a b) (hnot : ¬ Touches gap x a b) : b + gap < lo ∨ hi + gap < a := by
  have hab' := hle hab
  by_cases hleft : x - gap ≤ b
  · -- the interval lies to the right of the point, and so of all it touches
    have hright : x + gap < a := by
      by_contra hle
      exact hnot ⟨hleft, by omega⟩
    right
    rcases h.hi_eq with rfl | ⟨c, hc, ht⟩
    · omega
    · rcases hS hab hc with ⟨rfl, rfl⟩ | hlt | hlt
      · exact absurd ht hnot
      · have := ht.2
        omega
      · exact hlt
  · left
    rcases h.lo_eq with rfl | ⟨c, hc, ht⟩
    · omega
    · have hc' := hle hc
      rcases hS hab hc with ⟨rfl, rfl⟩ | hlt | hlt
      · exact absurd ht hnot
      · exact hlt
      · have := ht.1
        omega

theorem Apart.merged (hgap : 0 ≤ gap) (hS : Apart gap S) (hle : ∀ {a b}, S a b → a ≤ b)
    (h : Spans gap S x lo hi) : Apart gap (merged gap S x lo hi) := by
  rintro a b c d (⟨rfl, rfl⟩ | ⟨hab, hnot⟩) (⟨rfl, rfl⟩ | ⟨hcd, hnot'⟩)
  · exact .inl ⟨rfl, rfl⟩
  · exact .inr (h.apart hgap hS hle hcd hnot').symm
  · exact .inr (h.apart hgap hS hle hab hnot)
  · exact hS hab hcd

end Merge

/-- The intervals are the extents of the clusters of the points. -/
structure Clustered (gap : Int) (P : Int → Prop) (S : Int → Int → Prop) : Prop where
  ends : ∀ {a b}, S a b → P a ∧ P b ∧ a ≤ b
  apart : Apart gap S
  covers : ∀ {t}, P t → ∃ a b, S a b ∧ a ≤ t ∧ t ≤ b
  linked : ∀ {a b t}, S a b → P t → a ≤ t → t ≤ b → Linked gap P a t

namespace Clustered

variable {S : Int → Int → Prop} {lo hi : Int}

theorem empty (gap : Int) : Clustered gap (fun _ => False) fun _ _ => False :=
  ⟨False.elim, fun _ _ _ _ h => h.elim, False.elim, False.elim⟩

theorem mem_of_linked (h : Clustered gap P S) (hS : S a b) (hat : a ≤ t) (htb : t ≤ b)
    (hl : Linked gap P t u) : a ≤ u ∧ u ≤ b := by
  induction hl with
  | refl => exact ⟨hat, htb⟩
  | @tail c d _ hcd ih =>
    obtain ⟨a', b', hS', hle, hle'⟩ := h.covers hcd.2.1
    have hnear := abs_sub_le_iff.mp hcd.2.2
    rcases h.apart hS hS' with ⟨rfl, rfl⟩ | hlt | hlt
    · exact ⟨hle, hle'⟩
    · omega
    · omega

theorem linked_iff (h : Clustered gap P S) (hS : S a b) (ht : P t) (hat : a ≤ t) (htb : t ≤ b) :
    Linked gap P t u ↔ P u ∧ a ≤ u ∧ u ≤ b := by
  constructor
  · exact fun hl => ⟨hl.mem ht, h.mem_of_linked hS hat htb hl⟩
  · rintro ⟨hu, hau, hub⟩
    exact (h.linked hS ht hat htb).symm.trans (h.linked hS hu hau hub)

theorem extent (h : Clustered gap P S) (hS : S a b) (ht : P t) (hat : a ≤ t) (htb : t ≤ b) :
    IsLeast {u | Linked gap P t u} a ∧ IsGreatest {u | Linked gap P t u} b := by
  obtain ⟨ha, hb, hab⟩ := h.ends hS
  refine ⟨⟨?_, fun u hu => ?_⟩, ?_, fun u hu => ?_⟩
  · exact (h.linked_iff hS ht hat htb).mpr ⟨ha, le_rfl, hab⟩
  · exact ((h.linked_iff hS ht hat htb).mp hu).2.1
  · exact (h.linked_iff hS ht hat htb).mpr ⟨hb, hab, le_rfl⟩
  · exact ((h.linked_iff hS ht hat htb).mp hu).2.2

theorem interval_iff (h : Clustered gap P S) :
    S a b ↔ ∃ t, P t ∧ IsLeast {u | Linked gap P t u} a ∧ IsGreatest {u | Linked gap P t u} b := by
  constructor
  · intro hS
    obtain ⟨ha, -, hab⟩ := h.ends hS
    exact ⟨a, ha, h.extent hS ha le_rfl hab⟩
  · rintro ⟨t, ht, hleast, hgreatest⟩
    obtain ⟨a', b', hS, hat, htb⟩ := h.covers ht
    obtain ⟨hleast', hgreatest'⟩ := h.extent hS ht hat htb
    rw [hleast.unique hleast', hgreatest.unique hgreatest']
    exact hS

theorem exists_near (h : Clustered gap P S) (hgap : 0 ≤ gap) (hS : S a b) (ht : Touches gap x a b) :
    ∃ t, P t ∧ a ≤ t ∧ t ≤ b ∧ t ≤ x + gap ∧ x ≤ t + gap := by
  obtain ⟨ha, hb, hab⟩ := h.ends hS
  obtain ⟨hleft, hright⟩ := ht
  by_cases hax : a ≤ x
  · by_cases hxb : x ≤ b
    · obtain ⟨t, htP, hlt, hnear⟩ := (h.linked hS hb hab le_rfl).exists_near ha hax hxb hgap
      obtain ⟨hat, htb⟩ := h.mem_of_linked hS le_rfl hab hlt
      exact ⟨t, htP, hat, htb, hnear⟩
    · exact ⟨b, hb, hab, le_rfl, by omega, by omega⟩
  · exact ⟨a, ha, le_rfl, hab, by omega, by omega⟩

theorem linked_insert (h : Clustered gap P S) (hgap : 0 ≤ gap) (hS : S a b) (hx : Touches gap x a b)
    (ht : P t) (hat : a ≤ t) (htb : t ≤ b) : Linked gap (fun t => t = x ∨ P t) x t := by
  obtain ⟨u, hu, hau, hub, hle, hle'⟩ := h.exists_near hgap hS hx
  have hut : Linked gap P u t := (h.linked_iff hS hu hau hub).mpr ⟨ht, hat, htb⟩
  have hxu : Linked gap (fun t => t = x ∨ P t) x u := .single (.inl rfl) (.inr hu) hle' hle
  exact hxu.trans (hut.mono fun _ => .inr)

theorem insert (h : Clustered gap P S) (hgap : 0 ≤ gap) (hx : Spans gap S x lo hi) :
    Clustered gap (fun t => t = x ∨ P t) (merged gap S x lo hi) := by
  have hle : ∀ {a b}, S a b → a ≤ b := fun hS => (h.ends hS).2.2
  have hlo : lo = x ∨ P lo := hx.lo_eq.imp_right fun ⟨b, hb, _⟩ => (h.ends hb).1
  have hhi : hi = x ∨ P hi := hx.hi_eq.imp_right fun ⟨a, ha, _⟩ => (h.ends ha).2.1
  have hlohi : lo ≤ hi := hx.lo_le.trans hx.le_hi
  -- what lies between the ends of the merged interval is linked to the new point
  have hall : ∀ {t}, (t = x ∨ P t) → lo ≤ t → t ≤ hi → Linked gap (fun t => t = x ∨ P t) x t := by
    rintro t (rfl | ht) hlot hthi
    · exact .refl
    · obtain ⟨a, b, hS, hat, htb⟩ := h.covers ht
      by_cases htouch : Touches gap x a b
      · exact h.linked_insert hgap hS htouch ht hat htb
      · rcases hx.apart hgap h.apart hle hS htouch with hlt | hlt
        · omega
        · omega
  refine ⟨?_, Apart.merged hgap h.apart hle hx, ?_, ?_⟩
  · rintro a b (⟨rfl, rfl⟩ | ⟨hS, -⟩)
    · exact ⟨hlo, hhi, hlohi⟩
    · obtain ⟨ha, hb, hab⟩ := h.ends hS
      exact ⟨.inr ha, .inr hb, hab⟩
  · rintro t (rfl | ht)
    · exact ⟨lo, hi, .inl ⟨rfl, rfl⟩, hx.lo_le, hx.le_hi⟩
    · obtain ⟨a, b, hS, hat, htb⟩ := h.covers ht
      by_cases htouch : Touches gap x a b
      · obtain ⟨hloa, hbhi⟩ := hx.holds hS htouch
        exact ⟨lo, hi, .inl ⟨rfl, rfl⟩, hloa.trans hat, htb.trans hbhi⟩
      · exact ⟨a, b, .inr ⟨hS, htouch⟩, hat, htb⟩
  · rintro a b t (⟨rfl, rfl⟩ | ⟨hS, hnot⟩) ht hat htb
    · exact (hall hlo le_rfl hlohi).symm.trans (hall ht hat htb)
    · rcases ht with rfl | ht
      · exact absurd ⟨by omega, by omega⟩ hnot
      · exact (h.linked hS ht hat htb).mono fun _ => .inr

theorem reaches_iff (h : Clustered gap P S) (hgap : 0 ≤ gap) (hx : Spans gap S x lo hi) :
    (∃ t, Linked gap (fun t => t = x ∨ P t) x t ∧ c ≤ t) ↔ c ≤ hi := by
  have hins := h.insert hgap hx
  have hext := (hins.extent (.inl ⟨rfl, rfl⟩) (.inl rfl) hx.lo_le hx.le_hi).2
  constructor
  · rintro ⟨t, ht, hct⟩
    exact hct.trans (hext.2 ht)
  · exact fun hc => ⟨hi, hext.1, hc⟩

end Clustered

end Clusters
