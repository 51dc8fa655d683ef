import KrabkaStreams.Lib.BigEndian

/-!
# The range of the strings with a prefix

In the order of byte strings, the strings that start with `p` come from `p` on and before the string that
has one more in the last byte of `p` that can grow (`upper`). A string of greatest bytes has no such
bound.
-/

namespace PrefixRange

/-- Drop the greatest bytes and add one to the next; the bytes are given from the last to the first. -/
def bump : List UInt8 → List UInt8
  | [] => []
  | b :: r => if b = 0xFF then bump r else (b + 1) :: r

/-- The least string above every string that starts with `p`. -/
def upper (p : List UInt8) : List UInt8 := (bump p.reverse).reverse

theorem lt_add_one {b : UInt8} (h : b ≠ 0xFF) : b < b + 1 := by
  have hb : b.toNat ≠ 255 := fun he => h (UInt8.toNat_inj.mp he)
  have hlt := b.toNat_lt
  rw [UInt8.lt_iff_toNat_lt, UInt8.toNat_add, show (1 : UInt8).toNat = 1 from rfl]
  omega

theorem bump_spec : ∀ r : List UInt8, (∃ b ∈ r, b ≠ 0xFF) →
    ∃ t b q, r = t ++ b :: q ∧ b ≠ 0xFF ∧ bump r = (b + 1) :: q
  | [], h => by simp at h
  | b :: r, h => by
    by_cases hb : b = 0xFF
    · have hrest : ∃ b ∈ r, b ≠ 0xFF := by
        obtain ⟨c, hc, hne⟩ := h
        rcases List.mem_cons.mp hc with rfl | hc
        · exact absurd hb hne
        · exact ⟨c, hc, hne⟩
      obtain ⟨t, c, q, rfl, hne, hbump⟩ := bump_spec r hrest
      refine ⟨b :: t, c, q, rfl, hne, ?_⟩
      rw [bump, if_pos hb, hbump]
    · refine ⟨[], b, r, rfl, hb, ?_⟩
      rw [bump, if_neg hb]

theorem le_append (p s : List UInt8) : p ≤ p ++ s := by
  refine not_lt.mp fun hlt => ?_
  have h := (BigEndian.append_lt_append_iff (a := p) (b := s) (c := p) (d := []) rfl).mp (by simpa using hlt)
  rcases h with h | ⟨-, h⟩
  · exact absurd h (lt_irrefl p)
  · exact absurd h (List.not_lt_nil s)

theorem mem_range {p : List UInt8} (h : ∃ b ∈ p, b ≠ 0xFF) (s : List UInt8) :
    p ≤ p ++ s ∧ p ++ s < upper p := by
  refine ⟨le_append p s, ?_⟩
  obtain ⟨t, b, q, hp, hb, hbump⟩ := bump_spec p.reverse (by simpa using h)
  have hsplit : p = q.reverse ++ b :: t.reverse := by
    rw [← List.reverse_reverse p, hp]
    simp
  have hupper : upper p = q.reverse ++ [b + 1] := by
    unfold upper
    rw [hbump]
    simp
  rw [hupper, hsplit, List.append_assoc, BigEndian.append_lt_append_iff rfl]
  refine .inr ⟨rfl, ?_⟩
  rw [List.cons_append, List.cons_lt_cons_iff]
  exact .inl (lt_add_one hb)

end PrefixRange
