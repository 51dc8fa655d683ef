import KrabkaStreams.Lib.SortedMap
import Mathlib.Tactic.NormNum
import Mathlib.Tactic.Positivity
import Mathlib.Tactic.Zify

/-!
# Big-endian numbers

A number as the bytes of a fixed width, and a two's complement number as the bytes of its residue. The
bytes give the number back (`beNat_beBytes`, `beInt_beIntBytes`) and compare as the residues do.
-/

namespace BigEndian

def beBytes : Nat → Nat → List UInt8
  | 0, _ => []
  | n + 1, x => beBytes n (x / 256) ++ [UInt8.ofNat (x % 256)]

variable (b : List UInt8)

def beNat : Nat := b.foldl (fun x d => x * 256 + d.toNat) 0

def beIntBytes (n : Nat) (x : Int) : List UInt8 := beBytes n (x % (256 : Int) ^ n).toNat

def beInt : Int :=
  if 2 * beNat b < 256 ^ b.length then beNat b else (beNat b : Int) - 256 ^ b.length

@[simp] theorem length_beBytes : ∀ n x, (beBytes n x).length = n
  | 0, _ => rfl
  | n + 1, x => by simp [beBytes, length_beBytes n]

@[simp] theorem length_beIntBytes (n : Nat) (x : Int) : (beIntBytes n x).length = n :=
  length_beBytes n _

theorem beNat_append_singleton (d : UInt8) : beNat (b ++ [d]) = beNat b * 256 + d.toNat := by
  simp [beNat, List.foldl_append]

theorem toNat_ofNat_mod (x : Nat) : (UInt8.ofNat (x % 256)).toNat = x % 256 := by
  simp

theorem beNat_beBytes : ∀ {n x : Nat}, x < 256 ^ n → beNat (beBytes n x) = x
  | 0, x, h => by
    have : x = 0 := by simpa using h
    simp [beBytes, beNat, this]
  | n + 1, x, h => by
    have hdiv : x / 256 < 256 ^ n := by
      omega
    rw [beBytes, beNat_append_singleton, beNat_beBytes hdiv, toNat_ofNat_mod]
    omega

theorem beBytes_inj {n x y : Nat} (hx : x < 256 ^ n) (hy : y < 256 ^ n)
    (h : beBytes n x = beBytes n y) : x = y := by
  rw [← beNat_beBytes hx, ← beNat_beBytes hy, h]

theorem append_lt_append_iff : ∀ {a b c d : List UInt8}, a.length = c.length →
    (a ++ b < c ++ d ↔ a < c ∨ a = c ∧ b < d)
  | [], b, [], d, _ => by simp
  | x :: a, b, y :: c, d, h => by
    have ih := append_lt_append_iff (a := a) (b := b) (c := c) (d := d) (by simpa using h)
    simp only [List.cons_append, List.cons_lt_cons_iff, ih, List.cons.injEq]
    tauto

theorem singleton_lt_singleton_iff (x y : UInt8) : [x] < [y] ↔ x < y := by
  simp [List.cons_lt_cons_iff]

theorem beBytes_lt_iff : ∀ {n x y : Nat}, x < 256 ^ n → y < 256 ^ n →
    (beBytes n x < beBytes n y ↔ x < y)
  | 0, x, y, hx, hy => by
    have h0 : x = 0 ∧ y = 0 := by simpa using And.intro hx hy
    simp [beBytes, h0.1, h0.2]
  | n + 1, x, y, hx, hy => by
    have hxd : x / 256 < 256 ^ n := by rw [pow_succ] at hx; omega
    have hyd : y / 256 < 256 ^ n := by rw [pow_succ] at hy; omega
    have heq : beBytes n (x / 256) = beBytes n (y / 256) ↔ x / 256 = y / 256 :=
      ⟨beBytes_inj hxd hyd, fun h => by rw [h]⟩
    have hbyte : UInt8.ofNat (x % 256) < UInt8.ofNat (y % 256) ↔ x % 256 < y % 256 := by
      rw [UInt8.lt_iff_toNat_lt, toNat_ofNat_mod, toNat_ofNat_mod]
    rw [beBytes, beBytes, append_lt_append_iff (by simp), beBytes_lt_iff hxd hyd, heq,
      singleton_lt_singleton_iff, hbyte]
    omega

theorem beInt_beIntBytes {n : Nat} {x : Int} (hlo : -(256 : Int) ^ n ≤ 2 * x)
    (hhi : 2 * x < 256 ^ n) : beInt (beIntBytes n x) = x := by
  have hpos : (0 : Int) < 256 ^ n := by positivity
  have hnat : beNat (beIntBytes n x) = (x % (256 : Int) ^ n).toNat := by
    refine beNat_beBytes ?_
    have := Int.emod_lt_of_pos x hpos
    have h0 := Int.emod_nonneg x hpos.ne'
    zify
    rw [Int.toNat_of_nonneg h0]
    exact this
  have h0 := Int.emod_nonneg x hpos.ne'
  have hcast : (beNat (beIntBytes n x) : Int) = x % (256 : Int) ^ n := by
    rw [hnat, Int.toNat_of_nonneg h0]
  unfold beInt
  rw [length_beIntBytes]
  have hcond : 2 * beNat (beIntBytes n x) < 256 ^ n ↔ 2 * (x % (256 : Int) ^ n) < 256 ^ n := by
    rw [← hcast]
    norm_cast
  rw [if_congr hcond rfl rfl, hcast]
  -- a negative number has the residue one modulus above it
  by_cases hx : 0 ≤ x
  · rw [Int.emod_eq_of_lt hx (by omega), if_pos hhi]
  · have hres : x % (256 : Int) ^ n = x + 256 ^ n := by
      rw [← Int.add_emod_right, Int.emod_eq_of_lt (by omega) (by omega)]
    rw [hres, if_neg (by omega)]
    omega

theorem beNat_lt : beNat b < 256 ^ b.length := by
  induction b using List.reverseRecOn with
  | nil => decide
  | append_singleton b d ih =>
    rw [beNat_append_singleton, List.length_append, List.length_singleton, pow_succ]
    have hd := d.toNat_lt
    omega

theorem beInt_range : -(256 : Int) ^ b.length ≤ 2 * beInt b ∧ 2 * beInt b < 256 ^ b.length := by
  have hlt : (beNat b : Int) < 256 ^ b.length := by
    exact_mod_cast beNat_lt b
  unfold beInt
  split
  · rename_i h
    have h' : 2 * (beNat b : Int) < 256 ^ b.length := by exact_mod_cast h
    constructor <;> omega
  · rename_i h
    have h' : (256 : Int) ^ b.length ≤ 2 * (beNat b : Int) := by exact_mod_cast not_lt.mp h
    constructor <;> omega

theorem beIntBytes_lt_iff_emod {n : Nat} (x y : Int) :
    beIntBytes n x < beIntBytes n y ↔ x % (256 : Int) ^ n < y % (256 : Int) ^ n := by
  have hpos : (0 : Int) < 256 ^ n := by positivity
  have hx0 := Int.emod_nonneg x hpos.ne'
  have hy0 := Int.emod_nonneg y hpos.ne'
  unfold beIntBytes
  rw [beBytes_lt_iff]
  · omega
  · zify
    rw [Int.toNat_of_nonneg hx0]
    exact Int.emod_lt_of_pos x hpos
  · zify
    rw [Int.toNat_of_nonneg hy0]
    exact Int.emod_lt_of_pos y hpos

theorem beIntBytes_lt_iff {n : Nat} {x y : Int} (hx0 : 0 ≤ x) (hx : x < 256 ^ n) (hy0 : 0 ≤ y)
    (hy : y < 256 ^ n) : beIntBytes n x < beIntBytes n y ↔ x < y := by
  rw [beIntBytes_lt_iff_emod, Int.emod_eq_of_lt hx0 hx, Int.emod_eq_of_lt hy0 hy]

end BigEndian
