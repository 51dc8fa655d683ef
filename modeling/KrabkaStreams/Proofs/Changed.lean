import KrabkaStreams.Dsl.Changed
import Mathlib.Data.Nat.Bitwise
import Mathlib.Tactic.Ring

/-!
# A change comes through the repartition topic

The length in front of a change with two sides is read back, for every length a slice can have
(`readVarint_writeVarint`), so what the sink wrote the source reads (`Changed.deserialize_serialize`).
-/

namespace KrabkaStreams

theorem toNat_or_high (b : UInt8) : (b ||| 0x80).toNat = b.toNat % 128 + 128 := by
  have hor : ∀ w : Fin 256, w.val ||| 128 = w.val % 128 + 128 := by decide +kernel
  rw [UInt8.toNat_or]
  exact hor ⟨b.toNat, b.toNat_lt⟩

theorem toNat_and_low (b : UInt8) : (b &&& 0x7F).toNat = b.toNat % 128 := by
  rw [UInt8.toNat_and]
  exact Nat.and_two_pow_sub_one_eq_mod b.toNat 7

theorem and_high_eq_zero_iff (b : UInt8) : b &&& 0x80 = 0 ↔ b.toNat < 128 := by
  have hand : ∀ w : Fin 256, w.val &&& 128 = 0 ↔ w.val < 128 := by decide +kernel
  rw [← UInt8.toNat_inj, UInt8.toNat_and]
  exact hand ⟨b.toNat, b.toNat_lt⟩

theorem or_shift_eq_add {value digit shift : Nat} (hv : value < 2 ^ shift) (hd : digit * 2 ^ shift < 2 ^ 64) :
    value ||| (digit <<< shift) % 2 ^ 64 = value + digit * 2 ^ shift := by
  rw [Nat.shiftLeft_eq, Nat.mod_eq_of_lt hd, Nat.or_comm, Nat.mul_comm, ← Nat.two_pow_add_eq_or_of_lt hv,
    Nat.add_comm]

theorem readVarintFrom_append {rest : Bytes} :
    ∀ (n v value shift consumed : Nat), v < 128 ^ (n + 1) → value < 2 ^ shift → shift < 64 →
      value + v * 2 ^ shift < 2 ^ 64 →
        readVarintFrom (writeVarintFrom (n + 1) v ++ rest) value shift consumed
          = .ok (((value + v * 2 ^ shift) >>> 1) ^^^ ((2 ^ 64 - (value + v * 2 ^ shift) % 2) % 2 ^ 64),
            consumed + (writeVarintFrom (n + 1) v).length)
  | n, v, value, shift, consumed, hv, hval, hshift, hfit => by
    rw [writeVarintFrom]
    by_cases hlast : v < 0x80
    · have hb : (UInt8.ofNat v).toNat = v := by
        rw [UInt8.toNat_ofNat']
        omega
      rw [if_pos hlast, List.singleton_append, readVarintFrom, toNat_and_low, hb, Nat.mod_eq_of_lt hlast,
        or_shift_eq_add hval (by omega), if_pos ((and_high_eq_zero_iff _).mpr (by omega))]
      rfl
    · have hb : (UInt8.ofNat v ||| 0x80).toNat = v % 128 + 128 := by
        rw [toNat_or_high, UInt8.toNat_ofNat']
        omega
      have hsplit : v % 128 * 2 ^ shift + v / 128 * 2 ^ (shift + 7) = v * 2 ^ shift := by
        have h := Nat.div_add_mod v 128
        calc v % 128 * 2 ^ shift + v / 128 * 2 ^ (shift + 7)
            = (128 * (v / 128) + v % 128) * 2 ^ shift := by ring
          _ = v * 2 ^ shift := by rw [h]
      have hpow : 2 ^ (shift + 7) = 128 * 2 ^ shift := by ring
      have hroom : shift + 7 < 64 := by
        by_contra hge
        have h64 : 2 ^ 64 ≤ 2 ^ (shift + 7) := Nat.pow_le_pow_right (by decide) (by omega)
        have hle : 128 * 2 ^ shift ≤ v * 2 ^ shift := Nat.mul_le_mul_right _ (by omega)
        omega
      have hdigit : v % 128 * 2 ^ shift ≤ 127 * 2 ^ shift := Nat.mul_le_mul_right _ (by omega)
      match n, hv with
      | 0, hv => exact absurd hv (by omega)
      | n + 1, hv =>
        have hdiv : v / 128 < 128 ^ (n + 1) := by
          rw [Nat.div_lt_iff_lt_mul (by decide)]
          rwa [Nat.pow_succ] at hv
        rw [if_neg hlast, List.cons_append, readVarintFrom, toNat_and_low, hb, Nat.add_mod_right,
          Nat.mod_mod, or_shift_eq_add hval (by omega),
          if_neg (fun h => by rw [and_high_eq_zero_iff, hb] at h; omega), if_neg (by omega),
          Nat.shiftRight_eq_div_pow,
          readVarintFrom_append n (v / 128) _ (shift + 7) (consumed + 1) hdiv (by omega) hroom (by omega),
          Nat.add_assoc, hsplit, List.length_cons, Nat.add_assoc, Nat.add_comm 1]

theorem readVarint_writeVarint {n : Nat} (h : n < 2 ^ 63) (rest : Bytes) :
    readVarint (writeVarint n ++ rest) = .ok (n, (writeVarint n).length) := by
  have hshift : (n <<< 1) % 2 ^ 64 = 2 * n := by
    rw [Nat.shiftLeft_eq]
    omega
  unfold readVarint writeVarint
  rw [hshift, readVarintFrom_append 9 (2 * n) 0 0 0 (by omega) (by decide) (by decide) (by omega)]
  have hback : (0 + 2 * n * 2 ^ 0) >>> 1 = n := by
    rw [Nat.shiftRight_eq_div_pow]
    omega
  have hsign : (2 ^ 64 - (0 + 2 * n * 2 ^ 0) % 2) % 2 ^ 64 = 0 := by omega
  rw [hback, hsign, Nat.xor_zero, Nat.zero_add]

namespace Changed

variable {V : Type} {inner : Serde V} {topic name : Topic}

def Fits (inner : Serde V) (topic : Topic) : Prop := ∀ v, (inner.serialize topic v).length < 2 ^ 63

theorem deserialize_serialize (hop : ∀ v, inner.deserialize name (inner.serialize topic v) = .ok v)
    (hfit : Fits inner topic) {c : Change V} (hc : c.old.isSome ∨ c.new.isSome) :
    ∃ bytes, serialize inner topic c = .ok bytes ∧ deserialize inner name bytes = .ok c := by
  obtain ⟨old, new⟩ := c
  rcases old with _ | old <;> rcases new with _ | new
  · simp at hc
  · refine ⟨_, rfl, ?_⟩
    unfold deserialize
    rw [List.getLast?_concat, List.dropLast_concat]
    simp [hop, bind, Except.bind, pure, Except.pure]
  · refine ⟨_, rfl, ?_⟩
    unfold deserialize
    rw [List.getLast?_concat, List.dropLast_concat]
    simp [hop, bind, Except.bind, pure, Except.pure]
  · refine ⟨_, rfl, ?_⟩
    unfold deserialize
    rw [List.getLast?_concat, List.dropLast_concat]
    simp [List.append_assoc, readVarint_writeVarint (hfit new), hop, bind, Except.bind, pure, Except.pure]

theorem readVarintFrom_consumed : ∀ {bytes : Bytes} {value shift consumed n c : Nat},
    readVarintFrom bytes value shift consumed = .ok (n, c) → c ≤ consumed + bytes.length
  | [], _, _, _, _, _, h => by cases h
  | b :: bytes, value, shift, consumed, n, c, h => by
    rw [readVarintFrom] at h
    split at h
    · cases h
      simp
    · split at h
      · cases h
      · have := readVarintFrom_consumed h
        rw [List.length_cons]
        omega

/-- The serde inverts itself where it is defined, and the one slice it takes without a check is in range. -/
theorem roundTrips (hop : ∀ v, inner.deserialize topic (inner.serialize topic v) = .ok v)
    (hfit : Fits inner topic) :
    (∀ c : Change V, c.old.isSome ∨ c.new.isSome →
      ∃ bytes, serialize inner topic c = .ok bytes ∧ deserialize inner topic bytes = .ok c) ∧
    (∀ {c c' : Change V} {bytes}, serialize inner topic c = .ok bytes →
      serialize inner topic c' = .ok bytes → c = c') ∧
    ∀ {payload : Bytes} {newLen consumed}, readVarint payload = .ok (newLen, consumed) →
      consumed ≤ payload.length := by
  have hread : ∀ {c : Change V} {bytes}, serialize inner topic c = .ok bytes →
      deserialize inner topic bytes = .ok c := fun {c bytes} hser => by
    have hc : c.old.isSome ∨ c.new.isSome := by
      obtain ⟨_ | old, _ | new⟩ := c
      · cases hser
      all_goals simp
    obtain ⟨bytes', hser', hde⟩ := deserialize_serialize hop hfit hc
    cases hser.symm.trans hser'
    exact hde
  refine ⟨fun c => deserialize_serialize hop hfit, fun hser hser' => ?_, fun h => ?_⟩
  · exact Except.ok.inj ((hread hser).symm.trans (hread hser'))
  · simpa using readVarintFrom_consumed h

def octetSerde : Serde UInt8 where
  serialize _ n := [n]
  deserialize _ bytes := match bytes with
    | [n] => .ok n
    | _ => .error "one byte expected"

theorem octetSerde_lawful : octetSerde.Lawful := fun _ _ => rfl

theorem octetSerde_fits (topic : Topic) : Fits octetSerde topic := fun _ => Nat.one_lt_two_pow (by decide)

theorem roundTrips_octets : ∃ bytes, serialize octetSerde "t" ⟨some 1, some 2⟩ = .ok bytes ∧
    deserialize octetSerde "t" bytes = .ok ⟨some 1, some 2⟩ :=
  (roundTrips (octetSerde_lawful "t") (octetSerde_fits "t")).1 _ (.inl rfl)

end Changed

end KrabkaStreams
