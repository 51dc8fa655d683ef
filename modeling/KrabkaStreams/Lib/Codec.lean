import KrabkaStreams.Lib.BigEndian

/-!
# Readers of byte layouts

A reader takes the front of a buffer or fails. `Takes R r b a` says what `r` does at the bytes `b` of a
value `a` and around them, and follows the reader step by step (`Takes.bind`, `Takes.times`).
-/

namespace Codec

open BigEndian

abbrev Reader (ε α : Type) := StateT (List UInt8) (Except ε) α

variable {ε α β σ ι : Type}

def take (short : ε) (n : Nat) : Reader ε (List UInt8) := fun data =>
  if n ≤ data.length then .ok (data.take n, data.drop n) else .error short

def finish (trailing : ε) : Reader ε Unit := fun data =>
  if data.isEmpty then .ok ((), data) else .error trailing

def times (step : σ → Reader ε σ) : Nat → σ → Reader ε σ
  | 0, s => pure s
  | n + 1, s => do times step n (← step s)

def utf8 (s : String) : List UInt8 := s.toUTF8.toList

def ofUtf8 (b : List UInt8) : Option String := String.fromUTF8? ⟨b.toArray⟩

/-- A reader of the bytes `b` gives `a` and leaves what follows, where that is an `R`; it fails where it
is not, and on every proper prefix of `b`. -/
structure Takes (R : List UInt8 → Prop) (r : Reader ε α) (b : List UInt8) (a : α) : Prop where
  full : ∀ rest, R rest → r (b ++ rest) = .ok (a, rest)
  more : ∀ rest, ¬ R rest → ∃ e, r (b ++ rest) = .error e
  short : ∀ p, p <+: b → p ≠ b → ∃ e, r p = .error e

abbrev Reads : Reader ε α → List UInt8 → α → Prop := Takes fun _ => True

/-- A decoder of whole buffers inverts an encoding: it gives the value back, and fails on every proper
prefix and on every proper extension. -/
structure Inverts (decode : List UInt8 → Except ε α) (b : List UInt8) (a : α) : Prop where
  exact : decode b = .ok a
  short : ∀ p, p <+: b → p ≠ b → ∃ e, decode p = .error e
  long : ∀ c, c ≠ [] → ∃ e, decode (b ++ c) = .error e

def FailsWith (F : ε → Prop) (r : Reader ε α) : Prop := ∀ data e, r data = .error e → F e

section Takes

variable {R : List UInt8 → Prop} {r : Reader ε α} {f : α → Reader ε β} {b c : List UInt8} {a : α} {d : β}

theorem bind_ok {data rest : List UInt8} (h : r data = .ok (a, rest)) : (r >>= f) data = f a rest := by
  show (r data >>= fun x => f x.1 x.2) = _
  rw [h]
  rfl

theorem bind_error {data : List UInt8} {e : ε} (h : r data = .error e) : (r >>= f) data = .error e := by
  show (r data >>= fun x => f x.1 x.2) = _
  rw [h]
  rfl

theorem Takes.pure (a : α) : Reads (Pure.pure a : Reader ε α) [] a where
  full _ _ := rfl
  more _ h := absurd trivial h
  short _ h hne := absurd (List.prefix_nil.mp h) hne

theorem Takes.bind (h : Reads r b a) (h' : Takes R (f a) c d) : Takes R (r >>= f) (b ++ c) d where
  full rest hR := by
    rw [List.append_assoc, bind_ok (h.full _ trivial), h'.full rest hR]
  more rest hR := by
    rw [List.append_assoc, bind_ok (h.full _ trivial)]
    exact h'.more rest hR
  short p hp hne := by
    -- the prefix ends before the first part does, or it is the first part and a prefix of the second
    have hcases : (p <+: b ∧ p ≠ b) ∨ ∃ q, p = b ++ q ∧ q <+: c := by
      rcases le_or_gt b.length p.length with hle | hlt
      · obtain ⟨q, rfl⟩ := List.prefix_of_prefix_length_le (List.prefix_append b c) hp hle
        exact .inr ⟨q, rfl, (List.prefix_append_right_inj b).mp hp⟩
      · refine .inl ⟨List.prefix_of_prefix_length_le hp (List.prefix_append b c) hlt.le, ?_⟩
        rintro rfl
        exact lt_irrefl _ hlt
    rcases hcases with ⟨hpb, hpne⟩ | ⟨q, rfl, hq⟩
    · obtain ⟨e, he⟩ := h.short p hpb hpne
      exact ⟨e, bind_error he⟩
    · rw [bind_ok (h.full q trivial)]
      exact h'.short q hq fun hqc => hne (by rw [hqc])

theorem Takes.check (h : Reads r b a) (h' : Takes R (f a) [] d) : Takes R (r >>= f) b d := by
  simpa using h.bind h'

theorem Takes.map (h : Reads r b a) (g : α → β) : Reads (r >>= fun x => Pure.pure (g x)) b (g a) :=
  h.check (.pure (g a))

theorem Takes.take {n : Nat} (e : ε) (h : b.length = n) : Reads (take e n) b b where
  full rest _ := by simp [Codec.take, ← h]
  more _ h := absurd trivial h
  short p hp hne := by
    have hlt : p.length < n := h ▸ lt_of_le_of_ne hp.length_le fun hl => hne (hp.eq_of_length hl)
    exact ⟨e, by simp [Codec.take, hlt]⟩

theorem Takes.finish (e : ε) (a : α) :
    Takes (· = []) (Codec.finish e >>= fun _ => Pure.pure a) [] a where
  full rest h := by subst h; rfl
  more rest h := by
    refine ⟨e, bind_error ?_⟩
    simpa [Codec.finish] using h
  short _ h hne := absurd (List.prefix_nil.mp h) hne

theorem Takes.nat {n x : Nat} (e : ε) (h : x < 256 ^ n) :
    Reads (Codec.take e n >>= fun b => Pure.pure (beNat b)) (beBytes n x) x := by
  have hread := (Takes.take e (length_beBytes n x)).map beNat
  rwa [beNat_beBytes h] at hread

theorem Takes.int {n : Nat} {x : Int} (e : ε) (hlo : -(256 : Int) ^ n ≤ 2 * x) (hhi : 2 * x < 256 ^ n) :
    Reads (Codec.take e n >>= fun b => Pure.pure (beInt b)) (beIntBytes n x) x := by
  have hread := (Takes.take e (length_beIntBytes n x)).map beInt
  rwa [beInt_beIntBytes hlo hhi] at hread

theorem Takes.times {r : σ → Reader ε σ} {enc : ι → List UInt8} {g : σ → ι → σ} :
    ∀ (xs : List ι) (s : σ), (∀ x ∈ xs, ∀ s, Reads (r s) (enc x) (g s x)) →
      Reads (Codec.times r xs.length s) (xs.flatMap enc) (xs.foldl g s)
  | [], s, _ => .pure s
  | x :: xs, s, h => by
    rw [List.flatMap_cons]
    exact (h x List.mem_cons_self s).bind (Takes.times xs _ fun y hy => h y (List.mem_cons_of_mem _ hy))

theorem Takes.inverts (h : Takes (· = []) r b a) : Inverts (fun data => (·.1) <$> r.run data) b a where
  exact := by
    have hb := h.full [] rfl
    rw [List.append_nil] at hb
    show (·.1) <$> r b = _
    rw [hb]
    rfl
  short p hp hne := by
    obtain ⟨e, he⟩ := h.short p hp hne
    refine ⟨e, ?_⟩
    show (·.1) <$> r p = _
    rw [he]
    rfl
  long c hc := by
    obtain ⟨e, he⟩ := h.more c hc
    refine ⟨e, ?_⟩
    show (·.1) <$> r (b ++ c) = _
    rw [he]
    rfl

end Takes

section FailsWith

variable {F : ε → Prop} {r : Reader ε α} {f : α → Reader ε β} {e : ε}

theorem FailsWith.pure (a : α) : FailsWith F (Pure.pure a : Reader ε α) := fun _ _ h => nomatch h

theorem FailsWith.throw (h : F e) : FailsWith F (throw e : Reader ε α) := by
  intro _ e' he
  cases he
  exact h

theorem FailsWith.bind (h : FailsWith F r) (h' : ∀ a, FailsWith F (f a)) : FailsWith F (r >>= f) := by
  intro data e he
  rcases hr : r data with e' | ⟨a, rest⟩
  · rw [bind_error hr] at he
    cases he
    exact h data e hr
  · rw [bind_ok hr] at he
    exact h' a rest e he

theorem FailsWith.take (n : Nat) (h : F e) : FailsWith F (take e n) := by
  intro data e' he
  unfold Codec.take at he
  split_ifs at he
  cases he
  exact h

theorem FailsWith.finish (h : F e) : FailsWith F (finish e) := by
  intro data e' he
  unfold Codec.finish at he
  split_ifs at he
  cases he
  exact h

theorem FailsWith.times {step : σ → Reader ε σ} (h : ∀ s, FailsWith F (step s)) :
    ∀ (n : Nat) (s : σ), FailsWith F (times step n s)
  | 0, s => .pure s
  | n + 1, s => (h s).bind fun s => FailsWith.times h n s

theorem FailsWith.run (h : FailsWith F r) {data : List UInt8} (he : (·.1) <$> r.run data = .error e) :
    F e := by
  rcases hr : r.run data with e' | ⟨a, rest⟩ <;> rw [hr] at he <;> cases he
  exact h data e hr

end FailsWith

theorem toList_loop (b : ByteArray) (n : Nat) : ∀ (i : Nat) (r : List UInt8), b.size - i = n →
    ByteArray.toList.loop b i r = r.reverse ++ b.data.toList.drop i := by
  induction n with
  | zero =>
    intro i r h
    have hdrop : b.data.toList.drop i = [] := List.drop_eq_nil_of_le (by simpa using Nat.sub_eq_zero_iff_le.mp h)
    rw [ByteArray.toList.loop, if_neg (by omega), hdrop, List.append_nil]
  | succ n ih =>
    intro i r h
    have hi : i < b.data.toList.length := by simpa using (by omega : i < b.size)
    rw [ByteArray.toList.loop, if_pos (by omega), ih _ _ (by omega), List.drop_eq_getElem_cons hi]
    have hget : b.get! i = b.data.toList[i] := getElem!_pos b.data i (by simpa using hi)
    simp [hget]

@[simp] theorem ofUtf8_utf8 (s : String) : ofUtf8 (utf8 s) = some s := by
  have hlist : s.toUTF8.toList = s.toUTF8.data.toList := by
    rw [ByteArray.toList, toList_loop _ _ 0 [] rfl]
    rfl
  have hbytes : (⟨(utf8 s).toArray⟩ : ByteArray) = s.toUTF8 := by rw [utf8, hlist]
  rw [ofUtf8, hbytes]
  exact dif_pos s.isValidUTF8

end Codec
