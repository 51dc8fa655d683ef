import KrabkaStreams.Stores.Schema

/-!
# What was put into a key comes out of it

The readers of the window and the session schema give back what the writers wrote, for every key and
all `i64` numbers, so composite keys are different where their parts are.
-/

namespace KrabkaStreams

open BigEndian

theorem getI64_putI64_append {x : Int} (h : IsI64 x) (rest : Bytes) : getI64 (putI64 x ++ rest) = x := by
  obtain ⟨hlo, hhi⟩ := h
  unfold getI64 putI64
  rw [List.take_left' (length_beIntBytes 8 x)]
  refine beInt_beIntBytes ?_ ?_
  · simp only [i64Min] at hlo
    omega
  · simp only [i64Max] at hhi
    omega

@[simp] theorem length_putI64 (x : Int) : (putI64 x).length = 8 := length_beIntBytes 8 x

theorem splitSuffix_append {n : Nat} (a : Bytes) {b : Bytes} (h : b.length = n) :
    splitSuffix n (a ++ b) = .ok (a, b) := by
  have hlen : (a ++ b).length - n = a.length := by
    rw [List.length_append]
    omega
  unfold splitSuffix
  rw [if_neg (by rw [List.length_append]; omega), hlen, List.take_left, List.drop_left]

theorem putI64_inj {x y : Int} (hx : IsI64 x) (hy : IsI64 y) (h : putI64 x = putI64 y) : x = y := by
  have hx' := getI64_putI64_append hx []
  rwa [h, getI64_putI64_append hy [], eq_comm] at hx'

def IsTime (t : Int) : Prop := 0 ≤ t ∧ t ≤ i64Max

theorem IsTime.isI64 {t : Int} (h : IsTime t) : IsI64 t := by
  obtain ⟨h0, h1⟩ := h
  simp only [IsI64, i64Min] at *
  omega

theorem putI64_lt_iff {x y : Int} (hx : IsTime x) (hy : IsTime y) : putI64 x < putI64 y ↔ x < y := by
  obtain ⟨hx0, hx1⟩ := hx
  obtain ⟨hy0, hy1⟩ := hy
  simp only [i64Max] at hx1 hy1
  exact beIntBytes_lt_iff hx0 (by norm_num; omega) hy0 (by norm_num; omega)

variable (kb : Bytes)

theorem windowStartOf_storeKey {ws : Int} (h : IsI64 ws) (seq : Nat) :
    windowStartOf (storeKey kb ws seq) = .ok ws := by
  unfold windowStartOf storeKey
  rw [splitSuffix_append kb (by simp)]
  exact congrArg Except.ok (getI64_putI64_append h _)

theorem keyBytesOf_storeKey (ws : Int) (seq : Nat) : keyBytesOf (storeKey kb ws seq) = .ok kb := by
  unfold keyBytesOf storeKey
  rw [splitSuffix_append kb (by simp)]
  rfl

theorem unwrapValue_wrapValue {ts : Int} (h : IsI64 ts) (raw : Bytes) :
    unwrapValue (wrapValue ts raw) = .ok (ts, raw) := by
  unfold unwrapValue wrapValue
  rw [if_neg (by simp), getI64_putI64_append h, List.drop_left' (length_putI64 ts)]

theorem sessionEndOf_sessionKey (start : Int) {stop : Int} (h : IsI64 stop) :
    sessionEndOf (sessionKey kb start stop) = .ok stop := by
  unfold sessionEndOf sessionKey
  rw [splitSuffix_append kb (by simp)]
  exact congrArg Except.ok (getI64_putI64_append h _)

theorem sessionStartOf_sessionKey {start : Int} (h : IsI64 start) (stop : Int) :
    sessionStartOf (sessionKey kb start stop) = .ok start := by
  unfold sessionStartOf sessionKey
  rw [splitSuffix_append kb (by simp)]
  show Except.ok (getI64 ((putI64 stop ++ putI64 start).drop 8)) = _
  rw [List.drop_left' (length_putI64 stop), ← List.append_nil (putI64 start), getI64_putI64_append h]

theorem sessionKeyBytesOf_sessionKey (start stop : Int) :
    sessionKeyBytesOf (sessionKey kb start stop) = .ok kb := by
  unfold sessionKeyBytesOf sessionKey
  rw [splitSuffix_append kb (by simp)]
  rfl

theorem storeKey_inj {kb kb' : Bytes} {ws ws' : Int} (h : IsI64 ws) (h' : IsI64 ws') {seq : Nat}
    (he : storeKey kb ws seq = storeKey kb' ws' seq) : kb = kb' ∧ ws = ws' := by
  have hk := congrArg keyBytesOf he
  have hw := congrArg windowStartOf he
  rw [keyBytesOf_storeKey, keyBytesOf_storeKey] at hk
  rw [windowStartOf_storeKey kb h, windowStartOf_storeKey kb' h'] at hw
  exact ⟨Except.ok.inj hk, Except.ok.inj hw⟩

theorem storeKey_inj_seq {kb kb' : Bytes} {ws ws' : Int} (h : IsI64 ws) (h' : IsI64 ws') {seq seq' : Nat}
    (hs : seq < 2 ^ 31) (hs' : seq' < 2 ^ 31) (he : storeKey kb ws seq = storeKey kb' ws' seq') :
    kb = kb' ∧ ws = ws' ∧ seq = seq' := by
  have hk := congrArg keyBytesOf he
  have hw := congrArg windowStartOf he
  rw [keyBytesOf_storeKey, keyBytesOf_storeKey] at hk
  rw [windowStartOf_storeKey kb h, windowStartOf_storeKey kb' h'] at hw
  obtain rfl : kb = kb' := Except.ok.inj hk
  obtain rfl : ws = ws' := Except.ok.inj hw
  have hb : beBytes 4 seq = beBytes 4 seq' :=
    List.append_cancel_left (List.append_cancel_left he)
  exact ⟨rfl, rfl, beBytes_inj (by omega) (by omega) hb⟩

theorem sessionKey_inj {kb kb' : Bytes} {start start' stop stop' : Int} (hs : IsI64 start)
    (hs' : IsI64 start') (ht : IsI64 stop) (ht' : IsI64 stop')
    (he : sessionKey kb start stop = sessionKey kb' start' stop') :
    kb = kb' ∧ start = start' ∧ stop = stop' := by
  have hk := congrArg sessionKeyBytesOf he
  have h1 := congrArg sessionStartOf he
  have h2 := congrArg sessionEndOf he
  rw [sessionKeyBytesOf_sessionKey, sessionKeyBytesOf_sessionKey] at hk
  rw [sessionStartOf_sessionKey kb hs, sessionStartOf_sessionKey kb' hs'] at h1
  rw [sessionEndOf_sessionKey kb start ht, sessionEndOf_sessionKey kb' start' ht'] at h2
  exact ⟨Except.ok.inj hk, Except.ok.inj h1, Except.ok.inj h2⟩

theorem storeKey_lt_bound_iff (a b : Int) {seq : Nat} (hs : seq < 2 ^ 31) :
    storeKey kb a seq < storeKey kb b 0 ↔ a % 2 ^ 64 < b % 2 ^ 64 := by
  have hseq : ¬ beBytes 4 seq < beBytes 4 0 := by
    rw [beBytes_lt_iff (by omega) (by omega)]
    omega
  have hts : putI64 a < putI64 b ↔ a % 2 ^ 64 < b % 2 ^ 64 := beIntBytes_lt_iff_emod a b
  unfold storeKey
  rw [append_lt_append_iff rfl, append_lt_append_iff (by simp), ← hts]
  constructor
  · rintro (h | ⟨-, h | ⟨-, h⟩⟩)
    · exact absurd h (lt_irrefl _)
    · exact h
    · exact absurd h hseq
  · exact fun h => .inr ⟨rfl, .inl h⟩

end KrabkaStreams
