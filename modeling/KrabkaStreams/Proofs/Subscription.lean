import KrabkaStreams.Lib.EncodedMap
import KrabkaStreams.Proofs.Schema
import KrabkaStreams.Stores.Subscription

/-!
# The subscription store as a table

What the messages encode they decode, a composite key gives its parts back, and the scan of a foreign
key finds exactly its subscribers (`Subscribes.rangeByForeign`).
-/

namespace KrabkaStreams

open BigEndian

theorem Instruction.fromByte_toByte (i : Instruction) : fromByte i.toByte = some i := by
  cases i <;> rfl

def IsHash (hash : Option Bytes) : Prop := ∀ h, hash = some h → h.length = 16

theorem readHash_append {version : UInt8} (hplain : version &&& hashNullFlag = 0)
    (hflag : (version ||| hashNullFlag) &&& hashNullFlag ≠ 0) {hash : Option Bytes} (h : IsHash hash)
    (rest : Bytes) : readHash (versionByte version hash) (hash.getD [] ++ rest) = .ok (hash, rest) := by
  unfold readHash versionByte
  cases hash with
  | none =>
    rw [Option.isNone_none, if_pos rfl, if_pos hflag]
    rfl
  | some b =>
    have hlen := h b rfl
    rw [if_neg (by simpa using hplain), if_neg (by simp [hlen])]
    simp [List.take_left' hlen, List.drop_left' hlen]

variable {w : SubscriptionWrapper} {fk : Bytes}

namespace SubscriptionWrapper

/-- The hash has its length, and the partition is an `i32`. -/
structure WellFormed (w : SubscriptionWrapper) : Prop where
  hash : IsHash w.hash
  lo : -(256 : Int) ^ 4 ≤ 2 * w.primaryPartition
  hi : 2 * w.primaryPartition < 256 ^ 4

theorem deserialize_serialize_of_hash (h : IsHash w.hash) :
    deserialize w.serialize = .ok { w with primaryPartition := beInt (beIntBytes 4 w.primaryPartition) } := by
  unfold deserialize serialize
  simp only [Instruction.fromByte_toByte]
  rw [readHash_append (by decide) (by decide) h]
  show (splitSuffix 4 (w.primaryKey ++ beIntBytes 4 w.primaryPartition) >>= _) = _
  rw [splitSuffix_append _ (length_beIntBytes 4 _)]
  rfl

theorem deserialize_serialize (h : w.WellFormed) : deserialize w.serialize = .ok w := by
  rw [deserialize_serialize_of_hash h.hash, beInt_beIntBytes h.lo h.hi]

theorem wellFormed_decoded (h : IsHash w.hash) :
    WellFormed { w with primaryPartition := beInt (beIntBytes 4 w.primaryPartition) } := by
  have hrange := beInt_range (beIntBytes 4 w.primaryPartition)
  exact ⟨h, hrange.1, hrange.2⟩

end SubscriptionWrapper

namespace SubscriptionResponseWrapper

theorem deserialize_serialize_of_hash {w : SubscriptionResponseWrapper} (h : IsHash w.hash) :
    deserialize w.serialize = .ok { w with foreignValue := w.foreignValue.filter (· ≠ []) } := by
  unfold deserialize serialize
  dsimp only
  rw [readHash_append (by decide) (by decide) h]
  obtain ⟨hash, _ | _ | ⟨b, fv⟩⟩ := w <;> rfl

theorem deserialize_serialize {w : SubscriptionResponseWrapper} (h : IsHash w.hash)
    (hne : w.foreignValue ≠ some []) : deserialize w.serialize = .ok w := by
  rw [deserialize_serialize_of_hash h]
  obtain ⟨hash, _ | fv⟩ := w
  · rfl
  · rw [Option.filter_some_pos (by simpa using hne)]

end SubscriptionResponseWrapper

/-- The two messages through their encodings: all comes back but an empty foreign value, which is encoded as
none is. -/
theorem messages_roundTrip {w w' : SubscriptionWrapper} {r r' : SubscriptionResponseWrapper}
    (hw : w.WellFormed) (hw' : w'.WellFormed) (hr : IsHash r.hash) (hr' : IsHash r'.hash) :
    SubscriptionWrapper.deserialize w.serialize = .ok w ∧ (w.serialize = w'.serialize → w = w') ∧
      (SubscriptionResponseWrapper.deserialize r.serialize = .ok r ↔ r.foreignValue ≠ some []) ∧
      (r.serialize = r'.serialize ↔ r.hash = r'.hash ∧ r.foreignValue.getD [] = r'.foreignValue.getD []) := by
  have hread := SubscriptionWrapper.deserialize_serialize hw
  have hreads := SubscriptionResponseWrapper.deserialize_serialize_of_hash hr
  refine ⟨hread, fun he => ?_, ⟨fun hok hempty => ?_, SubscriptionResponseWrapper.deserialize_serialize hr⟩,
    fun he => ?_, fun ⟨hhash, hvalue⟩ => ?_⟩
  · rw [he, SubscriptionWrapper.deserialize_serialize hw'] at hread
    exact (Except.ok.inj hread).symm
  · rw [hreads] at hok
    have hvalue := congrArg SubscriptionResponseWrapper.foreignValue (Except.ok.inj hok)
    rw [hempty] at hvalue
    cases hvalue
  · rw [he, SubscriptionResponseWrapper.deserialize_serialize_of_hash hr'] at hreads
    have hpair := SubscriptionResponseWrapper.mk.inj (Except.ok.inj hreads)
    have hgetD : ∀ o : Option Bytes, o.getD [] = (o.filter (· ≠ [])).getD [] := by
      rintro (_ | _ | ⟨b, v⟩) <;> rfl
    exact ⟨hpair.1.symm, by rw [hgetD r.foreignValue, hgetD r'.foreignValue, hpair.2]⟩
  · unfold SubscriptionResponseWrapper.serialize
    rw [hhash, hvalue]

theorem messages_roundTrip_empty :
    let w : SubscriptionWrapper := ⟨.deleteKeyNoPropagate, none, [], -1⟩
    let r : SubscriptionResponseWrapper := ⟨none, some [7]⟩
    SubscriptionWrapper.deserialize w.serialize = .ok w ∧ SubscriptionResponseWrapper.deserialize r.serialize = .ok r := by
  have hw : SubscriptionWrapper.WellFormed ⟨.deleteKeyNoPropagate, none, [], -1⟩ := ⟨nofun, by simp, by simp⟩
  have hr : IsHash (SubscriptionResponseWrapper.hash ⟨none, some [7]⟩) := nofun
  have h := messages_roundTrip hw hw hr hr
  exact ⟨h.1, h.2.2.1.mpr (by simp)⟩

theorem not_roundTrips_empty :
    SubscriptionResponseWrapper.deserialize (SubscriptionResponseWrapper.serialize ⟨none, some []⟩)
      ≠ .ok ⟨none, some []⟩ := by
  decide

def subscriptionKey (fk pk : Bytes) : Bytes := beBytes 4 fk.length ++ fk ++ pk

theorem foreignPrefix_eq (h : fk.length < 2 ^ 31) : foreignPrefix fk = .ok (beBytes 4 fk.length ++ fk) :=
  if_pos (by omega)

theorem combinedKey_eq (h : fk.length < 2 ^ 31) (pk : Bytes) :
    combinedKey fk pk = .ok (subscriptionKey fk pk) := by
  unfold combinedKey
  rw [foreignPrefix_eq h]
  rfl

theorem splitCombinedKey_subscriptionKey (h : fk.length < 2 ^ 31) (pk : Bytes) :
    splitCombinedKey (subscriptionKey fk pk) = .ok (fk, pk) := by
  have htake : (subscriptionKey fk pk).take 4 = beBytes 4 fk.length := by
    unfold subscriptionKey
    rw [List.append_assoc, List.take_left' (length_beBytes 4 _)]
  have hdrop : (subscriptionKey fk pk).drop 4 = fk ++ pk := by
    unfold subscriptionKey
    rw [List.append_assoc, List.drop_left' (length_beBytes 4 _)]
  have hlen : beNat (beBytes 4 fk.length) = fk.length := beNat_beBytes (by omega)
  have hsize : (subscriptionKey fk pk).length = 4 + fk.length + pk.length := by
    simp [subscriptionKey, add_assoc]
  unfold splitCombinedKey
  rw [htake, hdrop, hlen, if_neg (by omega), List.take_left, List.drop_left]

theorem subscriptionKey_inj {fk fk' pk pk' : Bytes} (h : fk.length < 2 ^ 31) (h' : fk'.length < 2 ^ 31)
    (he : subscriptionKey fk pk = subscriptionKey fk' pk') : fk = fk' ∧ pk = pk' := by
  have hs := splitCombinedKey_subscriptionKey h pk
  rw [he, splitCombinedKey_subscriptionKey h' pk'] at hs
  have hpair := Except.ok.inj hs
  exact ⟨(congrArg Prod.fst hpair).symm, (congrArg Prod.snd hpair).symm⟩

theorem subscriptionKey_mem_range (h : fk.length < 2 ^ 31) (pk : Bytes) :
    beBytes 4 fk.length ++ fk ≤ subscriptionKey fk pk ∧
      subscriptionKey fk pk < PrefixRange.upper (beBytes 4 fk.length ++ fk) := by
  refine PrefixRange.mem_range ⟨UInt8.ofNat (fk.length / 256 / 256 / 256 % 256), ?_, fun he => ?_⟩ pk
  · simp [beBytes]
  · have hn : fk.length / 256 / 256 / 256 % 256 = 255 := by
      have := congrArg UInt8.toNat he
      rwa [toNat_ofNat_mod] at this
    omega

def subscriptionEncoding : SortedMap.Encoding Bytes Bytes (Bytes × Bytes) (Int × SubscriptionWrapper) where
  index i := i.1.length < 2 ^ 31
  value e := e.2.WellFormed
  key i := subscriptionKey i.1 i.2
  val e := wrapValue e.1 e.2.serialize
  inj h h' he := Prod.ext (subscriptionKey_inj h h' he).1 (subscriptionKey_inj h h' he).2

namespace SubscriptionBytesStore

variable {s : SubscriptionBytesStore} {g : Bytes × Bytes → Option (Int × SubscriptionWrapper)} {fk : Bytes}

theorem decode_wrapValue (ts : Int) (h : w.WellFormed) : decode (wrapValue ts w.serialize) = .ok w := by
  unfold decode unwrapValue wrapValue
  rw [if_neg (by simp), List.drop_left' (length_putI64 ts)]
  exact SubscriptionWrapper.deserialize_serialize h

theorem record_backend (s : SubscriptionBytesStore) (key : Bytes) (value : Option Bytes) :
    (s.record key value).backend = s.backend := by
  unfold record
  split <;> rfl

/-- The subscriptions in the store: the time and the wrapper of each pair of a foreign and a primary
key. -/
def Subscribes (s : SubscriptionBytesStore) (g : Bytes × Bytes → Option (Int × SubscriptionWrapper)) : Prop :=
  SortedMap.Holds subscriptionEncoding s.backend g

theorem Subscribes.inMemory : SubscriptionBytesStore.inMemory.Subscribes fun _ => none := .empty _

theorem Subscribes.put (h : s.Subscribes g) (hfk : fk.length < 2 ^ 31) (pk : Bytes) (hw : w.WellFormed)
    (ts : Int) :
    ∃ s', s.put fk pk w ts = .ok s' ∧ s'.Subscribes (Function.update g (fk, pk) (some (ts, w))) := by
  unfold SubscriptionBytesStore.put
  rw [combinedKey_eq hfk]
  refine ⟨_, rfl, ?_⟩
  unfold Subscribes
  rw [record_backend]
  exact SortedMap.Holds.insert h (i := (fk, pk)) hfk (b := (ts, w)) hw

theorem Subscribes.delete (h : s.Subscribes g) (hfk : fk.length < 2 ^ 31) (pk : Bytes) :
    ∃ prev s', s.delete fk pk = .ok (prev, s') ∧ s'.Subscribes (Function.update g (fk, pk) none) := by
  have hget : s.backend.get? (subscriptionKey fk pk) = _ := h.at_key (i := (fk, pk)) hfk
  unfold SubscriptionBytesStore.delete
  rw [combinedKey_eq hfk]
  have herase : ({ s with backend := s.backend.erase (subscriptionKey fk pk) }.record (subscriptionKey fk pk)
      none).Subscribes (Function.update g (fk, pk) none) := by
    unfold Subscribes
    rw [record_backend]
    exact SortedMap.Holds.erase h (i := (fk, pk)) hfk
  rcases hg : g (fk, pk) with _ | ⟨ts, w⟩ <;> rw [hg] at hget
  · refine ⟨none, _, ?_, herase⟩
    simp only [bind, Except.bind, hget, Option.map_none]
    rfl
  · refine ⟨some w, _, ?_, herase⟩
    have hraw : s.backend.get? (subscriptionKey fk pk) = some (wrapValue ts w.serialize) := hget
    simp only [bind, Except.bind, hraw, decode_wrapValue ts (h.valid hg).2]
    rfl

theorem subscribersAmong_map : ∀ (es : List ((Bytes × Bytes) × (Int × SubscriptionWrapper))),
    (∀ e ∈ es, e.1.1.length < 2 ^ 31 ∧ e.2.2.WellFormed) →
      subscribersAmong fk (es.map subscriptionEncoding.entry)
        = .ok ((es.filter fun e => e.1.1 = fk).map fun e => (e.1.2, e.2.2))
  | [], _ => rfl
  | e :: es, h => by
    obtain ⟨hlen, hw⟩ := h e List.mem_cons_self
    have ih := subscribersAmong_map es fun e' he' => h e' (List.mem_cons_of_mem _ he')
    show (splitCombinedKey (subscriptionKey e.1.1 e.1.2) >>= _) = _
    rw [splitCombinedKey_subscriptionKey hlen]
    show (if e.1.1 ≠ fk then subscribersAmong fk (es.map subscriptionEncoding.entry) else _) = _
    by_cases hfk : e.1.1 = fk
    · rw [if_neg (not_not.mpr hfk), List.filter_cons_of_pos (by simpa using hfk)]
      show (decode (wrapValue e.2.1 e.2.2.serialize) >>= _) = _
      rw [decode_wrapValue _ hw]
      rw [ih]
      rfl
    · rw [if_pos hfk, List.filter_cons_of_neg (by simpa using hfk), ih]

theorem Subscribes.rangeByForeign (h : s.Subscribes g) (hfk : fk.length < 2 ^ 31) :
    ∃ l, s.rangeByForeign fk = .ok l ∧ (∀ pk w, (pk, w) ∈ l ↔ ∃ ts, g (fk, pk) = some (ts, w)) ∧
      l.Pairwise fun a b => a.1 < b.1 := by
  obtain ⟨es, hrange, hmem, hsorted⟩ := SortedMap.Holds.range h (beBytes 4 fk.length ++ fk)
    (PrefixRange.upper (beBytes 4 fk.length ++ fk))
  have hvalid : ∀ e ∈ es, e.1.1.length < 2 ^ 31 ∧ e.2.2.WellFormed := fun e he =>
    h.valid ((hmem e).mp he).1
  refine ⟨(es.filter fun e => e.1.1 = fk).map fun e => (e.1.2, e.2.2), ?_, fun pk w => ?_, ?_⟩
  · unfold SubscriptionBytesStore.rangeByForeign rangeUpper
    rw [foreignPrefix_eq hfk]
    show subscribersAmong fk (s.backend.range _ _) = _
    rw [hrange]
    exact subscribersAmong_map es hvalid
  · rw [List.mem_map]
    constructor
    · rintro ⟨e, he, heq⟩
      obtain ⟨hes, hkey⟩ := List.mem_filter.mp he
      obtain rfl : e.1.1 = fk := of_decide_eq_true hkey
      obtain ⟨rfl, rfl⟩ := Prod.mk.inj heq
      exact ⟨e.2.1, ((hmem e).mp hes).1⟩
    · rintro ⟨ts, hg⟩
      refine ⟨((fk, pk), (ts, w)), List.mem_filter.mpr ⟨(hmem _).mpr ⟨hg, ?_⟩, decide_eq_true rfl⟩, rfl⟩
      exact subscriptionKey_mem_range hfk pk
  · rw [List.pairwise_map]
    refine (hsorted.filter _).imp_of_mem fun {a b} ha hb hlt => ?_
    have hka : a.1.1 = fk := of_decide_eq_true (List.mem_filter.mp ha).2
    have hkb : b.1.1 = fk := of_decide_eq_true (List.mem_filter.mp hb).2
    have hlt' : subscriptionKey a.1.1 a.1.2 < subscriptionKey b.1.1 b.1.2 := hlt
    unfold subscriptionKey at hlt'
    rw [hka, hkb, append_lt_append_iff rfl] at hlt'
    rcases hlt' with hlt' | ⟨-, hlt'⟩
    · exact absurd hlt' (lt_irrefl _)
    · exact hlt'

structure Write.WellFormed (o : Write) : Prop where
  fk : o.fk.length < 2 ^ 31
  wrapper : ∀ e ∈ o.entry, e.2.WellFormed

theorem Subscribes.write (h : s.Subscribes g) {o : Write} (ho : o.WellFormed) :
    ∃ s', s.write o = .ok s' ∧ s'.Subscribes (Function.update g (o.fk, o.pk) o.entry) := by
  unfold SubscriptionBytesStore.write
  rcases hentry : o.entry with _ | ⟨ts, w⟩
  · obtain ⟨prev, s', hdel, hs'⟩ := h.delete ho.fk o.pk
    refine ⟨s', ?_, hs'⟩
    rw [hdel]
    rfl
  · exact h.put ho.fk o.pk (ho.wrapper _ hentry) ts

theorem subscribes_writes {ops : List Write} (hops : ∀ o ∈ ops, o.WellFormed) :
    ∃ s g, ops.foldlM write inMemory = .ok s ∧ s.Subscribes g ∧
      ∀ fk pk, (g (fk, pk)).map (·.2) = live ops fk pk := by
  induction ops using List.reverseRecOn with
  | nil => exact ⟨inMemory, _, rfl, .inMemory, fun _ _ => rfl⟩
  | append_singleton ops o ih =>
    obtain ⟨s, g, hrun, hs, hlive⟩ := ih fun o' ho' => hops o' (List.mem_append_left _ ho')
    obtain ⟨s', hw, hs'⟩ := hs.write (hops o (by simp))
    refine ⟨s', _, ?_, hs', fun fk pk => ?_⟩
    · rw [List.foldlM_append, hrun]
      show (s.write o >>= pure) = _
      rw [hw]
      rfl
    · unfold live at hlive ⊢
      by_cases hkey : o.fk = fk ∧ o.pk = pk
      · rw [List.filter_append, List.filter_cons_of_pos (by simpa using hkey), ← hkey.1, ← hkey.2]
        simp
      · rw [List.filter_append, List.filter_cons_of_neg (by simpa using hkey), Function.update_of_ne, hlive]
        · simp
        · exact fun he => hkey ⟨(congrArg Prod.fst he).symm, (congrArg Prod.snd he).symm⟩

/-- After any writes, the scan of a foreign key returns what is live under it, each primary key once and
in order. -/
theorem rangeByForeign_writes {ops : List Write} (hops : ∀ o ∈ ops, o.WellFormed) (hfk : fk.length < 2 ^ 31) :
    ∃ s l, ops.foldlM write inMemory = .ok s ∧ s.rangeByForeign fk = .ok l ∧
      (∀ pk w, (pk, w) ∈ l ↔ live ops fk pk = some w) ∧ l.Pairwise fun a b => a.1 < b.1 := by
  obtain ⟨s, g, hrun, hs, hlive⟩ := subscribes_writes hops
  obtain ⟨l, hl, hmem, hsorted⟩ := hs.rangeByForeign hfk
  refine ⟨s, l, hrun, hl, fun pk w => ?_, hsorted⟩
  rw [hmem, ← hlive, Option.map_eq_some_iff]
  exact ⟨fun ⟨ts, h⟩ => ⟨(ts, w), h, rfl⟩, fun ⟨⟨ts, _⟩, h, hw⟩ => ⟨ts, hw ▸ h⟩⟩

theorem rangeByForeign_allOnes :
    let w (pk : Bytes) : SubscriptionWrapper := ⟨.propagateOnlyIfFkValAvailable, none, pk, 0⟩
    let ops : List Write := [⟨[0xff], [2], some (7, w [2])⟩, ⟨[0xff], [], some (8, w [])⟩,
      ⟨[0xff, 0xff], [1], some (9, w [1])⟩, ⟨[0xff], [2], none⟩]
    ∃ s l, ops.foldlM write inMemory = .ok s ∧ s.rangeByForeign [0xff] = .ok l ∧
      (∀ pk w, (pk, w) ∈ l ↔ live ops [0xff] pk = some w) ∧ l.Pairwise fun a b => a.1 < b.1 := by
  refine rangeByForeign_writes (fun o ho => ?_) (by decide)
  have hw (pk : Bytes) : SubscriptionWrapper.WellFormed ⟨.propagateOnlyIfFkValAvailable, none, pk, 0⟩ :=
    ⟨nofun, by simp, by simp⟩
  simp only [List.mem_cons, List.not_mem_nil, or_false] at ho
  rcases ho with rfl | rfl | rfl | rfl <;> refine ⟨by simp, ?_⟩ <;> simp [hw]

end SubscriptionBytesStore

end KrabkaStreams
