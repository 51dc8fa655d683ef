import KrabkaStreams.Dsl.StreamJoinSemantics
import KrabkaStreams.Proofs.JoinWindow
import KrabkaStreams.Proofs.WindowRuns

/-!
# The inner join forwards every pair once

A record meets the earlier ones of the other side that its fetch scans: all its partners but those at
the last `i64` (`meets`).
-/

namespace KrabkaStreams

open Lists Runs

variable {K A B VO : Type} (x : JoinRecord K A B)

namespace JoinRecord

def toLeft : JoinRecord K A B → Option (JoinPut K A)
  | left k a t => some ⟨k, t, a⟩
  | right .. => none

def toRight : JoinRecord K A B → Option (JoinPut K B)
  | left .. => none
  | right k b t => some ⟨k, t, b⟩

def Timely : Prop := IsTime x.timestamp

instance: Decidable x.Timely := instDecidableAnd

theorem mem_filterMap_toLeft {xs : List (JoinRecord K A B)} {p : JoinPut K A}
    (h : p ∈ xs.filterMap toLeft) : left p.key p.value p.timestamp ∈ xs := by
  obtain ⟨x, hx, hp⟩ := List.mem_filterMap.mp h
  cases x with
  | left k a t =>
    cases hp
    exact hx
  | right => cases hp

theorem mem_filterMap_toRight {xs : List (JoinRecord K A B)} {p : JoinPut K B}
    (h : p ∈ xs.filterMap toRight) : right p.key p.value p.timestamp ∈ xs := by
  obtain ⟨x, hx, hp⟩ := List.mem_filterMap.mp h
  cases x with
  | left => cases hp
  | right k b t =>
    cases hp
    exact hx

end JoinRecord

namespace StreamJoin

open JoinRecord

variable {j : StreamJoin K A B VO} {xs : List (JoinRecord K A B)} {s : State K A B}

structure Holds (j : StreamJoin K A B VO) (xs : List (JoinRecord K A B)) (s : State K A B) : Prop where
  left : s.left = j.start.left.putAll (xs.filterMap toLeft)
  right : s.right = j.start.right.putAll (xs.filterMap toRight)

theorem Holds.start (j : StreamJoin K A B VO) : Holds j [] j.start := ⟨rfl, rfl⟩

theorem Holds.snoc_left (h : Holds j xs s) (k : K) (a : A) (t : Int) (buffer : OuterBuffer) :
    Holds j (xs ++ [JoinRecord.left k a t]) { s with left := s.left.put k t a, buffer := buffer } where
  left := by
    rw [List.filterMap_append, h.left]
    exact (JoinWindowBytesStore.putAll_snoc _ _ (⟨k, t, a⟩ : JoinPut K A)).symm
  right := by
    rw [List.filterMap_append, h.right]
    exact congrArg _ (List.append_nil _).symm

theorem Holds.snoc_right (h : Holds j xs s) (k : K) (b : B) (t : Int) (buffer : OuterBuffer) :
    Holds j (xs ++ [JoinRecord.right k b t]) { s with right := s.right.put k t b, buffer := buffer } where
  left := by
    rw [List.filterMap_append, h.left]
    exact congrArg _ (List.append_nil _).symm
  right := by
    rw [List.filterMap_append, h.right]
    exact (JoinWindowBytesStore.putAll_snoc _ _ (⟨k, t, b⟩ : JoinPut K B)).symm

def meets (j : StreamJoin K A B VO) (x y : JoinRecord K A B) : Option (Record K VO) :=
  if x.timestamp + j.reach x.isLeft = i64Max ∧ y.timestamp = i64Max then none else j.partner x y

theorem process_inner {VThis VOther : Type} {p : KStreamKStreamJoinProcessor K VThis VOther VO}
    (hp : p.outer = none) {own : JoinWindowBytesStore K VThis} {other : JoinWindowBytesStore K VOther}
    {buffer : OuterBuffer} {k : K} {v : VThis} {t : Int} (hfrom : IsI64 (t - p.fetchBefore))
    (hto : IsI64 (t + p.fetchAfter)) {found : List (Int × VOther)}
    (hfound : other.fetch k (t - p.fetchBefore) (t + p.fetchAfter) = .ok found) :
    p.process own other buffer ⟨some k, v, t⟩ = .ok ((own.put k t v, buffer),
      found.map fun m => ⟨some k, p.joiner v (some m.2), max t m.1⟩) := by
  unfold KStreamKStreamJoinProcessor.process
  simp only [checkedI64_eq_ok.mpr ⟨hfrom, rfl⟩, checkedI64_eq_ok.mpr ⟨hto, rfl⟩, hfound, hp, bind,
    Except.bind, pure, Except.pure]

theorem process_error {VThis VOther : Type} {p : KStreamKStreamJoinProcessor K VThis VOther VO}
    {own : JoinWindowBytesStore K VThis} {other : JoinWindowBytesStore K VOther} {buffer : OuterBuffer}
    {k : K} {v : VThis} {t : Int} (hto : ¬ IsI64 (t + p.fetchAfter))
    {r : (JoinWindowBytesStore K VThis × OuterBuffer) × List (Record K VO)} :
    p.process own other buffer ⟨some k, v, t⟩ ≠ .ok r := by
  intro h
  obtain ⟨a, -, h⟩ := bind_eq_ok.mp h
  obtain ⟨b, hb, -⟩ := bind_eq_ok.mp h
  exact hto (checkedI64_eq_ok.mp hb).1

theorem filterMap_meets_left (k : K) (a : A) (t : Int) (xs : List (JoinRecord K A B)) :
    (((xs.filterMap toRight).filter fun p =>
        j.start.right.keyBytes p.key = j.start.right.keyBytes k ∧ t - j.windows.before ≤ p.timestamp ∧
          p.timestamp ≤ t + j.windows.after ∧
            (t + j.windows.after = i64Max → p.timestamp ≠ i64Max)).map fun p => (p.timestamp, p.value)).map
        (fun m => ⟨some k, j.joiner (some a) (some m.2), max t m.1⟩)
      = xs.filterMap (j.meets (.left k a t)) := by
  rw [List.map_map]
  refine map_filter_filterMap (fun y => ?_) xs
  cases y with
  | left => simp [meets, partner, toRight]
  | right k' b t' =>
    simp only [meets, partner, JoinWindows.Pairs, timestamp, isLeft, reach, if_true, toRight,
      Option.bind_some, decide_eq_true_eq]
    by_cases hmax : t + j.windows.after = i64Max ∧ t' = i64Max
    · rw [if_pos hmax, if_neg fun h => h.2.2.2 hmax.1 hmax.2]
    · rw [if_neg hmax]
      refine if_congr (and_congr_right fun _ => ?_) rfl rfl
      constructor
      · exact fun h => ⟨by omega, by omega, fun h1 h2 => hmax ⟨h1, h2⟩⟩
      · exact fun h => ⟨by omega, by omega⟩

theorem filterMap_meets_right (k : K) (b : B) (t : Int) (xs : List (JoinRecord K A B)) :
    (((xs.filterMap toLeft).filter fun p =>
        j.start.left.keyBytes p.key = j.start.left.keyBytes k ∧ t - j.windows.after ≤ p.timestamp ∧
          p.timestamp ≤ t + j.windows.before ∧
            (t + j.windows.before = i64Max → p.timestamp ≠ i64Max)).map fun p => (p.timestamp, p.value)).map
        (fun m => ⟨some k, j.joiner (some m.2) (some b), max t m.1⟩)
      = xs.filterMap (j.meets (.right k b t)) := by
  rw [List.map_map]
  refine map_filter_filterMap (fun y => ?_) xs
  cases y with
  | right => simp [meets, partner, toLeft]
  | left k' a t' =>
    simp only [meets, partner, JoinWindows.Pairs, timestamp, isLeft, reach, Bool.false_eq_true, if_false,
      toLeft, Option.bind_some, decide_eq_true_eq]
    by_cases hmax : t + j.windows.before = i64Max ∧ t' = i64Max
    · rw [if_pos hmax, if_neg fun h => h.2.2.2 hmax.1 hmax.2]
    · rw [if_neg hmax]
      refine if_congr (and_congr_right fun _ => ?_) rfl rfl
      constructor
      · exact fun h => ⟨by omega, by omega, fun h1 h2 => hmax ⟨h1, h2⟩⟩
      · exact fun h => ⟨by omega, by omega⟩

/-- The stores hold fewer puts than the sequence numbers distinguish, with timestamps from zero on. -/
structure Numbered (xs : List (JoinRecord K A B)) : Prop where
  timely : ∀ x ∈ xs, x.Timely
  lefts : (xs.filterMap toLeft).length < 2 ^ 31
  rights : (xs.filterMap toRight).length < 2 ^ 31

theorem Numbered.init {x : JoinRecord K A B} (h : Numbered (xs ++ [x])) : Numbered xs where
  timely y hy := h.timely y (List.mem_append_left _ hy)
  lefts := lt_of_le_of_lt (List.Sublist.filterMap toLeft (List.sublist_append_left xs [x])).length_le h.lefts
  rights :=
    lt_of_le_of_lt (List.Sublist.filterMap toRight (List.sublist_append_left xs [x])).length_le h.rights

section Inner

variable (hkind : j.kind = .inner) (hl : j.leftSerde.Lawful) (hr : j.rightSerde.Lawful)

include hkind in
theorem outerSide_inner {V : Type} (serde : Serde V) : j.outerSide serde = none := by
  rw [outerSide, hkind]
  rfl

theorem JoinWindows.isI64_sub {w t : Int} (hw : 0 ≤ w) (hle : w ≤ i64Max) (ht : IsTime t) : IsI64 (t - w) := by
  simp only [IsTime, IsI64, i64Max, i64Min] at *
  omega

theorem JoinWindows.isI64_add {w t : Int} (hw : 0 ≤ w) (ht : IsTime t) :
    IsI64 (t + w) ↔ t + w ≤ i64Max := by
  simp only [IsTime, IsI64, i64Max, i64Min] at *
  omega

include hkind hl hr in
theorem step_inner {x : JoinRecord K A B} (h : Holds j xs s) (hnum : Numbered xs) (hx : x.Timely)
    (hfit : x.timestamp + j.reach x.isLeft ≤ i64Max) :
    ∃ s' out, j.step s x = .ok (s', out) ∧ Holds j (xs ++ [x]) s' ∧
      out.Perm (xs.filterMap (j.meets x)) := by
  cases x with
  | left k a t =>
    have hfrom := JoinWindows.isI64_sub j.windows.before_nonneg j.windows.before_le hx
    have hto := (JoinWindows.isI64_add j.windows.after_nonneg hx).mpr hfit
    have h0 : -1 ≤ t + j.windows.after := by
      have := j.windows.after_nonneg
      have := hx.1
      simp only [timestamp] at this
      omega
    obtain ⟨found, hfound, hperm⟩ := JoinWindowBytesStore.fetch_putAll (s := j.start.right) hr rfl rfl
      hnum.rights (fun p hp => hnum.timely _ (mem_filterMap_toRight hp)) k hfrom hto h0
    rw [← h.right] at hfound
    have hstep : j.joinThis.process s.left s.right s.buffer ⟨some k, a, t⟩ = _ :=
      process_inner (outerSide_inner hkind _) hfrom hto hfound
    exact ⟨_, _, bind_eq_ok.mpr ⟨_, hstep, rfl⟩, h.snoc_left k a t s.buffer,
      (hperm.map _).trans (.of_eq (filterMap_meets_left k a t xs))⟩
  | right k b t =>
    have hfrom := JoinWindows.isI64_sub j.windows.after_nonneg j.windows.after_le hx
    have hto := (JoinWindows.isI64_add j.windows.before_nonneg hx).mpr hfit
    have h0 : -1 ≤ t + j.windows.before := by
      have := j.windows.before_nonneg
      have := hx.1
      simp only [timestamp] at this
      omega
    obtain ⟨found, hfound, hperm⟩ := JoinWindowBytesStore.fetch_putAll (s := j.start.left) hl rfl rfl
      hnum.lefts (fun p hp => hnum.timely _ (mem_filterMap_toLeft hp)) k hfrom hto h0
    rw [← h.left] at hfound
    have hstep : j.joinOther.process s.right s.left s.buffer ⟨some k, b, t⟩ = _ :=
      process_inner (outerSide_inner hkind _) hfrom hto hfound
    exact ⟨_, _, bind_eq_ok.mpr ⟨_, hstep, rfl⟩, h.snoc_right k b t s.buffer,
      (hperm.map _).trans (.of_eq (filterMap_meets_right k b t xs))⟩

theorem le_of_step_ok {x : JoinRecord K A B} {r : State K A B × List (Record K VO)} (hx : x.Timely)
    (h : j.step s x = .ok r) : x.timestamp + j.reach x.isLeft ≤ i64Max := by
  by_contra hgt
  cases x with
  | left k a t =>
    obtain ⟨q, hq, -⟩ := bind_eq_ok.mp h
    exact process_error (fun hto => hgt ((JoinWindows.isI64_add j.windows.after_nonneg hx).mp hto)) hq
  | right k b t =>
    obtain ⟨q, hq, -⟩ := bind_eq_ok.mp h
    exact process_error (fun hto => hgt ((JoinWindows.isI64_add j.windows.before_nonneg hx).mp hto)) hq

end Inner

def misses (j : StreamJoin K A B VO) (x y : JoinRecord K A B) : Option (Record K VO) :=
  if x.timestamp + j.reach x.isLeft = i64Max ∧ y.timestamp = i64Max then j.partner x y else none

theorem meets_append_misses_perm (xs : List (JoinRecord K A B)) :
    (xs.filterMap (j.meets x) ++ xs.filterMap (j.misses x)).Perm (xs.filterMap (j.partner x)) :=
  filterMap_split_perm (fun y : JoinRecord K A B =>
    x.timestamp + j.reach x.isLeft = i64Max ∧ y.timestamp = i64Max) (j.partner x) xs

theorem filterMap_misses_eq_nil_iff {x : JoinRecord K A B} :
    xs.filterMap (j.misses x) = [] ↔ (x.timestamp + j.reach x.isLeft = i64Max →
      ∀ y ∈ xs, y.timestamp = i64Max → j.partner x y = none) := by
  rw [List.filterMap_eq_nil_iff]
  constructor
  · intro h hreach y hy hmax
    have hmiss := h y hy
    rwa [misses, if_pos ⟨hreach, hmax⟩] at hmiss
  · intro h y hy
    rw [misses]
    split
    · rename_i hc
      exact h hc.1 y hy hc.2
    · rfl

theorem pairsFrom_snoc (x : JoinRecord K A B) :
    ∀ earlier xs, j.pairsFrom earlier (xs ++ [x])
      = j.pairsFrom earlier xs ++ (earlier ++ xs).filterMap (j.partner x)
  | earlier, [] => by simp [pairsFrom]
  | earlier, y :: xs => by
    rw [List.cons_append, pairsFrom, pairsFrom, pairsFrom_snoc x (earlier ++ [y]) xs, List.append_assoc,
      List.append_assoc, List.singleton_append]

theorem pairs_snoc (xs : List (JoinRecord K A B)) (x : JoinRecord K A B) :
    j.pairs (xs ++ [x]) = j.pairs xs ++ xs.filterMap (j.partner x) := by
  rw [pairs, pairsFrom_snoc, List.nil_append, ← pairs]

theorem endsBefore_snoc {x : JoinRecord K A B} :
    j.EndsBefore (xs ++ [x]) ↔ j.EndsBefore xs ∧ x.timestamp + j.reach x.isLeft ≤ i64Max ∧
      xs.filterMap (j.misses x) = [] := by
  rw [filterMap_misses_eq_nil_iff]
  constructor
  · intro h
    refine ⟨fun pre y post he => h pre y (post ++ [x]) ?_, h xs x [] rfl⟩
    rw [he, List.append_assoc, List.cons_append]
  · rintro ⟨hxs, hx⟩ pre y post he
    rcases List.eq_nil_or_concat post with rfl | ⟨post, z, rfl⟩
    · obtain ⟨rfl, hy⟩ := List.append_inj' he rfl
      cases hy
      exact hx
    · have he' : xs ++ [x] = (pre ++ y :: post) ++ [z] := by rw [he]; simp
      exact hxs pre y post (List.append_inj' he' rfl).1

theorem endsBefore_of_lt (h : ∀ x ∈ xs, x.timestamp + j.reach x.isLeft < i64Max) : j.EndsBefore xs := by
  rintro pre x post rfl
  have hx := h x (by simp)
  exact ⟨hx.le, fun he => absurd he hx.ne⟩

section Inner

variable (hkind : j.kind = .inner) (hl : j.leftSerde.Lawful) (hr : j.rightSerde.Lawful)

include hkind hl hr in
theorem run_inner_cover {outs : List (List (Record K VO))} (hnum : Numbered xs) (h : j.run xs = .ok (s, outs)) :
    Holds j xs s ∧ ∃ missed, (outs.flatten ++ missed).Perm (j.pairs xs) ∧
      (missed = [] ↔ j.EndsBefore xs) := by
  induction xs using List.reverseRecOn generalizing s outs with
  | nil =>
    cases h
    exact ⟨.start j, [], .nil, by simp [EndsBefore]⟩
  | append_singleton xs x ih =>
    obtain ⟨s₀, os, o, hrun, hstep, rfl⟩ := run_snoc.mp h
    obtain ⟨hholds, missed, hperm, hmissed⟩ := ih hnum.init hrun
    have hx : x.Timely := hnum.timely x (by simp)
    have hfit := le_of_step_ok hx hstep
    obtain ⟨s', out, hstep', hholds', hmeets⟩ := step_inner hkind hl hr hholds hnum.init hx hfit
    cases hstep'.symm.trans hstep
    refine ⟨hholds', missed ++ xs.filterMap (j.misses x), ?_, ?_⟩
    · rw [pairs_snoc, List.flatten_append, List.flatten_singleton]
      calc (os.flatten ++ o ++ (missed ++ xs.filterMap (j.misses x))).Perm
            (os.flatten ++ missed ++ (o ++ xs.filterMap (j.misses x))) := by
              simp only [List.append_assoc]
              refine List.Perm.append_left _ ?_
              simp only [← List.append_assoc]
              exact List.perm_append_comm.append_right _
        List.Perm _ (j.pairs xs ++ xs.filterMap (j.partner x)) :=
          hperm.append ((hmeets.append_right _).trans (meets_append_misses_perm x xs))
    · rw [endsBefore_snoc, List.append_eq_nil_iff, hmissed]
      exact and_congr_right fun _ => (and_iff_right hfit).symm

include hkind hl hr in
theorem run_inner_returns (hnum : Numbered xs) (hends : j.EndsBefore xs) : ∃ r, j.run xs = .ok r := by
  induction xs using List.reverseRecOn with
  | nil => exact ⟨_, rfl⟩
  | append_singleton xs x ih =>
    obtain ⟨hxs, hfit, -⟩ := endsBefore_snoc.mp hends
    obtain ⟨⟨s, os⟩, hrun⟩ := ih hnum.init hxs
    obtain ⟨s', out, hstep, -⟩ := step_inner hkind hl hr (run_inner_cover hkind hl hr hnum.init hrun).1
      hnum.init (hnum.timely x (by simp)) hfit
    exact ⟨_, run_snoc.mpr ⟨s, os, out, hrun, hstep, rfl⟩⟩

end Inner

/-- An inner join forwards every pair once, exactly when no window has to reach past the last `i64` and
none misses a partner there. -/
theorem joinsExactly_iff_endsBefore (j : StreamJoin K A B VO) (hkind : j.kind = .inner)
    (hl : j.leftSerde.Lawful) (hr : j.rightSerde.Lawful) (xs : List (JoinRecord K A B))
    (hnum : Numbered xs) : j.JoinsExactly xs ↔ j.EndsBefore xs := by
  constructor
  · rintro ⟨s, outs, hrun, hperm⟩
    obtain ⟨-, missed, hcover, hmissed⟩ := run_inner_cover hkind hl hr hnum hrun
    have hlen := hcover.length_eq
    rw [List.length_append, hperm.length_eq] at hlen
    exact hmissed.mp (List.eq_nil_of_length_eq_zero (by omega))
  · intro hends
    obtain ⟨⟨s, outs⟩, hrun⟩ := run_inner_returns hkind hl hr hnum hends
    obtain ⟨-, missed, hcover, hmissed⟩ := run_inner_cover hkind hl hr hnum hrun
    rw [hmissed.mpr hends, List.append_nil] at hcover
    exact ⟨s, outs, hrun, hcover⟩

def byteJoin : StreamJoin Bytes Bytes Bytes (Option Bytes × Option Bytes) where
  windows := ⟨0, 0, 0, unitWindows.grace_nonneg, unitWindows.grace_nonneg, unitWindows.grace_nonneg, unitWindows.grace_le,
    unitWindows.grace_le, unitWindows.grace_le⟩
  kind := .inner
  joiner := Prod.mk
  keySerde := bytesSerde
  leftSerde := bytesSerde
  rightSerde := bytesSerde
  outerStore := "outer"
  leftTopic := "app-left-changelog"
  rightTopic := "app-right-changelog"
  outerTopic := "app-outer-changelog"

theorem joinsExactly_same_time :
    Numbered [(JoinRecord.left [1] [10] 5 : JoinRecord Bytes Bytes Bytes), .right [1] [20] 5, .right [1] [20] 5] ∧
      byteJoin.JoinsExactly [JoinRecord.left [1] [10] 5, .right [1] [20] 5, .right [1] [20] 5] := by
  have hnum : Numbered [(JoinRecord.left [1] [10] 5 : JoinRecord Bytes Bytes Bytes), .right [1] [20] 5,
      .right [1] [20] 5] := ⟨by decide, by decide, by decide⟩
  exact ⟨hnum, (joinsExactly_iff_endsBefore byteJoin rfl (fun _ _ => rfl) (fun _ _ => rfl) _ hnum).mpr
    (endsBefore_of_lt (by decide))⟩

/-- Both records carry the last timestamp: the fetch of the second one stops before the first. -/
theorem not_joinsExactly_last :
    ¬ byteJoin.JoinsExactly [JoinRecord.left [1] [10] i64Max, .right [1] [20] i64Max] := by
  rintro ⟨s, outs, hrun, hperm⟩
  have hout : (byteJoin.run [JoinRecord.left [1] [10] i64Max, .right [1] [20] i64Max]).map
      (·.2.flatten) = .ok [] := by decide +kernel
  rw [hrun] at hout
  have hflat : outs.flatten = [] := Except.ok.inj hout
  rw [hflat] at hperm
  exact absurd hperm.length_eq (by decide)

end StreamJoin

end KrabkaStreams
