import KrabkaStreams.Proofs.OuterJoin

/-!
# Padded results over a run

A record without a match is padded once when no second one takes its place in the buffer
(`padsUnmatched_of_comesAlone`), and gets no match later when those padded at once get none
(`neverBoth_of_noLateMatch`).
-/

namespace KrabkaStreams

open Runs

variable {K A B VO : Type} {j : StreamJoin K A B VO} {xs : List (JoinRecord K A B)} {y : JoinRecord K A B}

namespace JoinRecord

theorem padded_injective : Function.Injective (padded : JoinRecord K A B → _) := by
  rintro (⟨k, a, t⟩ | ⟨k, b, t⟩) (⟨k', a', t'⟩ | ⟨k', b', t'⟩) h <;> simp [padded] at h ⊢ <;> exact h

theorem not_both_padded (y : JoinRecord K A B) :
    ¬ (y.padded.value.1.isSome = true ∧ y.padded.value.2.isSome = true) := by
  cases y <;> simp [padded]

theorem eq_of_slot_value {x y : JoinRecord K A B} (hs : x.slot = y.slot) (hv : x.value = y.value) : x = y := by
  cases x <;> cases y <;> simp_all [slot, value, timestamp, key]

end JoinRecord

namespace JoinWindows

variable {w : JoinWindows} {x y z : JoinRecord K A B}

theorem Matches.symm (h : w.Matches x y) : w.Matches y x := by
  cases x <;> cases y
  · exact h.elim
  · exact ⟨h.1.symm, h.2⟩
  · exact ⟨h.1.symm, h.2⟩
  · exact h.elim

theorem Matches.of_slot (h : w.Matches x z) (hs : x.slot = y.slot) : w.Matches y z := by
  cases x <;> cases y <;> cases z <;> cases hs <;> exact h

theorem Matches.ne_side (h : w.Matches x y) : x.isLeft ≠ y.isLeft := by
  intro he
  cases x <;> cases y
  · exact h.elim
  · cases he
  · cases he
  · exact h.elim

end JoinWindows

namespace StreamJoin

open JoinRecord

section Facts

variable {j : StreamJoin K A B VO} {xs : List (JoinRecord K A B)} {x y : JoinRecord K A B}

theorem le_reach_of_matches (h : j.windows.Matches y x) : x.timestamp ≤ y.timestamp + j.reach y.isLeft := by
  cases x <;> cases y
  · exact h.elim
  · obtain ⟨-, hlo, hhi⟩ := h
    simp only [timestamp, reach, isLeft, Bool.false_eq_true, if_false] at *
    omega
  · obtain ⟨-, hlo, hhi⟩ := h
    simp only [timestamp, reach, isLeft, if_true] at *
    omega
  · exact h.elim

theorem unmatched_snoc : j.Unmatched (xs ++ [x]) y ↔ j.Unmatched xs y ∧ ¬ j.windows.Matches y x := by
  simp [Unmatched, or_imp, forall_and]

theorem Unmatched.of_slot (h : j.Unmatched xs x) (hs : x.slot = y.slot) : j.Unmatched xs y :=
  fun z hz hm => h z hz (hm.of_slot hs.symm)

theorem joinTimeOf_le_snoc (xs : List (JoinRecord K A B)) (x : JoinRecord K A B) :
    joinTimeOf xs ≤ joinTimeOf (xs ++ [x]) := by
  rw [joinTimeOf_snoc]
  exact le_max_left _ _

theorem joinTimeOf_le_append (xs ys : List (JoinRecord K A B)) : joinTimeOf xs ≤ joinTimeOf (xs ++ ys) := by
  induction ys using List.reverseRecOn with
  | nil => rw [List.append_nil]
  | append_singleton ys y ih =>
    rw [← List.append_assoc]
    exact ih.trans (joinTimeOf_le_snoc _ _)

theorem add_reach_le_closing (j : StreamJoin K A B VO) (x : JoinRecord K A B) :
    x.timestamp + j.reach x.isLeft ≤ j.closing x := by
  have hg := j.windows.grace_nonneg
  unfold closing
  omega

theorem closed_slot_iff {isLeft : Bool} {time : Int} :
    j.Closed isLeft time y.slot ↔ y.isLeft = isLeft ∧ j.closing y < time := by
  unfold Closed closing
  constructor
  · rintro ⟨hs, hc⟩
    exact ⟨hs, by rw [show y.isLeft = isLeft from hs]; exact hc⟩
  · rintro ⟨rfl, hc⟩
    exact ⟨rfl, hc⟩

theorem closes_snoc : j.Closes (xs ++ [x]) y ↔
    j.Closes xs y ∨ j.Closed x.isLeft (joinTimeOf (xs ++ [x])) y.slot := by
  rw [closed_slot_iff]
  constructor
  · rintro ⟨pre, z, post, he, hside, hclose⟩
    rcases List.eq_nil_or_concat post with rfl | ⟨post, z', rfl⟩
    · obtain ⟨rfl, hz⟩ := List.append_inj' he rfl
      cases hz
      exact .inr ⟨hside.symm, hclose⟩
    · have he' : xs ++ [x] = (pre ++ z :: post) ++ [z'] := by rw [he]; simp
      exact .inl ⟨pre, z, post, (List.append_inj' he' rfl).1, hside, hclose⟩
  · rintro (⟨pre, z, post, rfl, hside, hclose⟩ | ⟨hside, hclose⟩)
    · exact ⟨pre, z, post ++ [x], by simp, hside, hclose⟩
    · exact ⟨xs, x, [], rfl, hside.symm, hclose⟩

theorem lt_joinTimeOf_of_closes (h : j.Closes xs y) : j.closing y < joinTimeOf xs := by
  obtain ⟨pre, z, post, rfl, -, hclose⟩ := h
  rw [List.append_cons]
  exact lt_of_lt_of_le hclose (joinTimeOf_le_append _ _)

end Facts

section Runs

variable [DecidableEq K] [DecidableEq A] [DecidableEq B] {j : StreamJoin K A B (Option A × Option B)}

theorem run_outer (hj : j.joiner = Prod.mk) (hkind : (!j.kind.aRequired || !j.kind.bRequired) = true)
    (hk : j.keySerde.Lawful) (hl : j.leftSerde.Lawful) (hr : j.rightSerde.Lawful)
    {I : List (JoinRecord K A B) → (Int × Bool × K → Option (A ⊕ B)) → List (JoinRecord K A B) → Prop}
    (h0 : I [] (fun _ => none) [])
    (hstep : ∀ xs x f f' pads eager closed, (∀ y ∈ xs ++ [x], y.Timely) →
      (∀ {i w}, f i = some w → ∃ y ∈ xs, y.slot = i ∧ y.value = w ∧ j.Emits y.isLeft) →
        I xs f pads → Moves j xs x f f' eager closed → I (xs ++ [x]) f' (pads ++ (eager ++ closed)))
    {xs : List (JoinRecord K A B)} (hxs : ∀ x ∈ xs, x.Timely) (hfit : j.Headroom xs) :
    ∃ s outs f pads, j.run xs = .ok (s, outs) ∧ Holds j xs s ∧ Tracks j hk xs s.buffer f ∧ I xs f pads ∧
      ∀ y, outs.flatten.count y.padded = pads.count y := by
  induction xs using List.reverseRecOn with
  | nil =>
    exact ⟨j.start, [], _, [], rfl, .start j, ⟨rfl, ⟨rfl, rfl, .empty _⟩, fun h => by cases h⟩, h0,
      fun _ => rfl⟩
  | append_singleton xs x ih =>
    have hxs' : ∀ y ∈ xs, y.Timely := fun y hy => hxs y (List.mem_append_left _ hy)
    obtain ⟨s, outs, f, pads, hrun, hholds, htracks, hI, hcount⟩ :=
      ih hxs' fun y hy => hfit y (List.mem_append_left _ hy)
    obtain ⟨s', f', joins, eager, closed, hs, hholds', htracks', hmoves, hjoins⟩ :=
      step_outer hj hkind hl hr hholds htracks hxs' (hxs x (by simp)) hfit
    refine ⟨s', _, f', _, run_snoc.mpr ⟨s, outs, _, hrun, hs, rfl⟩, hholds', htracks',
      hstep xs x f f' pads eager closed hxs htracks.came hI hmoves, fun y => ?_⟩
    have hno : joins.count y.padded = 0 :=
      List.count_eq_zero.mpr fun hy => y.not_both_padded (hjoins _ hy)
    rw [List.flatten_append, List.flatten_singleton, List.count_append, List.count_append, hcount, hno,
      List.count_map_of_injective _ _ padded_injective, zero_add, ← List.count_append]

def AloneAt (j : StreamJoin K A B VO) (xs : List (JoinRecord K A B)) (y : JoinRecord K A B) : Prop :=
  ∀ pre x post, xs = pre ++ x :: post → x.slot = y.slot → (∃ z ∈ pre, z.slot = y.slot) → j.Late pre x

def Conserves (j : StreamJoin K A B (Option A × Option B)) (xs : List (JoinRecord K A B))
    (f : Int × Bool × K → Option (A ⊕ B)) (pads : List (JoinRecord K A B)) : Prop :=
  (∀ y, j.Emits y.isLeft → j.Unmatched xs y → j.AloneAt xs y →
    pads.count y + (if f y.slot = some y.value then 1 else 0) = xs.count y) ∧
  ∀ y, j.Closes xs y → f y.slot = none

omit [DecidableEq K] [DecidableEq A] [DecidableEq B] in
theorem AloneAt.init {j : StreamJoin K A B VO} {xs : List (JoinRecord K A B)} {x y : JoinRecord K A B}
    (h : j.AloneAt (xs ++ [x]) y) : j.AloneAt xs y :=
  fun pre z post he => h pre z (post ++ [x]) (by rw [he]; simp)

section Step

variable {xs : List (JoinRecord K A B)} {x : JoinRecord K A B} {f f' : Int × Bool × K → Option (A ⊕ B)}
  {pads eager closed : List (JoinRecord K A B)}

omit [DecidableEq K] [DecidableEq A] [DecidableEq B] in
theorem entering_of_unmatched (hun : j.Unmatched (xs ++ [x]) y) (hne : x.slot = y.slot → j.Late xs x) :
    j.entering xs x f y.slot = f y.slot := by
  have hfree : ¬ ∃ z ∈ xs, j.Meets x z ∧ z.slot = y.slot := by
    rintro ⟨z, -, hm, hs⟩
    exact hun x (by simp) (hm.1.symm.of_slot hs)
  unfold entering
  rw [if_neg fun hc => hc.2.2 (hne hc.1.symm), if_neg hfree]

omit [DecidableEq K] [DecidableEq A] [DecidableEq B] in
theorem alone_of_unmatched (hemit : j.Emits y.isLeft) (hun : j.Unmatched xs y) (hs : x.slot = y.slot) :
    j.Alone xs x := by
  refine ⟨?_, fun z hz hm => (hun.of_slot hs.symm) z hz hm.1⟩
  rw [show x.isLeft = y.isLeft from congrArg (·.2.1) hs]
  exact hemit

omit [DecidableEq K] [DecidableEq A] [DecidableEq B] in
theorem late_of_closed (hs : x.slot = y.slot) (hc : j.closing y < joinTimeOf (xs ++ [x])) : j.Late xs x := by
  have ht : x.timestamp = y.timestamp := congrArg Prod.fst hs
  have hside : x.isLeft = y.isLeft := congrArg (·.2.1) hs
  have hle := j.add_reach_le_closing y
  unfold Late
  rw [ht, hside]
  omega

theorem Moves.closed_or_open (hm : Moves j xs x f f' eager closed) (y : JoinRecord K A B) :
    closed.count y + (if f' y.slot = some y.value then 1 else 0)
      = if j.entering xs x f y.slot = some y.value then 1 else 0 := by
  rw [hm.nodup.count]
  by_cases hc : j.Closed x.isLeft (joinTimeOf (xs ++ [x])) y.slot
  · have hmem : y ∈ closed ↔ j.entering xs x f y.slot = some y.value :=
      (hm.mem_closed y).trans (and_iff_right hc)
    have hout : ¬ f' y.slot = some y.value := by
      rw [hm.of_closed hc]
      exact nofun
    rw [if_neg hout, add_zero]
    exact if_congr hmem rfl rfl
  · rw [hm.of_open hc, if_neg fun hy => hc ((hm.mem_closed y).mp hy).1, zero_add]

omit [DecidableEq K] [DecidableEq A] [DecidableEq B] in
theorem Moves.eager_eq (hm : Moves j xs x f f' eager closed) : eager = [x] ∨ eager = [] := by
  by_cases h : j.Alone xs x ∧ j.Late xs x
  · exact .inl (hm.eager_late h)
  · exact .inr (hm.eager_else h)

theorem Conserves.enter
    (hcame : ∀ {i w}, f i = some w → ∃ y ∈ xs, y.slot = i ∧ y.value = w ∧ j.Emits y.isLeft)
    (hm : Moves j xs x f f' eager closed) (hemit : j.Emits y.isLeft) (hun : j.Unmatched (xs ++ [x]) y)
    (halone : j.AloneAt (xs ++ [x]) y) :
    eager.count y + (if j.entering xs x f y.slot = some y.value then 1 else 0)
      = (if f y.slot = some y.value then 1 else 0) + [x].count y := by
  by_cases hs : x.slot = y.slot
  · have hx := alone_of_unmatched hemit (unmatched_snoc.mp hun).1 hs
    by_cases hlate : j.Late xs x
    · rw [hm.eager_late ⟨hx, hlate⟩, entering_of_unmatched hun fun _ => hlate, add_comm]
    · have hfree : ¬ f y.slot = some y.value := fun hf => by
        obtain ⟨z, hz, hzs, -⟩ := hcame hf
        exact hlate (halone xs x [] rfl hs ⟨z, hz, hzs⟩)
      have hent : j.entering xs x f y.slot = some x.value := if_pos ⟨hs.symm, hx, hlate⟩
      have hsame : some x.value = some y.value ↔ x = y :=
        ⟨fun hv => eq_of_slot_value hs (Option.some.inj hv), fun he => by rw [he]⟩
      rw [hm.eager_else fun hc => hlate hc.2, hent, if_neg hfree, List.count_singleton, List.count_nil,
        zero_add, zero_add]
      exact if_congr (hsame.trans beq_iff_eq.symm) rfl rfl
  · have hne : [x].count y = 0 := List.count_eq_zero.mpr fun hy => hs (List.mem_singleton.mp hy ▸ rfl)
    have heager : eager.count y = 0 := by
      rcases hm.eager_eq with he | he
      · rw [he, hne]
      · rw [he, List.count_nil]
    rw [heager, hne, entering_of_unmatched hun fun he => absurd he hs, zero_add, add_zero]

theorem Conserves.step
    (hcame : ∀ {i w}, f i = some w → ∃ y ∈ xs, y.slot = i ∧ y.value = w ∧ j.Emits y.isLeft)
    (h : Conserves j xs f pads) (hm : Moves j xs x f f' eager closed) :
    Conserves j (xs ++ [x]) f' (pads ++ (eager ++ closed)) := by
  obtain ⟨hcons, hnone⟩ := h
  constructor
  · intro y hemit hun halone
    have ih := hcons y hemit (unmatched_snoc.mp hun).1 halone.init
    have hscan := hm.closed_or_open y
    have henter := Conserves.enter hcame hm hemit hun halone
    rw [List.count_append, List.count_append, List.count_append]
    linarith
  · intro y hy
    by_cases hc : j.Closed x.isLeft (joinTimeOf (xs ++ [x])) y.slot
    · exact hm.of_closed hc
    · have hold := (closes_snoc.mp hy).resolve_right hc
      rw [hm.of_open hc]
      rcases hent : j.entering xs x f y.slot with _ | w
      · rfl
      · rcases entering_cases hent with ⟨hs, -, -, hlate⟩ | ⟨hf, -⟩
        · exact absurd (late_of_closed hs.symm
            (lt_of_lt_of_le (lt_joinTimeOf_of_closes hold) (joinTimeOf_le_snoc _ _))) hlate
        · rw [hnone y hold] at hf
          cases hf

end Step

end Runs

/-- Where no second record takes the place of an unmatched one in the buffer, a left or an outer join
loses none. -/
theorem padsUnmatched_of_comesAlone [DecidableEq K] [DecidableEq A] [DecidableEq B]
    (j : StreamJoin K A B VO) (hkind : j.kind = .left ∨ j.kind = .outer) (hk : j.keySerde.Lawful)
    (hl : j.leftSerde.Lawful) (hr : j.rightSerde.Lawful) (xs : List (JoinRecord K A B))
    (hxs : ∀ x ∈ xs, x.Timely) (hfit : j.Headroom xs) (halone : j.ComesAlone xs) : j.PadsUnmatched xs := by
  have hpads : (!j.kind.aRequired || !j.kind.bRequired) = true := by
    rcases hkind with h | h <;> rw [h] <;> rfl
  obtain ⟨s, outs, f, pads, hrun, -, -, ⟨hcons, hnone⟩, hcount⟩ :=
    run_outer (j := j.tagged) rfl hpads hk hl hr (I := Conserves j.tagged)
      ⟨fun y _ _ _ => by simp, fun y _ => rfl⟩
      (fun xs x f f' pads eager closed _ hcame h hm => h.step hcame hm) hxs hfit
  refine ⟨s, outs, hrun, run_eq_tagged j hrun, fun x hx hemit hun hcloses => ?_⟩
  have hat : j.tagged.AloneAt xs x := fun pre z post he hs hbefore => by
    have hside : z.isLeft = x.isLeft := congrArg (·.2.1) hs
    exact halone pre z post he (hside ▸ hemit) (hun.of_slot hs.symm) (hs.symm ▸ hbefore)
  have heq := hcons x hemit hun hat
  rw [hnone x hcloses, if_neg (by simp), add_zero] at heq
  rw [hcount, heq]

def byteLeftJoin (grace : Int) (h : 0 ≤ grace ∧ grace ≤ i64Max) :
    StreamJoin Bytes Bytes Bytes (Option Bytes × Option Bytes) where
  windows := ⟨0, 0, grace, unitWindows.grace_nonneg, unitWindows.grace_nonneg, h.1, unitWindows.grace_le,
    unitWindows.grace_le, h.2⟩
  kind := .left
  joiner := Prod.mk
  keySerde := bytesSerde
  leftSerde := bytesSerde
  rightSerde := bytesSerde
  outerStore := "outer"
  leftTopic := "app-left-changelog"
  rightTopic := "app-right-changelog"
  outerTopic := "app-outer-changelog"

theorem comesAlone_of_nodup (h : (xs.map JoinRecord.slot).Nodup) : j.ComesAlone xs := by
  rintro pre x post rfl - - ⟨y, hy, hs⟩
  rw [List.map_append, List.map_cons, List.nodup_append] at h
  exact absurd hs (h.2.2 _ (List.mem_map_of_mem hy) _ List.mem_cons_self)

theorem padsUnmatched_two_keys :
    (byteLeftJoin 0 (by decide)).PadsUnmatched
      [.left [1] [10] 5, .left [2] [11] 5, .right [3] [12] 6, .left [2] [13] 100] :=
  padsUnmatched_of_comesAlone _ (.inl rfl) (fun _ _ => rfl) (fun _ _ => rfl) (fun _ _ => rfl) _ (by decide)
    (by unfold Headroom closing Emits; decide) (comesAlone_of_nodup (by decide))

/-- The second of two records with one key and one timestamp takes the place of the first. -/
theorem not_padsUnmatched_same :
    ¬ (byteLeftJoin 0 (by decide)).PadsUnmatched [.left [1] [10] 5, .left [1] [11] 5, .left [2] [12] 100] := by
  rintro ⟨s, outs, hrun, -, hall⟩
  have hout : ((byteLeftJoin 0 (by decide)).tagged.run
      [.left [1] [10] 5, .left [1] [11] 5, .left [2] [12] 100]).map (·.2.flatten)
        = .ok [⟨some [1], (some [11], none), 5⟩] := by decide +kernel
  rw [hrun] at hout
  have hflat : outs.flatten = [⟨some [1], (some [11], none), 5⟩] := Except.ok.inj hout
  have hcount := hall (.left [1] [10] 5) (by simp) rfl (by unfold Unmatched; decide)
    ⟨[.left [1] [10] 5, .left [1] [11] 5], .left [2] [12] 100, [], rfl, rfl, by decide⟩
  rw [hflat] at hcount
  exact absurd hcount (by decide)

section Late

variable {j : StreamJoin K A B (Option A × Option B)} {xs : List (JoinRecord K A B)} {x : JoinRecord K A B}
  {f f' : Int × Bool × K → Option (A ⊕ B)} {pads eager closed : List (JoinRecord K A B)}

def PaddedLate (j : StreamJoin K A B VO) (xs : List (JoinRecord K A B)) (y : JoinRecord K A B) : Prop :=
  ∃ pre post, xs = pre ++ y :: post ∧ j.Emits y.isLeft ∧ j.Unmatched pre y ∧ j.Late pre y

/-- Nothing padded or buffered has a match so far, but for what a fetch does not reach. -/
structure Unpaired (j : StreamJoin K A B VO) (xs : List (JoinRecord K A B))
    (f : Int × Bool × K → Option (A ⊕ B)) (pads : List (JoinRecord K A B)) : Prop where
  buffered : ∀ y, f y.slot = some y.value →
    j.Unmatched xs y ∨ i64Max ≤ y.timestamp + j.reach y.isLeft
  padded : ∀ y ∈ pads, j.Unmatched xs y ∧ (j.closing y < joinTimeOf xs ∨ j.PaddedLate xs y)

theorem PaddedLate.snoc {j : StreamJoin K A B VO} (h : j.PaddedLate xs y) : j.PaddedLate (xs ++ [x]) y := by
  obtain ⟨pre, post, rfl, hrest⟩ := h
  exact ⟨pre, post ++ [x], by simp, hrest⟩

theorem unmatched_of_alone {j : StreamJoin K A B VO} (h : j.Alone xs x) :
    j.Unmatched xs x ∨ x.timestamp + j.reach x.isLeft = i64Max := by
  by_cases hmax : x.timestamp + j.reach x.isLeft = i64Max
  · exact .inr hmax
  · exact .inl fun z hz hm => h.2 z hz ⟨hm, fun hc => hmax hc.1⟩

theorem not_matches_self (w : JoinWindows) (x : JoinRecord K A B) : ¬ w.Matches x x :=
  fun h => h.ne_side rfl

theorem Unpaired.buffered_step
    (hcame : ∀ {i w}, f i = some w → ∃ y ∈ xs, y.slot = i ∧ y.value = w ∧ j.Emits y.isLeft)
    (h : Unpaired j xs f pads) (hm : Moves j xs x f f' eager closed) (hy : f' y.slot = some y.value) :
    j.Unmatched (xs ++ [x]) y ∨ i64Max ≤ y.timestamp + j.reach y.isLeft := by
  have hopen : ¬ j.Closed x.isLeft (joinTimeOf (xs ++ [x])) y.slot := fun hc => by
    rw [hm.of_closed hc] at hy
    cases hy
  rw [hm.of_open hopen] at hy
  rcases entering_cases hy with ⟨hs, hv, halone, -⟩ | ⟨hf, hfree⟩
  · cases eq_of_slot_value hs hv
    rcases unmatched_of_alone halone with hun | hmax
    · exact .inl (unmatched_snoc.mpr ⟨hun, not_matches_self _ _⟩)
    · exact .inr hmax.ge
  · rcases h.buffered y hf with hun | hmax
    · by_cases hxy : j.windows.Matches y x
      · -- the step found the record, unless the fetch stopped before it
        obtain ⟨z, hz, hzs, -⟩ := hcame hf
        have hzx : j.windows.Matches x z := (hxy.of_slot hzs.symm).symm
        by_cases hlast : x.timestamp + j.reach x.isLeft = i64Max ∧ z.timestamp = i64Max
        · have ht : z.timestamp = y.timestamp := congrArg Prod.fst hzs
          have hr := j.reach_nonneg y.isLeft
          exact .inr (by omega)
        · exact absurd hzs (hfree z hz ⟨hzx, hlast⟩)
      · exact .inl (unmatched_snoc.mpr ⟨hun, hxy⟩)
    · exact .inr hmax

theorem Unpaired.step (hxs : ∀ y ∈ xs ++ [x], y.Timely)
    (hcame : ∀ {i w}, f i = some w → ∃ y ∈ xs, y.slot = i ∧ y.value = w ∧ j.Emits y.isLeft)
    (hgrace : joinTimeOf (xs ++ [x]) ≤ x.timestamp + j.windows.grace) (hlate : j.NoLateMatch (xs ++ [x]))
    (h : Unpaired j xs f pads) (hm : Moves j xs x f f' eager closed) :
    Unpaired j (xs ++ [x]) f' (pads ++ (eager ++ closed)) where
  buffered y hy := h.buffered_step hcame hm hy
  padded := by
    have htime : joinTimeOf (xs ++ [x]) ≤ i64Max := (isTime_joinTimeOf hxs).2
    intro y hy
    rcases List.mem_append.mp hy with hy | hy
    · obtain ⟨hun, hwhy⟩ := h.padded y hy
      rcases hwhy with hclosed | hwhy
      · have hlt := lt_of_lt_of_le hclosed (joinTimeOf_le_snoc xs x)
        refine ⟨unmatched_snoc.mpr ⟨hun, fun hmatch => ?_⟩, .inl hlt⟩
        have hle := le_reach_of_matches hmatch
        unfold closing at hlt
        omega
      · refine ⟨unmatched_snoc.mpr ⟨hun, ?_⟩, .inr hwhy.snoc⟩
        obtain ⟨pre, post, rfl, hemit, hpre, hpast⟩ := hwhy
        exact hlate pre y (post ++ [x]) (by simp) hemit hpre hpast x (by simp)
    · rcases List.mem_append.mp hy with hy | hy
      · by_cases hc : j.Alone xs x ∧ j.Late xs x
        · rw [hm.eager_late hc] at hy
          cases List.mem_singleton.mp hy
          obtain ⟨halone, hpast⟩ := hc
          have hun : j.Unmatched xs x := (unmatched_of_alone halone).resolve_right fun hmax => by
            unfold Late at hpast
            omega
          exact ⟨unmatched_snoc.mpr ⟨hun, not_matches_self _ _⟩,
            .inr ⟨xs, [], rfl, halone.1, hun, hpast⟩⟩
        · rw [hm.eager_else hc] at hy
          cases hy
      · obtain ⟨hclosed, hent⟩ := (hm.mem_closed y).mp hy
        obtain ⟨hside, hclose⟩ := closed_slot_iff.mp hclosed
        rcases entering_cases hent with ⟨hs, -, -, hpast⟩ | ⟨hf, -⟩
        · exact absurd (late_of_closed hs.symm hclose) hpast
        · have hle := j.add_reach_le_closing y
          have hun := (h.buffered y hf).resolve_right (by omega)
          exact ⟨unmatched_snoc.mpr ⟨hun, fun hmatch => hmatch.ne_side hside⟩, .inl hclose⟩

theorem InGrace.init {j : StreamJoin K A B VO} (h : j.InGrace (xs ++ [x])) : j.InGrace xs :=
  fun pre y post he => h pre y (post ++ [x]) (by rw [he]; simp)

theorem NoLateMatch.init {j : StreamJoin K A B VO} (h : j.NoLateMatch (xs ++ [x])) : j.NoLateMatch xs :=
  fun pre y post he hemit hpre hpast z hz =>
    h pre y (post ++ [x]) (by rw [he]; simp) hemit hpre hpast z (List.mem_append_left _ hz)

end Late

/-- Where no record that is padded at once gets a match later, a left or an outer join of records in their
grace does not forward a record both ways. -/
theorem neverBoth_of_noLateMatch (j : StreamJoin K A B VO) (hkind : j.kind = .left ∨ j.kind = .outer)
    (hk : j.keySerde.Lawful) (hl : j.leftSerde.Lawful) (hr : j.rightSerde.Lawful)
    (xs : List (JoinRecord K A B)) (hxs : ∀ x ∈ xs, x.Timely) (hgrace : j.InGrace xs)
    (hfit : j.Headroom xs) (hlate : j.NoLateMatch xs) : j.NeverBoth xs := by
  classical
  have hpads : (!j.kind.aRequired || !j.kind.bRequired) = true := by
    rcases hkind with h | h <;> rw [h] <;> rfl
  obtain ⟨s, outs, f, pads, hrun, -, -, hI, hcount⟩ :=
    run_outer (j := j.tagged) rfl hpads hk hl hr
      (I := fun xs f pads => j.tagged.InGrace xs → j.tagged.NoLateMatch xs → Unpaired j.tagged xs f pads)
      (fun _ _ => ⟨fun y hy => (nomatch hy), fun y hy => (nomatch hy)⟩)
      (fun xs x f f' pads eager closed hxs hcame h hm hg hn =>
        (h hg.init hn.init).step hxs hcame (hg xs x [] rfl) hn hm) hxs hfit
  have hpadded : ∀ y : JoinRecord K A B, y.padded ∈ outs.flatten → j.Unmatched xs y := fun y hy => by
    have hpos := List.count_pos_iff.mpr hy
    rw [hcount] at hpos
    exact ((hI hgrace hlate).padded y (List.count_pos_iff.mp hpos)).1
  refine ⟨s, outs, hrun, run_eq_tagged j hrun, fun k a t b t' hleft hright hpair _ => ⟨fun hp => ?_, fun hp => ?_⟩⟩
  · exact hpadded _ hp _ hright ⟨rfl, hpair⟩
  · exact hpadded _ hp _ hleft ⟨rfl, hpair⟩

theorem inGrace_of_pairwise (hxs : ∀ x ∈ xs, x.Timely)
    (h : xs.Pairwise fun x y => x.timestamp ≤ y.timestamp + j.windows.grace) : j.InGrace xs := by
  rintro pre x post rfl
  have hg := j.windows.grace_nonneg
  have hx : 0 ≤ x.timestamp := (hxs x (by simp)).1
  have hpre : ∀ y ∈ pre, y.timestamp ≤ x.timestamp + j.windows.grace := fun y hy =>
    (List.pairwise_append.mp h).2.2 y hy x (by simp)
  rw [joinTimeOf_snoc]
  refine max_le ?_ (by omega)
  clear h hxs
  induction pre using List.reverseRecOn with
  | nil => exact add_nonneg hx hg
  | append_singleton pre y ih =>
    rw [joinTimeOf_snoc]
    exact max_le (ih fun z hz => hpre z (List.mem_append_left _ hz)) (hpre y (by simp))

theorem noLateMatch_of_grace_le (hgrace : j.InGrace xs)
    (h : ∀ isLeft, j.Emits isLeft → j.windows.grace ≤ j.reach isLeft) : j.NoLateMatch xs := by
  intro pre x post he hemit _ hlate
  have hin := hgrace pre x post he
  have hle := h _ hemit
  omega

theorem neverBoth_in_order :
    (byteLeftJoin 0 (by decide)).InGrace
        [.left [1] [10] 5, .right [1] [20] 5, .left [2] [11] 6, .left [3] [12] 7] ∧
      (byteLeftJoin 0 (by decide)).NeverBoth
        [.left [1] [10] 5, .right [1] [20] 5, .left [2] [11] 6, .left [3] [12] 7] := by
  have hgrace : (byteLeftJoin 0 (by decide)).InGrace
      [.left [1] [10] 5, .right [1] [20] 5, .left [2] [11] 6, .left [3] [12] 7] :=
    inGrace_of_pairwise (by decide) (by decide)
  exact ⟨hgrace, neverBoth_of_noLateMatch _ (.inl rfl) (fun _ _ => rfl) (fun _ _ => rfl) (fun _ _ => rfl) _
    (by decide) hgrace (by unfold Headroom closing Emits; decide)
    (noLateMatch_of_grace_le hgrace (by unfold Emits; decide))⟩

/-- The record at `0` comes in its grace, but after its window; its match comes after it. -/
theorem not_neverBoth_late :
    (byteLeftJoin 10 (by decide)).InGrace [.left [2] [9] 5, .left [1] [10] 0, .right [1] [20] 0] ∧
      ¬ (byteLeftJoin 10 (by decide)).NeverBoth [.left [2] [9] 5, .left [1] [10] 0, .right [1] [20] 0] := by
  refine ⟨inGrace_of_pairwise (by decide) (by decide), ?_⟩
  rintro ⟨s, outs, hrun, -, hnever⟩
  have hout : ((byteLeftJoin 10 (by decide)).tagged.run
      [.left [2] [9] 5, .left [1] [10] 0, .right [1] [20] 0]).map (·.2.flatten)
        = .ok [⟨some [1], (some [10], none), 0⟩, ⟨some [1], (some [10], some [20]), 0⟩] := by decide +kernel
  rw [hrun] at hout
  have hflat : outs.flatten = _ := Except.ok.inj hout
  rw [hflat] at hnever
  exact (hnever [1] [10] 0 [20] 0 (by simp) (by simp) (by decide) (by simp)).1 (by decide)

end StreamJoin

end KrabkaStreams
