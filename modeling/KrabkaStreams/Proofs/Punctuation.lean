import KrabkaStreams.Punctuation
import KrabkaStreams.Proofs.GraphMoves
import KrabkaStreams.Script
import Mathlib.Tactic.Linarith

/-!
# What punctuation passes fire

A pass is cut at one index (`punctuateLoop_append`, `fired_append`): only its own turn fires the entry
(`punctuate_entry`). `resync` moves it by an interval at least (`withoutBursts`), and
`regular_of_deliver` is about runs without a failed firing.
-/

namespace KrabkaStreams

variable {P M S V : Type} [Processor P M S V] {e : ScheduleEntry P} {g : Graph P M S V}

namespace Graph

structure Extends (g g' : Graph P M S V) : Prop where
  schedules : g.schedules <+: g'.schedules
  cancelled : g.cancelled ⊆ g'.cancelled

namespace Extends

variable {g g' g'' : Graph P M S V}

omit [Processor P M S V] in
theorem refl (g : Graph P M S V) : Extends g g := ⟨List.prefix_rfl, fun _ h => h⟩

omit [Processor P M S V] in
theorem trans (h : Extends g g') (h' : Extends g' g'') : Extends g g'' :=
  ⟨h.schedules.trans h'.schedules, List.Subset.trans h.cancelled h'.cancelled⟩

omit [Processor P M S V] in
theorem absorb (g : Graph P M S V) (i : Nat) (o : Outcome P M S V) : Extends g (g.absorb i o) :=
  ⟨List.prefix_append _ _, List.subset_append_left _ _⟩

omit [Processor P M S V] in
theorem getElem? (h : Extends g g') {i : Nat} (he : g.schedules[i]? = some e) :
    g'.schedules[i]? = some e := by
  obtain ⟨new, hnew⟩ := h.schedules
  rw [← hnew, List.getElem?_append_left (List.getElem?_eq_some_iff.mp he).1]
  exact he

theorem moves [StateStore S V] : Moves (Extends (P := P) (M := M) (S := S) (V := V)) where
  refl := refl
  trans _ _ _ h h' := h.trans h'
  dispatch g g' _ i _ _ h := by
    rcases dispatch_ok h with ⟨_, _, _, _, -, -, -, rfl⟩ | ⟨_, o, -, -, -, rfl⟩
    · exact ⟨List.prefix_rfl, fun _ h => h⟩
    · exact absorb g i o
  punctuate g i _ _ := absorb g i _
  flush _ _ _ _ := ⟨List.prefix_rfl, fun _ h => h⟩
  clocks _ _ _ := ⟨List.prefix_rfl, fun _ h => h⟩

end Extends

section Loop

variable (ty : PunctuationType) (now : Int)

theorem punctuateLoop_cons (i : Nat) (is : List Nat) (g : Graph P M S V) (he : g.schedules[i]? = some e) :
    (g.isDue ty now e = false ∧ punctuateLoop ty now (i :: is) g = punctuateLoop ty now is g ∧
        fired ty now (i :: is) g = fired ty now is g) ∨
      g.isDue ty now e = true ∧
        ((∃ err, (g.fireSchedule i now).1 = .error err ∧
            punctuateLoop ty now (i :: is) g = (.error err, (g.fireSchedule i now).2) ∧ fired ty now (i :: is) g = [i]) ∨
          (g.fireSchedule i now).1 = .ok () ∧
            punctuateLoop ty now (i :: is) g =
              punctuateLoop ty now is ((g.fireSchedule i now).2.setNextTime i (resync e.nextTime e.interval now)) ∧
            fired ty now (i :: is) g =
              i :: fired ty now is ((g.fireSchedule i now).2.setNextTime i (resync e.nextTime e.interval now))) := by
  rcases hdue : g.isDue ty now e with _ | _
  · refine .inl ⟨rfl, ?_, ?_⟩
    · simp only [punctuateLoop, he, hdue, Bool.false_eq_true, if_false]
    · simp only [fired, he, hdue, Bool.false_eq_true, if_false]
  · rcases hf : g.fireSchedule i now with ⟨err | u, g'⟩
    · refine .inr ⟨rfl, .inl ⟨err, rfl, ?_, ?_⟩⟩
      · simp only [punctuateLoop, he, hdue, if_true, hf]
      · simp only [fired, he, hdue, if_true, hf]
    · refine .inr ⟨rfl, .inr ⟨rfl, ?_, ?_⟩⟩
      · simp only [punctuateLoop, he, hdue, if_true, hf]
      · simp only [fired, he, hdue, if_true, hf]

theorem fired_sublist : ∀ (is : List Nat) (g : Graph P M S V), (fired ty now is g).Sublist is
  | [], _ => .slnil
  | i :: is, g => by
    rcases he : g.schedules[i]? with _ | e
    · simp only [fired, he]
      exact List.nil_sublist _
    · rcases punctuateLoop_cons ty now i is g he with ⟨-, -, h⟩ | ⟨-, ⟨_, -, -, h⟩ | ⟨-, -, h⟩⟩ <;> rw [h]
      · exact (fired_sublist is g).cons i
      · exact (List.nil_sublist is).cons_cons i
      · exact (fired_sublist is _).cons_cons i

theorem punctuateLoop_append : ∀ (is js : List Nat) (g : Graph P M S V), (punctuateLoop ty now is g).1 = .ok () →
    punctuateLoop ty now (is ++ js) g = punctuateLoop ty now js (punctuateLoop ty now is g).2 ∧
      fired ty now (is ++ js) g = fired ty now is g ++ fired ty now js (punctuateLoop ty now is g).2
  | [], _, _, _ => ⟨rfl, rfl⟩
  | i :: is, js, g, hok => by
    rw [List.cons_append]
    rcases he : g.schedules[i]? with _ | e
    · simp [punctuateLoop, he] at hok
    · rcases punctuateLoop_cons ty now i is g he with ⟨hdue, hp, hf⟩ | ⟨hdue, ⟨err, -, hp, -⟩ | ⟨hfire, hp, hf⟩⟩
      · rw [hp] at hok
        obtain ⟨ihp, ihf⟩ := punctuateLoop_append is js g hok
        rcases punctuateLoop_cons ty now i (is ++ js) g he with ⟨-, hp', hf'⟩ | ⟨hdue', -⟩
        · rw [hp', hf', hp, hf]
          exact ⟨ihp, ihf⟩
        · rw [hdue] at hdue'
          cases hdue'
      · rw [hp] at hok
        cases hok
      · rw [hp] at hok
        obtain ⟨ihp, ihf⟩ := punctuateLoop_append is js _ hok
        rcases punctuateLoop_cons ty now i (is ++ js) g he with ⟨hdue', -⟩ | ⟨-, ⟨_, hfire', -⟩ | ⟨-, hp', hf'⟩⟩
        · rw [hdue] at hdue'
          cases hdue'
        · rw [hfire] at hfire'
          cases hfire'
        · rw [hp', hf', hp, hf, List.cons_append, ihp, ihf]
          exact ⟨rfl, rfl⟩

omit [Processor P M S V] in
theorem setNextTime_getElem?_of_ne (g : Graph P M S V) {i k : Nat} (h : i ≠ k) (t : Int) :
    (g.setNextTime i t).schedules[k]? = g.schedules[k]? := by
  simp [setNextTime, h]

variable [StateStore S V]

theorem punctuateLoop_getElem? {k : Nat} : ∀ (is : List Nat) (g : Graph P M S V), k ∉ is →
    g.schedules[k]? = some e → (punctuateLoop ty now is g).2.schedules[k]? = some e
  | [], _, _, h => h
  | i :: is, g, hk, h => by
    have hki : i ≠ k := fun heq => hk (heq ▸ List.mem_cons_self)
    have hk' : k ∉ is := fun hmem => hk (List.mem_cons_of_mem i hmem)
    have hfire := (Extends.moves.fireSchedule g i now).getElem? h
    rcases he : g.schedules[i]? with _ | e'
    · simp only [punctuateLoop, he]
      exact h
    · rcases punctuateLoop_cons ty now i is g he with ⟨-, hp, -⟩ | ⟨-, ⟨_, -, hp, -⟩ | ⟨-, hp, -⟩⟩ <;> rw [hp]
      · exact punctuateLoop_getElem? is g hk' h
      · exact hfire
      · refine punctuateLoop_getElem? is _ hk' ?_
        rw [setNextTime_getElem?_of_ne _ hki]
        exact hfire

theorem punctuateLoop_entry {is js : List Nat} {k : Nat} (hk : k ∉ is) (hk' : k ∉ js)
    (he : g.schedules[k]? = some e) (hok : (punctuateLoop ty now is g).1 = .ok ()) :
    (k ∈ fired ty now (is ++ k :: js) g ↔ (punctuateLoop ty now is g).2.isDue ty now e = true) ∧
      ((punctuateLoop ty now (is ++ k :: js) g).1 = .ok () →
        (punctuateLoop ty now (is ++ k :: js) g).2.schedules[k]? =
          some (if k ∈ fired ty now (is ++ k :: js) g then { e with nextTime := resync e.nextTime e.interval now } else e)) := by
  obtain ⟨hp, hf⟩ := punctuateLoop_append ty now is (k :: js) g hok
  have hturn := punctuateLoop_getElem? ty now is g hk he
  have hmem_iff : k ∈ fired ty now (is ++ k :: js) g ↔ k ∈ fired ty now (k :: js) (punctuateLoop ty now is g).2 := by
    rw [hf, List.mem_append, or_iff_right fun h => hk ((fired_sublist ty now is g).mem h)]
  simp only [hmem_iff, hp]
  generalize (punctuateLoop ty now is g).2 = g₁ at hturn ⊢
  rcases punctuateLoop_cons ty now k js g₁ hturn with ⟨hdue, hp, hf⟩ | ⟨hdue, ⟨err, -, hp, hf⟩ | ⟨-, hp, hf⟩⟩
  · have hnot : k ∉ fired ty now (k :: js) g₁ := fun h => hk' ((fired_sublist ty now js g₁).mem (hf ▸ h))
    refine ⟨⟨fun h => absurd h hnot, fun h => by rw [hdue] at h; cases h⟩, fun _ => ?_⟩
    rw [if_neg hnot, hp]
    exact punctuateLoop_getElem? ty now js g₁ hk' hturn
  · rw [hp, hf]
    exact ⟨⟨fun _ => hdue, fun _ => List.mem_singleton_self k⟩, fun h => by cases h⟩
  · have hmem : k ∈ fired ty now (k :: js) g₁ := hf ▸ List.mem_cons_self
    refine ⟨⟨fun _ => hdue, fun _ => hmem⟩, fun _ => ?_⟩
    rw [if_pos hmem, hp]
    refine punctuateLoop_getElem? ty now js _ hk' ?_
    have hfire := (Extends.moves.fireSchedule g₁ k now).getElem? hturn
    simp [setNextTime, hfire]

end Loop

omit [Processor P M S V] in
theorem isDue_iff {ty : PunctuationType} {now : Int} :
    g.isDue ty now e = true ↔ e.ty = ty ∧ e.nextTime ≤ now ∧ e.cancel ∉ g.cancelled := by
  simp [isDue]
  tauto

theorem range_split {k n : Nat} (h : k < n) :
    ∃ js, List.range n = List.range k ++ k :: js ∧ k ∉ List.range k ∧ k ∉ js := by
  refine ⟨List.range' (k + 1) (n - k - 1), ?_, List.not_mem_range_self, ?_⟩
  · have hn : n = k + (n - k - 1 + 1) := by omega
    conv_lhs => rw [hn, List.range_eq_range', ← List.range'_append_1, Nat.zero_add, List.range'_succ]
    rw [List.range_eq_range']
  · rw [List.mem_range'_1]
    omega

section Pass

variable [StateStore S V] {g : Graph P M S V} {ty : PunctuationType} {now : Int}

theorem Delivers.loop_ok (h : g.Delivers ty now) : ∀ k, k ≤ g.dropCancelled.schedules.length →
    (punctuateLoop ty now (List.range k) g.dropCancelled).1 = .ok ()
  | 0, _ => rfl
  | k + 1, hk => by
    have ih := loop_ok h k (Nat.le_of_succ_le hk)
    have he : g.dropCancelled.schedules[k]? = some (g.dropCancelled.schedules.get ⟨k, hk⟩) :=
      List.getElem?_eq_getElem hk
    have hturn := punctuateLoop_getElem? ty now (List.range k) g.dropCancelled List.not_mem_range_self he
    have hdel := h k hk
    rw [List.range_succ, (punctuateLoop_append ty now (List.range k) [k] g.dropCancelled ih).1]
    unfold beforeTurn at hdel
    rcases punctuateLoop_cons ty now k [] _ hturn with ⟨-, hp, -⟩ | ⟨hdue, ⟨err, hfire, -, -⟩ | ⟨-, hp, -⟩⟩
    · rw [hp]
      rfl
    · have hok := hdel (by rw [hturn]; exact hdue)
      rw [hfire] at hok
      cases hok
    · rw [hp]
      rfl

theorem Delivers.entry (h : g.Delivers ty now) {i : Nat} (he : g.dropCancelled.schedules[i]? = some e) :
    (i ∈ g.passFires ty now ↔ e.ty = ty ∧ e.nextTime ≤ now ∧ e.cancel ∉ (g.beforeTurn ty now i).cancelled) ∧
      (g.punctuate ty now).2.schedules[i]? =
        some (if i ∈ g.passFires ty now then { e with nextTime := resync e.nextTime e.interval now } else e) := by
  obtain ⟨hi, -⟩ := List.getElem?_eq_some_iff.mp he
  obtain ⟨js, hrange, hk, hk'⟩ := range_split hi
  obtain ⟨hfires, hentry⟩ := punctuateLoop_entry ty now hk hk' he (h.loop_ok i hi.le)
  have hok := h.loop_ok _ le_rfl
  rw [← isDue_iff]
  unfold passFires beforeTurn
  rw [hrange]
  refine ⟨hfires, ?_⟩
  rw [hrange] at hok
  show (punctuateLoop ty now (List.range g.dropCancelled.schedules.length) g.dropCancelled).2.schedules[i]? = _
  rw [hrange]
  exact hentry hok

theorem resync_bounds {next interval now : Int} (hi : 1 ≤ interval) (hmin : i64Min ≤ next) (hmax : now + interval ≤ i64Max)
    (hdue : next ≤ now) : next + interval ≤ resync next interval now ∧ now < resync next interval now ∧
      resync next interval now ≤ now + interval := by
  unfold resync saturatingAdd
  split <;> omega

omit [StateStore S V] in
theorem passFires_count_le (g : Graph P M S V) (ty : PunctuationType) (now : Int) (i : Nat) :
    (g.passFires ty now).count i ≤ 1 :=
  List.nodup_iff_count_le_one.mp ((List.nodup_range).sublist (fired_sublist ty now _ _)) i

theorem Delivers.firesDue (h : g.Delivers ty now) : g.FiresDue ty now where
  once := passFires_count_le g ty now
  fires i e he := (h.entry he).1
  next i e he hi hmin hmax _ hfired := by
    obtain ⟨hiff, hentry⟩ := h.entry he
    obtain ⟨-, hdue, -⟩ := hiff.mp hfired
    obtain ⟨-, hlt, hle⟩ := resync_bounds hi hmin hmax hdue
    rw [if_pos hfired] at hentry
    exact ⟨_, hentry, hlt, hle⟩

end Pass

omit [Processor P M S V] in
theorem dropCancelled_getElem? {i j : Nat} (he : g.schedules[j]? = some e) (hi : g.liveIndex j = some i) :
    g.dropCancelled.schedules[i]? = some e := by
  simp only [liveIndex, he] at hi
  split at hi
  · cases hi
  · rename_i hlive
    cases hi
    obtain ⟨hj, hget⟩ := List.getElem?_eq_some_iff.mp he
    have hsplit : g.schedules = g.schedules.take j ++ e :: g.schedules.drop (j + 1) := by
      rw [← hget, List.getElem_cons_drop, List.take_append_drop]
    show (g.schedules.filter _)[_]? = _
    conv_lhs =>
      lhs
      rw [hsplit, List.filter_append, List.filter_cons_of_pos (by simpa using hlive)]
    simp

end Graph

namespace GraphCall

open KrabkaStreams.Graph

variable [StateStore S V]

theorem perform_of_pass {c : GraphCall} {g g₀ : Graph P M S V} {ty : PunctuationType} {now : Int}
    (h : c.pass g = some (ty, now, g₀)) : c.perform g = g₀.punctuate ty now ∧ g₀.schedules = g.schedules := by
  cases c with
  | pipe => cases h
  | flushCaches => cases h
  | punctuateStreamTime streamTime =>
    cases h
    exact ⟨rfl, rfl⟩
  | punctuateWallClock clock =>
    cases h
    exact ⟨rfl, rfl⟩

theorem extends_of_no_pass {c : GraphCall} (h : c.pass g = none) : Extends g (c.perform g).2 := by
  cases c with
  | pipe topic partition offset key value timestamp => exact Extends.moves.pipe g topic partition offset key value timestamp
  | flushCaches => exact Extends.moves.flushLoop _ _ g
  | punctuateStreamTime => cases h
  | punctuateWallClock => cases h

theorem timesFired_le {T : Int} : ∀ (cs : List GraphCall) (g : Graph P M S V) (j : Nat) (e : ScheduleEntry P),
    Deliver cs g → g.schedules[j]? = some e → 1 ≤ e.interval → i64Min ≤ e.nextTime → T + e.interval ≤ i64Max →
    ClocksUpTo e.ty T cs g → timesFired cs g j = 0 ∨ e.nextTime + (timesFired cs g j - 1 : Int) * e.interval ≤ T
  | [], _, _, _, _, _, _, _, _, _ => .inl rfl
  | c :: cs, g, j, e, hdel, he, hi, hmin, hmax, hT => by
    unfold timesFired
    rcases hpass : c.pass g with _ | ⟨ty, now, g₀⟩
    · exact timesFired_le cs _ j e hdel.2 ((extends_of_no_pass hpass).getElem? he) hi hmin hmax hT.2
    · obtain ⟨hperform, hsched⟩ := perform_of_pass hpass
      dsimp only
      rcases hlive : g₀.liveIndex j with _ | i
      · exact .inl rfl
      · obtain ⟨hfires, hentry⟩ := (hdel.1 ty now g₀ hpass).entry (dropCancelled_getElem? (hsched ▸ he) hlive)
        rw [← hperform] at hentry
        dsimp only
        by_cases hfired : i ∈ g₀.passFires ty now
        · -- It was due at a clock up to `T`, and is due again an interval later at the earliest.
          obtain ⟨hty, hdue, -⟩ := hfires.mp hfired
          subst hty
          have hnow := hT.1 now g₀ hpass
          have hbounds := resync_bounds hi hmin (by omega) hdue
          have hcount : (g₀.passFires e.ty now).count i = 1 :=
            le_antisymm (passFires_count_le g₀ e.ty now i) (List.one_le_count_iff.mpr hfired)
          rw [if_pos hfired] at hentry
          rw [hcount]
          refine .inr ?_
          have hmin' : i64Min ≤ resync e.nextTime e.interval now := by omega
          rcases timesFired_le cs _ i _ hdel.2 hentry hi hmin' hmax hT.2 with h | h
          · rw [h]
            omega
          · push_cast
            linarith
        · rw [if_neg hfired] at hentry
          rw [List.count_eq_zero.mpr hfired, Nat.zero_add]
          exact timesFired_le cs _ i e hdel.2 hentry hi hmin hmax hT.2

theorem withoutBursts {cs : List GraphCall} (h : Deliver cs g) : WithoutBursts cs g := by
  intro j e T he hi hmin hmax hT
  rcases timesFired_le cs g j e h he hi hmin hmax hT with h0 | hlast
  · rw [h0]
    exact le_max_left _ _
  · refine le_trans ?_ (le_max_right _ _)
    have hdiv : (timesFired cs g j - 1 : Int) ≤ (T - e.nextTime) / e.interval :=
      (Int.le_ediv_iff_mul_le (by omega)).mpr (by omega)
    omega

def tickers (below : Relay) : Graph Relay Unit (KeyValueBytesStore Bytes) (Value Bytes) :=
  (relayGraph [.processorNode (.ticker 10), .processorNode (.ticker 15), .processorNode below] [[2], [2], []]
    [relaySource "src" "in" [2]] [] []).initProcessors

end GraphCall

end KrabkaStreams
