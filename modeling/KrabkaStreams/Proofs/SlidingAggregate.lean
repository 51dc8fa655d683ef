import KrabkaStreams.Lib.Sliding
import KrabkaStreams.Proofs.SlidingScan

/-!
# One call of the sliding aggregation, as a list of writes

A call that is not too late writes windows of its key and nothing else: first those that cover its
record, then the new ones. `processEarly_spec` and `processNormal_spec` say which.
-/

namespace KrabkaStreams

open Runs Lists KStreamSlidingWindowAggregateProcessor

variable {K V VA : Type} [DecidableEq K] {store : WindowBytesStore K VA}

def writeAll (k : K) (writes : List (Int × Int × VA)) (f : K × Int → Option (Int × VA)) :
    K × Int → Option (Int × VA) :=
  writes.foldl (fun f e => Function.update f (k, e.1) (some e.2)) f

theorem writeAll_append (k : K) (ws ws' : List (Int × Int × VA)) (f : K × Int → Option (Int × VA)) :
    writeAll k (ws ++ ws') f = writeAll k ws' (writeAll k ws f) :=
  List.foldl_append

theorem writeAll_of_ne {k k' : K} (hk : k' ≠ k) (writes : List (Int × Int × VA))
    (f : K × Int → Option (Int × VA)) (a : Int) : writeAll k writes f (k', a) = f (k', a) := by
  induction writes generalizing f with
  | nil => rfl
  | cons e writes ih =>
    rw [writeAll, List.foldl_cons]
    refine (ih _).trans (Function.update_of_ne ?_ _ _)
    exact fun he => hk (congrArg Prod.fst he)

theorem writeAll_exact {k : K} {writes : List (Int × Int × VA)} {g : Int → Option (Int × VA)}
    (h : ∀ e ∈ writes, g e.1 = some e.2) (f : K × Int → Option (Int × VA)) (a : Int) :
    writeAll k writes f (k, a) = if a ∈ writes.map (·.1) then g a else f (k, a) := by
  induction writes using List.reverseRecOn with
  | nil => simp [writeAll]
  | append_singleton writes e ih =>
    rw [writeAll_append]
    show Function.update (writeAll k writes f) (k, e.1) (some e.2) (k, a) = _
    by_cases ha : a = e.1
    · subst ha
      rw [Function.update_self, if_pos (by simp), h e (by simp)]
    · rw [Function.update_of_ne fun he => ha (congrArg Prod.snd he),
        ih fun x hx => h x (List.mem_append_left _ hx)]
      simp only [List.map_append, List.mem_append, List.map_cons, List.map_nil, List.mem_singleton, ha,
        or_false]

structure InTime (w : SlidingWindows) (t closeTime : Int) : Prop where
  nonneg : 0 ≤ t
  fits : t + w.timeDifference ≤ i64Max
  live : closeTime ≤ t

section Writes

variable (p : KStreamSlidingWindowAggregateProcessor K V VA) (k : K) (value : V) (t : Int)

def updateWrites (found : List (Int × Int × VA)) : List (Int × Int × VA) :=
  found.map fun e => (e.1, max e.2.1 t, p.agg k value e.2.2)

def previousWrites (prev : Option Int) (starts : List Int) : List (Int × Int × VA) :=
  match prev with
  | none => []
  | some q =>
    if q + 1 ∉ starts ∧ t ≤ q + 1 + p.windows.timeDifference then [(q + 1, t, p.agg k value p.init)]
    else []

def rightWrites (seed : Option (Int × VA)) (already : Bool) : List (Int × Int × VA) :=
  match already, seed.filter fun x => t < x.1 with
  | false, some x => [(t + 1, x)]
  | _, _ => []

def leftWrites (sc : NormalScan VA) : List (Int × Int × VA) :=
  if sc.leftWinAlreadyCreated then []
  else [(t - p.windows.timeDifference, t, p.agg k value
    (if leftWindowNotEmpty sc.previousRecordTs t p.windows.timeDifference
      then sc.leftWinAgg.getD p.init else p.init))]

def combinedWrites (combined : Option (Int × VA)) : List (Int × Int × VA) :=
  [(0, (combined.map fun x => max x.1 t).getD t, p.agg k value ((combined.map (·.2)).getD p.init))]

end Writes

section Specs

variable {p : KStreamSlidingWindowAggregateProcessor K V VA} {k : K} {value : V} {t closeTime : Int}
  {acc : Progress K VA} {f : K × Int → Option (Int × VA)}

theorem writeUpdate_spec (h : acc.1.Holds f) {u : Int × Int × VA × Bool} (hws : IsI64 u.1)
    (hwe : IsI64 (u.1 + p.windows.timeDifference)) (hts : IsI64 u.2.1) :
    ∃ acc', p.writeUpdate k acc u = .ok acc' ∧
      acc'.1.Holds (writeAll k [(u.1, u.2.1, u.2.2.1)] f) := by
  obtain ⟨ws, ts, v, live⟩ := u
  unfold writeUpdate
  simp only [checkedI64_eq_ok.mpr ⟨hwe, rfl⟩, h.fetchSingle k hws]
  cases live with
  | false => exact ⟨_, rfl, h.put k hws v hts⟩
  | true => exact ⟨_, rfl, h.put k hws v hts⟩

theorem writeUpdates_spec (p : KStreamSlidingWindowAggregateProcessor K V VA) (k : K) :
    ∀ (us : List (Int × Int × VA × Bool)) {acc : Progress K VA} {f : K × Int → Option (Int × VA)},
      acc.1.Holds f → (∀ u ∈ us, IsI64 u.1 ∧ IsI64 (u.1 + p.windows.timeDifference) ∧ IsI64 u.2.1) →
      ∃ acc', us.foldlM (p.writeUpdate k) acc = .ok acc' ∧
        acc'.1.Holds (writeAll k (us.map fun u => (u.1, u.2.1, u.2.2.1)) f)
  | [], acc, _, h, _ => ⟨acc, rfl, h⟩
  | u :: us, acc, f, h, hu => by
    obtain ⟨hws, hwe, hts⟩ := hu u (by simp)
    obtain ⟨acc₁, h₁, hh₁⟩ := writeUpdate_spec (p := p) (k := k) h hws hwe hts
    obtain ⟨acc₂, h₂, hh₂⟩ := writeUpdates_spec p k us hh₁ fun x hx => hu x (List.mem_cons_of_mem _ hx)
    refine ⟨acc₂, ?_, hh₂⟩
    rw [List.foldlM_cons, h₁]
    exact h₂

def updateOf (p : KStreamSlidingWindowAggregateProcessor K V VA) (k : K) (value : V) (t closeTime : Int)
    (e : Int × Int × VA) : Int × Int × VA × Bool :=
  (e.1, max e.2.1 t, p.agg k value e.2.2, decide (closeTime ≤ e.1 + p.windows.timeDifference))

omit [DecidableEq K] in
theorem IsI64.max {a b : Int} (ha : IsI64 a) (hb : IsI64 b) : IsI64 (max a b) :=
  ⟨le_max_of_le_left ha.1, max_le ha.2 hb.2⟩

theorem writeFound_spec (value : V) (h : acc.1.Holds f) (ht : IsI64 t) (closeTime : Int)
    {l : List (Int × Int × VA)}
    (hl : ∀ e ∈ l, IsI64 e.1 ∧ IsI64 (e.1 + p.windows.timeDifference) ∧ IsI64 e.2.1) :
    ∃ acc', (l.map (updateOf p k value t closeTime)).foldlM (p.writeUpdate k) acc = .ok acc' ∧
      acc'.1.Holds (writeAll k (updateWrites p k value t l) f) := by
  have hu : ∀ u ∈ l.map (updateOf p k value t closeTime),
      IsI64 u.1 ∧ IsI64 (u.1 + p.windows.timeDifference) ∧ IsI64 u.2.1 := by
    intro u hu
    obtain ⟨e, he, rfl⟩ := List.mem_map.mp hu
    obtain ⟨hws, hwe, hts⟩ := hl e he
    exact ⟨hws, hwe, hts.max ht⟩
  obtain ⟨acc', hacc, hholds⟩ := writeUpdates_spec p k _ h hu
  rw [List.map_map] at hholds
  exact ⟨acc', hacc, hholds⟩

theorem createWindow_spec (h : acc.1.Holds f) {ws we ts : Int} {old : Option VA} {new : VA}
    (hwe : closeTime ≤ we) (hws : IsI64 ws) (hts : IsI64 ts) :
    (p.createWindow k closeTime ws we old new ts acc).1.Holds (writeAll k [(ws, ts, new)] f) := by
  unfold createWindow
  rw [if_pos hwe]
  exact h.put k hws new hts

theorem createPreviousRightWindow_spec (value : V) (h : acc.1.Holds f) (ht : InTime p.windows t closeTime)
    {prev : Option Int} (hprev : ∀ q ∈ prev, 0 ≤ q ∧ q < t) (starts : List Int) :
    ∃ acc', p.createPreviousRightWindow k value t closeTime prev starts acc = .ok acc' ∧
      acc'.1.Holds (writeAll k (previousWrites p k value t prev starts) f) := by
  obtain ⟨ht0, hfits, hlive⟩ := ht
  have hW := p.windows.timeDifference_nonneg
  cases prev with
  | none => exact ⟨acc, rfl, h⟩
  | some q =>
    obtain ⟨hq0, hqt⟩ := hprev q rfl
    have hi : ∀ {x}, 0 ≤ x → x ≤ t + p.windows.timeDifference → IsI64 x := fun h0 h1 =>
      ⟨le_trans (by decide) h0, h1.trans hfits⟩
    have hpws := checkedI64_eq_ok.mpr ⟨hi (x := q + 1) (by omega) (by omega), rfl⟩
    have hpwe := checkedI64_eq_ok.mpr
      ⟨hi (x := q + 1 + p.windows.timeDifference) (by omega) (by omega), rfl⟩
    unfold createPreviousRightWindow previousWrites
    by_cases hc : q + 1 ∉ starts ∧ t ≤ q + 1 + p.windows.timeDifference
    · refine ⟨_, bind_eq_ok.mpr ⟨_, hpws, bind_eq_ok.mpr ⟨_, hpwe, if_pos hc⟩⟩, ?_⟩
      simp only [if_pos hc]
      exact createWindow_spec h (hlive.trans hc.2) (hi (by omega) (by omega)) (hi ht0 (by omega))
    · refine ⟨_, bind_eq_ok.mpr ⟨_, hpws, bind_eq_ok.mpr ⟨_, hpwe, if_neg hc⟩⟩, ?_⟩
      simp only [if_neg hc]
      exact h

theorem createRightWindow_spec (h : acc.1.Holds f) (ht : InTime p.windows t closeTime)
    {seed : Option (Int × VA)} (hseed : ∀ x ∈ seed, x.1 + p.windows.timeDifference ≤ i64Max)
    (already : Bool) :
    ∃ acc', p.createRightWindow k t closeTime seed already acc = .ok acc' ∧
      acc'.1.Holds (writeAll k (rightWrites t seed already) f) := by
  obtain ⟨ht0, hfits, hlive⟩ := ht
  have hW := p.windows.timeDifference_nonneg
  unfold createRightWindow rightWrites
  cases already with
  | true => exact ⟨acc, rfl, h⟩
  | false =>
    generalize hx : (seed.filter fun x => decide (t < x.1)) = o
    rcases o with _ | ⟨rts, ragg⟩
    · exact ⟨acc, rfl, h⟩
    · obtain ⟨hmem, hlt⟩ := Option.filter_eq_some_iff.mp hx
      have hlt' : t < rts := of_decide_eq_true hlt
      have hr : rts + p.windows.timeDifference ≤ i64Max := hseed _ hmem
      have hi : ∀ {x}, 0 ≤ x → x ≤ rts + p.windows.timeDifference → IsI64 x := fun h0 h1 =>
        ⟨le_trans (by decide) h0, h1.trans hr⟩
      have hrws := checkedI64_eq_ok.mpr ⟨hi (x := t + 1) (by omega) (by omega), rfl⟩
      have hrwe := checkedI64_eq_ok.mpr
        ⟨hi (x := t + 1 + p.windows.timeDifference) (by omega) (by omega), rfl⟩
      refine ⟨_, bind_eq_ok.mpr ⟨_, hrws, bind_eq_ok.mpr ⟨_, hrwe, rfl⟩⟩, ?_⟩
      exact createWindow_spec h (by omega) (hi (by omega) (by omega)) (hi (by omega) (by omega))

theorem createLeftWindow_spec (value : V) (h : acc.1.Holds f) (ht : InTime p.windows t closeTime)
    (hW : p.windows.timeDifference ≤ t) (sc : NormalScan VA) :
    (p.createLeftWindow k value t closeTime sc acc).1.Holds
      (writeAll k (leftWrites p k value t sc) f) := by
  obtain ⟨ht0, hfits, hlive⟩ := ht
  have hW0 := p.windows.timeDifference_nonneg
  have hi : ∀ {x}, 0 ≤ x → x ≤ t → IsI64 x := fun h0 h1 =>
    ⟨le_trans (by decide) h0, by omega⟩
  unfold createLeftWindow leftWrites
  by_cases hc : sc.leftWinAlreadyCreated
  · simpa [hc, writeAll] using h
  · simp only [hc, if_pos hlive]
    exact h.put k (hi (by omega) (by omega)) _ (hi ht0 le_rfl)

def Bounded (w : SlidingWindows) (f : K × Int → Option (Int × VA)) (k : K) : Prop :=
  ∀ {ws e}, f (k, ws) = some e → 0 ≤ ws ∧ ws ≤ e.1 ∧ e.1 ≤ ws + w.timeDifference ∧
    e.1 + w.timeDifference ≤ i64Max

structure Found (f : K × Int → Option (Int × VA)) (k : K) (a b : Int) (found : List (Int × Int × VA)) :
    Prop where
  mem_iff : ∀ e, e ∈ found ↔ f (k, e.1) = some e.2 ∧ a ≤ e.1 ∧ e.1 ≤ b
  sorted : found.Pairwise fun x y => x.1 < y.1

omit [DecidableEq K] in
theorem Bounded.isI64 {w : SlidingWindows} (hb : Bounded w f k) {ws : Int} {e : Int × VA}
    (hf : f (k, ws) = some e) : IsI64 ws ∧ IsI64 (ws + w.timeDifference) ∧ IsI64 e.1 := by
  obtain ⟨h0, h1, -, h2⟩ := hb hf
  have hW := w.timeDifference_nonneg
  simp only [IsI64, i64Min, i64Max] at *
  omega

theorem fetchWithTs_found (h : store.Holds f) (hb : Bounded p.windows f k) (hW : 1 ≤ p.windows.timeDifference)
    {a b : Int} (ha : IsTime a) (hb' : IsTime b) (hab : a ≤ b) :
    ∃ found, store.fetchWithTs k a b = .ok found ∧ Found f k a b found := by
  obtain ⟨found, hfound, hmem, hsorted⟩ := h.fetchWithTs (k := k) (fun hf => (hb hf).1) ha hb' hab
  refine ⟨found, hfound, fun e => (hmem e).trans (and_congr_right fun hf => and_congr_right fun _ => ?_),
    hsorted⟩
  -- a stored window ends within `i64`, so none starts at the last instant
  obtain ⟨-, h1, -, h2⟩ := hb hf
  obtain ⟨hb0, hb1⟩ := hb'
  simp only [saturatingAdd, i64Min, i64Max] at *
  omega

section Early

variable (p k value t)

def earlyScan (found : List (Int × Int × VA)) : EarlyScan VA := found.foldl (EarlyScan.visit t) .start

def earlyWrites (found : List (Int × Int × VA)) : List (Int × Int × VA) :=
  updateWrites p k value t (found.filter fun e => 0 < e.1 ∧ e.1 < t + 1)
    ++ rightWrites t ((earlyScan t found).rightSeed t) (earlyScan t found).rightWinAlreadyCreated
    ++ previousWrites p k value t (earlyScan t found).previousRecordTs (earlyScan t found).windowStartTimes
    ++ combinedWrites p k value t (earlyScan t found).combined

end Early

theorem processEarly_spec (value : V) (h : store.Holds f) (ht : InTime p.windows t closeTime)
    (htW : t < p.windows.timeDifference) (hb : Bounded p.windows f k) :
    ∃ found acc, Found f k 0 (t + 1) found ∧ p.processEarly store k value t closeTime = .ok acc ∧
      acc.1.Holds (writeAll k (earlyWrites p k value t found) f) := by
  obtain ⟨ht0, hfits, hlive⟩ := id ht
  have hit : IsI64 t := ⟨le_trans (by decide) ht0, by omega⟩
  obtain ⟨found, hfetch, hfound⟩ := fetchWithTs_found h hb (by omega) (a := 0) (b := t + 1)
    ⟨le_rfl, by decide⟩ ⟨by omega, by omega⟩ (by omega)
  have hf : ∀ {e}, e ∈ found → f (k, e.1) = some e.2 := fun he => ((hfound.mem_iff _).mp he).1
  have hsc : earlyScan t found = _ := earlyScan_eq ht0 found
  have hholds : ((store, []) : Progress K VA).1.Holds f := h
  obtain ⟨acc₁, h₁, hh₁⟩ := writeFound_spec (p := p) (k := k) value hholds hit closeTime
    (l := found.filter fun e => 0 < e.1 ∧ e.1 < t + 1)
    fun e he => hb.isI64 (hf (List.mem_of_mem_filter he))
  have hlast : ∀ {q e}, lastWith q found = some e → e ∈ found ∧ q e := fun he =>
    ⟨(lastWith_eq_some hfound.sorted he).1, (lastWith_eq_some hfound.sorted he).2.1⟩
  have hseed : ∀ x ∈ (earlyScan t found).rightSeed t, x.1 + p.windows.timeDifference ≤ i64Max := by
    intro x hx
    rw [hsc] at hx
    rcases Option.or_eq_some_iff.mp hx with hx | ⟨-, hx⟩
    · obtain ⟨e, he, rfl⟩ := Option.map_eq_some_iff.mp hx
      exact (hb (hf (hlast he).1)).2.2.2
    · obtain ⟨e, he, rfl⟩ := Option.map_eq_some_iff.mp (Option.filter_eq_some_iff.mp hx).1
      exact (hb (hf (hlast he).1)).2.2.2
  have hprev : ∀ q ∈ (earlyScan t found).previousRecordTs, 0 ≤ q ∧ q < t := by
    intro q hq
    rw [hsc] at hq
    obtain ⟨e, he, rfl⟩ := Option.map_eq_some_iff.mp hq
    obtain ⟨hmem, hp⟩ := hlast he
    obtain ⟨h0, h1, -⟩ := hb (hf hmem)
    exact ⟨h0.trans h1, (of_decide_eq_true hp).2⟩
  obtain ⟨acc₂, h₂, hh₂⟩ := createRightWindow_spec (p := p) (k := k) hh₁ ht hseed
    (earlyScan t found).rightWinAlreadyCreated
  obtain ⟨acc₃, h₃, hh₃⟩ := createPreviousRightWindow_spec (p := p) (k := k) value hh₂ ht hprev
    (earlyScan t found).windowStartTimes
  have hts : IsI64 (((earlyScan t found).combined.map fun x => max x.1 t).getD t) := by
    rcases hc : (earlyScan t found).combined with _ | x
    · exact hit
    · rw [hsc] at hc
      obtain ⟨e, he, rfl⟩ := Option.map_eq_some_iff.mp hc
      exact (hb.isI64 (hf (hlast he).1)).2.2.max hit
  refine ⟨found, _, hfound, bind_eq_ok.mpr ⟨found, hfetch, bind_eq_ok.mpr ⟨acc₁, ?_,
    bind_eq_ok.mpr ⟨acc₂, h₂, bind_eq_ok.mpr ⟨acc₃, h₃, rfl⟩⟩⟩⟩, ?_⟩
  · rw [List.foldlM_map] at h₁
    exact h₁
  · rw [earlyWrites, writeAll_append, writeAll_append, writeAll_append]
    exact createWindow_spec hh₃ (by omega) (by decide) hts

section Normal

variable (p k value t)

def normalWrites (closeTime : Int) (found : List (Int × Int × VA)) : List (Int × Int × VA) :=
  let sc := normalScan p.windows.timeDifference t closeTime (p.agg k value) found
  updateWrites p k value t
      (found.filter fun e => t ≤ e.1 + p.windows.timeDifference ∧ e.1 ≤ t)
    ++ previousWrites p k value t sc.previousRecordTs sc.windowStartTimes
    ++ leftWrites p k value t sc
    ++ rightWrites t sc.rightWinAgg sc.rightWinAlreadyCreated

end Normal

theorem processNormal_spec (value : V) (h : store.Holds f) (ht : InTime p.windows t closeTime)
    (hW : 1 ≤ p.windows.timeDifference) (htW : p.windows.timeDifference ≤ t) (hb : Bounded p.windows f k) :
    ∃ found acc, Found f k (max (t - 2 * p.windows.timeDifference) 0) (t + 1) found ∧
      p.processNormal store k value t closeTime = .ok acc ∧
      acc.1.Holds (writeAll k (normalWrites p k value t closeTime found) f) := by
  obtain ⟨ht0, hfits, hlive⟩ := id ht
  have hit : IsI64 t := ⟨le_trans (by decide) ht0, by omega⟩
  have htwice : IsI64 (2 * p.windows.timeDifference) :=
    ⟨le_trans (by decide) (show (0 : Int) ≤ _ by omega), by omega⟩
  have hnext : IsI64 (t + 1) := ⟨le_trans (by decide) (show (0 : Int) ≤ _ by omega), by omega⟩
  obtain ⟨found, hfetch, hfound⟩ := fetchWithTs_found h hb hW
    (a := max (t - 2 * p.windows.timeDifference) 0) (b := t + 1)
    ⟨by omega, by omega⟩ ⟨by omega, by omega⟩ (by omega)
  have hf : ∀ {e}, e ∈ found → f (k, e.1) = some e.2 := fun he => ((hfound.mem_iff _).mp he).1
  have hscan := normalScan_eq (W := p.windows.timeDifference) (by omega) t closeTime (p.agg k value)
    fun e he => (hb.isI64 (hf he)).2.1
  have hholds : ((store, []) : Progress K VA).1.Holds f := h
  obtain ⟨acc₁, h₁, hh₁⟩ := writeFound_spec (p := p) (k := k) value hholds hit closeTime
    (l := found.filter fun e => t ≤ e.1 + p.windows.timeDifference ∧ e.1 ≤ t)
    fun e he => hb.isI64 (hf (List.mem_of_mem_filter he))
  have hprev : ∀ q ∈ (normalScan p.windows.timeDifference t closeTime (p.agg k value)
      found).previousRecordTs, 0 ≤ q ∧ q < t := by
    intro q hq
    obtain ⟨e, he, rfl⟩ := Option.map_eq_some_iff.mp hq
    obtain ⟨hmem, hp, -⟩ := lastWith_eq_some hfound.sorted he
    obtain ⟨h0, h1, h2, -⟩ := hb (hf hmem)
    have hp' := of_decide_eq_true hp
    omega
  have hseed : ∀ x ∈ (normalScan p.windows.timeDifference t closeTime (p.agg k value)
      found).rightWinAgg, x.1 + p.windows.timeDifference ≤ i64Max := by
    intro x hx
    obtain ⟨e, he, rfl⟩ := Option.map_eq_some_iff.mp hx
    exact (hb (hf (List.mem_of_find?_eq_some he))).2.2.2
  obtain ⟨acc₂, h₂, hh₂⟩ := createPreviousRightWindow_spec (p := p) (k := k) value hh₁ ht hprev
    (normalScan p.windows.timeDifference t closeTime (p.agg k value) found).windowStartTimes
  have hh₃ := createLeftWindow_spec (k := k) value hh₂ ht htW
    (normalScan p.windows.timeDifference t closeTime (p.agg k value) found)
  obtain ⟨acc₄, h₄, hh₄⟩ := createRightWindow_spec (k := k) hh₃ ht hseed
    (normalScan p.windows.timeDifference t closeTime (p.agg k value) found).rightWinAlreadyCreated
  refine ⟨found, acc₄, hfound, bind_eq_ok.mpr ⟨_, checkedI64_eq_ok.mpr ⟨htwice, rfl⟩,
    bind_eq_ok.mpr ⟨_, checkedI64_eq_ok.mpr ⟨hnext, rfl⟩, bind_eq_ok.mpr ⟨found, hfetch,
      bind_eq_ok.mpr ⟨_, hscan, bind_eq_ok.mpr ⟨acc₁, h₁, bind_eq_ok.mpr ⟨acc₂, h₂, h₄⟩⟩⟩⟩⟩⟩, ?_⟩
  rw [normalWrites, writeAll_append, writeAll_append, writeAll_append]
  exact hh₄

end Specs

end KrabkaStreams
