import KrabkaStreams.Proofs.SlidingSteps
import KrabkaStreams.Proofs.Sessions

/-!
# The stored windows of a sliding aggregation are exact

`process_keeps` is the step: a call returns and keeps `SlideInv`. `slidesExactly_of_oneStraddles` is what
follows for whole runs.
-/

namespace KrabkaStreams

open Runs Lists KStreamSlidingWindowAggregateProcessor

variable {K V VA : Type} [DecidableEq K] {w : SlidingWindows} {init : VA} {agg : K → V → VA → VA}
  {emit : EmitStrategy} {recs : List (KeyedRecord K V)} {r : KeyedRecord K V}
  {f : K × Int → Option (Int × VA)} {p : KStreamSlidingWindowAggregateProcessor K V VA}
  {store : WindowBytesStore K VA} {closeTime : Int}

namespace KStreamSlidingWindowAggregateProcessor

/-- The processor of the DSL after `recs`. -/
structure RanOver (w : SlidingWindows) (init : VA) (agg : K → V → VA → VA) (emit : EmitStrategy)
    (recs : List (KeyedRecord K V)) (p : KStreamSlidingWindowAggregateProcessor K V VA) : Prop where
  windows : p.windows = w
  init : p.init = init
  agg : p.agg = agg
  emit : p.emit = emit
  streamTime : p.streamTime = streamTimeOf recs

def tick (p : KStreamSlidingWindowAggregateProcessor K V VA) (r : KeyedRecord K V) :
    KStreamSlidingWindowAggregateProcessor K V VA :=
  { p with streamTime := max p.streamTime r.timestamp }

omit [DecidableEq K] in
theorem RanOver.tick (h : p.RanOver w init agg emit recs) :
    (p.tick r).RanOver w init agg emit (recs ++ [r]) :=
  ⟨h.windows, h.init, h.agg, h.emit, by rw [streamTimeOf_snoc, ← h.streamTime]; rfl⟩

omit [DecidableEq K] in
theorem emitClosedWindows_returns (h : store.Holds f) (hc : closeTime ≤ i64Max)
    (hfit : i64Min ≤ closeTime - p.windows.timeDifference - 1) :
    ∃ final, p.emitClosedWindows store closeTime = .ok final := by
  obtain ⟨due, hdue, -⟩ := KStreamWindowAggregateProcessor.closedWindows_spec h p.lastEmittedClose
    p.windows.timeDifference_nonneg hc hfit
  exact ⟨_, hdue⟩

def written (p : KStreamSlidingWindowAggregateProcessor K V VA) (store : WindowBytesStore K VA)
    (r : KeyedRecord K V) (closeTime : Int) : Except ProcessorError (Progress K VA) :=
  if r.timestamp < p.windows.timeDifference
  then (p.tick r).processEarly (store.setRecordContext r.ctx) r.key r.value r.timestamp closeTime
  else (p.tick r).processNormal (store.setRecordContext r.ctx) r.key r.value r.timestamp closeTime

omit [DecidableEq K] in
theorem process_returns (hclose : IsI64 closeTime)
    (hct : closeTime = max p.streamTime r.timestamp - p.windows.grace)
    (ht : InTime p.windows r.timestamp closeTime) {acc : Progress K VA}
    (hw : p.written store r closeTime = .ok acc)
    (hemit : p.emit = .onWindowClose → ∃ final, (p.tick r).emitClosedWindows acc.1 closeTime = .ok final) :
    ∃ p' out, p.process store r.ctx r.toRecord = .ok ((p', acc.1), out) ∧
      (p' = p.tick r ∨ p' = { p.tick r with lastEmittedClose := closeTime }) := by
  have hW := p.windows.timeDifference_nonneg
  have hwe : IsI64 (r.timestamp + p.windows.timeDifference) :=
    ⟨le_trans (by decide) (show (0 : Int) ≤ _ by have := ht.nonneg; omega), ht.fits⟩
  have hlive : ¬ r.timestamp + p.windows.timeDifference < closeTime := by
    have := ht.live
    omega
  subst hct
  obtain ⟨windows, init, agg, streamTime, emit, lastEmittedClose, forwarder⟩ := p
  unfold process
  simp only [KeyedRecord.toRecord, checkedI64_eq_ok.mpr ⟨hclose, rfl⟩, checkedI64_eq_ok.mpr ⟨hwe, rfl⟩]
  cases emit with
  | onWindowUpdate =>
    exact ⟨_, _, (if_neg hlive).trans (ite_bind_of_ok hw), .inl rfl⟩
  | onWindowClose =>
    obtain ⟨final, hfinal⟩ := hemit rfl
    exact ⟨_, _, (if_neg hlive).trans ((ite_bind_of_ok hw).trans (bind_eq_ok.mpr ⟨final, hfinal, rfl⟩)),
      .inr rfl⟩

theorem process_keeps (hs : store.Holds f) (hcfg : p.RanOver w init agg emit recs)
    (hinv : SlideInv w init agg recs f) (hW : 1 ≤ w.timeDifference) (ht : ∀ x ∈ recs ++ [r], x.Timely)
    (hfits : ∀ x ∈ recs ++ [r], x.timestamp + w.timeDifference ≤ i64Max)
    (hlive : streamTimeOf (recs ++ [r]) - w.grace ≤ r.timestamp)
    (hclose : emit = .onWindowClose →
      i64Min ≤ streamTimeOf (recs ++ [r]) - w.grace - w.timeDifference - 1)
    (hone : w.timeDifference ≤ r.timestamp → Straddled w recs r f) :
    ∃ p' store' f' out, p.process store r.ctx r.toRecord = .ok ((p', store'), out) ∧
      store'.Holds f' ∧ p'.RanOver w init agg emit (recs ++ [r]) ∧
      SlideInv w init agg (recs ++ [r]) f' := by
  have hr : r.Timely := ht r (by simp)
  have ht' : ∀ x ∈ recs, x.Timely := fun x hx => ht x (List.mem_append_left _ hx)
  have hfits' : ∀ x ∈ recs, x.timestamp + w.timeDifference ≤ i64Max := fun x hx =>
    hfits x (List.mem_append_left _ hx)
  have hnow : IsTime (streamTimeOf (recs ++ [r])) := streamTimeOf_snoc_bounds ht
  have hg0 := w.grace_nonneg
  have hg1 := w.grace_le
  have hcfg' := hcfg.tick (r := r)
  obtain ⟨closeTime, hct⟩ : ∃ closeTime, closeTime = streamTimeOf (recs ++ [r]) - w.grace := ⟨_, rfl⟩
  have hi : IsI64 closeTime := by
    obtain ⟨h0, h1⟩ := hnow
    simp only [IsI64, i64Min, i64Max] at *
    omega
  have htime : InTime w r.timestamp closeTime := ⟨hr.1, hfits r (by simp), hct ▸ hlive⟩
  have hb : Bounded w f r.key := hinv.bounded ht' hfits' r.key
  have hct' : closeTime = max p.streamTime r.timestamp - p.windows.grace := by
    rw [hct, streamTimeOf_snoc, hcfg.streamTime, hcfg.windows]
  obtain ⟨acc, f', hwritten, hholds, hinv'⟩ : ∃ acc f', p.written store r closeTime = .ok acc ∧
      acc.1.Holds f' ∧ SlideInv w init agg (recs ++ [r]) f' := by
    have hs' := hs.setRecordContext r.ctx
    obtain ⟨rfl, rfl, rfl, -, -⟩ := hcfg'
    by_cases hc : r.timestamp < p.windows.timeDifference
    · obtain ⟨found, acc, hfound, hearly, hholds⟩ :=
        processEarly_spec (p := p.tick r) r.value hs' htime hc hb
      have hgood := earlyWrites_good hinv ht' hr hc hfound
      exact ⟨acc, _, (if_pos hc).trans hearly, hholds, hgood.slideInv hinv hr⟩
    · obtain ⟨found, acc, hfound, hnormal, hholds⟩ :=
        processNormal_spec (p := p.tick r) r.value hs' htime hW (not_lt.mp hc) hb
      have hgood := normalWrites_good hinv ht' hr (not_lt.mp hc) closeTime (hone (not_lt.mp hc)) hfound
      exact ⟨acc, _, (if_neg hc).trans hnormal, hholds, hgood.slideInv hinv hr⟩
  have hemit : p.emit = .onWindowClose →
      ∃ final, (p.tick r).emitClosedWindows acc.1 closeTime = .ok final := by
    intro he
    refine emitClosedWindows_returns hholds hi.2 ?_
    rw [hcfg'.windows, hct]
    exact hclose (hcfg.emit.symm.trans he)
  obtain ⟨p', out, hp, hp'⟩ := process_returns hi hct' (hcfg.windows ▸ htime) hwritten hemit
  refine ⟨p', acc.1, f', out, hp, hholds, ?_, hinv'⟩
  rcases hp' with rfl | rfl
  · exact hcfg'
  · exact ⟨hcfg'.windows, hcfg'.init, hcfg'.agg, hcfg'.emit, hcfg'.streamTime⟩

end KStreamSlidingWindowAggregateProcessor

section Run

omit [DecidableEq K] in
theorem WindowBytesStore.Holds.stores_iff {s : WindowBytesStore K VA} (h : s.Holds f) {k : K} {ws : Int}
    (hws : IsI64 ws) : s.Stores k ws ↔ ∃ e, f (k, ws) = some e := by
  unfold WindowBytesStore.Stores
  rw [h.fetchSingle k hws]
  simp only [Except.ok.injEq]

omit [DecidableEq K] in
theorem OneStraddles.straddled {store s : WindowBytesStore K VA}
    {outs : List (List (Record (Windowed K) (Change VA)))}
    (hone : OneStraddles w init agg emit store recs) {done : List (KeyedRecord K V)}
    (hpre : done ++ [r] <+: recs)
    (hrun : slidingRun w init agg emit store done = .ok ((p, s), outs)) (hs : s.Holds f) (hr : r.Timely)
    (hfits : r.timestamp + w.timeDifference ≤ i64Max) (hW : 1 ≤ w.timeDifference)
    (hWt : w.timeDifference ≤ r.timestamp) : Straddled w done r f := by
  rintro ⟨v, ⟨x, hx, hk, rfl⟩, hlt, hle⟩
  have hnext : r.timestamp + 1 ≤ i64Max := (Int.add_le_add_left hW _).trans hfits
  have hi : ∀ {a}, 0 ≤ a → a ≤ r.timestamp + 1 → IsI64 a := fun h0 h1 =>
    ⟨le_trans (by decide) h0, h1.trans hnext⟩
  have hr0 := hr.1
  rcases hone done r hpre hWt ⟨x, hx, hk, hlt, hle⟩ p s outs hrun with hnext | honly
  · exact .inl ((hs.stores_iff (hi (by omega) le_rfl)).mp hnext)
  · refine .inr fun a b ha hat hfa hb hbt hfb => honly a b ha hat ?_ hb hbt ?_
    · exact (hs.stores_iff (hi (by omega) (by omega))).mpr hfa
    · exact (hs.stores_iff (hi (by omega) (by omega))).mpr hfb

theorem slidingRun_keeps {store : WindowBytesStore K VA} (hs : store.Holds fun _ => none)
    (hW : 1 ≤ w.timeDifference) (ht : ∀ x ∈ recs, x.Timely) (hon : w.OnTime recs)
    (hfits : w.Fits emit recs) (hone : OneStraddles w init agg emit store recs) :
    ∀ {done : List (KeyedRecord K V)}, done <+: recs →
      ∃ p s outs f, slidingRun w init agg emit store done = .ok ((p, s), outs) ∧ s.Holds f ∧
        p.RanOver w init agg emit done ∧ SlideInv w init agg done f := by
  intro done
  induction done using List.reverseRecOn with
  | nil => exact fun _ => ⟨_, _, _, _, rfl, hs, ⟨rfl, rfl, rfl, rfl, rfl⟩, .empty w init agg⟩
  | append_singleton done r ih =>
    intro hpre
    obtain ⟨p, s, outs, f, hrun, hf, hcfg, hinv⟩ := ih ((List.prefix_append _ _).trans hpre)
    have ht' : ∀ x ∈ done ++ [r], x.Timely := fun x hx => ht x (hpre.subset hx)
    have hfit : ∀ x ∈ recs, x.timestamp + w.timeDifference ≤ i64Max := by
      intro x hx
      obtain ⟨before, after, rfl⟩ := List.append_of_mem hx
      exact (hfits before x (by simp)).1
    have hr : r ∈ recs := hpre.subset (by simp)
    obtain ⟨p', s', f', out, hp, hf', hcfg', hinv'⟩ := process_keeps hf hcfg hinv hW ht'
      (fun x hx => hfit x (hpre.subset hx)) (hon done r hpre) (hfits done r hpre).2
      fun hWt => hone.straddled hpre hrun hf (ht r hr) (hfit r hr) hW hWt
    exact ⟨p', s', outs ++ [out], f', run_snoc.mpr ⟨(p, s), outs, out, hrun, hp, rfl⟩, hf', hcfg', hinv'⟩

/-- Every window of a sliding aggregation is exact, over every run in which no step finds several windows
that straddle its record. -/
theorem slidesExactly_of_oneStraddles {store : WindowBytesStore K VA} (hs : store.Holds fun _ => none)
    (w : SlidingWindows) (init : VA) (agg : K → V → VA → VA) (emit : EmitStrategy)
    (recs : List (KeyedRecord K V)) (hW : 1 ≤ w.timeDifference) (ht : ∀ x ∈ recs, x.Timely)
    (hon : w.OnTime recs) (hfits : w.Fits emit recs)
    (hone : OneStraddles w init agg emit store recs) :
    SlidesExactly w init agg emit store recs := by
  obtain ⟨p, s, outs, f, hrun, hf, -, hinv⟩ :=
    slidingRun_keeps hs hW ht hon hfits hone List.prefix_rfl
  refine ⟨p, s, outs, hrun, fun k ws hws => ⟨f (k, ws), hf.fetchSingle k hws, ?_⟩, fun r hr => ?_⟩
  · rcases he : f (k, ws) with _ | e
    · exact .inl rfl
    · exact .inr (hinv.exact he).symm
  · have hd := (hinv.slides r.key).left ⟨r, hr, rfl, rfl⟩
    refine (hf.stores_iff ?_).mpr hd
    obtain ⟨h0, h1⟩ := ht r hr
    simp only [SlidingWindows.leftStart, IsI64, i64Min, i64Max] at *
    omega

end Run

section Samples

def tenSliding : SlidingWindows where
  timeDifference := 10
  grace := 100
  timeDifference_nonneg := tenGap.gap_nonneg
  timeDifference_le := tenGap.gap_le
  grace_nonneg := by decide
  grace_le := by decide

def countWindowStore : WindowBytesStore Bytes Nat := .inMemory bytesSerde countSerde "app-w-changelog" 10

theorem countWindowStore_holds : countWindowStore.Holds fun _ => none :=
  .inMemory bytesSerde_lawful countSerde_lawful _ _

def countOne : Bytes → Bytes → Nat → Nat := fun _ _ n => n + 1

omit [DecidableEq K] in
theorem SlidingWindows.onTime_of_le (h : ∀ x ∈ recs, 0 ≤ x.timestamp ∧ x.timestamp ≤ w.grace) :
    w.OnTime recs := by
  intro done r hpre
  have hnow : streamTimeOf (done ++ [r]) ≤ w.grace :=
    streamTimeOf_le (le_trans (by decide) w.grace_nonneg) fun x hx => (h x (hpre.subset hx)).2
  have hr := (h r (hpre.subset (by simp))).1
  omega

omit [DecidableEq K] in
theorem SlidingWindows.fits_onWindowUpdate (h : ∀ x ∈ recs, x.timestamp + w.timeDifference ≤ i64Max) :
    w.Fits .onWindowUpdate recs :=
  fun _ r hpre => ⟨h r (hpre.subset (by simp)), nofun⟩

def lateBetween : List (KeyedRecord Bytes Bytes) := [recordAt 97 1 15, recordAt 97 2 20, recordAt 97 3 18]

/-- The window right after the late record counts the record before it. -/
theorem not_slidesExactly_lateBetween :
    (∀ x ∈ lateBetween, x.Timely) ∧ tenSliding.OnTime lateBetween ∧
      tenSliding.Fits .onWindowUpdate lateBetween ∧
      ¬ SlidesExactly tenSliding 0 countOne .onWindowUpdate countWindowStore lateBetween := by
  refine ⟨by decide, SlidingWindows.onTime_of_le (by decide),
    SlidingWindows.fits_onWindowUpdate (by decide), ?_⟩
  rintro ⟨p, s, outs, hrun, hexact, -⟩
  have hcomputed : (do
      let r ← slidingRun tenSliding 0 countOne .onWindowUpdate countWindowStore lateBetween
      r.1.2.fetchSingle [97] 19) = .ok (some (20, 2)) := by decide +kernel
  rw [hrun] at hcomputed
  obtain ⟨o, ho, hor⟩ := hexact [97] 19 (by decide)
  obtain rfl : o = some (20, 2) := Except.ok.inj (ho.symm.trans hcomputed)
  exact absurd hor (by decide)

section OneAtATime

variable {store : WindowBytesStore K VA}

omit [DecidableEq K] in
theorem oneStraddles_nil : OneStraddles w init agg emit store ([] : List (KeyedRecord K V)) := by
  intro done r hpre
  have := List.prefix_nil.mp hpre
  simp at this

omit [DecidableEq K] in
theorem OneStraddles.snoc (h : OneStraddles w init agg emit store recs)
    (hr : w.timeDifference ≤ r.timestamp →
      (∃ x ∈ recs, x.key = r.key ∧ r.timestamp < x.timestamp ∧
        x.timestamp ≤ r.timestamp + w.timeDifference) →
      ∀ p s outs, slidingRun w init agg emit store recs = .ok ((p, s), outs) →
        s.Stores r.key (r.timestamp + 1) ∨
          ∀ a b, r.timestamp - w.timeDifference < a → a ≤ r.timestamp → s.Stores r.key a →
            r.timestamp - w.timeDifference < b → b ≤ r.timestamp → s.Stores r.key b → a = b) :
    OneStraddles w init agg emit store (recs ++ [r]) := by
  intro done x hpre
  rcases List.prefix_concat_iff.mp hpre with he | hpre
  · obtain ⟨rfl, hx⟩ := List.append_inj' he rfl
    obtain rfl : x = r := List.singleton_inj.mp hx
    exact hr
  · exact h done x hpre

end OneAtATime

theorem stored_at_ten : ∀ n : Fin 10, (6 : Int) + (n.val : Int) ≠ 10 → (do
    let r ← slidingRun tenSliding 0 countOne .onWindowUpdate countWindowStore [recordAt 97 1 20]
    r.1.2.fetchSingle [97] (6 + (n.val : Int))) = .ok none := by decide +kernel

/-- A record before a later one that one window straddles, early records and a second key. -/
theorem slidesExactly_outOfOrder :
    SlidesExactly tenSliding 0 countOne .onWindowUpdate countWindowStore
      [recordAt 97 1 20, recordAt 97 2 15, recordAt 98 3 30, recordAt 97 4 4] := by
  refine slidesExactly_of_oneStraddles countWindowStore_holds _ _ _ _ _ (by decide) (by decide)
    (SlidingWindows.onTime_of_le (by decide)) (SlidingWindows.fits_onWindowUpdate (by decide)) ?_
  have h1 : OneStraddles tenSliding 0 countOne .onWindowUpdate countWindowStore [recordAt 97 1 20] :=
    oneStraddles_nil.snoc fun _ ⟨x, hx, _⟩ => by cases hx
  have h2 : OneStraddles tenSliding 0 countOne .onWindowUpdate countWindowStore
      [recordAt 97 1 20, recordAt 97 2 15] := by
    refine h1.snoc fun _ _ p s outs hrun => .inr ?_
    have hten : ∀ {a}, (5 : Int) < a → a ≤ 15 → s.Stores [97] a → a = 10 := by
      rintro a ha hle ⟨e, he⟩
      by_contra hne
      have hnone := stored_at_ten ⟨(a - 6).toNat, by omega⟩ (by dsimp only; omega)
      rw [hrun, show (6 : Int) + ((a - 6).toNat : Int) = a by omega] at hnone
      cases he.symm.trans hnone
    intro a b ha hat hsa hb hbt hsb
    rw [hten ha hat hsa, hten hb hbt hsb]
  have h3 : OneStraddles tenSliding 0 countOne .onWindowUpdate countWindowStore
      [recordAt 97 1 20, recordAt 97 2 15, recordAt 98 3 30] :=
    h2.snoc fun _ hlater => absurd hlater (by decide)
  exact h3.snoc fun hWt _ => absurd hWt (by decide)

end Samples

end KrabkaStreams
