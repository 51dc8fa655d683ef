import KrabkaStreams.Proofs.WindowRuns

/-!
# Emit-on-close windows are final

The drop rule keeps every closed window as it is (`tableOf_of_closed`), so the forwards of a run are the
closed windows of its table, each once (`windowRun_emitted`).
-/

namespace KrabkaStreams

open Runs Lists KStreamWindowAggregateProcessor

variable {K V VA : Type} [DecidableEq K] {w : TimeWindows} {init : VA} {agg : K → V → VA → VA}
  {recs : List (KeyedRecord K V)} {r : KeyedRecord K V}

theorem tableOf_snoc_of_closed {i : K × Int}
    (hc : i.2 + w.size < streamTimeOf (recs ++ [r]) - w.grace) :
    w.tableOf init agg (recs ++ [r]) i = w.tableOf init agg recs i := by
  rw [TimeWindows.tableOf_snoc, if_neg fun ht => absurd ht.2.2 (by omega)]

theorem tableOf_of_closed {i : K × Int} (hc : i.2 + w.size < streamTimeOf recs - w.grace)
    (rest : List (KeyedRecord K V)) :
    w.tableOf init agg (recs ++ rest) i = w.tableOf init agg recs i := by
  induction rest using List.reverseRecOn with
  | nil => rw [List.append_nil]
  | append_singleton rest r ih =>
    have hle := streamTimeOf_le_append recs (rest ++ [r])
    rw [← List.append_assoc] at hle ⊢
    rw [tableOf_snoc_of_closed (by omega), ih]

omit [DecidableEq K] in
@[simp] theorem closeOf_snoc (w : TimeWindows) (recs : List (KeyedRecord K V)) (r : KeyedRecord K V) :
    w.closeOf (recs ++ [r]) .onWindowClose = streamTimeOf (recs ++ [r]) - w.grace := by
  simp [TimeWindows.closeOf]

omit [DecidableEq K] in
theorem closeOf_le_snoc (h : ∀ x ∈ recs ++ [r], x.Timely) :
    w.closeOf recs .onWindowClose ≤ streamTimeOf (recs ++ [r]) - w.grace := by
  obtain ⟨h0, -⟩ := streamTimeOf_snoc_bounds h
  have hle := streamTimeOf_le_append recs [r]
  have hg := w.grace_le
  unfold TimeWindows.closeOf
  simp only [i64Min, i64Max] at hg ⊢
  split <;> omega

/-- The forwards of a run: the closed windows of its table, each once, call by call in order. -/
structure Emitted (w : TimeWindows) (init : VA) (agg : K → V → VA → VA) (recs : List (KeyedRecord K V))
    (outs : List (List (Record (Windowed K) (Change VA)))) : Prop where
  nodup : (outs.flatten.map Record.key).Nodup
  ordered : ∀ out ∈ outs, (out.map fun x => x.key.map (·.window.start)).Pairwise fun a b =>
    ∀ x ∈ a, ∀ y ∈ b, x ≤ y
  mem : ∀ x, x ∈ outs.flatten ↔ ∃ k ws ts v, w.tableOf init agg recs (k, ws) = some (ts, v) ∧
    ws + w.size < w.closeOf recs .onWindowClose ∧ x = w.finalAt k ws ts v

theorem Emitted.snoc (h : ∀ x ∈ recs ++ [r], x.Timely)
    {outs : List (List (Record (Windowed K) (Change VA)))} (he : Emitted w init agg recs outs)
    {due : List (K × Int × Int × VA)}
    (hmem : ∀ e, e ∈ due ↔ w.tableOf init agg (recs ++ [r]) (e.1, e.2.1) = some e.2.2 ∧
      w.closeOf recs .onWindowClose ≤ e.2.1 + w.size ∧
      e.2.1 + w.size < streamTimeOf (recs ++ [r]) - w.grace)
    (hn : (due.map fun e => (e.1, e.2.1)).Nodup) (hsorted : due.Pairwise fun a b => a.2.1 ≤ b.2.1) :
    Emitted w init agg (recs ++ [r])
      (outs ++ [due.map fun e => w.finalAt e.1 e.2.1 e.2.2.1 e.2.2.2]) where
  nodup := by
    rw [List.flatten_append, List.flatten_singleton, List.map_append, List.map_map]
    refine List.nodup_append.mpr ⟨he.nodup, ?_, ?_⟩
    · refine List.pairwise_map.mpr ((List.pairwise_map.mp hn).imp fun hne heq => hne ?_)
      simp only [Function.comp, TimeWindows.finalAt, TimeWindows.windowAt, Option.some.injEq,
        Windowed.mk.injEq, Window.mk.injEq] at heq
      exact Prod.ext heq.1 heq.2.1
    · -- a window of an earlier call ended before the last close time
      intro a ha b hb hab
      obtain ⟨x, hx, rfl⟩ := List.mem_map.mp ha
      obtain ⟨e, hdue, rfl⟩ := List.mem_map.mp hb
      obtain ⟨k, ws, ts, v, -, hlt, rfl⟩ := (he.mem x).mp hx
      have hge := ((hmem e).mp hdue).2.1
      simp only [Function.comp, TimeWindows.finalAt, TimeWindows.windowAt, Option.some.injEq,
        Windowed.mk.injEq, Window.mk.injEq] at hab
      omega
  ordered := by
    intro out hout
    rcases List.mem_append.mp hout with hold | hnew
    · exact he.ordered out hold
    · rw [List.mem_singleton.mp hnew, List.map_map]
      refine List.pairwise_map.mpr (hsorted.imp fun hle x hx y hy => ?_)
      simp only [Function.comp, TimeWindows.finalAt, TimeWindows.windowAt, Option.map_some,
        Option.mem_def, Option.some.injEq] at hx hy
      omega
  mem := by
    intro x
    have hle := closeOf_le_snoc (w := w) h
    rw [List.flatten_append, List.flatten_singleton, List.mem_append, he.mem, closeOf_snoc, List.mem_map]
    constructor
    · rintro (⟨k, ws, ts, v, hf, hlt, rfl⟩ | ⟨e, hdue, rfl⟩)
      · exact ⟨k, ws, ts, v, (tableOf_snoc_of_closed (i := (k, ws)) (by dsimp only; omega)).trans hf,
          by omega, rfl⟩
      · obtain ⟨hf, -, hlt⟩ := (hmem e).mp hdue
        exact ⟨e.1, e.2.1, e.2.2.1, e.2.2.2, hf, hlt, rfl⟩
    · rintro ⟨k, ws, ts, v, hf, hlt, rfl⟩
      by_cases hlast : w.closeOf recs .onWindowClose ≤ ws + w.size
      · exact .inr ⟨(k, ws, ts, v), (hmem _).mpr ⟨hf, hlast, hlt⟩, rfl⟩
      · rw [tableOf_snoc_of_closed (i := (k, ws)) hlt] at hf
        exact .inl ⟨k, ws, ts, v, hf, by omega, rfl⟩

variable {store s : WindowBytesStore K VA} {p : KStreamWindowAggregateProcessor K V VA}
  {outs : List (List (Record (Windowed K) (Change VA)))}

theorem windowRun_emitted (hs : store.Holds fun _ => none)
    (hrun : windowRun w init agg .onWindowClose store recs = .ok ((p, s), outs))
    (h : ∀ x ∈ recs, x.Timely) : Emitted w init agg recs outs := by
  induction recs using List.reverseRecOn generalizing p s outs with
  | nil =>
    cases hrun
    refine ⟨List.nodup_nil, by simp, fun x => ⟨by simp, ?_⟩⟩
    rintro ⟨k, ws, ts, v, hf, -⟩
    cases hf
  | append_singleton recs r ih =>
    obtain ⟨⟨p', s'⟩, os, out, hinit, hstep, rfl⟩ := run_snoc.mp hrun
    have hih := ih hinit (forall_mem_of_snoc h)
    obtain ⟨rfl, hholds⟩ := windowRun_inv hs hinit (forall_mem_of_snoc h)
    have hclose := closeTime_processorAfter w init agg .onWindowClose store.isCached h
    obtain ⟨starts, acc, final, hstarts, hacc, hfinal, hx⟩ := (process_onClose rfl hclose).mp hstep
    cases hx
    obtain ⟨hend, hout⟩ := loop_spec h hholds hstarts hacc
    obtain ⟨due, hdue, hmem, hn, hsorted⟩ := closedWindows_spec hend _ w.size_nonneg (closeTime_le w h)
      (emitClosedWindows_ok hfinal)
    cases hfinal.symm.trans hdue
    -- no round of the loop forwards in this mode
    have hnone : acc.2 = [] := by
      rw [hout]
      exact List.flatMap_eq_nil_iff.mpr fun _ _ => rfl
    rw [hnone, List.nil_append]
    exact hih.snoc h hmem hn hsorted

theorem closeOf_of_entry {i : K × Int} {b : Int × VA} (hf : w.tableOf init agg recs i = some b) :
    w.closeOf recs .onWindowClose = streamTimeOf recs - w.grace := by
  cases recs with
  | nil => cases hf
  | cons r recs => rfl

theorem exists_of_forwardsOf {k : K} {ws : Int} {out : List (Record (Windowed K) (Change VA))}
    (h : forwardsOf k ws out ≠ []) :
    ∃ x ∈ out, ∃ wk, x.key = some wk ∧ wk.key = k ∧ wk.window.start = ws := by
  obtain ⟨x, hx⟩ := List.exists_mem_of_ne_nil _ h
  obtain ⟨hm, hany⟩ := List.mem_filter.mp hx
  rcases hkey : x.key with _ | wk
  · simp [hkey] at hany
  · simp only [hkey, Option.any_some, decide_eq_true_eq] at hany
    exact ⟨x, hm, wk, hkey, hany⟩

/-- Every run whose records fit forwards final windows. -/
theorem emitsFinalWindows_iff_allFit {keySerde : Serde K} {valueSerde : Serde VA} (hk : keySerde.Lawful)
    (hv : valueSerde.Lawful) (topic : Topic) (size : Int) {store : WindowBytesStore K VA}
    (hstore : store = .inMemory keySerde valueSerde topic size ∨
      store = (WindowBytesStore.inMemory keySerde valueSerde topic size).enableCache)
    (w : TimeWindows) (init : VA) (agg : K → V → VA → VA) (recs : List (KeyedRecord K V))
    (h : ∀ x ∈ recs, x.Timely) :
    EmitsFinalWindows w init agg store recs ↔ w.AllFit .onWindowClose recs := by
  have hs : store.Holds fun _ => none := by
    rcases hstore with rfl | rfl
    · exact .inMemory hk hv topic size
    · exact .inMemory_enableCache hk hv topic size
  have hok : (∃ x, windowRun w init agg .onWindowClose store recs = .ok x) ↔
    w.AllFit .onWindowClose recs := windowRun_ok_iff hs h
  rw [← hok]
  constructor
  · intro hfinal
    obtain ⟨p, s, outs, hrun, -⟩ := hfinal recs List.prefix_rfl
    exact ⟨_, hrun⟩
  · rintro ⟨⟨⟨p, s⟩, outs⟩, hrun⟩ done ⟨rest, rfl⟩
    obtain ⟨⟨p', s'⟩, os, hdone, -⟩ := run_prefix hrun
    have hd : ∀ x ∈ done, x.Timely := fun x hx => h x (List.mem_append_left _ hx)
    have hholds := (windowRun_inv hs hdone hd).holds
    have he := windowRun_emitted hs hdone hd
    refine ⟨p', s', os, hdone, he.nodup, he.ordered, fun x => ?_, fun k ws hne => ?_⟩
    · rw [he.mem]
      constructor
      · rintro ⟨k, ws, ts, v, hf, hlt, rfl⟩
        have hw := (hholds.table.valid hf).1
        exact ⟨k, ws, ts, v, hw, hf ▸ hholds.fetchSingle k hw, closeOf_of_entry hf ▸ hlt, rfl⟩
      · rintro ⟨k, ws, ts, v, hw, hget, hlt, rfl⟩
        have hf := Except.ok.inj ((hholds.fetchSingle k hw).symm.trans hget)
        exact ⟨k, ws, ts, v, hf, (closeOf_of_entry hf).symm ▸ hlt, rfl⟩
    · obtain ⟨x, hx, wk, hkey, rfl, rfl⟩ := exists_of_forwardsOf hne
      obtain ⟨k, ws, ts, v, hf, hlt, rfl⟩ := (he.mem x).mp hx
      cases hkey
      rw [closeOf_of_entry hf] at hlt
      have hw := (hholds.table.valid hf).1
      have hsame : w.tableOf init agg (done ++ rest) (k, ws) = w.tableOf init agg done (k, ws) :=
        tableOf_of_closed hlt rest
      exact (hholds.fetchSingle k hw).trans (congrArg Except.ok hsame.symm)

/-- The close of no window is found at the last instant either: the call does not return. -/
theorem not_emitsFinalWindows_lastInstant : (recordAt 97 1 i64Max).Timely ∧
    ¬ EmitsFinalWindows unitWindows [] appendValue (bytesWindowStore 1) [recordAt 97 1 i64Max] := by
  refine ⟨by decide, fun hfinal => ?_⟩
  obtain ⟨_, _, _, hrun, -⟩ := hfinal _ List.prefix_rfl
  exact not_allFit_lastInstant .onWindowClose
    ((windowRun_ok_iff (bytesWindowStore_holds 1) (by decide)).mp ⟨_, hrun⟩)

theorem emitsFinalWindows_lateRecords :
    EmitsFinalWindows hoppingWindows [] appendValue (bytesWindowStore 10)
      [recordAt 97 1 0, recordAt 97 2 14, recordAt 97 3 7, recordAt 98 4 30] :=
  (emitsFinalWindows_iff_allFit bytesSerde_lawful bytesSerde_lawful _ _ (.inl rfl) _ _ _ _
    (by decide)).mpr (allFit_of_le (by decide) (by decide))

end KrabkaStreams
