import KrabkaStreams.Proofs.WindowAggregate

/-!
# Runs of the time-window aggregation

After every run the store holds the table of the records read (`WindowInv`), and a call returns exactly
when its record fits (`process_ok_iff`).
-/

namespace KrabkaStreams

open Runs Lists KStreamWindowAggregateProcessor

variable {K V VA : Type} {w : TimeWindows} {init : VA} {agg : K → V → VA → VA} {emit : EmitStrategy}
  {cached : Bool} {recs : List (KeyedRecord K V)} {r : KeyedRecord K V} {s : WindowBytesStore K VA}
  {starts : List Int}

def TimeWindows.closeOf (w : TimeWindows) (recs : List (KeyedRecord K V)) : EmitStrategy → Int
  | .onWindowUpdate => i64Min
  | .onWindowClose => if recs.isEmpty then i64Min else streamTimeOf recs - w.grace

def processorAfter (w : TimeWindows) (init : VA) (agg : K → V → VA → VA) (emit : EmitStrategy)
    (cached : Bool) (recs : List (KeyedRecord K V)) : KStreamWindowAggregateProcessor K V VA :=
  { KStreamWindowAggregateProcessor.supply w init agg emit cached with
    streamTime := streamTimeOf recs, lastEmittedClose := w.closeOf recs emit }

section After

variable (w init agg emit cached recs)

@[simp] theorem processorAfter_windows : (processorAfter w init agg emit cached recs).windows = w := rfl

@[simp] theorem processorAfter_streamTime :
    (processorAfter w init agg emit cached recs).streamTime = streamTimeOf recs := rfl

end After

theorem closeTime_eq (w : TimeWindows) (h : ∀ x ∈ recs ++ [r], x.Timely) :
    saturatingSub (max (streamTimeOf recs) r.timestamp) w.grace = streamTimeOf (recs ++ [r]) - w.grace := by
  obtain ⟨h0, h1⟩ := streamTimeOf_snoc_bounds h
  have hg := w.grace_nonneg
  have hg' := w.grace_le
  rw [← streamTimeOf_snoc]
  simp only [saturatingSub, i64Min, i64Max] at h1 hg' ⊢
  omega

theorem closeTime_processorAfter (w : TimeWindows) (init : VA) (agg : K → V → VA → VA)
    (emit : EmitStrategy) (cached : Bool) (h : ∀ x ∈ recs ++ [r], x.Timely) :
    streamTimeOf (recs ++ [r]) - w.grace
      = saturatingSub (max (processorAfter w init agg emit cached recs).streamTime r.timestamp)
        (processorAfter w init agg emit cached recs).windows.grace := by
  rw [processorAfter_streamTime, processorAfter_windows, closeTime_eq w h]

theorem closeTime_le (w : TimeWindows) (h : ∀ x ∈ recs ++ [r], x.Timely) :
    streamTimeOf (recs ++ [r]) - w.grace ≤ i64Max := by
  have h1 := (streamTimeOf_snoc_bounds h).2
  have hg := w.grace_nonneg
  omega

theorem TimeWindows.Covers.isI64 {ws t : Int} (h : w.Covers ws t) (ht : t ≤ i64Max) :
    IsI64 ws ∧ 0 ≤ ws := by
  obtain ⟨h0, -, hle, -⟩ := h
  simp only [IsI64, i64Min, i64Max] at ht ⊢
  omega

theorem open_iff (h : ∀ x ∈ recs ++ [r], x.Timely) {ws : Int} (hw : 0 ≤ ws) :
    windowIsClosed ws w.size (streamTimeOf (recs ++ [r]) - w.grace) = false ↔
      streamTimeOf (recs ++ [r]) - w.grace ≤ ws + w.size := by
  have hadv := w.advance_pos
  have hsize := w.advance_le_size
  have hc := windowIsClosed_iff hw (by omega : 0 ≤ w.size) (closeTime_le w h)
  rw [← Bool.not_eq_true, hc, not_lt]

section Step

variable [DecidableEq K]

theorem advanced_eq_tableOf (h : ∀ x ∈ recs ++ [r], x.Timely)
    (hs : ∀ ws, ws ∈ starts ↔ w.Covers ws r.timestamp) :
    (processorAfter w init agg emit cached recs).advanced (streamTimeOf (recs ++ [r]) - w.grace) r starts
      (w.tableOf init agg recs) = w.tableOf init agg (recs ++ [r]) := by
  funext i
  rw [TimeWindows.tableOf_snoc]
  refine if_congr ?_ rfl rfl
  rw [eq_comm]
  refine and_congr_right fun _ => ?_
  rw [hs]
  exact and_congr_right fun hcov => open_iff h hcov.1

theorem loop_spec (h : ∀ x ∈ recs ++ [r], x.Timely) (hs : s.Holds (w.tableOf init agg recs))
    {acc : Progress K VA} (hstarts : w.windowsFor r.timestamp = .ok starts)
    (hacc : starts.foldlM ((processorAfter w init agg emit cached recs).round (streamTimeOf (recs ++ [r]) - w.grace) r) (s, []) = .ok acc) :
    acc.1.Holds (w.tableOf init agg (recs ++ [r])) ∧
      acc.2 = (starts.filter fun ws =>
          !windowIsClosed ws w.size (streamTimeOf (recs ++ [r]) - w.grace)).flatMap
        ((processorAfter w init agg emit cached recs).forwardsFor r (w.tableOf init agg recs)) := by
  have hr := h r (by simp)
  obtain ⟨hmem, hsorted⟩ := w.windowsFor_spec hr.1 hstarts
  have hrange : ∀ ws ∈ starts, IsI64 ws := fun ws hws => (((hmem ws).mp hws).isI64 hr.2).1
  obtain ⟨hend, hout⟩ := rounds_spec hr (hsorted.imp fun hlt => hlt.ne) hrange hs hacc
  rw [advanced_eq_tableOf h hmem] at hend
  exact ⟨hend, hout⟩

theorem loop_ok_iff (h : ∀ x ∈ recs ++ [r], x.Timely) (hs : s.Holds (w.tableOf init agg recs))
    (hstarts : w.windowsFor r.timestamp = .ok starts) :
    (∃ acc, starts.foldlM ((processorAfter w init agg emit cached recs).round
      (streamTimeOf (recs ++ [r]) - w.grace) r) (s, []) = .ok acc) ↔
      (emit = .onWindowUpdate → ∀ ws, w.Covers ws r.timestamp → ws + w.size ≤ i64Max) := by
  have hr := h r (by simp)
  have hc := closeTime_le w h
  obtain ⟨hmem, -⟩ := w.windowsFor_spec hr.1 hstarts
  refine (rounds_ok_iff hr (fun ws hws => ((hmem ws).mp hws).isI64 hr.2) hs).trans ?_
  constructor
  · intro hfit he ws hws
    by_contra hover
    refine hover (hfit ws ((hmem ws).mpr hws) ?_ he)
    -- a window whose end leaves `i64` is open
    rw [processorAfter_windows]
    exact (open_iff h hws.1).mpr (by omega)
  · exact fun hfit ws hws _ he => hfit he ws ((hmem ws).mp hws)

theorem process_spec (h : ∀ x ∈ recs ++ [r], x.Timely) {s s' : WindowBytesStore K VA}
    (hs : s.Holds (w.tableOf init agg recs)) {p' : KStreamWindowAggregateProcessor K V VA}
    {out : List (Record (Windowed K) (Change VA))}
    (hp : (processorAfter w init agg emit cached recs).process s r.ctx r.toRecord = .ok ((p', s'), out)) :
    p' = processorAfter w init agg emit cached (recs ++ [r]) ∧
      s'.Holds (w.tableOf init agg (recs ++ [r])) := by
  have hclose := closeTime_processorAfter w init agg emit cached h
  cases emit with
  | onWindowUpdate =>
    obtain ⟨starts, acc, hstarts, hacc, hx⟩ := (process_onUpdate rfl hclose).mp hp
    cases hx
    refine ⟨?_, (loop_spec h hs hstarts hacc).1⟩
    unfold processorAfter
    rw [streamTimeOf_snoc]
    rfl
  | onWindowClose =>
    obtain ⟨starts, acc, final, hstarts, hacc, hfinal, hx⟩ := (process_onClose rfl hclose).mp hp
    cases hx
    refine ⟨?_, (loop_spec h hs hstarts hacc).1⟩
    unfold processorAfter TimeWindows.closeOf
    rw [streamTimeOf_snoc]
    simp

theorem process_ok_iff (h : ∀ x ∈ recs ++ [r], x.Timely) (hs : s.Holds (w.tableOf init agg recs)) :
    (∃ x, (processorAfter w init agg emit cached recs).process s r.ctx r.toRecord = .ok x) ↔
      w.Fits emit (streamTimeOf (recs ++ [r])) r := by
  have hclose := closeTime_processorAfter w init agg emit cached h
  have hr := h r (by simp)
  have hsize := w.advance_le_size
  cases emit with
  | onWindowUpdate =>
    constructor
    · rintro ⟨x, hp⟩
      obtain ⟨starts, acc, hstarts, hacc, -⟩ := (process_onUpdate rfl hclose).mp hp
      exact (loop_ok_iff h hs hstarts).mp ⟨acc, hacc⟩ rfl
    · intro hfit
      obtain ⟨starts, hstarts⟩ := (w.windowsFor_ok_iff hr.1).mpr fun ws hws => by
        have := hfit ws hws
        omega
      obtain ⟨acc, hacc⟩ := (loop_ok_iff h hs hstarts).mpr fun _ => hfit
      exact ⟨_, (process_onUpdate rfl hclose).mpr ⟨starts, acc, hstarts, hacc, rfl⟩⟩
  | onWindowClose =>
    constructor
    · rintro ⟨x, hp⟩
      obtain ⟨starts, acc, final, hstarts, hacc, hfinal, -⟩ := (process_onClose rfl hclose).mp hp
      exact ⟨(w.windowsFor_ok_iff hr.1).mp ⟨starts, hstarts⟩, emitClosedWindows_ok hfinal⟩
    · rintro ⟨hfit, hlow⟩
      obtain ⟨starts, hstarts⟩ := (w.windowsFor_ok_iff hr.1).mpr hfit
      have hloop : ∃ acc, starts.foldlM ((processorAfter w init agg .onWindowClose cached recs).round
          (streamTimeOf (recs ++ [r]) - w.grace) r) (s, []) = .ok acc :=
        (loop_ok_iff h hs hstarts).mpr fun he => by cases he
      obtain ⟨acc, hacc⟩ := hloop
      obtain ⟨due, hdue, -⟩ := closedWindows_spec (loop_spec h hs hstarts hacc).1 _ w.size_nonneg
        (closeTime_le w h) hlow
      exact ⟨_, (process_onClose rfl hclose).mpr ⟨starts, acc, _, hstarts, hacc, hdue, rfl⟩⟩

theorem process_changes (h : ∀ x ∈ recs ++ [r], x.Timely) (hs : s.Holds (w.tableOf init agg recs))
    {x : KStreamWindowAggregateProcessor K V VA × WindowBytesStore K VA}
    {out : List (Record (Windowed K) (Change VA))}
    (hp : (processorAfter w init agg .onWindowUpdate false recs).process s r.ctx r.toRecord = .ok (x, out)) :
    ∃ taken : List Int, taken.Nodup ∧
      (∀ ws, ws ∈ taken ↔ w.Takes r.key ws (streamTimeOf (recs ++ [r])) r) ∧
      out = taken.map fun ws => w.changeWith init agg r.key ws r (w.tableOf init agg recs (r.key, ws)) := by
  have hclose := closeTime_processorAfter w init agg .onWindowUpdate false h
  obtain ⟨starts, acc, hstarts, hacc, hx⟩ := (process_onUpdate rfl hclose).mp hp
  cases hx
  obtain ⟨hmem, hsorted⟩ := w.windowsFor_spec (h r (by simp)).1 hstarts
  refine ⟨_, (hsorted.imp fun hlt => hlt.ne).filter _, fun ws => ?_,
    (loop_spec h hs hstarts hacc).2.trans (List.flatMap_pure_eq_map _ _)⟩
  rw [List.mem_filter, hmem, Bool.not_eq_true']
  exact (and_congr_right fun hcov => open_iff h hcov.1).trans (iff_and_self.mpr fun _ => rfl)

theorem forwardsOf_append (k : K) (ws : Int) (a b : List (Record (Windowed K) (Change VA))) :
    forwardsOf k ws (a ++ b) = forwardsOf k ws a ++ forwardsOf k ws b :=
  List.filter_append ..

theorem forwardsOf_taken {taken : List Int} (hn : taken.Nodup)
    (hmem : ∀ ws, ws ∈ taken ↔ w.Takes r.key ws (streamTimeOf (recs ++ [r])) r)
    (f : K × Int → Option (Int × VA)) (k : K) (ws : Int) :
    forwardsOf k ws (taken.map fun ws => w.changeWith init agg r.key ws r (f (r.key, ws)))
      = if w.Takes k ws (streamTimeOf (recs ++ [r])) r then [w.changeWith init agg k ws r (f (k, ws))]
        else [] := by
  by_cases hk : r.key = k
  · subst hk
    unfold forwardsOf
    rw [filter_map_of_nodup (a := ws) _ hn fun x _ => by simp [TimeWindows.changeWith, TimeWindows.windowAt]]
    exact if_congr (hmem ws) rfl rfl
  · rw [if_neg fun ht => hk ht.1]
    refine List.filter_eq_nil_iff.mpr fun x hx => ?_
    obtain ⟨ws', -, rfl⟩ := List.mem_map.mp hx
    simp [TimeWindows.changeWith, TimeWindows.windowAt, hk]

end Step

section Run

variable [DecidableEq K] {store s : WindowBytesStore K VA} {p : KStreamWindowAggregateProcessor K V VA}
  {outs : List (List (Record (Windowed K) (Change VA)))}

omit [DecidableEq K] in
theorem forall_mem_of_snoc {P : KeyedRecord K V → Prop} (h : ∀ x ∈ recs ++ [r], P x) :
    ∀ x ∈ recs, P x :=
  fun x hx => h x (List.mem_append_left _ hx)

structure WindowInv (w : TimeWindows) (init : VA) (agg : K → V → VA → VA) (emit : EmitStrategy)
    (cached : Bool) (recs : List (KeyedRecord K V))
    (x : KStreamWindowAggregateProcessor K V VA × WindowBytesStore K VA) : Prop where
  state : x.1 = processorAfter w init agg emit cached recs
  holds : x.2.Holds (w.tableOf init agg recs)

theorem windowRun_inv (hs : store.Holds fun _ => none) (hrun : windowRun w init agg emit store recs
    = .ok ((p, s), outs)) (h : ∀ x ∈ recs, x.Timely) :
    WindowInv w init agg emit store.isCached recs (p, s) := by
  refine run_induction (I := fun recs x _ => (∀ r ∈ recs, r.Timely) →
    WindowInv w init agg emit store.isCached recs x) ?_ ?_ hrun h
  · intro _
    refine ⟨?_, hs⟩
    cases emit <;> rfl
  · intro recs r x x' _ out hinv hstep h
    obtain ⟨p, s⟩ := x
    obtain ⟨rfl, hholds⟩ := hinv (forall_mem_of_snoc h)
    obtain ⟨hp, hs'⟩ := process_spec h hholds hstep
    exact ⟨hp, hs'⟩

omit [DecidableEq K] in
theorem allFit_snoc : w.AllFit emit (recs ++ [r]) ↔
    w.AllFit emit recs ∧ w.Fits emit (streamTimeOf (recs ++ [r])) r := by
  constructor
  · exact fun h => ⟨fun done x hx => h done x (hx.trans (List.prefix_append _ _)),
      h recs r List.prefix_rfl⟩
  · rintro ⟨hinit, hlast⟩ done x hx
    rcases List.prefix_concat_iff.mp hx with heq | hx
    · obtain ⟨rfl, hxr⟩ := List.append_inj' heq rfl
      cases hxr
      exact hlast
    · exact hinit done x hx

theorem windowRun_ok_iff (hs : store.Holds fun _ => none) (h : ∀ x ∈ recs, x.Timely) :
    (∃ x, windowRun w init agg emit store recs = .ok x) ↔ w.AllFit emit recs := by
  induction recs using List.reverseRecOn with
  | nil =>
    refine ⟨fun _ done x hx => ?_, fun _ => ⟨_, rfl⟩⟩
    simpa using hx.length_le
  | append_singleton recs r ih =>
    rw [allFit_snoc, ← ih (forall_mem_of_snoc h)]
    constructor
    · rintro ⟨⟨x, outs⟩, hrun⟩
      obtain ⟨⟨p, s⟩, os, out, hinit, hstep, -⟩ := run_snoc.mp hrun
      obtain ⟨rfl, hholds⟩ := windowRun_inv hs hinit (forall_mem_of_snoc h)
      exact ⟨⟨_, hinit⟩, (process_ok_iff h hholds).mp ⟨_, hstep⟩⟩
    · rintro ⟨⟨⟨⟨p, s⟩, os⟩, hinit⟩, hfit⟩
      obtain ⟨rfl, hholds⟩ := windowRun_inv hs hinit (forall_mem_of_snoc h)
      obtain ⟨⟨x, out⟩, hstep⟩ := (process_ok_iff h hholds).mpr hfit
      exact ⟨_, run_snoc.mpr ⟨_, os, out, hinit, hstep, rfl⟩⟩

theorem windowRun_chain (hs : store.Holds fun _ => none) (hu : store.isCached = false)
    (hrun : windowRun w init agg .onWindowUpdate store recs = .ok ((p, s), outs))
    (h : ∀ x ∈ recs, x.Timely) (k : K) (ws : Int) :
    forwardsOf k ws outs.flatten = w.chainOf init agg k ws (w.accepted k ws recs) := by
  induction recs using List.reverseRecOn generalizing p s outs with
  | nil =>
    cases hrun
    rfl
  | append_singleton recs r ih =>
    obtain ⟨⟨p', s'⟩, os, out, hinit, hstep, rfl⟩ := run_snoc.mp hrun
    have hih := ih hinit (forall_mem_of_snoc h)
    obtain ⟨rfl, hholds⟩ := windowRun_inv hs hinit (forall_mem_of_snoc h)
    rw [hu] at hstep
    obtain ⟨taken, hn, hmem, rfl⟩ := process_changes h hholds hstep
    rw [List.flatten_append, List.flatten_singleton, forwardsOf_append, hih,
      forwardsOf_taken hn hmem, TimeWindows.accepted_snoc]
    split
    · exact (TimeWindows.chainOf_snoc init agg k w ws _ r).symm
    · rw [List.append_nil, List.append_nil]

omit [DecidableEq K] in
theorem allFit_of_le (h : ∀ r ∈ recs, 0 ≤ r.timestamp ∧ r.timestamp + w.size ≤ i64Max)
    (hw : w.grace + w.size < i64Max) : w.AllFit emit recs := by
  intro done r hpre
  have hr := h r (hpre.subset (by simp))
  have hadv := w.advance_le_size
  have hnow : r.timestamp ≤ streamTimeOf (done ++ [r]) := by
    rw [streamTimeOf_snoc]
    exact le_max_right _ _
  cases emit with
  | onWindowUpdate =>
    rintro ws ⟨-, -, hle, -⟩
    omega
  | onWindowClose =>
    refine ⟨fun ws ⟨_, _, hle, _⟩ => by omega, ?_⟩
    simp only [i64Min, i64Max] at hw ⊢
    omega

/-- The aggregation computes what it is for, over every run whose records fit. -/
theorem aggregatesExactly_iff_allFit {keySerde : Serde K} {valueSerde : Serde VA} (hk : keySerde.Lawful)
    (hv : valueSerde.Lawful) (topic : Topic) (size : Int) (w : TimeWindows) (init : VA)
    (agg : K → V → VA → VA) (emit : EmitStrategy) (recs : List (KeyedRecord K V))
    (h : ∀ x ∈ recs, x.Timely) :
    AggregatesExactly w init agg emit (.inMemory keySerde valueSerde topic size) recs ↔
      w.AllFit emit recs := by
  have hs := WindowBytesStore.Holds.inMemory hk hv topic size
  have hok : (∃ x, windowRun w init agg emit (.inMemory keySerde valueSerde topic size) recs = .ok x) ↔
    w.AllFit emit recs := windowRun_ok_iff hs h
  rw [← hok]
  constructor
  · rintro ⟨p, s, outs, hrun, -⟩
    exact ⟨_, hrun⟩
  · rintro ⟨⟨⟨p, s⟩, outs⟩, hrun⟩
    refine ⟨p, s, outs, hrun, fun k ws hw => ?_, ?_⟩
    · exact (windowRun_inv hs hrun h).holds.fetchSingle k hw
    · rintro rfl k ws -
      exact windowRun_chain hs rfl hrun h k ws

end Run

section Samples

def appendValue (_ v acc : Bytes) : Bytes := acc ++ v

def recordAt (key value : UInt8) (timestamp : Int) : KeyedRecord Bytes Bytes :=
  ⟨[key], [value], timestamp, ⟨"in", 0, 0, timestamp⟩⟩

def bytesWindowStore (size : Int) : WindowBytesStore Bytes Bytes :=
  .inMemory bytesSerde bytesSerde "app-w-changelog" size

def unitWindows : TimeWindows where
  size := 1
  advance := 1
  grace := 0
  advance_pos := by decide
  advance_le_size := by decide
  size_le := by decide
  grace_nonneg := by decide
  grace_le := by decide

def hoppingWindows : TimeWindows where
  size := 10
  advance := 5
  grace := 2
  advance_pos := by decide
  advance_le_size := by decide
  size_le := by decide
  grace_nonneg := by decide
  grace_le := by decide

theorem bytesSerde_lawful : bytesSerde.Lawful := fun _ _ => rfl

theorem bytesWindowStore_holds (size : Int) : (bytesWindowStore size).Holds fun _ => none :=
  .inMemory bytesSerde_lawful bytesSerde_lawful _ _

theorem not_allFit_lastInstant (emit : EmitStrategy) :
    ¬ unitWindows.AllFit emit [recordAt 97 1 i64Max] := by
  intro h
  have hfit := h [] (recordAt 97 1 i64Max) List.prefix_rfl
  have hcov : unitWindows.Covers i64Max i64Max := by decide
  cases emit with
  | onWindowUpdate => exact absurd (hfit i64Max hcov) (by decide)
  | onWindowClose => exact absurd (hfit.1 i64Max hcov) (by decide)

/-- The window of a record at the last instant is not stored: the call does not return. -/
theorem not_aggregatesExactly_lastInstant : (recordAt 97 1 i64Max).Timely ∧
    ¬ AggregatesExactly unitWindows [] appendValue .onWindowUpdate (bytesWindowStore 1)
      [recordAt 97 1 i64Max] := by
  refine ⟨by decide, fun ⟨_, _, _, hrun, _⟩ => ?_⟩
  exact not_allFit_lastInstant .onWindowUpdate
    ((windowRun_ok_iff (bytesWindowStore_holds 1) (by decide)).mp ⟨_, hrun⟩)

/-- Hopping windows with a late record and a record that is too late for one of its windows. -/
theorem aggregatesExactly_lateRecords :
    AggregatesExactly hoppingWindows [] appendValue .onWindowUpdate (bytesWindowStore 10)
      [recordAt 97 1 0, recordAt 97 2 14, recordAt 97 3 7, recordAt 98 4 3] :=
  (aggregatesExactly_iff_allFit bytesSerde_lawful bytesSerde_lawful _ _ _ _ _ _ _ (by decide)).mpr
    (allFit_of_le (by decide) (by decide))

end Samples

end KrabkaStreams
