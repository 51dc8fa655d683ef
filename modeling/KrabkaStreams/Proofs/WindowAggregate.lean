import KrabkaStreams.Proofs.TimeWindows
import KrabkaStreams.Proofs.WindowStore

/-!
# The time-window aggregation is exact

One round of the loop of `process` is an update of the table the store holds (`updateWindow_spec`), and
the loop an update at all windows that take the record (`updateWindows_spec`).
-/

namespace KrabkaStreams

open Runs Lists

variable {K V VA : Type} {s : WindowBytesStore K VA} {e : K × Int × Int × VA}

theorem windowIsClosed_iff {ws size close : Int} (hw : 0 ≤ ws) (hs : 0 ≤ size) (hc : close ≤ i64Max) :
    windowIsClosed ws size close = true ↔ ws + size < close := by
  rw [windowIsClosed, saturatingAdd, decide_eq_true_iff]
  simp only [i64Min, i64Max] at hc ⊢
  omega

namespace KStreamWindowAggregateProcessor

variable {p : KStreamWindowAggregateProcessor K V VA} {f : K × Int → Option (Int × VA)}
  {close ws : Int} {r : KeyedRecord K V} {acc acc' : Progress K VA}

def forwardsFor (p : KStreamWindowAggregateProcessor K V VA) (r : KeyedRecord K V)
    (f : K × Int → Option (Int × VA)) (ws : Int) : List (Record (Windowed K) (Change VA)) :=
  match p.emit with
  | .onWindowClose => []
  | .onWindowUpdate =>
    if p.forwarder.cached then [] else [p.windows.changeWith p.init p.agg r.key ws r (f (r.key, ws))]

def round (p : KStreamWindowAggregateProcessor K V VA) (close : Int) (r : KeyedRecord K V) :
    Progress K VA → Int → Except ProcessorError (Progress K VA) :=
  p.updateWindow close r.ctx r.key r.value r.timestamp

theorem isI64_entryWith (hr : r.Timely) {prior : Option (Int × VA)}
    (hp : ∀ b, prior = some b → IsI64 b.1) : IsI64 (entryWith p.init p.agg r.key r prior).1 := by
  obtain ⟨h0, h1⟩ := hr
  rcases prior with _ | b
  · simp only [entryWith, Option.map_none, Option.getD_none, IsI64, i64Min, i64Max] at h1 ⊢
    omega
  · have hb := hp b rfl
    simp only [entryWith, Option.map_some, Option.getD_some, IsI64, i64Min, i64Max] at h1 hb ⊢
    omega

variable [DecidableEq K]

def written (p : KStreamWindowAggregateProcessor K V VA) (r : KeyedRecord K V)
    (f : K × Int → Option (Int × VA)) (ws : Int) (s : WindowBytesStore K VA) : WindowBytesStore K VA :=
  let entry := entryWith p.init p.agg r.key r (f (r.key, ws))
  (s.setRecordContext r.ctx).put r.key ws entry.2 entry.1

omit [DecidableEq K] in
theorem round_eq (h : acc.1.Holds f) (hw : IsI64 ws)
    (hopen : windowIsClosed ws p.windows.size close = false) :
    p.round close r acc ws = match p.emit with
      | .onWindowClose => .ok (p.written r f ws acc.1, acc.2 ++ p.forwardsFor r f ws)
      | .onWindowUpdate => do
        let _ ← checkedI64 (ws + p.windows.size)
        return (p.written r f ws acc.1, acc.2 ++ p.forwardsFor r f ws) := by
  unfold round updateWindow
  rw [if_neg (by simp [hopen])]
  dsimp only
  rw [(h.setRecordContext r.ctx).fetchSingle r.key hw]
  unfold written forwardsFor
  simp only [bind, Except.bind, pure, Except.pure, entryWith, max_comm r.timestamp]
  cases p.emit with
  | onWindowClose => simp
  | onWindowUpdate =>
    unfold checkedI64 TupleForwarder.maybeForwardChange
    by_cases hfit : IsI64 (ws + p.windows.size)
    · simp only [if_pos hfit]
      rfl
    · simp only [if_neg hfit]

theorem round_spec (h : acc.1.Holds f) (hr : r.Timely) (hw : IsI64 ws)
    (hopen : windowIsClosed ws p.windows.size close = false) (hu : p.round close r acc ws = .ok acc') :
    acc'.1.Holds (Function.update f (r.key, ws)
        (some (entryWith p.init p.agg r.key r (f (r.key, ws))))) ∧
      acc'.2 = acc.2 ++ p.forwardsFor r f ws := by
  have hput : (p.written r f ws acc.1).Holds _ := (h.setRecordContext r.ctx).put r.key hw
    (entryWith p.init p.agg r.key r (f (r.key, ws))).2
    (isI64_entryWith hr fun b hb => (h.table.valid hb).2)
  rw [round_eq h hw hopen] at hu
  split at hu
  · cases hu
    exact ⟨hput, rfl⟩
  · obtain ⟨_, -, hu⟩ := bind_eq_ok.mp hu
    cases hu
    exact ⟨hput, rfl⟩

omit [DecidableEq K] in
theorem round_ok_iff (h : acc.1.Holds f) (hw : IsI64 ws) (h0 : 0 ≤ ws)
    (hopen : windowIsClosed ws p.windows.size close = false) :
    (∃ acc', p.round close r acc ws = .ok acc') ↔
      (p.emit = .onWindowUpdate → ws + p.windows.size ≤ i64Max) := by
  have hadv := p.windows.advance_pos
  have hsize := p.windows.advance_le_size
  rw [round_eq h hw hopen]
  cases p.emit with
  | onWindowClose => simp
  | onWindowUpdate =>
    constructor
    · rintro ⟨acc', hu⟩ -
      obtain ⟨_, hstop, -⟩ := bind_eq_ok.mp hu
      exact (checkedI64_eq_ok.mp hstop).1.2
    · intro hfit
      exact ⟨_, bind_eq_ok.mpr ⟨_, checkedI64_eq_ok.mpr
        ⟨⟨by simp only [i64Min]; omega, hfit rfl⟩, rfl⟩, rfl⟩⟩

def advanced (p : KStreamWindowAggregateProcessor K V VA) (close : Int) (r : KeyedRecord K V)
    (starts : List Int) (f : K × Int → Option (Int × VA)) (i : K × Int) : Option (Int × VA) :=
  if i.1 = r.key ∧ i.2 ∈ starts ∧ windowIsClosed i.2 p.windows.size close = false then
    some (entryWith p.init p.agg i.1 r (f i))
  else f i

theorem advanced_cons_closed {starts : List Int} (hc : windowIsClosed ws p.windows.size close = true) :
    p.advanced close r (ws :: starts) f = p.advanced close r starts f := by
  funext i
  refine if_congr (and_congr_right fun _ => ?_) rfl rfl
  rw [List.mem_cons]
  constructor
  · rintro ⟨rfl | hm, ho⟩
    · simp [hc] at ho
    · exact ⟨hm, ho⟩
  · exact fun ⟨hm, ho⟩ => ⟨.inr hm, ho⟩

theorem advanced_cons_open {starts : List Int} (hfresh : ws ∉ starts)
    (ho : windowIsClosed ws p.windows.size close = false) :
    p.advanced close r (ws :: starts) f = p.advanced close r starts (Function.update f (r.key, ws)
      (some (entryWith p.init p.agg r.key r (f (r.key, ws))))) := by
  funext i
  unfold advanced
  by_cases hi : i = (r.key, ws)
  · subst hi
    simp [hfresh, ho]
  · have hne : ¬ (i.1 = r.key ∧ i.2 = ws) := fun he => hi (Prod.ext he.1 he.2)
    rw [Function.update_of_ne hi]
    refine if_congr (and_congr_right fun hk => and_congr_left fun _ => ?_) rfl rfl
    rw [List.mem_cons, or_iff_right fun he => hne ⟨hk, he⟩]

omit [DecidableEq K] in
theorem round_closed (hc : windowIsClosed ws p.windows.size close = true) :
    p.round close r acc ws = .ok acc :=
  if_pos hc

theorem rounds_spec (hr : r.Timely) : ∀ {starts : List Int} {f : K × Int → Option (Int × VA)}
    {acc : Progress K VA}, starts.Nodup → (∀ ws ∈ starts, IsI64 ws) → acc.1.Holds f →
      starts.foldlM (p.round close r) acc = .ok acc' →
      acc'.1.Holds (p.advanced close r starts f) ∧
        acc'.2 = acc.2 ++ (starts.filter fun ws => !windowIsClosed ws p.windows.size close).flatMap
          (p.forwardsFor r f)
  | [], f, acc, _, _, h, hu => by
    cases hu
    refine ⟨?_, by simp⟩
    have hid : p.advanced close r [] f = f := by
      funext i
      simp [advanced]
    rwa [hid]
  | ws :: starts, f, acc, hn, hw, h, hu => by
    obtain ⟨hfresh, hn⟩ := List.nodup_cons.mp hn
    have hws := hw ws (by simp)
    have hrest := fun ws' hm => hw ws' (List.mem_cons_of_mem ws hm)
    obtain ⟨mid, hround, hu⟩ := bind_eq_ok.mp hu
    rcases hc : windowIsClosed ws p.windows.size close with _ | _
    · obtain ⟨hmid, hout⟩ := round_spec h hr hws hc hround
      obtain ⟨hend, hall⟩ := rounds_spec hr hn hrest hmid hu
      refine ⟨by rwa [advanced_cons_open hfresh hc], ?_⟩
      -- the other windows of the record are not touched by this round
      have hsame : ∀ ws' ∈ starts.filter fun ws => !windowIsClosed ws p.windows.size close,
          p.forwardsFor r (Function.update f (r.key, ws)
            (some (entryWith p.init p.agg r.key r (f (r.key, ws))))) ws' = p.forwardsFor r f ws' := by
        intro ws' hm
        have hne : (r.key, ws') ≠ (r.key, ws) := by
          rintro he
          cases he
          exact hfresh (List.mem_filter.mp hm).1
        unfold forwardsFor
        rw [Function.update_of_ne hne]
      rw [hall, hout, List.flatMap_congr hsame, List.filter_cons_of_pos (by simp [hc]),
        List.flatMap_cons, List.append_assoc]
    · rw [round_closed hc] at hround
      cases hround
      obtain ⟨hend, hall⟩ := rounds_spec hr hn hrest h hu
      rw [advanced_cons_closed hc, List.filter_cons_of_neg (by simp [hc])]
      exact ⟨hend, hall⟩

theorem rounds_ok_iff (hr : r.Timely) : ∀ {starts : List Int} {f : K × Int → Option (Int × VA)}
    {acc : Progress K VA}, (∀ ws ∈ starts, IsI64 ws ∧ 0 ≤ ws) → acc.1.Holds f →
      ((∃ acc', starts.foldlM (p.round close r) acc = .ok acc') ↔
        ∀ ws ∈ starts, windowIsClosed ws p.windows.size close = false →
          p.emit = .onWindowUpdate → ws + p.windows.size ≤ i64Max)
  | [], f, acc, _, h => by simp [pure, Except.pure]
  | ws :: starts, f, acc, hw, h => by
    have hws := hw ws (by simp)
    have hrest := fun ws' hm => hw ws' (List.mem_cons_of_mem ws hm)
    rw [List.foldlM_cons, List.forall_mem_cons]
    rcases hc : windowIsClosed ws p.windows.size close with _ | _
    · rw [← round_ok_iff h hws.1 hws.2 hc (r := r)]
      constructor
      · rintro ⟨acc', hu⟩
        obtain ⟨mid, hround, hu⟩ := bind_eq_ok.mp hu
        exact ⟨fun _ => ⟨mid, hround⟩,
          (rounds_ok_iff hr hrest (round_spec h hr hws.1 hc hround).1).mp ⟨acc', hu⟩⟩
      · rintro ⟨hfirst, hfit⟩
        obtain ⟨mid, hround⟩ := hfirst rfl
        obtain ⟨acc', hu⟩ := (rounds_ok_iff hr hrest (round_spec h hr hws.1 hc hround).1).mpr hfit
        exact ⟨acc', bind_eq_ok.mpr ⟨mid, hround, hu⟩⟩
    · rw [round_closed hc]
      refine (rounds_ok_iff hr hrest h).trans ⟨fun hfit => ⟨nofun, hfit⟩, fun hfit => hfit.2⟩

omit [DecidableEq K] in
theorem process_onUpdate (he : p.emit = .onWindowUpdate)
    {x : (KStreamWindowAggregateProcessor K V VA × WindowBytesStore K VA) × List (Record (Windowed K) (Change VA))}
    (hc : close = saturatingSub (max p.streamTime r.timestamp) p.windows.grace) :
    p.process s r.ctx r.toRecord = .ok x ↔ ∃ starts acc, p.windows.windowsFor r.timestamp = .ok starts ∧
      starts.foldlM (p.round close r) (s, []) = .ok acc ∧
      x = (({ p with streamTime := max p.streamTime r.timestamp }, acc.1), acc.2) := by
  subst hc
  obtain ⟨w, init, agg, emit, now, last, forwarder⟩ := p
  cases he
  unfold process
  simp only [KeyedRecord.toRecord, bind_eq_ok]
  constructor
  · rintro ⟨starts, hstarts, acc, hacc, hx⟩
    cases hx
    exact ⟨starts, acc, hstarts, hacc, rfl⟩
  · rintro ⟨starts, acc, hstarts, hacc, rfl⟩
    exact ⟨starts, hstarts, acc, hacc, rfl⟩

omit [DecidableEq K] in
theorem process_onClose (he : p.emit = .onWindowClose)
    {x : (KStreamWindowAggregateProcessor K V VA × WindowBytesStore K VA) × List (Record (Windowed K) (Change VA))}
    (hc : close = saturatingSub (max p.streamTime r.timestamp) p.windows.grace) :
    p.process s r.ctx r.toRecord = .ok x ↔ ∃ starts acc final,
      p.windows.windowsFor r.timestamp = .ok starts ∧
      starts.foldlM (p.round close r) (s, []) = .ok acc ∧
      p.emitClosedWindows acc.1 close = .ok final ∧
      x = (({ p with streamTime := max p.streamTime r.timestamp, lastEmittedClose := close }, acc.1),
        acc.2 ++ final) := by
  subst hc
  obtain ⟨w, init, agg, emit, now, last, forwarder⟩ := p
  cases he
  unfold process
  simp only [KeyedRecord.toRecord, bind_eq_ok]
  constructor
  · rintro ⟨starts, hstarts, acc, hacc, final, hfinal, hx⟩
    cases hx
    exact ⟨starts, acc, final, hstarts, hacc, hfinal, rfl⟩
  · rintro ⟨starts, acc, final, hstarts, hacc, hfinal, rfl⟩
    exact ⟨starts, hstarts, acc, hacc, final, hfinal, rfl⟩

omit [DecidableEq K] in
theorem notEmitted_eq {size : Int} (h : IsI64 (e.2.1 + size)) (last : Int) :
    notEmitted size last e = .ok (decide (last ≤ e.2.1 + size)) := by
  unfold notEmitted
  rw [checkedI64_eq_ok.mpr ⟨h, rfl⟩]
  rfl

omit [DecidableEq K] in
theorem finalRecord_eq {size : Int} (h : IsI64 (e.2.1 + size)) :
    finalRecord size e
      = .ok ⟨some ⟨e.1, ⟨e.2.1, e.2.1 + size⟩⟩, .update none e.2.2.2, e.2.2.1⟩ := by
  unfold finalRecord
  rw [checkedI64_eq_ok.mpr ⟨h, rfl⟩]
  rfl

omit [DecidableEq K] in
theorem emitClosedWindows_ok {final : List (Record (Windowed K) (Change VA))}
    (h : p.emitClosedWindows s close = .ok final) : i64Min ≤ close - p.windows.size - 1 := by
  obtain ⟨start, hstart, h⟩ := bind_eq_ok.mp h
  obtain ⟨startTo, hto, -⟩ := bind_eq_ok.mp h
  obtain ⟨-, rfl⟩ := checkedI64_eq_ok.mp hstart
  exact (checkedI64_eq_ok.mp hto).1.1

/-- How the window aggregates find the windows that closed since the last emission. -/
def closedWindows (s : WindowBytesStore K VA) (size last close : Int) :
    Except ProcessorError (List (Record (Windowed K) (Change VA))) := do
  let start ← checkedI64 (close - size)
  let startTo ← checkedI64 (start - 1)
  let found ← s.fetchAllInRange (saturatingSub last size) startTo
  let due ← found.filterM (notEmitted size last)
  (due.insertionSort fun a b => a.2.1 ≤ b.2.1).mapM (finalRecord size)

omit [DecidableEq K] in
theorem closedWindows_spec (h : s.Holds f) {size : Int} (last : Int) (hsize : 0 ≤ size) (hc : close ≤ i64Max)
    (hfit : i64Min ≤ close - size - 1) :
    ∃ due : List (K × Int × Int × VA),
      closedWindows s size last close
        = .ok (due.map fun e => ⟨some ⟨e.1, ⟨e.2.1, e.2.1 + size⟩⟩, .update none e.2.2.2, e.2.2.1⟩) ∧
      (∀ e, e ∈ due ↔ f (e.1, e.2.1) = some e.2.2 ∧ last ≤ e.2.1 + size ∧ e.2.1 + size < close) ∧
      (due.map fun e => (e.1, e.2.1)).Nodup ∧ due.Pairwise fun a b => a.2.1 ≤ b.2.1 := by
  obtain ⟨found, hfound, hmem, hnodup⟩ := h.fetchAllInRange (saturatingSub last size) (close - size - 1)
  have hend : ∀ e ∈ found, IsI64 (e.2.1 + size) := fun e he => by
    obtain ⟨hf, -, hto⟩ := (hmem e).mp he
    have hws := (h.table.valid hf).1
    simp only [windowEncoding, IsI64, i64Min, i64Max] at hws hc ⊢
    omega
  have hfilter := filterM_eq_filter fun e he => notEmitted_eq (hend e he) last
  obtain ⟨due, hdue⟩ : ∃ due, due = found.filter fun e => decide (last ≤ e.2.1 + size) := ⟨_, rfl⟩
  have hperm := List.perm_insertionSort (fun a b : K × Int × Int × VA => a.2.1 ≤ b.2.1) due
  have hmap := mapM_eq_map (l := due.insertionSort fun a b => a.2.1 ≤ b.2.1) fun e he =>
    finalRecord_eq (hend e (List.mem_of_mem_filter (hdue ▸ hperm.mem_iff.mp he)))
  refine ⟨_, ?_, fun e => ?_, ?_, pairwise_insertionSort (fun e => e.2.1) due⟩
  · have hlow : IsI64 (close - size) := ⟨by omega, by omega⟩
    have hto : IsI64 (close - size - 1) := ⟨hfit, by omega⟩
    exact bind_eq_ok.mpr ⟨_, checkedI64_eq_ok.mpr ⟨hlow, rfl⟩,
      bind_eq_ok.mpr ⟨_, checkedI64_eq_ok.mpr ⟨hto, rfl⟩,
        bind_eq_ok.mpr ⟨found, hfound, bind_eq_ok.mpr ⟨due, hdue ▸ hfilter, hmap⟩⟩⟩⟩
  · rw [hperm.mem_iff, hdue, List.mem_filter, hmem, decide_eq_true_iff]
    constructor
    · rintro ⟨⟨hf, -, hto⟩, hlast⟩
      exact ⟨hf, hlast, by omega⟩
    · rintro ⟨hf, hlast, hto⟩
      have hws := (h.table.valid hf).1
      simp only [windowEncoding, IsI64, saturatingSub, i64Min, i64Max] at hws ⊢
      exact ⟨⟨hf, by omega, by omega⟩, hlast⟩
  · refine (hperm.map fun e => (e.1, e.2.1)).nodup_iff.mpr ?_
    rw [hdue]
    exact hnodup.sublist (List.filter_sublist.map _)

end KStreamWindowAggregateProcessor

end KrabkaStreams
