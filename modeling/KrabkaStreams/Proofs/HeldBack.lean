import KrabkaStreams.Proofs.Processes
import KrabkaStreams.Script
import Mathlib.Data.List.TakeWhile

/-!
# Records are held back at a pending cut

A partition is fetched batch by batch (`Fetches`) and each batch is split at the cut, so the position
never passes the cut and the first batch that reaches it puts it there (`heldBack_of_calls`).
-/

namespace KrabkaStreams

open Effect

variable {E P M S V : Type} [Broker E]

theorem splitAtCut_reached {batch : FetchBatch} {c offset : Int} (h : ∃ r ∈ batch.records, c ≤ r.offset) :
    (StreamTask.splitAtCut batch (some c) offset).2 = c := by
  obtain ⟨r, hr, hrc⟩ := h
  have hlt : (batch.records.takeWhile fun r => r.offset < c).length < batch.records.length := by
    refine lt_of_le_of_ne (List.takeWhile_sublist _).length_le fun heq => ?_
    have := of_decide_eq_true (List.takeWhile_eq_self_iff.mp ((List.takeWhile_sublist _).eq_of_length heq) r hr)
    omega
  simp only [StreamTask.splitAtCut, if_pos hlt]

namespace Fetches

variable {logs : SourceLogs} {tp : Topic × Int} {cut : Option Int} {start stop : Int} {batches : List (Int × FetchBatch)}

theorem pipedFrom_eq (hlogs : logs.ServedBy E) (h : Fetches E tp cut start batches stop) :
    pipedFrom cut batches = logs.between tp start stop ∧ start ≤ stop := by
  induction h with
  | done start => exact ⟨(recordsBetween_self _ _).symm, le_refl start⟩
  | fetch env hfetch hcut _ ih =>
    obtain ⟨hrs, hle, -⟩ := splitAtCut_spec (logs.sorted tp) (hlogs env tp.1 tp.2 _ _ hfetch) hcut
    refine ⟨?_, hle.trans ih.2⟩
    unfold pipedFrom at ih ⊢
    rw [List.flatMap_cons, ih.1, hrs]
    exact recordsBetween_append (logs.sorted tp) hle ih.2

theorem answered (h : Fetches E tp cut start batches stop) :
    ∀ x ∈ batches, ∃ env : E, (Broker.fetch env tp.1 tp.2 x.1 .readUncommitted).1 = .ok x.2 := by
  induction h with
  | done => exact fun x hx => absurd hx List.not_mem_nil
  | fetch env hfetch _ _ ih =>
    intro x hx
    rcases List.mem_cons.mp hx with rfl | hx
    · exact ⟨env, hfetch⟩
    · exact ih x hx

theorem le_cut {c : Int} (hlogs : logs.ServedBy E) (h : Fetches E tp (some c) start batches stop) (hle : start ≤ c) :
    stop ≤ c := by
  induction h with
  | done => exact hle
  | fetch env hfetch hcut _ ih =>
    exact ih ((splitAtCut_spec (logs.sorted tp) (hlogs env tp.1 tp.2 _ _ hfetch) hcut).2.2 c rfl)

theorem eq_of_at_cut {c : Int} (h : Fetches E tp (some c) start batches stop) (hat : start = c) : stop = c := by
  cases h with
  | done => exact hat
  | fetch _ _ hcut _ => exact absurd hat (ne_of_lt (hcut c rfl))

theorem reached {c : Int} (h : Fetches E tp (some c) start batches stop)
    (hreach : ∃ x ∈ batches, ∃ r ∈ x.2.records, c ≤ r.offset) : stop = c := by
  induction h with
  | done =>
    obtain ⟨x, hx, -⟩ := hreach
    exact absurd hx List.not_mem_nil
  | fetch env _ _ hrest ih =>
    obtain ⟨x, hx, hr⟩ := hreach
    rcases List.mem_cons.mp hx with rfl | hx
    · exact hrest.eq_of_at_cut (splitAtCut_reached hr)
    · exact ih ⟨x, hx, hr⟩

theorem pipedFrom_none (batches : List (Int × FetchBatch)) : pipedFrom none batches = batches.flatMap fun x => x.2.records :=
  rfl

theorem position_none (h : Fetches E tp none start batches stop) :
    stop = batches.foldl (fun offset x => x.2.nextOffset offset) start := by
  induction h with
  | done => rfl
  | fetch _ _ _ _ ih => exact ih

end Fetches

variable [StateStore S V] [Processor P M S V]

/-- For every task, every log, every way of batching it and every sequence of calls of `process_once` that return: each
source partition is read in fetches from its position on, the records between the positions before and after are piped
once and in order, and the position never moves back. Where the task has a pending cut that names the partition, at or
past its position, nothing from the cut on is piped, the position stays at or below the cut, and a batch that reaches
the cut puts the position on it. A partition the cut does not name is read as without one. -/
theorem heldBack_of_calls {logs : SourceLogs} (hlogs : logs.ServedBy E) (t : StreamTask P M S V) (w : World E)
    (gates : List Bool) (hok : (gates.forM StreamTask.processOnce).result (⟨t, w⟩ : TaskState E P M S V) = .ok ())
    (tp : Topic × Int) :
    ∃ batches,
      StreamTask.ReadsAlong E logs t ((gates.forM StreamTask.processOnce).final (⟨t, w⟩ : TaskState E P M S V)).own
        (sourceMarks ((gates.forM StreamTask.processOnce).events (⟨t, w⟩ : TaskState E P M S V))) tp batches ∧
      (∀ c, t.cutOffset tp = some c → t.position tp ≤ c →
        ((gates.forM StreamTask.processOnce).final (⟨t, w⟩ : TaskState E P M S V)).own.HeldAt
          (sourceMarks ((gates.forM StreamTask.processOnce).events (⟨t, w⟩ : TaskState E P M S V))) tp batches c) ∧
      (t.cutOffset tp = none →
        StreamTask.Unheld t ((gates.forM StreamTask.processOnce).final (⟨t, w⟩ : TaskState E P M S V)).own
          (sourceMarks ((gates.forM StreamTask.processOnce).events (⟨t, w⟩ : TaskState E P M S V))) tp batches) := by
  obtain ⟨recs, outs, marks, -, hseen, hreads⟩ := StreamTask.goes_of_calls hlogs hok
  rw [hseen.marks, List.nil_append]
  obtain ⟨batches, hfetches, hfetched, hpiped⟩ := hreads tp
  obtain ⟨hbetween, hforward⟩ := hfetches.pipedFrom_eq hlogs
  refine ⟨batches, ⟨hfetched, hfetches.answered, by rw [hpiped, hbetween], hforward⟩, fun c hc hle => ?_, fun hnone => ?_⟩
  · rw [hc] at hfetches hpiped hbetween
    have hstays := hfetches.le_cut hlogs hle
    refine ⟨fun offset hoffset => ?_, hstays, hfetches.reached⟩
    rw [hpiped, hbetween] at hoffset
    obtain ⟨r, hr, rfl⟩ := List.mem_map.mp hoffset
    have := of_decide_eq_true (List.mem_filter.mp hr).2
    omega
  · rw [hnone] at hfetches hpiped
    exact ⟨by rw [hpiped, Fetches.pipedFrom_none], hfetches.position_none⟩

def gapLogs : SourceLogs where
  records tp := if tp = ("in", 0) then [⟨0, none, some [1], 0⟩, ⟨2, none, some [2], 0⟩, ⟨5, none, some [3], 0⟩] else []
  sorted tp := by split <;> simp

def cutTask : StreamTask Relay Unit (KeyValueBytesStore Bytes) (Value Bytes) :=
  { StreamTask.new "0" (relayGraph [.processorNode .forward, relaySink "out"] [[1], []] [relaySource "src" "in" [0]] [] [])
      [⟨"in", 0⟩] .active .atLeastOnce with
    pendingCut := some ⟨"group", 1, [(("in", 0), 3)]⟩ }

def cutStart : TaskState (Archive gapLogs.records) Relay Unit (KeyValueBytesStore Bytes) (Value Bytes) :=
  ⟨cutTask, .start ⟨[]⟩ (.broker []) 4⟩

theorem heldBack_gapLogs : ∃ batches,
    (((([false, false].forM StreamTask.processOnce).final cutStart).own.HeldAt
      (sourceMarks (([false, false].forM StreamTask.processOnce).events cutStart)) ("in", 0) batches 3)) := by
  have hok : ([false, false].forM StreamTask.processOnce).result cutStart = .ok () := by decide +kernel
  obtain ⟨batches, -, hheld, -⟩ := heldBack_of_calls gapLogs.servedBy_archive cutTask (.start ⟨[]⟩ (.broker []) 4) _ hok
    ("in", 0)
  exact ⟨batches, hheld 3 rfl (by decide)⟩

end KrabkaStreams
