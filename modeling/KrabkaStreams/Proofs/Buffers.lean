import KrabkaStreams.Proofs.Growth
import KrabkaStreams.Task

/-!
# The buffers of a task, counted

What a graph operation emits is what it adds to the buffers, and what is taken out is what the
buffers lose. Both are counted record by record, because an operation may interleave the stores it
appends to.
-/

namespace KrabkaStreams

open StateStore

variable {P M S V : Type} [StateStore S V]

theorem changelogRecords_of_evolves {reuse : List Topic} {s s' : S} (h : Evolves s s') :
    Graph.changelogRecords reuse s'
      = Graph.changelogRecords reuse s ++ StreamTask.gainedRecords reuse s s' := by
  obtain ⟨htopic, rest, hrest⟩ := h
  unfold StreamTask.gainedRecords Graph.changelogRecords
  rw [htopic, ← hrest]
  split
  · rfl
  · rw [List.map_append, List.drop_left]

theorem flatMap_changelogRecords_perm (reuse : List Topic) {r r' : StoreRegistry S}
    (h : StoreRegistry.Rel Evolves r r') :
    (r'.flatMap fun e => Graph.changelogRecords reuse e.2).Perm
      ((r.flatMap fun e => Graph.changelogRecords reuse e.2) ++
        (r.zip r').flatMap fun e => StreamTask.gainedRecords reuse e.1.2 e.2.2) := by
  induction h with
  | nil => exact List.Perm.nil
  | cons he _ ih =>
    simp only [List.flatMap_cons, List.zip_cons_cons]
    rw [changelogRecords_of_evolves he.2, List.append_assoc, List.append_assoc]
    refine List.Perm.append_left _ (List.Perm.trans (List.Perm.append_left _ ih) ?_)
    rw [← List.append_assoc, ← List.append_assoc]
    exact List.Perm.append_right _ List.perm_append_comm

namespace StreamTask

theorem buffered_setGraph_perm {t : StreamTask P M S V} {g : Graph P M S V}
    (h : Graph.Grows t.graph g) : (t.setGraph g).buffered.Perm (t.buffered ++ t.emittedBy g) := by
  obtain ⟨rest, hrest⟩ := h.output
  have hout : g.output.drop t.graph.output.length = rest := by rw [← hrest, List.drop_left]
  have hstores := (flatMap_changelogRecords_perm t.sourceTopics h.stores).map
    (pinnedRecord t.partition)
  unfold buffered emittedBy
  simp only [setGraph, hout]
  rw [← hrest]
  simp only [List.map_append, List.append_assoc] at hstores ⊢
  refine List.Perm.append_left _ (List.Perm.trans (List.Perm.append_left _ hstores) ?_)
  rw [← List.append_assoc, ← List.append_assoc]
  exact List.Perm.append_right _ List.perm_append_comm

theorem count_buffered_setGraph {t : StreamTask P M S V} {g : Graph P M S V}
    (h : Graph.Grows t.graph g) (r : ProducerRecord) :
    (t.setGraph g).buffered.count r = t.buffered.count r + (t.emittedBy g).count r := by
  rw [(buffered_setGraph_perm h).count_eq, List.count_append]

theorem count_buffered_takeOutput (t : StreamTask P M S V) (r : ProducerRecord) :
    t.buffered.count r = (t.graph.output.map sinkRecord).count r
      + (t.setGraph t.graph.takeOutput.2).buffered.count r := by
  simp [buffered, setGraph, Graph.takeOutput]

theorem count_buffered_drainChangelogs [LawfulStateStore S] (t : StreamTask P M S V)
    (r : ProducerRecord) :
    t.buffered.count r
      = ((t.graph.drainChangelogs t.sourceTopics).1.map (pinnedRecord t.partition)).count r
        + (t.setGraph (t.graph.drainChangelogs t.sourceTopics).2).buffered.count r := by
  have hnil : ((StoreRegistry.mapStores (fun s => (takeChangelogTs s).2) t.graph.stores).flatMap
      fun e => Graph.changelogRecords t.sourceTopics e.2) = [] := by
    simp [StoreRegistry.mapStores, Graph.changelogRecords, List.flatMap_map]
  simp only [buffered, setGraph, Graph.drainChangelogs, hnil, List.map_nil, List.append_nil,
    List.count_append]
  omega

end StreamTask

end KrabkaStreams
