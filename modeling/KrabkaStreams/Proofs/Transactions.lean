import KrabkaStreams.Proofs.KeyValue
import KrabkaStreams.Proofs.TxnInvariant
import KrabkaStreams.Script

/-!
# Sends inside transactions

Under exactly-once every send of a run is inside a transaction, provided that the passes which do
not open one find nothing to send when none is open: the wall-clock pass of a poll and the close of
a removed or demoted task.
-/

namespace KrabkaStreams

open Effect StateStore

variable {E P M S V : Type}

theorem inTransaction_snoc (h : List Event) (ev : Event) :
    inTransaction (h ++ [ev]) = txnStep (inTransaction h) ev := by
  simp [inTransaction]

theorem txnStep_of_quiet {ev : Event} (hev : ev.isQuiet) (b : Bool) : txnStep b ev = b := by
  cases ev <;> first | rfl | cases hev | skip
  rename_i ok
  cases ok
  · rfl
  · cases hev

def enclosing : TxnInvariant where
  idle b h := Always SentInTransaction h ∧ (b = true → inTransaction h = true)
  failed _ h := Always SentInTransaction h
  rolling h := Always SentInTransaction h
  ended h := Always SentInTransaction h

theorem sentInTransaction_of_quiet {ev : Event} (hev : ev.isQuiet) (h : List Event) :
    SentInTransaction h ev := by
  cases ev <;> trivial

theorem enclosing_closed {C : List Event → Prop} : enclosing.Closed C where
  quiet b h ev hev hh := by
    refine ⟨hh.1.snoc (sentInTransaction_of_quiet hev h), fun hb => ?_⟩
    rw [inTransaction_snoc, txnStep_of_quiet hev]
    exact hh.2 hb
  refused _ _ _ hh _ := hh.1
  noted e h ev hev hh := hh.snoc (by cases ev <;> trivial)
  begun h hh _ := ⟨hh.1.snoc trivial, fun _ => by rw [inTransaction_snoc]; rfl⟩
  committed h hh _ := hh.1.snoc trivial
  done h hh := ⟨hh, nofun⟩
  fatal e h hh _ := ⟨hh, nofun⟩
  aborted e h ok hh := hh.snoc trivial
  abortFenced e h hh _ := ⟨hh.snoc trivial, nofun⟩
  replayed h ev hev hh := hh.snoc (sentInTransaction_of_quiet hev h)
  rollbackFailed h task hh _ := ⟨hh.snoc trivial, nofun⟩
  recovered h hh _ := ⟨hh.snoc trivial, nofun⟩

theorem enclosing_note {h : List Event} {ev : Event} (hh : enclosing.idle true h)
    (hev : ∀ b, txnStep b ev = b) : enclosing.idle true (h ++ [ev]) := by
  refine ⟨hh.1.snoc ?_, fun _ => by rw [inTransaction_snoc, hev, hh.2 rfl]⟩
  cases ev <;> first | trivial | exact hh.2 rfl

theorem enclosing_produces {C : List Event → Prop} :
    TxnInvariant.Closed.Produces C (fun _ => True) (enclosing.idle true)
      fun _ => enclosing.idle true where
  emit _ _ _ _ _ hh := enclosing_note hh fun _ => rfl
  sent _ _ _ _ hh := enclosing_note hh fun _ => rfl
  unsent h task r e hh := by
    rw [← List.append_assoc]
    have hf := TxnInvariant.of_fencedEvent (I := enclosing.idle true)
      (fun h hh => enclosing_note hh fun _ => rfl) hh e
    exact enclosing_note hf fun _ => rfl
  opError h e hh := hh

section Runs

variable [Broker E] [StateStore S V] [LawfulStateStore S] [Processor P M S V]
  [LawfulProcessor P M S V] {C : List Event → Prop} {k : TaskKey}

theorem enclosing_processOnce (hC : PrefixClosed C) :
    Spec C (enclosing.onThread.steady (E := E) (P := P) (M := M) (S := S) k)
      (StreamTask.processOnce true) (fun _ => enclosing.onThread.steady k) (enclosing.onThread.broken k) := by
  refine enclosing_closed.processOnce_spec hC
    ((enclosing_produces.producing (N := fun _ => True) (fun _ _ h => h) true).mono
      (fun _ _ => trivial) fun _ _ _ h => ⟨h.1.1.1, trivial⟩)
    (fun _ _ hh hb => ⟨⟨hh, hb⟩, trivial⟩) (fun h s hs _ => ?_)
    fun _ _ _ _ _ hs => ⟨⟨enclosing_note hs.1.1 fun _ => rfl, hs.1.2⟩, trivial⟩
  exact ⟨((TxnInvariant.between_iff (k := k)).mpr hs.1).1.1, trivial⟩

theorem enclosing_flushCaches (hC : PrefixClosed C) (kind : EmitKind) :
    Keeps C (fun h s => enclosing.onThread.between (E := E) (P := P) (M := M) (S := S) k true h s ∧ True)
      (StreamTask.flushCaches kind) :=
  (enclosing_produces.flushCaches_spec hC kind trivial (N := fun _ => True) (fun _ _ h => h)
    (G := fun _ => enclosing.idle true) fun _ _ _ hh _ => enclosing_note hh fun _ => rfl).post
    (fun _ _ _ h => h) fun _ _ _ h => ⟨TxnInvariant.between_iff.mpr h.1, trivial⟩

def Silent (t : StreamTask P M S V) : Prop := t.buffered = [] ∧ t.clean = true

omit [LawfulProcessor P M S V] in
theorem silent_flushCaches (kind : EmitKind) :
    Keeps C (fun h s => enclosing.onThread.between (E := E) (P := P) (M := M) (S := S) k false h s ∧
      Silent s.own) (StreamTask.flushCaches kind) := by
  rintro h ⟨t, w⟩ ⟨hs, hb, hclean⟩ hCw
  rw [StreamTask.flushCaches_idle kind hb hclean]
  refine ⟨⟨⟨⟨hs.1.1.1.snoc trivial, fun hw => ?_⟩, hs.1.2⟩, trivial⟩, t.buffered_emptied, ?_⟩
  · cases hs.1.2.symm.trans hw
  · exact t.clean_emptied.trans hclean

theorem enclosing_tick (b : Bool) (now : Int) :
    Keeps (Always QuietOutside) (enclosing.onThread.between (E := E) (P := P) (M := M) (S := S) k b)
      (StreamThread.tick now) := by
  cases b with
  | true =>
    exact enclosing_closed.tick_spec Always.prefixClosed true now (N := fun _ => True)
      (fun _ _ _ => trivial) ((enclosing_produces.punctuateWallClock_spec Always.prefixClosed trivial
        (fun _ _ _ hh _ => enclosing_note hh fun _ => rfl) now).pre fun _ _ h => h.1)
  | false =>
    refine enclosing_closed.tick_spec Always.prefixClosed false now
      (N := fun t => t.buffered = [] ∧ t.wallClockDue now = false) (fun h t hCw => ?_) ?_
    · have hquiet := hCw.last
      simpa [QuietOutside, StreamTask.drained] using hquiet
    · rintro h ⟨t, w⟩ ⟨hs, hb, hdue⟩ hCw
      obtain ⟨t', hx⟩ := StreamTask.punctuateWallClock_idle hb hdue w
      rw [hx]
      refine ⟨⟨⟨hs.1.1.1.snoc trivial, fun hw => ?_⟩, hs.1.2⟩, trivial⟩
      cases hs.1.2.symm.trans hw

theorem enclosing_retire (b : Bool) :
    Keeps (Always QuietOutside) (enclosing.onThread.between (E := E) (P := P) (M := M) (S := S) k b)
      StreamThread.retire := by
  have hC : PrefixClosed (Always QuietOutside) := Always.prefixClosed
  have hcommit : ∀ N : StreamTask P M S V → Prop, Spec (Always QuietOutside)
      (fun h s => enclosing.onThread.between (E := E) k b h s ∧ N s.own) StreamTask.commitPending
      (fun _ => enclosing.onThread.between k b) fun _ => enclosing.onThread.between k b := by
    refine fun N => (enclosing_closed.commitPending_spec hC b fun h _ _ _ hh => ?_).pre fun _ _ h => h.1
    exact ⟨hh.1.snoc trivial, fun hb => by rw [inTransaction_snoc]; exact hh.2 hb⟩
  cases b with
  | true =>
    exact enclosing_closed.retire_spec hC true (N := fun _ => True) (fun _ _ _ => trivial)
      (enclosing_flushCaches hC .close) (fun _ h => h) (hcommit fun _ => True)
  | false =>
    refine enclosing_closed.retire_spec hC false (N := Silent) (fun h t hCw => ?_)
      (silent_flushCaches .close) (fun _ h => h) (hcommit _)
    have hquiet := hCw.last
    simpa [QuietOutside, StreamTask.drained, Silent] using hquiet

/-- In every run whose passes outside a transaction find nothing to send, every send is inside one. -/
theorem run_sentInTransaction (app : String) (cache : Nat) (group : Option String) (env : E)
    (producer : ProducerState) (budget : Nat) (calls : List (StreamThread.Call P M S V))
    (hquiet : Always QuietOutside (StreamThread.run .exactlyOnceV2 calls
      ⟨.new app cache group, .start env producer budget⟩).2) :
    Always SentInTransaction (StreamThread.run .exactlyOnceV2 calls
      ⟨.new app cache group, .start env producer budget⟩).2 := by
  have hC : PrefixClosed (Always QuietOutside) := Always.prefixClosed
  have hsound := enclosing_closed.sound (E := E) (P := P) (M := M) (S := S) hC
    (fun _ => enclosing_processOnce hC) (fun _ => (enclosing_flushCaches hC .flush).mono
      (fun _ _ h => ⟨h, trivial⟩) (fun _ _ _ h => h.1) fun _ _ _ h => ⟨h.1.1.1.1, trivial⟩)
    (fun _ => enclosing_tick) fun _ => enclosing_retire
  have hrun := hsound.run_spec hC (fun _ _ _ _ _ _ _ _ _ _ => trivial)
    (fun _ _ => trivial) app cache group rfl
    ⟨Always.nil, fun hb => (Bool.false_ne_true hb).elim⟩ calls hquiet
  exact (ThreadInvariant.idle_of_calm hrun).1

end Runs

section Sample

def tickScript (log : List FetchedRec) : Script := ⟨[("in", log)], [], 10, [], [], []⟩

def relayCalls (p : Relay) :
    List (StreamThread.Call Relay Unit (KeyValueBytesStore Bytes) (Value Bytes)) :=
  assign (relayTopology p) (oneTask .active) ++ [.pollAll, .commitAll, .pollAll]

def relayHistory (p : Relay) (log : List FetchedRec) : List Event :=
  (StreamThread.run .exactlyOnceV2 (relayCalls p)
    ⟨.new "app" 0 none, (tickScript log).world (.transactional false)⟩).2

/-- A wall-clock punctuator that is due while no record has opened a transaction. -/
theorem not_sentInTransaction_ticker :
    ¬ Always SentInTransaction (relayHistory (.ticker 10) []) := by
  decide +kernel

theorem sentInTransaction_forward :
    Always SentInTransaction (relayHistory .forward [⟨0, none, some [7], 5⟩]) :=
  run_sentInTransaction "app" 0 none _ _ 4 _ (by decide +kernel)

end Sample

end KrabkaStreams
