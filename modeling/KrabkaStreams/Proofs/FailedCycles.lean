import KrabkaStreams.Proofs.Transactions

/-!
# A failed cycle is never committed

Processing and the cache flush of a commit hand their errors to the abort, so a spoiled interval is
rolled back. A wall-clock pass and the close of a task do not: inside a transaction their errors are
excluded.
-/

namespace KrabkaStreams

open Effect StateStore

variable {E P M S V : Type} {ev : Event}

namespace Cycle

theorem of_snoc (h : List Event) (ev : Event) : of (h ++ [ev]) = (of h).step ev := by
  simp [of]

theorem step_of_quiet (hev : ev.isQuiet) (c : Cycle) : c.step ev = c := by
  cases ev <;> first | rfl | cases hev | skip
  · rename_i ok
    cases ok
    · rfl
    · cases hev
  · rename_i step
    cases step <;> first | rfl | cases hev

def Pending (c : Cycle) : Prop := c.health = .sound ∨ c.opened = true

theorem Pending.spoil {c : Cycle} (hc : c.Pending) : c.spoil.Pending := by
  unfold Cycle.spoil
  split
  · exact .inr ‹_›
  · exact hc

theorem Pending.step_of_refusal {c : Cycle} (hc : c.Pending) (hev : ev.isRefusal) : (c.step ev).Pending := by
  cases ev <;> first | exact hc | cases hev | skip
  · rename_i ok
    cases ok
    · exact hc
    · cases hev
  · rename_i ok
    cases ok
    · exact hc
    · cases hev
  · simp only [step]
    split
    · exact hc.spoil
    · exact hc

end Cycle

theorem spoiledRolledBack_of_quiet (hev : ev.isQuiet) (h : List Event) : SpoiledRolledBack h ev := by
  cases ev <;> first | trivial | skip
  rename_i ok
  cases ok
  · trivial
  · cases hev

theorem spoiledRolledBack_of_refusal (hev : ev.isRefusal) (h : List Event) : SpoiledRolledBack h ev := by
  cases ev <;> first | trivial | skip
  all_goals
    rename_i ok
    cases ok
    · trivial
    · cases hev

abbrev CyclesGuarded (h : List Event) : Prop :=
  Always FencedFinal h ∧ Always BeginsWhenClosed h ∧ Always RollsBack h ∧ Always PassesSucceed h

theorem cyclesGuarded_prefixClosed : PrefixClosed CyclesGuarded := fun h w hw =>
  ⟨Always.prefixClosed h w hw.1, Always.prefixClosed h w hw.2.1, Always.prefixClosed h w hw.2.2.1,
    Always.prefixClosed h w hw.2.2.2⟩

def Unfenced (p : Cycle → Prop) (h : List Event) : Prop := Event.fenced ∉ h → p (Cycle.of h)

theorem Unfenced.step {p q : Cycle → Prop} {h : List Event} (hh : Unfenced p h)
    (hev : ∀ c, p c → q (c.step ev)) : Unfenced q (h ++ [ev]) := by
  intro hf
  rw [Cycle.of_snoc]
  exact hev _ (hh fun hm => hf (List.mem_append_left _ hm))

def cycling : TxnInvariant where
  idle b h := Always SpoiledRolledBack h ∧
    Unfenced (fun c => if b then c.health = .sound else c.Pending) h
  failed e h := (Always SpoiledRolledBack h ∧ Unfenced Cycle.Pending h) ∧
    (e.isProducerFenced = true → Event.fenced ∈ h)
  rolling h := Always SpoiledRolledBack h ∧ Unfenced (fun c => c.health ≠ .spoiled ∨ c.opened = true) h
  ended h := Always SpoiledRolledBack h ∧ Unfenced (fun c => c.health = .sound) h

theorem cycling_pending {b : Bool} {h : List Event} (hh : cycling.idle b h) :
    Unfenced Cycle.Pending h := by
  intro hf
  have hb := hh.2 hf
  cases b with
  | true => exact .inl hb
  | false => exact hb

theorem cycling_closed : cycling.Closed CyclesGuarded where
  quiet b h ev hev hh := ⟨hh.1.snoc (spoiledRolledBack_of_quiet hev h),
    hh.2.step fun c hc => by rwa [Cycle.step_of_quiet hev]⟩
  refused _ _ _ hh hf := ⟨⟨hh.1, cycling_pending hh⟩, hf⟩
  noted e h ev hev hh := ⟨⟨hh.1.1.snoc (spoiledRolledBack_of_refusal hev h),
    hh.1.2.step fun c hc => hc.step_of_refusal hev⟩, fun he => List.mem_append_left _ (hh.2 he)⟩
  begun h hh hC := by
    have hclosed : (Cycle.of h).opened = false := hC.2.1.last
    have hsound : (Cycle.of h).health = .sound := by
      rcases cycling_pending hh hC.1.last with hs | ho
      · exact hs
      · rw [hclosed] at ho
        cases ho
    refine ⟨hh.1.snoc hsound, fun _ => ?_⟩
    rw [Cycle.of_snoc]
    exact hsound
  committed h hh hC := ⟨hh.1.snoc (hh.2 hC.1.last), hh.2.step fun _ hc => hc⟩
  done h hh := ⟨hh.1, fun hf => .inl (hh.2 hf)⟩
  fatal e h hh he := ⟨hh.1.1, fun hf => absurd (hh.2 he) hf⟩
  aborted e h ok hh := by
    refine ⟨hh.1.1.snoc trivial, hh.1.2.step fun c hc => ?_⟩
    cases ok with
    | true =>
      refine .inl ?_
      simp only [Cycle.step]
      split
      · nofun
      · exact ‹_›
    | false => exact hc.imp (fun hs => by simp [hs, Cycle.step]) id
  abortFenced e h hh hf := ⟨hh.1.1.snoc trivial, fun hn => absurd (List.mem_append_left _ hf) hn⟩
  replayed h ev hev hh := ⟨hh.1.snoc (spoiledRolledBack_of_quiet hev h),
    hh.2.step fun c hc => by rwa [Cycle.step_of_quiet hev]⟩
  rollbackFailed h task _ hC := hC.2.2.1.last.elim
  recovered h hh _ := by
    refine ⟨hh.1.snoc trivial, hh.2.step fun c hc => ?_⟩
    show Cycle.Pending _
    simp only [Cycle.step, Cycle.Pending]
    split
    · exact .inl rfl
    · rcases hc with hc | hc
      · refine .inl ?_
        rcases hhealth : c.health with _ | _ | _ <;> simp_all
      · exact .inr hc

def Loose (h : List Event) : Prop := Always SpoiledRolledBack h ∧ Unfenced Cycle.Pending h

theorem loose_unsent {b : Bool} {h : List Event} (hh : cycling.idle b h) (task : TaskRef)
    (r : ProducerRecord) (e : StreamsClientError) : Loose (h ++
      (World.fencedEvent (.error e : Except StreamsClientError Unit) ++ [.sent task r none])) := by
  rw [← List.append_assoc]
  have hf : Loose (h ++ World.fencedEvent (.error e : Except StreamsClientError Unit)) :=
    TxnInvariant.of_fencedEvent (fun h hh => ⟨hh.1.snoc trivial, hh.2.step fun _ hc => hc⟩)
      ⟨hh.1, cycling_pending hh⟩ e
  exact ⟨hf.1.snoc trivial, hf.2.step fun _ hc => hc.spoil⟩

theorem cycling_produces {C : List Event → Prop} (b : Bool) :
    TxnInvariant.Closed.Produces C (fun _ => True) (cycling.idle b) fun _ => Loose where
  emit _ _ _ _ _ hh := ⟨hh.1.snoc trivial, hh.2.step fun _ hc => hc⟩
  sent _ _ _ _ hh := ⟨hh.1.snoc trivial, hh.2.step fun _ hc => hc⟩
  unsent _ task r e hh := loose_unsent hh task r e
  opError _ _ hh := ⟨hh.1, cycling_pending hh⟩

theorem cycling_produces_failed {C : List Event → Prop} :
    TxnInvariant.Closed.Produces C (fun _ => True) (cycling.idle true) cycling.failed where
  emit := (cycling_produces (C := C) true).emit
  sent := (cycling_produces (C := C) true).sent
  unsent h task r e hh := by
    refine ⟨loose_unsent hh task r e, fun he => ?_⟩
    rw [← List.append_assoc]
    exact List.mem_append_left _ (TxnInvariant.mem_fencedEvent h he)
  opError h e hh := ⟨⟨hh.1, cycling_pending hh⟩, fun he => (Bool.false_ne_true he).elim⟩

theorem cycling_of_loose {h : List Event} (hh : Loose h) {task : TaskRef} {step : TaskStep}
    (hopen : (Cycle.of h).opened = false) (b : Bool) : cycling.idle b (h ++ [.failed task step]) := by
  refine ⟨hh.1.snoc trivial, fun hf => ?_⟩
  have hsound : (Cycle.of h).health = .sound := by
    rcases hh.2 (fun hm => hf (List.mem_append_left _ hm)) with hs | ho
    · exact hs
    · rw [hopen] at ho
      cases ho
  have hstep : (Cycle.of h).step (.failed task step) = Cycle.of h := by
    simp [Cycle.step, Cycle.spoil, hopen]
  rw [Cycle.of_snoc, hstep]
  cases b with
  | true => exact hsound
  | false => exact .inl hsound

section Runs

variable [Broker E] [StateStore S V] [LawfulStateStore S] [Processor P M S V]
  [LawfulProcessor P M S V] {k : TaskKey}

theorem cycling_processOnce :
    Spec CyclesGuarded (cycling.onThread.steady (E := E) (P := P) (M := M) (S := S) k)
      (StreamTask.processOnce true) (fun _ => cycling.onThread.steady k) (cycling.onThread.broken k) := by
  refine cycling_closed.processOnce_spec cyclesGuarded_prefixClosed
    ((cycling_produces_failed.producing (N := fun _ => True) (fun _ _ h => h) true).mono
      (fun _ _ => trivial) fun _ _ _ h => ⟨h.1.1, trivial⟩)
    (fun _ _ hh hb => ⟨⟨hh, hb⟩, trivial⟩) (fun h s hs _ => ?_)
    fun h s _ _ _ hs => ⟨⟨cycling_closed.quiet _ h _ rfl hs.1.1, hs.1.2⟩, trivial⟩
  exact ⟨((TxnInvariant.between_iff (k := k)).mpr hs.1).1.1, trivial⟩

theorem cycling_flushCaches :
    Spec CyclesGuarded (cycling.onThread.between (E := E) (P := P) (M := M) (S := S) k true)
      (StreamTask.flushCaches .flush) (fun _ => cycling.onThread.between k true)
      (cycling.onThread.broken k) :=
  (cycling_produces_failed.flushCaches_spec cyclesGuarded_prefixClosed .flush trivial (N := fun _ => True)
    (fun _ _ h => h) (G := cycling.failed) fun e h _ hh _ => cycling_closed.noted e h _ rfl hh).mono
    (fun _ _ h => ⟨h, trivial⟩) (fun _ _ _ h => h.1) fun _ _ _ h => ⟨h.1.1, trivial⟩

theorem cycling_tick (b : Bool) (now : Int) :
    Keeps CyclesGuarded (cycling.onThread.between (E := E) (P := P) (M := M) (S := S) k b)
      (StreamThread.tick now) :=
  cycling_closed.tick_spec cyclesGuarded_prefixClosed b now (N := fun _ => True) (fun _ _ _ => trivial)
    (((cycling_produces b).punctuateWallClock_spec cyclesGuarded_prefixClosed trivial
      (fun _ _ _ hh hC => cycling_of_loose hh hC.2.2.2.last b) now).pre fun _ _ h => h.1)

theorem cycling_retire (b : Bool) :
    Keeps CyclesGuarded (cycling.onThread.between (E := E) (P := P) (M := M) (S := S) k b)
      StreamThread.retire := by
  refine cycling_closed.retire_spec cyclesGuarded_prefixClosed b (N := fun _ => True)
    (fun _ _ _ => trivial) (((cycling_produces b).flushCaches_spec cyclesGuarded_prefixClosed .close trivial
      (N := fun _ => True) (fun _ _ ht => ht) (G := fun _ => cycling.idle b)
      fun _ _ _ hh hC => cycling_of_loose hh hC.2.2.2.last b).post (fun _ _ _ h => h)
      fun _ _ _ h => ⟨TxnInvariant.between_iff.mpr h.1, trivial⟩) (fun _ ht => ht) ?_
  refine (cycling_closed.commitPending_spec cyclesGuarded_prefixClosed b fun h _ _ _ hh => ?_).pre
    fun _ _ h => h.1
  exact ⟨hh.1.snoc trivial, hh.2.step fun _ hc => hc⟩

/-- In every run in which no rollback fails, and no wall-clock pass and no close inside an open
transaction, a spoiled transaction is aborted and rolled back before anything else commits. -/
theorem run_spoiledRolledBack (app : String) (cache : Nat) (group : Option String) (env : E)
    (producer : ProducerState) (budget : Nat) (calls : List (StreamThread.Call P M S V))
    (hfence : Always FencedFinal (StreamThread.run .exactlyOnceV2 calls
      ⟨.new app cache group, .start env producer budget⟩).2)
    (hbegin : Always BeginsWhenClosed (StreamThread.run .exactlyOnceV2 calls
      ⟨.new app cache group, .start env producer budget⟩).2)
    (hroll : Always RollsBack (StreamThread.run .exactlyOnceV2 calls
      ⟨.new app cache group, .start env producer budget⟩).2)
    (hpass : Always PassesSucceed (StreamThread.run .exactlyOnceV2 calls
      ⟨.new app cache group, .start env producer budget⟩).2) :
    Always SpoiledRolledBack (StreamThread.run .exactlyOnceV2 calls
      ⟨.new app cache group, .start env producer budget⟩).2 := by
  have hsound := cycling_closed.sound (E := E) (P := P) (M := M) (S := S) cyclesGuarded_prefixClosed
    (fun _ => cycling_processOnce) (fun _ => cycling_flushCaches) (fun _ => cycling_tick)
    fun _ => cycling_retire
  have hrun := hsound.run_spec cyclesGuarded_prefixClosed (fun _ _ _ _ _ _ _ _ _ _ => trivial)
    (fun _ _ => trivial) app cache group (w := .start env producer budget) rfl ⟨Always.nil, fun _ => .inl rfl⟩ calls
    ⟨hfence, hbegin, hroll, hpass⟩
  exact (ThreadInvariant.idle_of_calm hrun).1

end Runs

section Sample

def retryHistory (p : Relay) (sends : List (Option StreamsClientError)) : List Event :=
  (StreamThread.run .exactlyOnceV2
    (assign (relayTopology p) (oneTask .active) ++ [.pollAll, .commitAll, .pollAll, .commitAll])
    ⟨.new "app" 0 none, { tickScript [⟨0, none, some [7], 5⟩] with sends := sends }.world
      (.transactional false)⟩).2

/-- The send of a punctuator is refused, the poll returns its error, and the next call commits. -/
theorem not_spoiledRolledBack_ticker :
    ¬ Always SpoiledRolledBack (retryHistory (.ticker 10) [none, some (.server 7)]) := by
  decide +kernel

/-- The send of a record is refused, and the interval is aborted, rolled back and repeated. -/
theorem spoiledRolledBack_forward :
    Always SpoiledRolledBack (retryHistory .forward [some (.server 7)]) :=
  run_spoiledRolledBack "app" 0 none _ _ 4 _ (by decide +kernel) (by decide +kernel)
    (by decide +kernel) (by decide +kernel)

end Sample

end KrabkaStreams
