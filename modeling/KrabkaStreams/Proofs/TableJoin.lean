import KrabkaStreams.Dsl.TableJoinSemantics
import KrabkaStreams.Proofs.TableCache
import KrabkaStreams.Proofs.TableGroupBy

/-!
# The changes of a table join telescope

The last change forwarded for a key ends with the join of the two flushed rows. A change starts there as
long as the row of the other table is flushed (`side_record`, `side_flush`).
-/

namespace KrabkaStreams

open Runs

variable {K V W VA VB VR : Type} [DecidableEq K]

section Streams

variable {outs outs' : List (Record K (Change VR))} {l l' l'' : K → Option VR}

def Advances (outs : List (Record K (Change VR))) (l l' : K → Option VR) : Prop :=
  ∀ k, Telescopes (l k) (changesOf k outs) ∧ lastNew (l k) (changesOf k outs) = l' k

theorem telescopes_append {last : Option VR} : ∀ {cs cs' : List (Change VR)}, Telescopes last cs →
    Telescopes (lastNew last cs) cs' → Telescopes last (cs ++ cs')
  | [], _, _, h' => h'
  | _ :: _, _, h, h' => ⟨h.1, telescopes_append h.2 h'⟩

theorem Advances.nil (l : K → Option VR) : Advances [] l l := fun _ => ⟨trivial, rfl⟩

theorem Advances.append (h : Advances outs l l') (h' : Advances outs' l' l'') :
    Advances (outs ++ outs') l l'' := by
  intro k
  obtain ⟨htel, hlast⟩ := h k
  obtain ⟨htel', hlast'⟩ := h' k
  unfold changesOf at htel hlast htel' hlast' ⊢
  rw [List.filterMap_append]
  refine ⟨telescopes_append htel (hlast ▸ htel'), ?_⟩
  unfold lastNew at hlast hlast' ⊢
  rw [List.foldl_append, hlast, hlast']

def emitted (k : K) (old new : Option VR) (ts : Int) : List (Record K (Change VR)) :=
  if old.isSome || new.isSome then [⟨some k, ⟨old, new⟩, ts⟩] else []

theorem changesOf_emitted (k k' : K) (old new : Option VR) (ts : Int) :
    changesOf k' (emitted k old new ts)
      = if k = k' ∧ (old.isSome ∨ new.isSome) then [⟨old, new⟩] else [] := by
  unfold emitted changesOf
  by_cases hk : k = k' <;> by_cases hsome : old.isSome ∨ new.isSome <;> simp [hk, hsome]

theorem Advances.emitted (l : K → Option VR) (k : K) (new : Option VR) (ts : Int) :
    Advances (emitted k (l k) new ts) l (Function.update l k new) := by
  intro k'
  rw [changesOf_emitted]
  by_cases hk : k = k'
  · subst hk
    rw [Function.update_self]
    split
    · exact ⟨⟨rfl, trivial⟩, rfl⟩
    · rename_i hgone
      simp only [true_and, not_or, Option.not_isSome_iff_eq_none] at hgone
      exact ⟨trivial, hgone.1.trans hgone.2.symm⟩
  · rw [Function.update_of_ne (Ne.symm hk), if_neg fun h => hk h.1]
    exact ⟨trivial, rfl⟩

theorem Advances.all (new : K → Option VR) (ts : K → Int) : ∀ {ks : List K} (l : K → Option VR), ks.Nodup →
    Advances (ks.map fun k => KrabkaStreams.emitted k (l k) (new k) (ts k)).flatten l
      fun k => if k ∈ ks then new k else l k
  | [], l, _ => by simpa using Advances.nil l
  | k :: ks, l, h => by
    obtain ⟨hfresh, htail⟩ := List.nodup_cons.mp h
    have hrest := Advances.all new ts (Function.update l k (new k)) htail
    have hsame : ∀ k' ∈ ks, Function.update l k (new k) k' = l k' := fun k' hk' =>
      Function.update_of_ne (fun he : k' = k => hfresh (he ▸ hk')) _ _
    rw [List.map_congr_left fun k' hk' => by rw [hsame k' hk']] at hrest
    rw [List.map_cons, List.flatten_cons]
    refine (funext fun k' => ?_ : (fun k' => if k' ∈ k :: ks then new k' else l k') = _) ▸
      (Advances.emitted l k (new k) (ts k)).append hrest
    by_cases hk : k' = k
    · subst hk
      simp [hfresh]
    · simp [hk]

end Streams

omit [DecidableEq K] in
theorem joinChange_emitted (rule : Option V → Option W → Option VR) {other : TableStore K W}
    {w : K → Option W} (h : other.Rows w) (k : K) (c : Change V) (ts : Int) :
    joinChange rule none (.plain other) ⟨some k, c, ts⟩
      = .ok (emitted k (rule c.old (w k)) (rule c.new (w k)) ts) := by
  unfold joinChange emitted
  show (other.get k >>= _) = _
  rw [h.get]
  show (if _ then Except.ok _ else Except.ok _) = _
  split <;> rfl

omit [DecidableEq K] in
theorem mapM_joinChange (rule : Option V → Option W → Option VR) {other : TableStore K W} {w : K → Option W}
    (h : other.Rows w) (ks : List K) (g f : K → Option V) (ts : K → Int) :
    (ks.map fun k => (⟨some k, ⟨g k, f k⟩, ts k⟩ : Record K (Change V))).mapM
        (joinChange rule none (.plain other))
      = .ok (ks.map fun k => emitted k (rule (g k) (w k)) (rule (f k) (w k)) (ts k)) := by
  rw [List.mapM_map]
  exact Lists.mapM_eq_map fun k _ => joinChange_emitted rule h k _ _

def joined (rule : Option V → Option W → Option VR) (g : K → Option V) (w : K → Option W) (k : K) : Option VR :=
  rule (g k) (w k)

omit [DecidableEq K] in
theorem TableStore.Dirty.isCached {s : TableStore K V} {k : K} (h : s.Dirty k) : s.isCached = true := by
  obtain ⟨⟨topic, backing, ks, vs, log, logging, ctx⟩⟩ := s
  cases backing with
  | plain m => exact absurd h List.not_mem_nil
  | cached c => rfl

section Sides

variable (rule : Option V → Option W → Option VR) {own : TableStore K V} {other : TableStore K W}
  {f g : K → Option V} {w wg : K → Option W}

theorem side_record (hown : own.Stages f g) (hother : other.Stages w wg) {r : KeyedRecord K V}
    (hclean : ¬ other.Dirty r.key) : ∃ own' changes outs f' g',
      KTableSourceProcessor.process ⟨⟨own.isCached⟩⟩ own r.ctx ⟨some r.key, r.value, r.timestamp⟩
        = .ok (own', changes) ∧
      changes.mapM (joinChange rule none (.plain other)) = .ok outs ∧ own'.Stages f' g' ∧
      Advances outs.flatten (joined rule g wg) (joined rule g' wg) ∧ own'.isCached = own.isCached ∧
      ∀ k, own'.Dirty k → k = r.key ∨ own.Dirty k := by
  have hctx := hown.setRecordContext r.ctx
  have hprocess : KTableSourceProcessor.process ⟨⟨own.isCached⟩⟩ own r.ctx ⟨some r.key, r.value, r.timestamp⟩
      = .ok ((own.setRecordContext r.ctx).put r.key r.value,
        if own.isCached then [] else [⟨some r.key, ⟨f r.key, some r.value⟩, r.timestamp⟩]) := by
    unfold KTableSourceProcessor.process TupleForwarder.maybeForwardChange
    simp only [hctx.rows.get]
    rfl
  rw [hprocess]
  rcases hcached : own.isCached with _ | _
  · obtain ⟨hstages, hplain, hnone⟩ := hctx.put_plain hcached r.key r.value
    refine ⟨_, _, _, _, _, rfl, mapM_joinChange rule hother.rows [r.key] f (fun _ => some r.value) fun _ => r.timestamp,
      hstages, ?_, hplain, fun k hk => absurd hk (hnone k)⟩
    have hfg : f r.key = g r.key := hctx.clean r.key fun hd => by
      have := TableStore.Dirty.isCached hd
      exact absurd (hcached.symm.trans this) (by decide)
    have hemit := Advances.emitted (joined rule g wg) r.key (rule (some r.value) (w r.key)) r.timestamp
    have hw : w r.key = wg r.key := hother.clean _ hclean
    rw [List.map_singleton, List.flatten_singleton, hfg, hw]
    rw [hw] at hemit
    refine (funext fun k => ?_ : joined rule (Function.update g r.key (some r.value)) wg = _) ▸ hemit
    by_cases hk : k = r.key
    · subst hk
      rw [Function.update_self, joined, Function.update_self]
    · rw [Function.update_of_ne hk, joined, joined, Function.update_of_ne hk]
  · obtain ⟨hstages, hstaged, hdirty⟩ := hctx.put_cached hcached r.key r.value
    exact ⟨_, _, [], _, _, rfl, rfl, hstages, .nil _, hstaged, fun k hk => (hdirty k).mp hk⟩

theorem side_flush (hown : own.Stages f g) (hother : other.Stages w wg)
    (hclean : ∀ k, own.Dirty k → ¬ other.Dirty k) : ∃ changes own' outs,
      own.flushCache = .ok (changes, own') ∧
      changes.mapM (joinChange rule none (.plain other)) = .ok outs ∧ own'.Stages f f ∧
      Advances outs.flatten (joined rule g wg) (joined rule f wg) ∧ own'.isCached = own.isCached ∧
      ∀ k, ¬ own'.Dirty k := by
  obtain ⟨ks, ts, own', hflush, hnodup, hmem, hown', hdirty, hcached⟩ := hown.flushCache
  refine ⟨_, own', _, hflush, mapM_joinChange rule hother.rows ks g f ts, hown', ?_, hcached, hdirty⟩
  have hsame : ∀ k ∈ ks, w k = wg k := fun k hk => hother.clean k (hclean k ((hmem k).mp hk))
  have hall := Advances.all (fun k => rule (f k) (w k)) ts (joined rule g wg) hnodup
  rw [List.map_congr_left fun k hk => by rw [joined, ← hsame k hk]] at hall
  refine (funext fun k => ?_ : joined rule f wg = _) ▸ hall
  by_cases hk : k ∈ ks
  · rw [if_pos hk, hsame k hk, joined]
  · rw [if_neg hk, joined, joined, hown.clean k fun hd => hk ((hmem k).mpr hd)]

end Sides

namespace TableJoin

variable {j : TableJoin VA VB VR}

def rule (j : TableJoin VA VB VR) (a : Option VA) (b : Option VB) : Option VR := j.kind.result j.joiner a b

omit [DecidableEq K] in
theorem joinThis_eq {this : TableStore K VA} {other : TableStore K VB} {changes : List (Record K (Change VA))}
    {outs : List (List (Record K (Change VR)))}
    (h : changes.mapM (joinChange j.rule none (.plain other)) = .ok outs) :
    j.joinThis ⟨this, other⟩ changes = .ok outs.flatten :=
  bind_eq_ok.mpr ⟨outs, h, rfl⟩

omit [DecidableEq K] in
theorem joinOther_eq {this : TableStore K VA} {other : TableStore K VB} {changes : List (Record K (Change VB))}
    {outs : List (List (Record K (Change VR)))}
    (h : changes.mapM (joinChange (fun b a => j.rule a b) none (.plain this)) = .ok outs) :
    j.joinOther ⟨this, other⟩ changes = .ok outs.flatten :=
  bind_eq_ok.mpr ⟨outs, h, rfl⟩

/-- What the stores hold after some events: the current rows and the flushed ones of each table, with no
row that waits for a flush in both. -/
structure Reached (s : State K VA VB) (fa ga : K → Option VA) (fb gb : K → Option VB) : Prop where
  this : s.this.Stages fa ga
  other : s.other.Stages fb gb
  apart : ∀ k, s.this.Dirty k → ¬ s.other.Dirty k

variable {s : State K VA VB} {fa ga : K → Option VA} {fb gb : K → Option VB}

theorem Reached.step_this (h : Reached s fa ga fb gb) {r : KeyedRecord K VA} (hclean : ¬ s.other.Dirty r.key) :
    ∃ s' out fa' ga', j.step s (.this r) = .ok (s', out) ∧ Reached s' fa' ga' fb gb ∧
      Advances out (joined j.rule ga gb) (joined j.rule ga' gb) ∧ s'.this.isCached = s.this.isCached ∧
      s'.other = s.other ∧ ∀ k, s'.this.Dirty k → k = r.key ∨ s.this.Dirty k := by
  obtain ⟨this', changes, outs, fa', ga', hproc, hjoin, hstages, hadv, hcached, hdirty⟩ :=
    side_record j.rule h.this h.other hclean
  refine ⟨⟨this', s.other⟩, outs.flatten, fa', ga', ?_, ⟨hstages, h.other, fun k hk => ?_⟩, hadv, hcached, rfl,
    hdirty⟩
  · unfold step
    dsimp only
    rw [hproc]
    show (j.joinThis ⟨this', s.other⟩ changes >>= _) = _
    rw [joinThis_eq hjoin]
    rfl
  · rcases hdirty k hk with rfl | hk
    · exact hclean
    · exact h.apart k hk

theorem Reached.step_other (h : Reached s fa ga fb gb) {r : KeyedRecord K VB} (hclean : ¬ s.this.Dirty r.key) :
    ∃ s' out fb' gb', j.step s (.other r) = .ok (s', out) ∧ Reached s' fa ga fb' gb' ∧
      Advances out (joined j.rule ga gb) (joined j.rule ga gb') ∧ s'.other.isCached = s.other.isCached ∧
      s'.this = s.this ∧ ∀ k, s'.other.Dirty k → k = r.key ∨ s.other.Dirty k := by
  obtain ⟨other', changes, outs, fb', gb', hproc, hjoin, hstages, hadv, hcached, hdirty⟩ :=
    side_record (fun b a => j.rule a b) h.other h.this hclean
  refine ⟨⟨s.this, other'⟩, outs.flatten, fb', gb', ?_, ⟨h.this, hstages, fun k hk hk' => ?_⟩, hadv, hcached, rfl,
    hdirty⟩
  · unfold step
    dsimp only
    rw [hproc]
    show (j.joinOther ⟨s.this, other'⟩ changes >>= _) = _
    rw [joinOther_eq hjoin]
    rfl
  · rcases hdirty k hk' with rfl | hk'
    · exact hclean hk
    · exact h.apart k hk hk'

theorem Reached.flushThis (h : Reached s fa ga fb gb) :
    ∃ s' out, j.flushThis s = .ok (s', out) ∧ Reached s' fa fa fb gb ∧
      Advances out (joined j.rule ga gb) (joined j.rule fa gb) ∧ s'.this.isCached = s.this.isCached ∧
      s'.other = s.other ∧ ∀ k, ¬ s'.this.Dirty k := by
  obtain ⟨changes, this', outs, hflush, hjoin, hstages, hadv, hcached, hdirty⟩ :=
    side_flush j.rule h.this h.other h.apart
  refine ⟨⟨this', s.other⟩, outs.flatten, ?_, ⟨hstages, h.other, fun k hk => absurd hk (hdirty k)⟩, hadv, hcached,
    rfl, hdirty⟩
  unfold TableJoin.flushThis
  rw [hflush]
  show (j.joinThis ⟨this', s.other⟩ changes >>= _) = _
  rw [joinThis_eq hjoin]
  rfl

theorem Reached.flushOther (h : Reached s fa ga fb gb) :
    ∃ s' out, j.flushOther s = .ok (s', out) ∧ Reached s' fa ga fb fb ∧
      Advances out (joined j.rule ga gb) (joined j.rule ga fb) ∧ s'.other.isCached = s.other.isCached ∧
      s'.this = s.this ∧ ∀ k, ¬ s'.other.Dirty k := by
  obtain ⟨changes, other', outs, hflush, hjoin, hstages, hadv, hcached, hdirty⟩ :=
    side_flush (fun b a => j.rule a b) h.other h.this fun k hk hk' => h.apart k hk' hk
  refine ⟨⟨s.this, other'⟩, outs.flatten, ?_, ⟨h.this, hstages, fun k _ => hdirty k⟩, hadv, hcached, rfl, hdirty⟩
  unfold TableJoin.flushOther
  rw [hflush]
  show (j.joinOther ⟨s.this, other'⟩ changes >>= _) = _
  rw [joinOther_eq hjoin]
  rfl

theorem Reached.flushCaches (h : Reached s fa ga fb gb) :
    ∃ s' out, j.flushCaches s = .ok (s', out) ∧ Reached s' fa fa fb fb ∧
      Advances out (joined j.rule ga gb) (joined j.rule fa fb) ∧ s'.this.isCached = s.this.isCached ∧
      s'.other.isCached = s.other.isCached ∧ (∀ k, ¬ s'.this.Dirty k) ∧ ∀ k, ¬ s'.other.Dirty k := by
  unfold TableJoin.flushCaches
  rcases j.thisFirst with _ | _
  · obtain ⟨s₁, out, hfirst, h₁, hadv, hcached, hsame, hdirty⟩ := h.flushOther (j := j)
    obtain ⟨s₂, out', hsecond, h₂, hadv', hcached', hsame', hdirty'⟩ := h₁.flushThis (j := j)
    refine ⟨s₂, out ++ out', ?_, h₂, hadv.append hadv', hcached'.trans (by rw [hsame]),
      (by rw [hsame']; exact hcached), hdirty', fun k => by rw [hsame']; exact hdirty k⟩
    rw [hfirst]
    show (j.flushThis s₁ >>= _) = _
    rw [hsecond]
    rfl
  · obtain ⟨s₁, out, hfirst, h₁, hadv, hcached, hsame, hdirty⟩ := h.flushThis (j := j)
    obtain ⟨s₂, out', hsecond, h₂, hadv', hcached', hsame', hdirty'⟩ := h₁.flushOther (j := j)
    refine ⟨s₂, out ++ out', ?_, h₂, hadv.append hadv', (by rw [hsame']; exact hcached),
      hcached'.trans (by rw [hsame]), fun k => by rw [hsame']; exact hdirty k, hdirty'⟩
    rw [hfirst]
    show (j.flushOther s₁ >>= _) = _
    rw [hsecond]
    rfl

/-- The rows that wait for a flush were written by records of `staged`. -/
structure WrittenBy (s : State K VA VB) (staged : List (TableJoinEvent K VA VB)) : Prop where
  this : ∀ k, s.this.Dirty k → ∃ r, .this r ∈ staged ∧ r.key = k
  other : ∀ k, s.other.Dirty k → ∃ r, .other r ∈ staged ∧ r.key = k

def Settled (s : State K VA VB) : Prop := (∀ k, ¬ s.this.Dirty k) ∧ ∀ k, ¬ s.other.Dirty k

theorem Reached.step {staged xs : List (TableJoinEvent K VA VB)} {x : TableJoinEvent K VA VB}
    (h : Reached s fa ga fb gb) (hw : WrittenBy s staged)
    (hsep : Separated s.this.isCached s.other.isCached staged (x :: xs)) :
    ∃ s' out fa' ga' fb' gb' staged', j.step s x = .ok (s', out) ∧ Reached s' fa' ga' fb' gb' ∧
      Advances out (joined j.rule ga gb) (joined j.rule ga' gb') ∧ WrittenBy s' staged' ∧
      Separated s'.this.isCached s'.other.isCached staged' xs ∧ (x = .flush → Settled s') := by
  cases x with
  | this r =>
    obtain ⟨hnew, hrest⟩ := hsep
    have hclean : ¬ s.other.Dirty r.key := fun hd => by
      obtain ⟨r', hr', hkey⟩ := hw.other _ hd
      exact hnew _ hr' ⟨hd.isCached, hkey⟩
    obtain ⟨s', out, fa', ga', hstep, h', hadv, hcached, hsame, hdirty⟩ := h.step_this (j := j) hclean
    refine ⟨s', out, fa', ga', fb, gb, .this r :: staged, hstep, h', hadv, ⟨fun k hk => ?_, fun k hk => ?_⟩, ?_,
      nofun⟩
    · rcases hdirty k hk with rfl | hk
      · exact ⟨r, List.mem_cons_self, rfl⟩
      · exact (hw.this k hk).imp fun r' hr' => ⟨List.mem_cons_of_mem _ hr'.1, hr'.2⟩
    · rw [hsame] at hk
      exact (hw.other k hk).imp fun r' hr' => ⟨List.mem_cons_of_mem _ hr'.1, hr'.2⟩
    · rw [hcached, hsame]
      exact hrest
  | other r =>
    obtain ⟨hnew, hrest⟩ := hsep
    have hclean : ¬ s.this.Dirty r.key := fun hd => by
      obtain ⟨r', hr', hkey⟩ := hw.this _ hd
      exact hnew _ hr' ⟨hd.isCached, hkey⟩
    obtain ⟨s', out, fb', gb', hstep, h', hadv, hcached, hsame, hdirty⟩ := h.step_other (j := j) hclean
    refine ⟨s', out, fa, ga, fb', gb', .other r :: staged, hstep, h', hadv, ⟨fun k hk => ?_, fun k hk => ?_⟩, ?_,
      nofun⟩
    · rw [hsame] at hk
      exact (hw.this k hk).imp fun r' hr' => ⟨List.mem_cons_of_mem _ hr'.1, hr'.2⟩
    · rcases hdirty k hk with rfl | hk
      · exact ⟨r, List.mem_cons_self, rfl⟩
      · exact (hw.other k hk).imp fun r' hr' => ⟨List.mem_cons_of_mem _ hr'.1, hr'.2⟩
    · rw [hcached, hsame]
      exact hrest
  | flush =>
    obtain ⟨s', out, hstep, h', hadv, hthis, hother, hclean, hclean'⟩ := h.flushCaches (j := j)
    refine ⟨s', out, fa, fa, fb, fb, [], hstep, h', hadv, ⟨fun k hk => absurd hk (hclean k), fun k hk =>
      absurd hk (hclean' k)⟩, ?_, fun _ => ⟨hclean, hclean'⟩⟩
    rw [hthis, hother]
    exact hsep

theorem Reached.run : ∀ (xs : List (TableJoinEvent K VA VB)) {s : State K VA VB}
    {fa ga : K → Option VA} {fb gb : K → Option VB} {staged : List (TableJoinEvent K VA VB)},
    Reached s fa ga fb gb → WrittenBy s staged → Separated s.this.isCached s.other.isCached staged xs →
    ∃ s' outs fa' ga' fb' gb', j.run s xs = .ok (s', outs) ∧ Reached s' fa' ga' fb' gb' ∧
      Advances outs (joined j.rule ga gb) (joined j.rule ga' gb') ∧
      (xs.getLast? = some .flush ∨ xs = [] ∧ Settled s → Settled s')
  | [], s, fa, ga, fb, gb, staged, h, _, _ =>
    ⟨s, [], fa, ga, fb, gb, rfl, h, .nil _, fun hor => hor.elim nofun fun h => h.2⟩
  | x :: xs, s, fa, ga, fb, gb, staged, h, hw, hsep => by
    obtain ⟨s₁, out, fa₁, ga₁, fb₁, gb₁, staged₁, hstep, h₁, hadv, hw₁, hsep₁, hflush⟩ := h.step (j := j) hw hsep
    obtain ⟨s', rest, fa', ga', fb', gb', hrest, h', hadv', hlast⟩ := Reached.run xs h₁ hw₁ hsep₁
    refine ⟨s', out ++ rest, fa', ga', fb', gb', ?_, h', hadv.append hadv', fun hor => hlast ?_⟩
    · unfold TableJoin.run
      rw [hstep]
      show (j.run s₁ xs >>= _) = _
      rw [hrest]
      rfl
    · cases xs with
      | nil => exact .inr ⟨rfl, hflush (by simpa using hor)⟩
      | cons y ys => exact .inl (by simpa using hor)

/-- A join forwards a coherent stream when no record meets one of the other table that waits in its
cache. -/
theorem coherentStream_of_separated (j : TableJoin VA VB VR) (start : State K VA VB)
    (hthis : start.this.Stages (fun _ => none) fun _ => none)
    (hother : start.other.Stages (fun _ => none) fun _ => none) (hsettled : Settled start)
    (xs : List (TableJoinEvent K VA VB))
    (hsep : Separated start.this.isCached start.other.isCached [] xs) : j.CoherentStream start xs := by
  have hstart : Reached start (fun _ => none) (fun _ => none) (fun _ => none) fun _ => none :=
    ⟨hthis, hother, fun k hk => absurd hk (hsettled.1 k)⟩
  have hw : WrittenBy start [] :=
    ⟨fun k hk => absurd hk (hsettled.1 k), fun k hk => absurd hk (hsettled.2 k)⟩
  obtain ⟨s, outs, fa, ga, fb, gb, hrun, h, hadv, hlast⟩ := hstart.run (j := j) xs hw hsep
  have hnone : joined j.rule (fun _ : K => none) (fun _ => none) = fun _ => none := by
    funext k
    unfold joined rule JoinKind.result
    simp
  rw [hnone] at hadv
  refine ⟨s, outs, hrun, fun k => ⟨(hadv k).1, fun hflush => ?_⟩⟩
  obtain ⟨hclean, hclean'⟩ := hlast (.inl hflush)
  refine ⟨fa k, fb k, h.this.rows.get k, h.other.rows.get k, ?_⟩
  rw [(hadv k).2, joined, ← h.this.clean k (hclean k), ← h.other.clean k (hclean' k)]
  rfl

def octetJoin : TableJoin UInt8 UInt8 (Option UInt8 × Option UInt8) := ⟨.inner, Prod.mk, true⟩

def cachedOctets : State UInt8 UInt8 UInt8 :=
  ⟨TableGroupBy.octetTable.enableCache, TableGroupBy.octetTable.enableCache⟩

def thisOctet (key value : UInt8) (ts : Int) : TableJoinEvent UInt8 UInt8 UInt8 :=
  .this ⟨key, value, ts, ⟨"this", 0, 0, ts⟩⟩

def otherOctet (key value : UInt8) (ts : Int) : TableJoinEvent UInt8 UInt8 UInt8 :=
  .other ⟨key, value, ts, ⟨"other", 0, 0, ts⟩⟩

theorem coherentStream_flushed : octetJoin.CoherentStream cachedOctets
    [thisOctet 1 10 0, otherOctet 2 20 1, .flush, otherOctet 1 30 2, .flush, thisOctet 1 11 3, .flush] :=
  coherentStream_of_separated octetJoin cachedOctets
    (.enableCache Changed.octetSerde_lawful Changed.octetSerde_lawful _)
    (.enableCache Changed.octetSerde_lawful Changed.octetSerde_lawful _)
    ⟨fun _ => List.not_mem_nil, fun _ => List.not_mem_nil⟩ _ (by decide)

/-- Both tables wait with a row of the key at the flush: the join row is announced twice. -/
theorem not_coherentStream_meeting : ¬ octetJoin.CoherentStream cachedOctets
    [thisOctet 1 10 0, otherOctet 1 20 1, .flush] := by
  rintro ⟨s, outs, hrun, hall⟩
  have hout : (octetJoin.run cachedOctets [thisOctet 1 10 0, otherOctet 1 20 1, .flush]).map (changesOf 1 ·.2)
      = .ok [⟨none, some (some 10, some 20)⟩, ⟨none, some (some 10, some 20)⟩] := by decide +kernel
  rw [hrun] at hout
  have htel := (hall 1).1
  rw [show changesOf 1 outs = _ from Except.ok.inj hout] at htel
  exact absurd htel.2.1 (by decide)

end TableJoin

end KrabkaStreams
