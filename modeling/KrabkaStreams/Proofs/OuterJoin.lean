import KrabkaStreams.Proofs.OuterBuffer
import KrabkaStreams.Proofs.StreamJoin

/-!
# A step of a left or an outer join

A join forwards the image of what the join forwards that keeps the sides apart (`run_eq_tagged`); a step
of the latter is `step_outer`.
-/

namespace KrabkaStreams

open Runs

variable {K A B VO : Type} (j : StreamJoin K A B VO) (xs : List (JoinRecord K A B)) (x : JoinRecord K A B)

section Naturality

variable {VThis VOther U : Type}

namespace KStreamKStreamJoinProcessor

def mapJoiner (p : KStreamKStreamJoinProcessor K VThis VOther U) (g : U → VO) :
    KStreamKStreamJoinProcessor K VThis VOther VO where
  fetchBefore := p.fetchBefore
  fetchAfter := p.fetchAfter
  joiner v w := g (p.joiner v w)
  sideLeft := p.sideLeft
  emitUnmatched := p.emitUnmatched
  outer := p.outer
  before := p.before
  after := p.after
  grace := p.grace

def mapRecord (g : U → VO) (r : Record K U) : Record K VO := ⟨r.key, g r.value, r.timestamp⟩

variable (p : KStreamKStreamJoinProcessor K VThis VOther U) (g : U → VO) (o : OuterSide K VThis)

theorem forget_mapJoiner (kb : Bytes) :
    ∀ found store, (p.mapJoiner g).forget kb found store = p.forget kb found store
  | [], _ => rfl
  | t :: found, store => by
    exact bind_congr fun r => forget_mapJoiner kb found r.2

theorem pad_mapJoiner (kb : Bytes) (key : K) (v : VThis) (t streamTime : Int) (store : TableStore Bytes Bytes) :
    (p.mapJoiner g).pad o kb key v t streamTime store
      = (p.pad o kb key v t streamTime store).map fun r => (r.1, r.2.map (mapRecord g)) := by
  show (checkedI64 (t + p.fetchAfter) >>= _) = (checkedI64 (t + p.fetchAfter) >>= _).map _
  rcases checkedI64 (t + p.fetchAfter) with e | stop
  · rfl
  · show (if stop < streamTime then _ else _) = Except.map _ (if stop < streamTime then _ else _)
    split <;> rfl

theorem release_mapJoiner :
    ∀ closed store, (p.mapJoiner g).release closed store
      = (p.release closed store).map fun r => (r.1, r.2.map (mapRecord g))
  | [], _ => rfl
  | (ts, ck, v, key) :: closed, store => by
    unfold release
    rcases store.delete ck with e | ⟨prev, store⟩
    · rfl
    · show ((p.mapJoiner g).release closed store >>= _) = (p.release closed store >>= _).map _
      rw [release_mapJoiner closed store]
      rcases p.release closed store with e | r
      · rfl
      · rfl

theorem closeScan_mapJoiner (streamTime : Int) (store : TableStore Bytes Bytes) :
    (p.mapJoiner g).closeScan o streamTime store
      = (p.closeScan o streamTime store).map fun r => (r.1, r.2.map (mapRecord g)) := by
  unfold closeScan
  rcases store.range _ _ with e | found
  · rfl
  show (found.filterM p.isOwn >>= _) = (found.filterM p.isOwn >>= _).map _
  rcases found.filterM p.isOwn with e | own
  · rfl
  show (own.filterM (p.isClosed streamTime) >>= _) = (own.filterM (p.isClosed streamTime) >>= _).map _
  rcases own.filterM (p.isClosed streamTime) with e | closed
  · rfl
  show (closed.mapM (decoded o) >>= _) = (closed.mapM (decoded o) >>= _).map _
  rcases closed.mapM (decoded o) with e | entries
  · rfl
  · exact release_mapJoiner p g entries store

theorem outerPart_mapJoiner (key : K) (v : VThis) (t : Int) (found : List Int) (buffer : OuterBuffer) :
    (p.mapJoiner g).outerPart o key v t found buffer
      = (p.outerPart o key v t found buffer).map fun r => (r.1, r.2.map (mapRecord g)) := by
  unfold outerPart
  simp only [forget_mapJoiner]
  rcases p.forget _ found buffer.store with e | store
  · rfl
  have hscan : ∀ (eager : TableStore Bytes Bytes × List (Record K U)) (time : TimeTracker),
      ((p.mapJoiner g).closeScan o time.streamTime eager.1 >>= fun r =>
        (pure (⟨r.1, time⟩, eager.2.map (mapRecord g) ++ r.2) : Except ProcessorError _))
      = ((p.closeScan o time.streamTime eager.1) >>= fun r =>
          (pure ((⟨r.1, time⟩ : OuterBuffer), eager.2 ++ r.2) : Except ProcessorError _)).map
            fun r => (r.1, r.2.map (mapRecord g)) := fun eager time => by
    rw [closeScan_mapJoiner]
    rcases p.closeScan o time.streamTime eager.1 with e | r
    · rfl
    · exact congrArg Except.ok (Prod.ext rfl (List.map_append).symm)
  show (if p.emitUnmatched && found.isEmpty then _ else _) = Except.map _ (if p.emitUnmatched && found.isEmpty then _ else _)
  split
  · rw [pad_mapJoiner]
    rcases p.pad o _ key v t _ store with e | eager
    · rfl
    · exact hscan eager _
  · exact hscan (store, []) _

theorem process_mapJoiner (own : JoinWindowBytesStore K VThis) (other : JoinWindowBytesStore K VOther)
    (buffer : OuterBuffer) (r : Record K VThis) : (p.mapJoiner g).process own other buffer r
      = (p.process own other buffer r).map fun res => (res.1, res.2.map (mapRecord g)) := by
  unfold process
  rcases r.key with _ | key
  · rfl
  show (checkedI64 (r.timestamp - p.fetchBefore) >>= _) = (checkedI64 (r.timestamp - p.fetchBefore) >>= _).map _
  rcases checkedI64 (r.timestamp - p.fetchBefore) with e | timeFrom
  · rfl
  show (checkedI64 (r.timestamp + p.fetchAfter) >>= _) = (checkedI64 (r.timestamp + p.fetchAfter) >>= _).map _
  rcases checkedI64 (r.timestamp + p.fetchAfter) with e | timeTo
  · rfl
  show (other.fetch key timeFrom timeTo >>= _) = (other.fetch key timeFrom timeTo >>= _).map _
  rcases other.fetch key timeFrom timeTo with e | found
  · rfl
  have hsame : (p.mapJoiner g).outer = p.outer := rfl
  rcases hout : p.outer with _ | o <;> simp only [hsame, hout]
  · exact congrArg Except.ok (Prod.ext rfl (by simp [mapRecord, mapJoiner]))
  · show ((p.mapJoiner g).outerPart o key r.value r.timestamp _ buffer >>= _)
      = (p.outerPart o key r.value r.timestamp _ buffer >>= _).map _
    rw [outerPart_mapJoiner]
    rcases p.outerPart o key r.value r.timestamp _ buffer with e | res
    · rfl
    · exact congrArg Except.ok (Prod.ext rfl (by simp [mapRecord, mapJoiner]))

end KStreamKStreamJoinProcessor

end Naturality

namespace StreamJoin

open JoinRecord KStreamKStreamJoinProcessor

theorem step_eq_tagged (s : State K A B) (x : JoinRecord K A B) :
    j.step s x = (j.tagged.step s x).map fun r => (r.1, r.2.map j.result) := by
  have hthis : j.joinThis = j.tagged.joinThis.mapJoiner fun o => j.joiner o.1 o.2 := rfl
  have hother : j.joinOther = j.tagged.joinOther.mapJoiner fun o => j.joiner o.1 o.2 := rfl
  cases x with
  | left k a t =>
    show (j.joinThis.process s.left s.right s.buffer ⟨some k, a, t⟩ >>= _)
      = (j.tagged.joinThis.process s.left s.right s.buffer ⟨some k, a, t⟩ >>= _).map _
    rw [hthis, process_mapJoiner]
    rcases j.tagged.joinThis.process s.left s.right s.buffer ⟨some k, a, t⟩ with e | r <;> rfl
  | right k b t =>
    show (j.joinOther.process s.right s.left s.buffer ⟨some k, b, t⟩ >>= _)
      = (j.tagged.joinOther.process s.right s.left s.buffer ⟨some k, b, t⟩ >>= _).map _
    rw [hother, process_mapJoiner]
    rcases j.tagged.joinOther.process s.right s.left s.buffer ⟨some k, b, t⟩ with e | r <;> rfl

theorem run_eq_tagged {xs : List (JoinRecord K A B)} {s : State K A B}
    {outs : List (List (Record K (Option A × Option B)))} (h : j.tagged.run xs = .ok (s, outs)) :
    j.run xs = .ok (s, outs.map (List.map j.result)) := by
  induction xs using List.reverseRecOn generalizing s outs with
  | nil =>
    cases h
    rfl
  | append_singleton xs x ih =>
    obtain ⟨s₀, os, o, hrun, hstep, rfl⟩ := run_snoc.mp h
    refine run_snoc.mpr ⟨s₀, _, o.map j.result, ih hrun, ?_, by simp⟩
    rw [step_eq_tagged, hstep]
    rfl

def bufferBytes : A ⊕ B → Bytes
  | .inl a => outerValueLeft (j.leftSerde.serialize j.outerStore a)
  | .inr b => outerValueRight (j.rightSerde.serialize j.outerStore b)

/-- The records match, and the fetch of the later one does not stop before the earlier one. -/
def Meets (x y : JoinRecord K A B) : Prop :=
  j.windows.Matches x y ∧ ¬ (x.timestamp + j.reach x.isLeft = i64Max ∧ y.timestamp = i64Max)

def Late : Prop :=
  x.timestamp + j.reach x.isLeft < joinTimeOf (xs ++ [x])

def Alone : Prop :=
  j.Emits x.isLeft ∧ ∀ y ∈ xs, ¬ j.Meets x y

open Classical in
noncomputable def entering (f : Int × Bool × K → Option (A ⊕ B)) : Int × Bool × K → Option (A ⊕ B) := fun i =>
  if i = x.slot ∧ j.Alone xs x ∧ ¬ j.Late xs x then some x.value
  else if ∃ y ∈ xs, j.Meets x y ∧ y.slot = i then none else f i

def Closed (isLeft : Bool) (time : Int) (i : Int × Bool × K) : Prop :=
  i.2.1 = isLeft ∧ i.1 + j.reach isLeft + j.windows.grace < time

/-- What a step did to the buffer, and the records it padded: its own one when it came alone and too late
to be buffered, and the closed ones. -/
structure Moves (f f' : Int × Bool × K → Option (A ⊕ B)) (eager closed : List (JoinRecord K A B)) : Prop where
  eager_late : j.Alone xs x ∧ j.Late xs x → eager = [x]
  eager_else : ¬ (j.Alone xs x ∧ j.Late xs x) → eager = []
  nodup : closed.Nodup
  mem_closed : ∀ y, y ∈ closed ↔
    j.Closed x.isLeft (joinTimeOf (xs ++ [x])) y.slot ∧ j.entering xs x f y.slot = some y.value
  of_closed : ∀ {i}, j.Closed x.isLeft (joinTimeOf (xs ++ [x])) i → f' i = none
  of_open : ∀ {i}, ¬ j.Closed x.isLeft (joinTimeOf (xs ++ [x])) i → f' i = j.entering xs x f i

structure Tracks (hk : j.keySerde.Lawful) (xs : List (JoinRecord K A B)) (buffer : OuterBuffer)
    (f : Int × Bool × K → Option (A ⊕ B)) : Prop where
  time : buffer.tracker.streamTime = joinTimeOf xs
  table : Buffered hk j.outerStore j.bufferBytes buffer.store f
  came : ∀ {i w}, f i = some w → ∃ y ∈ xs, y.slot = i ∧ y.value = w ∧ j.Emits y.isLeft

theorem joinTimeOf_snoc : joinTimeOf (xs ++ [x]) = max (joinTimeOf xs) x.timestamp := by
  unfold joinTimeOf
  rw [List.foldl_append]
  rfl

theorem isTime_joinTimeOf {xs : List (JoinRecord K A B)} (h : ∀ x ∈ xs, x.Timely) : IsTime (joinTimeOf xs) := by
  induction xs using List.reverseRecOn with
  | nil =>
    show IsTime 0
    exact ⟨le_refl _, by decide⟩
  | append_singleton xs x ih =>
    have hx : x.Timely := h x (by simp)
    obtain ⟨h0, h1⟩ := ih fun y hy => h y (List.mem_append_left _ hy)
    rw [joinTimeOf_snoc]
    exact ⟨le_max_of_le_left h0, max_le h1 hx.2⟩

/-- One of the two processors of a join, with the records and the buffered values of its side. -/
structure IsSide {VThis VOther : Type} (j : StreamJoin K A B (Option A × Option B))
    (p : KStreamKStreamJoinProcessor K VThis VOther (Option A × Option B)) (serde : Serde VThis)
    (mk : K → VThis → Int → JoinRecord K A B) (tag : VThis → A ⊕ B) : Prop where
  slot : ∀ k v t, (mk k v t).slot = (t, p.sideLeft, k)
  value : ∀ k v t, (mk k v t).value = tag v
  of_side : ∀ {y}, y.isLeft = p.sideLeft → ∃ k v t, y = mk k v t
  padded : ∀ k v t, (mk k v t).padded = p.forwardOf ((t, k), v)
  tag_inj : Function.Injective tag
  tags : p.Tags ⟨j.outerStore, j.keySerde, serde⟩ j.bufferBytes tag
  fetchAfter : p.fetchAfter = j.reach p.sideLeft
  lookback : p.lookback = j.reach p.sideLeft
  grace : p.grace = j.windows.grace
  emits : p.emitUnmatched = true ↔ j.Emits p.sideLeft
  lawful : serde.Lawful

theorem isSide_joinThis {j : StreamJoin K A B (Option A × Option B)} (hj : j.joiner = Prod.mk)
    (hl : j.leftSerde.Lawful) : IsSide j j.joinThis j.leftSerde JoinRecord.left Sum.inl where
  slot _ _ _ := rfl
  value _ _ _ := rfl
  of_side := by
    rintro (⟨k, a, t⟩ | ⟨k, b, t⟩) h
    · exact ⟨k, a, t, rfl⟩
    · cases h
  padded k v t := by
    unfold forwardOf joinThis
    rw [hj]
    rfl
  tag_inj := Sum.inl_injective
  tags _ := rfl
  fetchAfter := rfl
  lookback := rfl
  grace := rfl
  emits := by simp [joinThis, Emits]
  lawful := hl

theorem isSide_joinOther {j : StreamJoin K A B (Option A × Option B)} (hj : j.joiner = Prod.mk)
    (hr : j.rightSerde.Lawful) : IsSide j j.joinOther j.rightSerde JoinRecord.right Sum.inr where
  slot _ _ _ := rfl
  value _ _ _ := rfl
  of_side := by
    rintro (⟨k, a, t⟩ | ⟨k, b, t⟩) h
    · cases h
    · exact ⟨k, b, t, rfl⟩
  padded k v t := by
    unfold forwardOf joinOther
    rw [hj]
    rfl
  tag_inj := Sum.inr_injective
  tags _ := rfl
  fetchAfter := rfl
  lookback := rfl
  grace := rfl
  emits := by simp [joinOther, Emits]
  lawful := hr

theorem reach_nonneg (isLeft : Bool) : 0 ≤ j.reach isLeft := by
  unfold reach
  split
  · exact j.windows.after_nonneg
  · exact j.windows.before_nonneg

theorem Meets.slot {j : StreamJoin K A B VO} {x y : JoinRecord K A B} (h : j.Meets x y) :
    y.slot = (y.timestamp, !x.isLeft, x.key) := by
  obtain ⟨h, -⟩ := h
  cases x <;> cases y
  · exact h.elim
  · rw [JoinRecord.key, h.1]
    rfl
  · rw [JoinRecord.key, h.1]
    rfl
  · exact h.elim

theorem entering_cases {j : StreamJoin K A B VO} {xs : List (JoinRecord K A B)} {x : JoinRecord K A B}
    {f : Int × Bool × K → Option (A ⊕ B)} {i : Int × Bool × K} {w : A ⊕ B}
    (h : j.entering xs x f i = some w) :
    (i = x.slot ∧ w = x.value ∧ j.Alone xs x ∧ ¬ j.Late xs x) ∨
      (f i = some w ∧ ∀ y ∈ xs, j.Meets x y → y.slot ≠ i) := by
  unfold entering at h
  split at h
  · rename_i hc
    exact .inl ⟨hc.1, (Option.some.inj h).symm, hc.2⟩
  · split at h
    · cases h
    · rename_i hfree
      exact .inr ⟨h, fun y hy hm he => hfree ⟨y, hy, hm, he⟩⟩

section Side

variable {VThis VOther : Type} {j : StreamJoin K A B (Option A × Option B)}
  {p : KStreamKStreamJoinProcessor K VThis VOther (Option A × Option B)} {serde : Serde VThis}
  {mk : K → VThis → Int → JoinRecord K A B} {tag : VThis → A ⊕ B} {xs : List (JoinRecord K A B)}
  {f : Int × Bool × K → Option (A ⊕ B)} {k : K} {v : VThis} {t : Int} {found : List Int}

theorem IsSide.timestamp (hs : IsSide j p serde mk tag) (k : K) (v : VThis) (t : Int) :
    (mk k v t).timestamp = t :=
  congrArg Prod.fst (hs.slot k v t)

theorem IsSide.isLeft (hs : IsSide j p serde mk tag) (k : K) (v : VThis) (t : Int) :
    (mk k v t).isLeft = p.sideLeft :=
  congrArg (·.2.1) (hs.slot k v t)

theorem IsSide.key (hs : IsSide j p serde mk tag) (k : K) (v : VThis) (t : Int) : (mk k v t).key = k :=
  congrArg (·.2.2) (hs.slot k v t)

theorem IsSide.room (hs : IsSide j p serde mk tag) {t : Int} (ht : IsTime t)
    (h : t + j.reach p.sideLeft + j.windows.grace ≤ i64Max) : p.Room t := by
  have hr := j.reach_nonneg p.sideLeft
  have hg := j.windows.grace_nonneg
  obtain ⟨h0, -⟩ := ht
  constructor
  · rw [hs.lookback]
    simp only [IsI64, i64Min, i64Max] at h ⊢
    omega
  · rw [hs.lookback, hs.grace]
    simp only [IsI64, i64Min, i64Max] at h ⊢
    omega

def Finds (j : StreamJoin K A B VO) (xs : List (JoinRecord K A B)) (x : JoinRecord K A B) (found : List Int) :
    Prop :=
  ∀ t, t ∈ found ↔ ∃ y ∈ xs, j.Meets x y ∧ y.timestamp = t

theorem IsSide.alone_iff (hs : IsSide j p serde mk tag) (hfound : j.Finds xs (mk k v t) found) :
    j.Alone xs (mk k v t) ↔ p.emitUnmatched = true ∧ found = [] := by
  unfold Alone
  rw [hs.emits, hs.isLeft, List.eq_nil_iff_forall_not_mem]
  refine and_congr_right fun _ => ⟨fun h t' ht' => ?_, fun h y hy hm => ?_⟩
  · obtain ⟨y, hy, hm, -⟩ := (hfound t').mp ht'
    exact h y hy hm
  · exact h y.timestamp ((hfound _).mpr ⟨y, hy, hm, rfl⟩)

theorem IsSide.late_iff (hs : IsSide j p serde mk tag) :
    j.Late xs (mk k v t) ↔ t + p.fetchAfter < joinTimeOf (xs ++ [mk k v t]) := by
  unfold Late
  rw [hs.timestamp, hs.isLeft, hs.fetchAfter]

theorem IsSide.entered_eq [DecidableEq K] (hs : IsSide j p serde mk tag) (hfound : j.Finds xs (mk k v t) found) :
    p.entered tag k v t found (joinTimeOf (xs ++ [mk k v t])) f = j.entering xs (mk k v t) f := by
  funext i
  have hput : (i = (t, p.sideLeft, k) ∧ p.emitUnmatched = true ∧ found = [] ∧
      ¬ t + p.fetchAfter < joinTimeOf (xs ++ [mk k v t])) ↔
      i = (mk k v t).slot ∧ j.Alone xs (mk k v t) ∧ ¬ j.Late xs (mk k v t) := by
    rw [hs.slot, hs.alone_iff hfound, hs.late_iff, and_assoc]
  have hmet : (i.1 ∈ found ∧ i.2 = (!p.sideLeft, k)) ↔ ∃ y ∈ xs, j.Meets (mk k v t) y ∧ y.slot = i := by
    rw [hfound]
    constructor
    · rintro ⟨⟨y, hy, hm, ht⟩, hi⟩
      refine ⟨y, hy, hm, ?_⟩
      rw [hm.slot, hs.isLeft, hs.key, ht, ← hi]
    · rintro ⟨y, hy, hm, rfl⟩
      rw [hm.slot, hs.isLeft, hs.key]
      exact ⟨⟨y, hy, hm, rfl⟩, rfl⟩
  unfold entered entering
  by_cases h₁ : i = (mk k v t).slot ∧ j.Alone xs (mk k v t) ∧ ¬ j.Late xs (mk k v t)
  · rw [if_pos (hput.mpr h₁), if_pos h₁, hs.value]
  · rw [if_neg fun h => h₁ (hput.mp h), if_neg h₁]
    by_cases h₂ : ∃ y ∈ xs, j.Meets (mk k v t) y ∧ y.slot = i
    · rw [if_pos (hmet.mpr h₂), if_pos h₂]
    · rw [if_neg fun h => h₂ (hmet.mp h), if_neg h₂]

theorem IsSide.outerPart_moves [DecidableEq K] (hs : IsSide j p serde mk tag) {hk : j.keySerde.Lawful}
    {buffer : OuterBuffer} (h : Tracks j hk xs buffer f) (hxs : ∀ y ∈ xs, y.Timely)
    (hx : (mk k v t).Timely) (hfit : j.Headroom (xs ++ [mk k v t]))
    (hfound : j.Finds xs (mk k v t) found) :
    ∃ buffer' f' eager closed,
      p.outerPart ⟨j.outerStore, j.keySerde, serde⟩ k v t found buffer
        = .ok (buffer', (eager ++ closed).map JoinRecord.padded) ∧
      Tracks j hk (xs ++ [mk k v t]) buffer' f' ∧ Moves j xs (mk k v t) f f' eager closed := by
  have ht : IsTime t := hs.timestamp k v t ▸ hx
  have hfitx := hfit (mk k v t) (by simp)
  unfold closing at hfitx
  rw [hs.timestamp, hs.isLeft] at hfitx
  have htime : max buffer.tracker.streamTime t = joinTimeOf (xs ++ [mk k v t]) := by
    rw [joinTimeOf_snoc, h.time, hs.timestamp]
  have hst : IsTime (max buffer.tracker.streamTime t) := by
    rw [htime]
    refine isTime_joinTimeOf fun y hy => ?_
    rcases List.mem_append.mp hy with hy | hy
    · exact hxs y hy
    · exact List.mem_singleton.mp hy ▸ hx
  have hto : IsI64 (t + p.fetchAfter) := by
    rw [hs.fetchAfter]
    exact (JoinWindows.isI64_add (j.reach_nonneg _) ht).mpr hfitx.1
  have hgrace : 0 ≤ p.lookback + p.grace := by
    rw [hs.lookback, hs.grace]
    exact add_nonneg (j.reach_nonneg _) j.windows.grace_nonneg
  have hown : ∀ t' k' w, f (t', p.sideLeft, k') = some w → p.Room t' ∧ ∃ v, w = tag v := by
    intro t' k' w hf
    obtain ⟨y, hy, hslot, rfl, hemit⟩ := h.came hf
    obtain ⟨k'', v', t'', rfl⟩ := hs.of_side (congrArg (·.2.1) hslot)
    have hclose := (hfit _ (List.mem_append_left _ hy)).2 hemit
    unfold closing at hclose
    rw [hs.isLeft] at hclose
    have hts : (mk k'' v' t'').timestamp = t' := congrArg Prod.fst hslot
    exact ⟨hs.room (hts ▸ hxs _ hy) (hts ▸ hclose), v', hs.value _ _ _⟩
  obtain ⟨s', es, hpart, htable, hnodup, hmem⟩ := outerPart_spec (o := ⟨j.outerStore, j.keySerde, serde⟩)
    hs.tags hs.tag_inj hs.lawful h.table k v ht hto
    (fun t' ht' => by
      obtain ⟨y, hy, -, rfl⟩ := (hfound t').mp ht'
      exact hxs y hy)
    hst hgrace (fun he => hs.room ht (hfitx.2 (hs.emits.mp he))) hown
  rw [htime] at hpart htable hmem
  simp only [hs.entered_eq hfound] at htable hmem
  have hclosed : ∀ i, p.ClosedAt (joinTimeOf (xs ++ [mk k v t])) i ↔
      j.Closed (mk k v t).isLeft (joinTimeOf (xs ++ [mk k v t])) i := fun i => by
    unfold ClosedAt Closed
    rw [hs.isLeft, hs.lookback, hs.grace]
  let record (e : (Int × K) × VThis) : JoinRecord K A B := mk e.1.2 e.2 e.1.1
  have hforward : ∀ es : List ((Int × K) × VThis), es.map p.forwardOf = (es.map record).map JoinRecord.padded :=
    fun es => by
      rw [List.map_map]
      exact List.map_congr_left fun e _ => (hs.padded e.1.2 e.2 e.1.1).symm
  refine ⟨⟨s', ⟨joinTimeOf (xs ++ [mk k v t])⟩⟩, _,
    (p.eager k v t found (joinTimeOf (xs ++ [mk k v t]))).map record, es.map record, ?_,
    ⟨rfl, htable, fun {i w} hw => ?_⟩, ?_, ?_, ?_, fun y => ?_, fun {i} hi => ?_, fun {i} hi => ?_⟩
  · rw [hpart, hforward, List.map_append]
  · split at hw
    · cases hw
    · rcases entering_cases hw with ⟨rfl, rfl, halone, -⟩ | ⟨hf, -⟩
      · exact ⟨_, by simp, rfl, rfl, halone.1⟩
      · obtain ⟨y, hy, hrest⟩ := h.came hf
        exact ⟨y, List.mem_append_left _ hy, hrest⟩
  · rintro ⟨halone, hlate⟩
    have hc := (hs.alone_iff hfound).mp halone
    rw [eager, if_pos ⟨hc.1, hc.2, hs.late_iff.mp hlate⟩]
    rfl
  · intro hno
    rw [eager, if_neg fun hc => hno ⟨(hs.alone_iff hfound).mpr ⟨hc.1, hc.2.1⟩, hs.late_iff.mpr hc.2.2⟩]
    rfl
  · refine List.Nodup.of_map (fun y : JoinRecord K A B => (y.timestamp, y.key)) ?_
    rw [List.map_map]
    refine (List.map_congr_left fun e _ => ?_ : es.map _ = es.map Prod.fst) ▸ hnodup
    exact Prod.ext (hs.timestamp ..) (hs.key ..)
  · rw [← hclosed, List.mem_map]
    constructor
    · rintro ⟨e, he, rfl⟩
      obtain ⟨hf, hc⟩ := (hmem e).mp he
      rw [hs.slot, hs.value]
      exact ⟨⟨rfl, hc⟩, hf⟩
    · rintro ⟨hc, hf⟩
      obtain ⟨k', v', t', rfl⟩ := hs.of_side hc.1
      rw [hs.slot] at hc hf
      rw [hs.value] at hf
      exact ⟨((t', k'), v'), (hmem _).mpr ⟨hf, hc.2⟩, rfl⟩
  · exact if_pos ((hclosed i).mpr hi)
  · exact if_neg fun hc => hi ((hclosed i).mp hc)

end Side

theorem process_outer {VThis VOther : Type} {p : KStreamKStreamJoinProcessor K VThis VOther VO}
    {o : OuterSide K VThis} (hp : p.outer = some o) {own : JoinWindowBytesStore K VThis}
    {other : JoinWindowBytesStore K VOther} {buffer buffer' : OuterBuffer} {k : K} {v : VThis} {t : Int}
    (hfrom : IsI64 (t - p.fetchBefore)) (hto : IsI64 (t + p.fetchAfter)) {found : List (Int × VOther)}
    (hfound : other.fetch k (t - p.fetchBefore) (t + p.fetchAfter) = .ok found)
    {pads : List (Record K VO)} (hpart : p.outerPart o k v t (found.map Prod.fst) buffer = .ok (buffer', pads)) :
    p.process own other buffer ⟨some k, v, t⟩ = .ok ((own.put k t v, buffer'),
      (found.map fun m => ⟨some k, p.joiner v (some m.2), max t m.1⟩) ++ pads) := by
  unfold KStreamKStreamJoinProcessor.process
  simp only [checkedI64_eq_ok.mpr ⟨hfrom, rfl⟩, checkedI64_eq_ok.mpr ⟨hto, rfl⟩, hfound, hp, hpart, bind,
    Except.bind, pure, Except.pure]

section Step

variable {j : StreamJoin K A B VO} {xs : List (JoinRecord K A B)}

theorem finds_left (hk : j.keySerde.Lawful) (k : K) (a : A) (t t' : Int) :
    (∃ p ∈ xs.filterMap toRight, j.start.right.keyBytes p.key = j.start.right.keyBytes k ∧
      p.timestamp = t' ∧ t - j.windows.before ≤ t' ∧ t' ≤ t + j.windows.after ∧
        (t + j.windows.after = i64Max → t' ≠ i64Max)) ↔
      ∃ y ∈ xs, j.Meets (.left k a t) y ∧ y.timestamp = t' := by
  constructor
  · rintro ⟨⟨k', t', b⟩, hp, hkey, rfl, hlo, hhi, hlast⟩
    refine ⟨_, mem_filterMap_toRight hp, ⟨⟨(Serde.Lawful.inj hk hkey).symm, ?_⟩, fun h => hlast h.1 h.2⟩, rfl⟩
    exact ⟨by omega, by omega⟩
  · rintro ⟨y, hy, ⟨hm, hlast⟩, rfl⟩
    cases y with
    | left => exact hm.elim
    | right k' b t' =>
      obtain ⟨rfl, hlo, hhi⟩ := hm
      refine ⟨⟨k, t', b⟩, List.mem_filterMap.mpr ⟨_, hy, rfl⟩, rfl, rfl, ?_⟩
      simp only [timestamp] at hlast ⊢
      exact ⟨by omega, by omega, fun h1 h2 => hlast ⟨h1, h2⟩⟩

theorem finds_right (hk : j.keySerde.Lawful) (k : K) (b : B) (t t' : Int) :
    (∃ p ∈ xs.filterMap toLeft, j.start.left.keyBytes p.key = j.start.left.keyBytes k ∧
      p.timestamp = t' ∧ t - j.windows.after ≤ t' ∧ t' ≤ t + j.windows.before ∧
        (t + j.windows.before = i64Max → t' ≠ i64Max)) ↔
      ∃ y ∈ xs, j.Meets (.right k b t) y ∧ y.timestamp = t' := by
  constructor
  · rintro ⟨⟨k', t', a⟩, hp, hkey, rfl, hlo, hhi, hlast⟩
    refine ⟨_, mem_filterMap_toLeft hp, ⟨⟨(Serde.Lawful.inj hk hkey).symm, ?_⟩, fun h => hlast h.1 h.2⟩, rfl⟩
    exact ⟨by omega, by omega⟩
  · rintro ⟨y, hy, ⟨hm, hlast⟩, rfl⟩
    cases y with
    | right => exact hm.elim
    | left k' a t' =>
      obtain ⟨rfl, hlo, hhi⟩ := hm
      refine ⟨⟨k, t', a⟩, List.mem_filterMap.mpr ⟨_, hy, rfl⟩, rfl, rfl, ?_⟩
      simp only [timestamp] at hlast ⊢
      exact ⟨by omega, by omega, fun h1 h2 => hlast ⟨h1, h2⟩⟩

end Step

theorem step_outer [DecidableEq K] {j : StreamJoin K A B (Option A × Option B)} (hj : j.joiner = Prod.mk)
    (hkind : (!j.kind.aRequired || !j.kind.bRequired) = true) {hk : j.keySerde.Lawful}
    (hl : j.leftSerde.Lawful) (hr : j.rightSerde.Lawful) {xs : List (JoinRecord K A B)}
    {x : JoinRecord K A B} {s : State K A B} {f : Int × Bool × K → Option (A ⊕ B)} (hh : Holds j xs s)
    (h : Tracks j hk xs s.buffer f) (hxs : ∀ y ∈ xs, y.Timely) (hx : x.Timely)
    (hfit : j.Headroom (xs ++ [x])) :
    ∃ s' f' joins eager closed, j.step s x = .ok (s', joins ++ (eager ++ closed).map JoinRecord.padded) ∧
      Holds j (xs ++ [x]) s' ∧ Tracks j hk (xs ++ [x]) s'.buffer f' ∧ Moves j xs x f f' eager closed ∧
      ∀ o ∈ joins, o.value.1.isSome ∧ o.value.2.isSome := by
  have hfitx := (hfit x (by simp)).1
  cases x with
  | left k a t =>
    have hfrom := JoinWindows.isI64_sub j.windows.before_nonneg j.windows.before_le hx
    have hto := (JoinWindows.isI64_add j.windows.after_nonneg hx).mpr hfitx
    have h0 : -1 ≤ t + j.windows.after := by
      have h1 := j.windows.after_nonneg
      have h2 : 0 ≤ t := hx.1
      omega
    have hputs : ∀ p ∈ xs.filterMap toRight, IsTime p.timestamp := fun p hp =>
      hxs _ (mem_filterMap_toRight hp)
    obtain ⟨found, hfound, hmem⟩ := (JoinWindowBytesStore.covers_putAll (s := j.start.right) hr rfl rfl
      fun p hp => (hputs p hp).isI64).fetch hputs k hfrom hto h0
    rw [(JoinWindowBytesStore.putAll_frame ..).1] at hmem
    rw [← hh.right] at hfound
    obtain ⟨buffer', f', eager, closed, hpart, htracks, hmoves⟩ :=
      (isSide_joinThis hj hl).outerPart_moves h hxs hx hfit fun t' => (hmem t').trans (finds_left hk k a t t')
    have houter : j.joinThis.outer = some ⟨j.outerStore, j.keySerde, j.leftSerde⟩ := if_pos hkind
    have hstep : j.joinThis.process s.left s.right s.buffer ⟨some k, a, t⟩ = _ :=
      process_outer houter hfrom hto hfound hpart
    refine ⟨_, f', _, eager, closed, bind_eq_ok.mpr ⟨_, hstep, rfl⟩, hh.snoc_left k a t buffer', htracks,
      hmoves, fun o ho => ?_⟩
    obtain ⟨m, -, rfl⟩ := List.mem_map.mp ho
    show (j.joiner (some a) (some m.2)).1.isSome ∧ (j.joiner (some a) (some m.2)).2.isSome
    rw [hj]
    exact ⟨rfl, rfl⟩
  | right k b t =>
    have hfrom := JoinWindows.isI64_sub j.windows.after_nonneg j.windows.after_le hx
    have hto := (JoinWindows.isI64_add j.windows.before_nonneg hx).mpr hfitx
    have h0 : -1 ≤ t + j.windows.before := by
      have h1 := j.windows.before_nonneg
      have h2 : 0 ≤ t := hx.1
      omega
    have hputs : ∀ p ∈ xs.filterMap toLeft, IsTime p.timestamp := fun p hp =>
      hxs _ (mem_filterMap_toLeft hp)
    obtain ⟨found, hfound, hmem⟩ := (JoinWindowBytesStore.covers_putAll (s := j.start.left) hl rfl rfl
      fun p hp => (hputs p hp).isI64).fetch hputs k hfrom hto h0
    rw [(JoinWindowBytesStore.putAll_frame ..).1] at hmem
    rw [← hh.left] at hfound
    obtain ⟨buffer', f', eager, closed, hpart, htracks, hmoves⟩ :=
      (isSide_joinOther hj hr).outerPart_moves h hxs hx hfit fun t' => (hmem t').trans (finds_right hk k b t t')
    have houter : j.joinOther.outer = some ⟨j.outerStore, j.keySerde, j.rightSerde⟩ := if_pos hkind
    have hstep : j.joinOther.process s.right s.left s.buffer ⟨some k, b, t⟩ = _ :=
      process_outer houter hfrom hto hfound hpart
    refine ⟨_, f', _, eager, closed, bind_eq_ok.mpr ⟨_, hstep, rfl⟩, hh.snoc_right k b t buffer', htracks,
      hmoves, fun o ho => ?_⟩
    obtain ⟨m, -, rfl⟩ := List.mem_map.mp ho
    show (j.joiner (some m.2) (some b)).1.isSome ∧ (j.joiner (some m.2) (some b)).2.isSome
    rw [hj]
    exact ⟨rfl, rfl⟩

end StreamJoin

end KrabkaStreams
