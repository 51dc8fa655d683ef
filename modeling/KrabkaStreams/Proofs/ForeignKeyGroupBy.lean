import KrabkaStreams.Dsl.ForeignKeyGroupBy
import KrabkaStreams.Proofs.ForeignKeyRuns
import Mathlib.Data.Fintype.Option

/-!
# The aggregate behind a foreign-key join

When every change is propagated before the next, at most one message is on the way for a row
(`Sparse.step`), and each forwarded change has its true old side, none (`foldsJoin_of_onlyAdds`).
-/

namespace KrabkaStreams

open Runs

variable {K VA KO VB V KR VR T : Type} [DecidableEq K] [DecidableEq VA] [DecidableEq KO]
  {x : FkEvent K VA KO VB}

namespace FkProtocol

variable {p : FkProtocol VA KO VB V} {s : State K VA KO VB V}

/-- One registration of a change is on the way, for a key without an output row; the others only take a
subscription back. -/
structure Awaits (s : State K VA KO VB V) (f : KO) (ds : List (Registration K VA)) (m : Registration K VA) :
    Prop where
  regs : s.regs f = ds ++ [m]
  before : ∀ d ∈ ds, d.instruction = .deleteKeyNoPropagate
  others : ∀ f', f' ≠ f → ∀ d ∈ s.regs f', d.instruction = .deleteKeyNoPropagate
  resps : ∀ k, s.resps k = []
  fresh : s.out m.key = none

/-- The registrations on the way only take a subscription back. A key has one response at most, and if it
is current there is no output row yet. -/
structure Answered (s : State K VA KO VB V) : Prop where
  regs : ∀ f, ∀ d ∈ s.regs f, d.instruction = .deleteKeyNoPropagate
  resps : ∀ k, (s.resps k).length ≤ 1
  fresh : ∀ k, ∀ m ∈ s.resps k, m.value = s.left k → s.out k = none

def Sparse (s : State K VA KO VB V) : Prop := Answered s ∨ ∃ f ds m, Awaits s f ds m

omit [DecidableEq K] [DecidableEq VA] [DecidableEq KO] in
theorem Sparse.fresh (h : Sparse s) {k : K} {m : Response VA VB} (hm : m ∈ s.resps k) (hv : m.value = s.left k) :
    s.out k = none := by
  rcases h with h | ⟨f, ds, m', h⟩
  · exact h.fresh k m hm hv
  · rw [h.resps k] at hm
    cases hm

omit [DecidableEq K] [DecidableEq VA] [DecidableEq KO] in
theorem Drained.answered (h : Drained s) : Answered s where
  regs f d hd := by
    rw [h.1 f] at hd
    cases hd
  resps k := by
    rw [h.2 k]
    exact Nat.zero_le 1
  fresh k m hm := by
    rw [h.2 k] at hm
    cases hm

omit [DecidableEq K] [DecidableEq VA] in
theorem instructions_shape (p : FkProtocol VA KO VB V) (old new : Option VA) :
    p.instructions old new = [] ∨ ∃ ds f i, p.instructions old new = ds ++ [(f, i)] ∧
      ∀ d ∈ ds, d.2 = Instruction.deleteKeyNoPropagate := by
  unfold instructions
  rcases p.isLeft with _ | _ <;> rcases old with _ | o <;> rcases new with _ | n
  · exact .inl rfl
  · exact .inr ⟨[], _, _, rfl, by simp⟩
  · exact .inr ⟨[], _, _, rfl, by simp⟩
  · by_cases hf : p.fk o = p.fk n
    · exact .inr ⟨[], p.fk n, .propagateOnlyIfFkValAvailable, by simp [hf], by simp⟩
    · exact .inr ⟨[(p.fk o, .deleteKeyNoPropagate)], p.fk n, .propagateNullIfNoFkValAvailable, by simp [hf], by simp⟩
  · exact .inl rfl
  · exact .inr ⟨[], _, _, rfl, by simp⟩
  · exact .inr ⟨[], p.fk o, .deleteKeyNoPropagate, by simp, by simp⟩
  · exact .inr ⟨_, p.fk n, .propagateNullIfNoFkValAvailable, rfl, by simp⟩

theorem sparse_left (hd : Drained s) {k : K} (hk : s.out k = none) (new : Option VA) (ts partition : Int) :
    Sparse (p.step s (.left k new ts partition)) := by
  have hregs : ∀ f, (p.step s (.left k new ts partition)).regs f
      = ((p.instructions (s.left k) new).filter fun i => i.1 = f).map fun i => ⟨k, i.2, new⟩ := by
    intro f
    rw [regs_left, hd.1 f, List.nil_append]
  rcases instructions_shape p (s.left k) new with hnil | ⟨ds, f, i, heq, hds⟩
  · refine .inl (Drained.answered ⟨fun f => ?_, hd.2⟩)
    rw [hregs, hnil]
    rfl
  · have hdel : ∀ f', ∀ d ∈ ((ds.filter fun i => i.1 = f').map fun i => (⟨k, i.2, new⟩ : Registration K VA)),
        d.instruction = .deleteKeyNoPropagate := by
      intro f' d hd'
      obtain ⟨e, he, rfl⟩ := List.mem_map.mp hd'
      exact hds e (List.mem_filter.mp he).1
    refine .inr ⟨f, (ds.filter fun i => i.1 = f).map fun i => ⟨k, i.2, new⟩, ⟨k, i, new⟩, ?_, hdel f, ?_, hd.2, hk⟩
    · rw [hregs, heq, List.filter_append, List.map_append]
      simp
    · intro f' hf' d hd'
      rw [hregs, heq, List.filter_append, List.filter_cons_of_neg (by simpa using Ne.symm hf')] at hd'
      simp only [List.filter_nil, List.append_nil] at hd'
      exact hdel f' d hd'

theorem sparse_right (h : Inv p s) (hinner : p.isLeft = false) (hd : Drained s) {f : KO}
    (hadds : s.right f = none ∨ ∀ k, ∀ v ∈ s.left k, p.fk v ≠ f) (new : Option VB) (ts : Int) :
    Sparse (p.step s (.right f new ts)) := by
  have hresps : ∀ k, (p.step s (.right f new ts)).resps k = (s.subs f k).toList.map fun v => ⟨v, new⟩ := by
    intro k
    show s.resps k ++ _ = _
    rw [hd.2 k, List.nil_append]
  refine .inl ⟨hd.answered.regs, fun k => ?_, fun k m hm hv => ?_⟩
  · rw [hresps]
    cases s.subs f k <;> simp
  · rw [hresps] at hm
    obtain ⟨v, hsub, rfl⟩ := List.mem_map.mp hm
    have hfk := h.subs_fk (Option.mem_toList.mp hsub)
    obtain ⟨w, hw, hf⟩ := Option.map_eq_some_iff.mp hfk
    have hleft : s.left k = some w := hv.symm.trans hw
    rcases hadds with hright | hnone
    · show s.out k = none
      rw [h.out_of_drained hd k]
      refine joinRow_eq_none hinner fun a ha => ?_
      rw [hleft] at ha
      rw [← Option.some.inj ha, hf, hright]
    · exact absurd hf (hnone k w hleft)

theorem Answered.register (h : Answered s) (f : KO) : Answered (p.step s (.register f)) := by
  rcases hregs : s.regs f with _ | ⟨m, rest⟩
  · rw [step_register_nil p s hregs]
    exact h
  · have hm : m.instruction = .deleteKeyNoPropagate := h.regs f m (hregs ▸ List.mem_cons_self)
    rw [step_register_cons p s hregs, hm]
    exact ⟨fun f' d hd => h.regs f' d (mem_of_mem_rest hregs hd), h.resps, h.fresh⟩

theorem Awaits.register {f₀ : KO} {ds : List (Registration K VA)} {m₀ : Registration K VA}
    (h : Awaits s f₀ ds m₀) (f : KO) : Sparse (p.step s (.register f)) := by
  rcases hregs : s.regs f with _ | ⟨m, rest⟩
  · rw [step_register_nil p s hregs]
    exact .inr ⟨f₀, ds, m₀, h⟩
  · rw [step_register_cons p s hregs]
    by_cases hf : f = f₀
    · subst hf
      have hcons := hregs.symm.trans h.regs
      rcases ds with _ | ⟨d, ds⟩
      · -- the registration that may be answered
        obtain ⟨rfl, rfl⟩ := List.cons.inj hcons
        refine .inl ⟨fun f' d hd => ?_, fun k => ?_, fun k r hr _ => ?_⟩
        · dsimp only at hd
          by_cases hf' : f' = f
          · subst hf'
            rw [Function.update_self] at hd
            cases hd
          · rw [Function.update_of_ne hf'] at hd
            exact h.others f' hf' d hd
        · dsimp only
          rw [enqueueAll_apply, h.resps k, List.nil_append, List.length_map]
          refine (List.length_filter_le _ _).trans ?_
          cases answer (s.right f) m.instruction <;> simp
        · dsimp only at hr
          rw [enqueueAll_apply, h.resps k, List.nil_append] at hr
          obtain ⟨e, he, -⟩ := List.mem_map.mp hr
          obtain ⟨hmem, hk⟩ := List.mem_filter.mp he
          obtain ⟨b, -, rfl⟩ := List.mem_map.mp hmem
          rw [← of_decide_eq_true hk]
          exact h.fresh
      · obtain ⟨rfl, rfl⟩ := List.cons.inj hcons
        have hm : m.instruction = .deleteKeyNoPropagate := h.before m List.mem_cons_self
        rw [hm]
        refine .inr ⟨f, ds, m₀, ?_, fun d hd => h.before d (List.mem_cons_of_mem _ hd), fun f' hf' d hd => ?_,
          h.resps, h.fresh⟩
        · exact Function.update_self ..
        · exact h.others f' hf' d (mem_of_mem_rest hregs hd)
    · have hm : m.instruction = .deleteKeyNoPropagate := h.others f hf m (hregs ▸ List.mem_cons_self)
      rw [hm]
      refine .inr ⟨f₀, ds, m₀, ?_, h.before, fun f' hf' d hd => ?_, h.resps, h.fresh⟩
      · exact (Function.update_of_ne (Ne.symm hf) ..).trans h.regs
      · exact h.others f' hf' d (mem_of_mem_rest hregs hd)

theorem Answered.respond (h : Answered s) (k : K) : Answered (p.step s (.respond k)) := by
  rcases hresps : s.resps k with _ | ⟨m, rest⟩
  · rw [step_respond_nil p s hresps]
    exact h
  · have hrest : rest = [] := by
      have hlen := h.resps k
      rw [hresps, List.length_cons] at hlen
      exact List.length_eq_zero_iff.mp (by omega)
    subst hrest
    rw [step_respond_cons p s hresps]
    refine ⟨h.regs, fun k' => ?_, fun k' r hr hv => ?_⟩
    · by_cases hk : k' = k
      · subst hk
        simp
      · simpa [hk] using h.resps k'
    · dsimp only at hr hv ⊢
      by_cases hk : k' = k
      · subst hk
        rw [Function.update_self] at hr
        cases hr
      · rw [Function.update_of_ne hk] at hr
        have hout := h.fresh k' r hr hv
        split
        · rwa [Function.update_of_ne hk]
        · exact hout

omit [DecidableEq K] [DecidableEq VA] [DecidableEq KO] in
theorem safe_of_drained (hinner : p.isLeft = false) (hchange : x.IsChange → Drained s) : Safe p s x := by
  rcases x with ⟨k, _ | n, ts, partition⟩ | ⟨f, _ | b, ts⟩ | f | k
  · exact fun hleft => absurd (hleft.symm.trans hinner) (by decide)
  · obtain ⟨hregs, hresps⟩ := hchange trivial
    refine fun _ _ _ => ⟨hresps k, fun f m hm => ?_⟩
    rw [hregs f] at hm
    cases hm
  · intro _ m hm
    rw [(hchange trivial).1 f] at hm
    cases hm
  all_goals trivial

end FkProtocol

namespace ForeignKeyGroupBy

open FkProtocol ForeignKeyJoin

variable [DecidableEq KR] {t : ForeignKeyGroupBy K VA KO VB V KR VR T}

omit [DecidableEq KR] in
theorem sparse_step {j : ForeignKeyJoin K VA KO VB V} {a : FkProtocol.State K VA KO VB V} (h : Sparse a)
    (hinv : Inv j.protocol a) (hinner : j.isLeft = false) (hchange : x.IsChange → FkProtocol.Drained a)
    (hadds : j.Adds a.left a.right x) : Sparse (j.protocol.step a x) := by
  cases x with
  | left k new ts partition =>
    have hd := hchange trivial
    refine sparse_left hd ?_ new ts partition
    rw [hinv.out_of_drained hd k, joinRow_protocol]
    exact hadds
  | right f new ts => exact sparse_right hinv hinner (hchange trivial) hadds new ts
  | register f =>
    rcases h with h | ⟨f₀, ds, m, h⟩
    · exact .inl (h.register f)
    · exact h.register f
  | respond k =>
    rcases h with h | ⟨f₀, ds, m, h⟩
    · exact .inl (h.respond k)
    · rw [step_respond_nil _ _ (h.resps k)]
      exact .inr ⟨f₀, ds, m, h⟩

/-- The join follows its protocol, and the aggregates are the folds of its output. -/
structure Reached (t : ForeignKeyGroupBy K VA KO VB V KR VR T) (hinv : t.grouped.aggregate.Invertible)
    (s : State K VA KO VB KR T) (a : FkProtocol.State K VA KO VB V) : Prop where
  sim : t.join.Sim s.join a
  inv : Inv t.join.protocol a
  sparse : Sparse a
  folds : ∃ f, s.aggregate.Rows f ∧ (t.grouped.grouping hinv).Folds (t.grouped.aggregateOf f) a.out

section Steps

variable {hinv : t.grouped.aggregate.Invertible} {s : State K VA KO VB KR T} {a : FkProtocol.State K VA KO VB V}

theorem Reached.feedAll (h : Reached t hinv s a) (hops : t.grouped.Hops) {outs : List (Record K (Change V))}
    {o : K → Option V} (hout : Forwards a x outs o) (reading : Reading) :
    ∃ agg f, t.grouped.feedAll reading outs s.aggregate = .ok agg ∧ agg.Rows f ∧
      (t.grouped.grouping hinv).Folds (t.grouped.aggregateOf f) o := by
  obtain ⟨f, hrows, hfolds⟩ := h.folds
  cases hout with
  | nothing => exact ⟨s.aggregate, f, rfl, hrows, hfolds⟩
  | @row k m hm hv new ts =>
    obtain ⟨agg, f', hfeed, hrows', hfolds'⟩ := GroupedTable.feed_folds hops hinv hrows hfolds k new ts reading
    rw [h.sparse.fresh hm hv] at hfeed
    exact ⟨agg, f', bind_eq_ok.mpr ⟨agg, hfeed, rfl⟩, hrows', hfolds'⟩

theorem Reached.step (h : Reached t hinv s a) (hj : t.join.Sound) (hinner : t.join.isLeft = false)
    (hops : t.grouped.Hops) (hchange : x.IsChange → s.join.Drained) (hadds : t.join.Adds a.left a.right x)
    (reading : Reading) :
    ∃ s' outs, t.step s x reading = .ok s' ∧ t.join.step s.join x = .ok (s'.join, outs) ∧
      Reached t hinv s' (t.join.protocol.step a x) := by
  have hchange' : x.IsChange → FkProtocol.Drained a := fun hx => h.sim.drained_iff.mp (hchange hx)
  obtain ⟨c', outs, hstep, hsim, hout⟩ := h.sim.step hj x
  obtain ⟨agg, f, hfeed, hrows, hfolds⟩ := h.feedAll hops hout reading
  refine ⟨⟨c', agg⟩, outs, ?_, hstep, hsim, h.inv.step (safe_of_drained hinner hchange'),
    sparse_step h.sparse h.inv hinner hchange' hadds, f, hrows, hfolds⟩
  exact bind_eq_ok.mpr ⟨_, hstep, bind_eq_ok.mpr ⟨agg, hfeed, rfl⟩⟩

end Steps

theorem Reached.run {hinv : t.grouped.aggregate.Invertible} (hj : t.join.Sound) (hinner : t.join.isLeft = false)
    (hops : t.grouped.Hops) : ∀ (xs : List (FkEvent K VA KO VB × Reading)) {s : State K VA KO VB KR T}
    {a : FkProtocol.State K VA KO VB V}, Reached t hinv s a → t.join.Propagated s.join (xs.map Prod.fst) →
    t.join.OnlyAdds a.left a.right (xs.map Prod.fst) →
    ∃ s', t.run s xs = .ok s' ∧ s'.join.Drained ∧
      Reached t hinv s' ((xs.map Prod.fst).foldl t.join.protocol.step a)
  | [], s, _, h, hprop, _ => ⟨s, rfl, hprop, h⟩
  | (x, reading) :: rest, s, a, h, ⟨hchange, hprop⟩, ⟨hadds, honly⟩ => by
    obtain ⟨s₁, outs, hstep, hjoin, h₁⟩ := h.step hj hinner hops hchange hadds reading
    rw [hjoin] at hprop
    rw [← left_step t.join.protocol, ← right_step t.join.protocol] at honly
    obtain ⟨s', hrun, hd, h'⟩ := Reached.run hj hinner hops rest h₁ hprop honly
    exact ⟨s', bind_eq_ok.mpr ⟨s₁, hstep, hrun⟩, hd, h'⟩

/-- Behind an inner join whose changes are propagated one by one and never touch a joined row, the aggregates
are the folds of the joined rows. -/
theorem foldsJoin_of_onlyAdds (t : ForeignKeyGroupBy K VA KO VB V KR VR T) (hj : t.join.Sound)
    (hinner : t.join.isLeft = false) (hinv : t.grouped.aggregate.Invertible) (hops : t.grouped.Hops)
    (start : State K VA KO VB KR T) (hstart : Fresh start.join) (hagg : start.aggregate.Rows fun _ => none)
    (xs : List (FkEvent K VA KO VB × Reading)) (hprop : t.join.Propagated start.join (xs.map Prod.fst))
    (hadds : t.join.OnlyAdds (fun _ => none) (fun _ => none) (xs.map Prod.fst)) : t.FoldsJoin start xs := by
  have hdrained : FkProtocol.Drained (.start : FkProtocol.State K VA KO VB V) := ⟨fun _ => rfl, fun _ => rfl⟩
  have h₀ : Reached t hinv start .start := ⟨hstart.sim, .start _, .inl hdrained.answered, _, hagg, .empty _⟩
  obtain ⟨s, hrun, hd, h⟩ := Reached.run hj hinner hops xs h₀ hprop hadds
  obtain ⟨f, hrows, hfolds⟩ := h.folds
  have hout : ((xs.map Prod.fst).foldl t.join.protocol.step .start).out
      = t.join.joinRows (FkEvent.leftRows (xs.map Prod.fst)) (FkEvent.rightRows (xs.map Prod.fst)) := by
    funext k
    rw [h.inv.out_of_drained (h.sim.drained_iff.mp hd) k, left_foldl, right_foldl, joinRow_protocol]
    rfl
  rw [hout] at hfolds
  exact ⟨s, hrun, hfolds.finite, fun l hl x => ⟨f x, hrows.get x, hfolds.eq hl x⟩⟩

def orderSums : ForeignKeyGroupBy Bool (Bool × Bool) Bool Bool ((Bool × Bool) × Option Bool) UInt8 UInt8 UInt8 where
  join := orders
  grouped := { TableGroupBy.sumOfOctets with select := ⟨fun _ o => (o.1.1.toUInt8, 1 + o.1.2.toUInt8)⟩ }

def noSums : State Bool (Bool × Bool) Bool Bool UInt8 UInt8 := ⟨noOrders, TableGroupBy.octetTable⟩

def filled : List (FkEvent Bool (Bool × Bool) Bool Bool) :=
  [.left true (some (true, false)) 0 0, .register true, .left false (some (false, true)) 1 0, .register false,
    .right true (some true) 2, .respond true, .left false (some (true, true)) 3 0, .register false, .register true,
    .respond false]

def inOrder (x : FkEvent Bool (Bool × Bool) Bool Bool) : FkEvent Bool (Bool × Bool) Bool Bool × Reading :=
  (x, ⟨false, fun m => ⟨"octets-repartition", 0, 0, m.timestamp⟩⟩)

theorem foldsJoin_filled : orderSums.FoldsJoin noSums (filled.map inOrder) := by
  have hmap : (filled.map inOrder).map Prod.fst = filled := rfl
  refine foldsJoin_of_onlyAdds orderSums orders_sound rfl TableGroupBy.sumOfOctets_invertible
    ⟨fun _ => rfl, fun _ => rfl, Changed.octetSerde_fits _⟩ noSums noOrders_fresh TableGroupBy.octetTable_rows _ ?_ ?_
  · rw [hmap]
    decide +kernel
  · rw [hmap]
    decide +kernel

def updated : List (FkEvent Bool (Bool × Bool) Bool Bool) :=
  [.right true (some true) 0, .left true (some (true, false)) 1 0, .register true, .respond true,
    .left true (some (true, true)) 2 0, .register true, .respond true]

/-- The joined row is replaced and its old value stays in the sum. -/
theorem not_foldsJoin_updated : orders.Propagated noOrders updated ∧
    ¬ orderSums.FoldsJoin noSums (updated.map inOrder) := by
  refine ⟨by decide +kernel, ?_⟩
  rintro ⟨s, hrun, -, hfolds⟩
  have hlists : GroupedFold.Lists [(true, ((true, true), some true))]
      (orders.joinRows (FkEvent.leftRows updated) (FkEvent.rightRows updated)) :=
    ⟨by decide, fun {k v} => (by decide +kernel : ∀ k v, (k, v) ∈ [(true, ((true, true), some true))] ↔
      orders.joinRows (FkEvent.leftRows updated) (FkEvent.rightRows updated) k = some v) k v⟩
  have hsum : ((orderSums.run noSums (updated.map inOrder)).bind fun s => s.aggregate.get 1) = .ok (some 3) := by
    decide +kernel
  obtain ⟨agg, hget, hagg⟩ := hfolds _ hlists 1
  rw [hrun] at hsum
  cases hget.symm.trans hsum
  revert hagg
  decide +kernel

end ForeignKeyGroupBy

end KrabkaStreams
