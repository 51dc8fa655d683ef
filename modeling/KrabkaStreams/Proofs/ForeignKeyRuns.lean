import KrabkaStreams.Proofs.ForeignKeySimulation
import Mathlib.Data.Fintype.Prod

/-!
# Runs of the foreign-key join

A run of the join is a run of its protocol (`Sim.run`), so the inner join converges on safe runs
(`converges_of_safeRun`), and the left join exactly while no left row is deleted
(`converges_iff_keepsLeftRows`).
-/

namespace KrabkaStreams

open Runs

variable {K VA KO VB VR : Type} [DecidableEq K] [DecidableEq VA] [DecidableEq KO] {x : FkEvent K VA KO VB}

omit [DecidableEq K] [DecidableEq VA] [DecidableEq KO] in
theorem exists_left_of_mem {μ ν : Type} {R : μ → ν → Prop} {l : List μ} {l' : List ν} (h : List.Forall₂ R l l')
    {n : ν} (hn : n ∈ l') : ∃ m ∈ l, R m n := by
  induction h with
  | nil => cases hn
  | cons hmn _ ih =>
    rcases List.mem_cons.mp hn with rfl | hn
    · exact ⟨_, List.mem_cons_self, hmn⟩
    · obtain ⟨m, hm, hR⟩ := ih hn
      exact ⟨m, List.mem_cons_of_mem _ hm, hR⟩

omit [DecidableEq VA] [DecidableEq KO] in
theorem FkEvent.KeepsLeftRows.of_append : ∀ {xs ys : List (FkEvent K VA KO VB)} {rows : K → Option VA},
    KeepsLeftRows rows (xs ++ ys) → KeepsLeftRows rows xs
  | [], _, _, _ => trivial
  | _ :: _, _, _, h => ⟨h.1, of_append h.2⟩

namespace FkProtocol

variable (p : FkProtocol VA KO VB VR)

theorem left_step (s : State K VA KO VB VR) (x : FkEvent K VA KO VB) : (p.step s x).left = x.applyLeft s.left := by
  cases x with
  | left => rfl
  | right => rfl
  | register f => rcases h : s.regs f with _ | ⟨m, rest⟩ <;> simp only [step, h] <;> rfl
  | respond k => rcases h : s.resps k with _ | ⟨m, rest⟩ <;> simp only [step, h] <;> rfl

theorem right_step (s : State K VA KO VB VR) (x : FkEvent K VA KO VB) :
    (p.step s x).right = x.applyRight s.right := by
  cases x with
  | left => rfl
  | right => rfl
  | register f => rcases h : s.regs f with _ | ⟨m, rest⟩ <;> simp only [step, h] <;> rfl
  | respond k => rcases h : s.resps k with _ | ⟨m, rest⟩ <;> simp only [step, h] <;> rfl

theorem left_foldl : ∀ (xs : List (FkEvent K VA KO VB)) (s : State K VA KO VB VR),
    (xs.foldl p.step s).left = xs.foldl FkEvent.applyLeft s.left
  | [], _ => rfl
  | x :: xs, s => by rw [List.foldl_cons, List.foldl_cons, left_foldl xs, left_step]

theorem right_foldl : ∀ (xs : List (FkEvent K VA KO VB)) (s : State K VA KO VB VR),
    (xs.foldl p.step s).right = xs.foldl FkEvent.applyRight s.right
  | [], _ => rfl
  | x :: xs, s => by rw [List.foldl_cons, List.foldl_cons, right_foldl xs, right_step]

def Settled (s : State K VA KO VB VR) : Prop := Drained s → ∀ k, s.out k = p.joinRow (s.left k) s.right

section LeftJoin

/-- Every change happens with nothing in flight, and in the end nothing is in flight. -/
def Propagated (s : State K VA KO VB VR) : List (FkEvent K VA KO VB) → Prop
  | [] => Drained s
  | x :: xs => (x.IsChange → Drained s) ∧ Propagated (p.step s x) xs

variable {p} {s : State K VA KO VB VR}

theorem Inv.step_left_join (h : Inv p s) (hleft : p.isLeft = true) (hkeep : x.KeepsLeftRow s.left) :
    Inv p (p.step s x) := by
  refine h.step ?_
  cases x with
  | left k new ts partition =>
    cases new with
    | none => exact fun _ => hkeep
    | some n => exact fun hinner => absurd (hinner.symm.trans hleft) (by decide)
  | right f new ts =>
    cases new with
    | none => exact fun _ m hm => h.regs_left hleft hm
    | some b => trivial
  | register f => trivial
  | respond k => trivial

theorem Inv.foldl_left_join (hleft : p.isLeft = true) : ∀ (xs : List (FkEvent K VA KO VB))
    {s : State K VA KO VB VR}, Inv p s → FkEvent.KeepsLeftRows s.left xs → Inv p (xs.foldl p.step s)
  | [], _, h, _ => h
  | x :: xs, s, h, ⟨hkeep, hrest⟩ =>
    Inv.foldl_left_join hleft xs (h.step_left_join hleft hkeep) (left_step p s x ▸ hrest)

/-- Only subscriptions are being taken back, without an answer. -/
def Quiet (s : State K VA KO VB VR) : Prop :=
  (∀ f, ∀ m ∈ s.regs f, m.instruction = .deleteKeyNoPropagate) ∧ ∀ k, s.resps k = []

theorem Quiet.register (h : Quiet s) (f : KO) : Quiet (p.step s (.register f)) ∧
    (p.step s (.register f)).out = s.out := by
  rcases hregs : s.regs f with _ | ⟨m, rest⟩
  · rw [step_register_nil p s hregs]
    exact ⟨h, rfl⟩
  · have hm : m.instruction = .deleteKeyNoPropagate := h.1 f m (hregs ▸ List.mem_cons_self)
    rw [step_register_cons p s hregs, hm]
    exact ⟨⟨fun f' m' hm' => h.1 f' m' (mem_of_mem_rest hregs hm'), h.2⟩, rfl⟩

theorem Quiet.drains : ∀ {xs : List (FkEvent K VA KO VB)} {s : State K VA KO VB VR}, Quiet s → Propagated p s xs →
    ∃ pre, pre <+: xs ∧ Drained (pre.foldl p.step s) ∧ (pre.foldl p.step s).out = s.out ∧
      (pre.foldl p.step s).left = s.left
  | [], _, _, hp => ⟨[], List.nil_prefix, hp, rfl, rfl⟩
  | x :: xs, s, h, ⟨hchange, hrest⟩ => by
    cases x with
    | left => exact ⟨[], List.nil_prefix, hchange trivial, rfl, rfl⟩
    | right => exact ⟨[], List.nil_prefix, hchange trivial, rfl, rfl⟩
    | register f =>
      obtain ⟨hquiet, hout⟩ := h.register (p := p) f
      obtain ⟨pre, hpre, hd, hout', hleft⟩ := Quiet.drains hquiet hrest
      refine ⟨.register f :: pre, List.cons_prefix_cons.mpr ⟨rfl, hpre⟩, hd, hout'.trans hout, ?_⟩
      exact hleft.trans (left_step p s _)
    | respond k =>
      rw [step_respond_nil p s (h.2 k)] at hrest
      obtain ⟨pre, hpre, hd⟩ := Quiet.drains h hrest
      refine ⟨.respond k :: pre, List.cons_prefix_cons.mpr ⟨rfl, hpre⟩, ?_⟩
      rw [List.foldl_cons, step_respond_nil p s (h.2 k)]
      exact hd

theorem quiet_of_removed (hleft : p.isLeft = true) (hd : Drained s) (k : K) (ts partition : Int) :
    Quiet (p.step s (.left k none ts partition)) := by
  refine ⟨fun f m hm => ?_, hd.2⟩
  rcases mem_regs_left.mp hm with hm | ⟨i, hi, -, rfl⟩
  · rw [hd.1 f] at hm
    cases hm
  · unfold instructions at hi
    rw [if_pos hleft] at hi
    rcases List.mem_append.mp hi with hi | hi
    · obtain ⟨o, -, rfl⟩ := List.mem_map.mp hi
      rfl
    · cases hi

omit [DecidableEq VA] [DecidableEq KO] in
theorem joinRow_isSome (hleft : p.isLeft = true) (v : VA) (right : KO → Option VB) :
    (p.joinRow (some v) right).isSome := by
  simp [joinRow, resolve, hleft]

theorem eq_none_of_settled (hleft : p.isLeft = true) (h : Inv p s) (hd : Drained s) {k : K} {ts partition : Int}
    {xs : List (FkEvent K VA KO VB)} (hrest : Propagated p (p.step s (.left k none ts partition)) xs)
    (hsettled : ∀ pre, pre <+: xs → Settled p (pre.foldl p.step (p.step s (.left k none ts partition)))) :
    s.left k = none := by
  obtain ⟨pre, hpre, hd', hout, hnone⟩ := (quiet_of_removed hleft hd k ts partition).drains hrest
  have hk := hsettled pre hpre hd' k
  have hgone : (p.step s (.left k none ts partition)).left k = none := by
    rw [left_step]
    exact Function.update_self k none s.left
  rw [hout, hnone, hgone] at hk
  rcases hrow : s.left k with _ | v
  · rfl
  · have hsome := joinRow_isSome hleft v s.right
    rw [← hrow, ← h.out_of_drained hd k, show s.out k = _ from hk] at hsome
    unfold joinRow at hsome
    rw [resolve_none] at hsome
    cases hsome

theorem keepsLeftRows_of_settled (hleft : p.isLeft = true) : ∀ {xs : List (FkEvent K VA KO VB)}
    {s : State K VA KO VB VR}, Inv p s → Propagated p s xs →
    (∀ pre, pre <+: xs → Settled p (pre.foldl p.step s)) → FkEvent.KeepsLeftRows s.left xs
  | [], _, _, _, _ => trivial
  | x :: xs, s, h, ⟨hchange, hrest⟩, hsettled => by
    have hkeep : x.KeepsLeftRow s.left := by
      rcases x with ⟨k, _ | n, ts, partition⟩ | _ | _ | _
      · refine eq_none_of_settled hleft h (hchange trivial) hrest fun pre hpre => ?_
        exact hsettled (_ :: pre) (List.cons_prefix_cons.mpr ⟨rfl, hpre⟩)
      all_goals trivial
    refine ⟨hkeep, ?_⟩
    rw [← left_step p]
    refine keepsLeftRows_of_settled hleft (h.step_left_join hleft hkeep) hrest fun pre hpre => ?_
    exact hsettled (x :: pre) (List.cons_prefix_cons.mpr ⟨rfl, hpre⟩)

end LeftJoin

end FkProtocol

namespace ForeignKeyJoin

variable {j : ForeignKeyJoin K VA KO VB VR} {c : State K VA KO VB} {a : FkProtocol.State K VA KO VB VR}

structure Fresh (s : State K VA KO VB) : Prop where
  left : s.left.Rows fun _ => none
  right : s.right.Rows fun _ => none
  subscriptions : s.subscriptions = .inMemory
  drained : s.Drained

omit [DecidableEq K] [DecidableEq VA] [DecidableEq KO] in
theorem Fresh.sim (h : Fresh c) : j.Sim c .start where
  left := h.left
  right := h.right
  subs := ⟨fun _ => none, h.subscriptions ▸ .inMemory, fun _ _ => rfl, nofun⟩
  regs f := by
    rw [h.drained.1 f]
    exact .nil
  resps k := by
    rw [h.drained.2 k]
    exact .nil

omit [DecidableEq VA] [DecidableEq KO] in
theorem Forwards.applyChanges {outs : List (Record K (Change VR))} {o : K → Option VR}
    (h : Forwards a x outs o) : KrabkaStreams.applyChanges a.out outs = o := by
  cases h with
  | nothing => rfl
  | row => rfl

theorem Sim.run (hj : j.Sound) : ∀ (xs : List (FkEvent K VA KO VB)) {c : State K VA KO VB}
    {a : FkProtocol.State K VA KO VB VR}, j.Sim c a →
    ∃ c' outs, j.run c xs = .ok (c', outs) ∧ j.Sim c' (xs.foldl j.protocol.step a) ∧
      (xs.foldl j.protocol.step a).out = applyChanges a.out outs
  | [], c, a, h => ⟨c, [], rfl, h, rfl⟩
  | x :: xs, c, a, h => by
    obtain ⟨c₁, out, hstep, hsim, hout⟩ := h.step hj x
    obtain ⟨c', outs, hrun, hsim', houts⟩ := Sim.run hj xs hsim
    refine ⟨c', out ++ outs, bind_eq_ok.mpr ⟨_, hstep, bind_eq_ok.mpr ⟨_, hrun, rfl⟩⟩, hsim', ?_⟩
    rw [List.foldl_cons, houts, ← hout.applyChanges]
    exact List.foldl_append.symm

omit [DecidableEq K] [DecidableEq VA] [DecidableEq KO] in
theorem Sim.drained_iff (h : j.Sim c a) : c.Drained ↔ FkProtocol.Drained a := by
  have hnil : ∀ {μ ν : Type} {R : μ → ν → Prop} {l : List μ} {l' : List ν}, List.Forall₂ R l l' →
      (l = [] ↔ l' = []) := by
    intro μ ν R l l' h
    rw [← List.length_eq_zero_iff, ← List.length_eq_zero_iff, h.length_eq]
  exact and_congr (forall_congr' fun f => hnil (h.regs f)) (forall_congr' fun k => hnil (h.resps k))

omit [DecidableEq K] [DecidableEq VA] [DecidableEq KO] in
theorem joinRow_protocol (left : K → Option VA) (right : KO → Option VB) (k : K) :
    j.protocol.joinRow (left k) right = j.joinRows left right k := by
  unfold joinRows FkProtocol.joinRow FkProtocol.resolve protocol
  rcases left k with _ | v
  · cases j.isLeft <;> rfl
  · rw [Option.bind_some]
    dsimp only
    rcases right (j.fkExtractor v) with _ | b <;> cases j.isLeft <;> rfl

theorem converges_iff (hj : j.Sound) {start : State K VA KO VB} (hstart : Fresh start)
    (xs : List (FkEvent K VA KO VB)) :
    j.Converges start xs ↔ FkProtocol.Settled j.protocol (xs.foldl j.protocol.step .start) := by
  obtain ⟨c', outs, hrun, hsim, hout⟩ := Sim.run hj xs (hstart.sim (j := j))
  unfold Converges FkProtocol.Settled
  rw [FkProtocol.left_foldl, FkProtocol.right_foldl]
  constructor
  · rintro ⟨s, outs', hrun', hconv⟩ hd k
    cases hrun.symm.trans hrun'
    rw [hout, joinRow_protocol]
    exact congrFun (hconv (hsim.drained_iff.mpr hd)) k
  · intro hsettled
    refine ⟨c', outs, hrun, fun hd => funext fun k => ?_⟩
    have hk := hsettled (hsim.drained_iff.mp hd) k
    rw [hout, joinRow_protocol] at hk
    exact hk

section Inner

omit [DecidableEq K] [DecidableEq VA] [DecidableEq KO] in
theorem Sim.idle (h : j.Sim c a) {k : K} (hidle : j.Idle c k) : FkProtocol.Idle a k := by
  obtain ⟨hresps, hregs⟩ := hidle
  refine ⟨?_, fun f m hm hkey => ?_⟩
  · have hk := h.resps k
    rw [hresps] at hk
    exact List.forall₂_nil_left_iff.mp hk
  · obtain ⟨r, hr, hcarry⟩ := exists_left_of_mem (h.regs f) hm
    rw [← hcarry.instruction]
    exact hregs f r hr (hcarry.primaryKey.trans (congrArg _ hkey))

omit [DecidableEq K] [DecidableEq VA] [DecidableEq KO] in
theorem Sim.safe (h : j.Sim c a) (hinner : j.isLeft = false) (hsafe : j.Safe c a.left a.right x) :
    FkProtocol.Safe j.protocol a x := by
  cases x with
  | left k new ts partition =>
    cases new with
    | none => exact fun hleft => absurd (hleft.symm.trans hinner) (by decide)
    | some n => exact fun _ hright hsame => h.idle (hsafe hright hsame)
  | right f new ts =>
    cases new with
    | none =>
      intro hsome m hm
      obtain ⟨r, hr, hcarry⟩ := exists_left_of_mem (h.regs f) hm
      rw [← hcarry.instruction]
      exact hsafe hsome r hr
    | some b => trivial
  | register f => trivial
  | respond k => trivial

theorem Sim.inv_of_safeRun (hj : j.Sound) (hinner : j.isLeft = false) : ∀ (xs : List (FkEvent K VA KO VB))
    {c : State K VA KO VB} {a : FkProtocol.State K VA KO VB VR}, j.Sim c a → FkProtocol.Inv j.protocol a →
    j.SafeRun c a.left a.right xs → FkProtocol.Inv j.protocol (xs.foldl j.protocol.step a)
  | [], _, _, _, hinv, _ => hinv
  | x :: xs, c, a, h, hinv, ⟨hsafe, hrest⟩ => by
    obtain ⟨c', outs, hstep, hsim, -⟩ := h.step hj x
    rw [hstep] at hrest
    rw [← FkProtocol.left_step j.protocol, ← FkProtocol.right_step j.protocol] at hrest
    exact Sim.inv_of_safeRun hj hinner xs hsim (hinv.step (h.safe hinner hsafe)) hrest

/-- An inner join converges when every event is safe where it happens. -/
theorem converges_of_safeRun (j : ForeignKeyJoin K VA KO VB VR) (hj : j.Sound) (hinner : j.isLeft = false)
    (start : State K VA KO VB) (hstart : Fresh start) (xs : List (FkEvent K VA KO VB))
    (hsafe : j.SafeRun start (fun _ => none) (fun _ => none) xs) : j.Converges start xs :=
  (converges_iff hj hstart xs).mpr
    (Sim.inv_of_safeRun hj hinner xs hstart.sim (.start _) hsafe).out_of_drained

def flagSerde : Serde Bool where
  serialize _ b := [b.toUInt8]
  deserialize _ bytes := match bytes with
    | [n] => .ok (n != 0)
    | _ => .error "one byte expected"

def flagsSerde : Serde (Bool × Bool) where
  serialize _ b := [b.1.toUInt8, b.2.toUInt8]
  deserialize _ bytes := match bytes with
    | [m, n] => .ok (m != 0, n != 0)
    | _ => .error "two bytes expected"

def orders : ForeignKeyJoin Bool (Bool × Bool) Bool Bool ((Bool × Bool) × Option Bool) where
  fkExtractor := Prod.fst
  joiner order product := (order, product)
  isLeft := false
  kSerde := flagSerde
  vaSerde := flagsSerde
  koSerde := flagSerde
  vbSerde := flagSerde
  subscriptionStore := "subscriptions"
  aStore := "orders"
  bStore := "products"
  registrationTopic := "registrations"
  registrationSource := "registration-source"
  responseTopic := "responses"
  responseSource := "response-source"

theorem flagSerde_lawful (t t' : String) : ∀ b, flagSerde.deserialize t' (flagSerde.serialize t b) = .ok b
  | false => rfl
  | true => rfl

theorem flagsSerde_lawful : flagsSerde.Lawful
  | _, (false, false) => rfl
  | _, (false, true) => rfl
  | _, (true, false) => rfl
  | _, (true, true) => rfl

theorem orders_sound : orders.Sound where
  k := flagSerde_lawful
  ko := flagSerde_lawful
  vb := flagSerde_lawful
  hash := by decide +kernel
  nonempty _ _ := List.cons_ne_nil _ _
  fits _ _ := Nat.one_lt_two_pow (by decide)

def noOrders : State Bool (Bool × Bool) Bool Bool where
  left := .inMemory flagSerde flagsSerde "orders-changelog"
  right := .inMemory flagSerde flagSerde "products-changelog"
  subscriptions := .inMemory
  registrations _ := []
  responses _ := []

theorem noOrders_fresh : Fresh noOrders where
  left := .inMemory (fun t => flagSerde_lawful t t) flagsSerde_lawful _
  right := .inMemory (fun t => flagSerde_lawful t t) (fun t => flagSerde_lawful t t) _
  subscriptions := rfl
  drained := ⟨fun _ => rfl, fun _ => rfl⟩

def soldOut : List (FkEvent Bool (Bool × Bool) Bool Bool) :=
  [.right true (some true) 0, .left true (some (true, false)) 1 0, .left true (some (true, true)) 2 0,
    .register true, .register true, .respond true, .right true none 3, .respond true, .respond true]

theorem soldOut_converges : orders.SafeRun noOrders (fun _ => none) (fun _ => none) soldOut ∧
    orders.Converges noOrders soldOut := by
  have hsafe : orders.SafeRun noOrders (fun _ => none) (fun _ => none) soldOut := by decide +kernel
  exact ⟨hsafe, converges_of_safeRun orders orders_sound rfl noOrders noOrders_fresh soldOut hsafe⟩

def staleOrder : List (FkEvent Bool (Bool × Bool) Bool Bool) :=
  [.right true (some true) 0, .left true (some (true, false)) 1 0, .register true, .respond true,
    .left true (some (true, true)) 2 0, .right true none 3, .register true, .respond true]

/-- The answer to the removal of the product carries the hash of the order's old value, and the update is
not answered without a product: the joined row stays. -/
theorem not_converges_staleOrder : ¬ orders.Converges noOrders staleOrder := by
  rintro ⟨s, outs, hrun, hconv⟩
  have hcheck : (match orders.run noOrders staleOrder with
      | .ok (s, outs) => decide (s.Drained ∧ tableOf outs true
          ≠ orders.joinRows (FkEvent.leftRows staleOrder) (FkEvent.rightRows staleOrder) true)
      | .error _ => false) = true := by decide +kernel
  rw [hrun] at hcheck
  obtain ⟨hdrained, hne⟩ := of_decide_eq_true hcheck
  exact hne (congrFun (hconv hdrained) true)

end Inner

section LeftJoin

theorem Sim.propagated (hj : j.Sound) : ∀ {xs : List (FkEvent K VA KO VB)} {c : State K VA KO VB}
    {a : FkProtocol.State K VA KO VB VR}, j.Sim c a → j.Propagated c xs → FkProtocol.Propagated j.protocol a xs
  | [], _, _, h, hp => h.drained_iff.mp hp
  | x :: xs, c, a, h, ⟨hchange, hrest⟩ => by
    obtain ⟨c', outs, hstep, hsim, -⟩ := h.step hj x
    rw [hstep] at hrest
    exact ⟨fun hx => h.drained_iff.mp (hchange hx), hsim.propagated hj hrest⟩

/-- When every change is propagated before the next, a left join is right after every change exactly if no
left row is deleted. -/
theorem converges_iff_keepsLeftRows (j : ForeignKeyJoin K VA KO VB VR) (hj : j.Sound) (hleft : j.isLeft = true)
    (start : State K VA KO VB) (hstart : Fresh start) (xs : List (FkEvent K VA KO VB))
    (hprop : j.Propagated start xs) :
    (∀ pre, pre <+: xs → j.Converges start pre) ↔ FkEvent.KeepsLeftRows (fun _ => none) xs := by
  have hsim : j.Sim start .start := hstart.sim
  constructor
  · intro hconv
    exact FkProtocol.keepsLeftRows_of_settled hleft (.start j.protocol) (hsim.propagated hj hprop)
      fun pre hpre => (converges_iff hj hstart pre).mp (hconv pre hpre)
  · rintro hkeep pre ⟨post, rfl⟩
    refine (converges_iff hj hstart pre).mpr (FkProtocol.Inv.out_of_drained ?_)
    exact FkProtocol.Inv.foldl_left_join hleft pre (.start j.protocol) hkeep.of_append

def leftOrders : ForeignKeyJoin Bool (Bool × Bool) Bool Bool ((Bool × Bool) × Option Bool) :=
  { orders with isLeft := true }

theorem leftOrders_sound : leftOrders.Sound := ⟨orders_sound.k, orders_sound.ko, orders_sound.vb,
  orders_sound.hash, orders_sound.nonempty, orders_sound.fits⟩

def movedOrder : List (FkEvent Bool (Bool × Bool) Bool Bool) :=
  [.left true (some (true, false)) 0 0, .register true, .respond true, .right true (some true) 1, .respond true,
    .left true (some (false, false)) 2 0, .register true, .register false, .respond true]

theorem movedOrder_converges : leftOrders.Propagated noOrders movedOrder ∧
    FkEvent.KeepsLeftRows (fun _ => none) movedOrder ∧
    ∀ pre, pre <+: movedOrder → leftOrders.Converges noOrders pre := by
  have hprop : leftOrders.Propagated noOrders movedOrder := by decide +kernel
  have hkeep : FkEvent.KeepsLeftRows (fun _ => none) movedOrder := by repeat' constructor
  exact ⟨hprop, hkeep, (converges_iff_keepsLeftRows leftOrders leftOrders_sound rfl noOrders noOrders_fresh movedOrder
    hprop).mpr hkeep⟩

def deletedOrder : List (FkEvent Bool (Bool × Bool) Bool Bool) :=
  [.left true (some (true, false)) 0 0, .register true, .respond true, .left true none 1 0, .register true]

/-- The subscription is taken back and the output is not told. -/
theorem not_converges_deletedOrder : leftOrders.Propagated noOrders deletedOrder ∧
    ¬ leftOrders.Converges noOrders deletedOrder := by
  refine ⟨by decide +kernel, ?_⟩
  rintro ⟨s, outs, hrun, hconv⟩
  have hcheck : (match leftOrders.run noOrders deletedOrder with
      | .ok (s, outs) => decide (s.Drained ∧ tableOf outs true
          ≠ leftOrders.joinRows (FkEvent.leftRows deletedOrder) (FkEvent.rightRows deletedOrder) true)
      | .error _ => false) = true := by decide +kernel
  rw [hrun] at hcheck
  obtain ⟨hdrained, hne⟩ := of_decide_eq_true hcheck
  exact hne (congrFun (hconv hdrained) true)

end LeftJoin

end ForeignKeyJoin

end KrabkaStreams
