import KrabkaStreams.Dsl.ForeignKeyProtocol
import Mathlib.Tactic.Tauto

/-!
# Where the foreign-key join converges

A row of the output is right, or a registration in flight will put it right (`Inv.out`). One that may
stay without an answer needs the row to be right already (`Safe`).
-/

namespace KrabkaStreams

variable {K VA KO VB VR : Type}

theorem enqueueAll_apply {κ μ : Type} [DecidableEq κ] : ∀ (ms : List (κ × μ)) (c : κ → List μ) (x : κ),
    enqueueAll c ms x = c x ++ (ms.filter fun m => m.1 = x).map Prod.snd
  | [], c, x => (List.append_nil _).symm
  | m :: ms, c, x => by
    show enqueueAll (Function.update c m.1 (c m.1 ++ [m.2])) ms x = _
    rw [enqueueAll_apply ms]
    by_cases hx : m.1 = x
    · subst hx
      simp
    · simp [hx, Function.update_of_ne (Ne.symm hx)]

namespace FkProtocol

variable [DecidableEq K] [DecidableEq VA] [DecidableEq KO]

def deliver (p : FkProtocol VA KO VB VR) (l : Option VA) (o : Option VR) (ms : List (Response VA VB)) :
    Option VR :=
  ms.foldl (fun o m => if m.value = l then p.resolve l m.foreign else o) o

def settle (p : FkProtocol VA KO VB VR) (s : State K VA KO VB VR) (k : K) : Option VR :=
  deliver p (s.left k) (s.out k) (s.resps k)

def Registration.apply (k : K) (o : Option (Option VA)) (m : Registration K VA) : Option (Option VA) :=
  if m.key = k then (if m.instruction.isDelete then none else some m.value) else o

def finalSub (s : State K VA KO VB VR) (f : KO) (k : K) : Option (Option VA) :=
  (s.regs f).foldl (Registration.apply k) (s.subs f k)

def Answers (s : State K VA KO VB VR) (k : K) : Prop :=
  ∃ f, ∃ m ∈ s.regs f, m.key = k ∧ m.value = s.left k ∧ (answer (s.right f) m.instruction).isSome

structure Inv (p : FkProtocol VA KO VB VR) (s : State K VA KO VB VR) : Prop where
  subs_fk : ∀ {f k u}, s.subs f k = some u → u.map p.fk = some f
  regs_fk : ∀ {f m}, m ∈ s.regs f → m.instruction.isDelete = false → m.value.map p.fk = some f
  regs_none : ∀ {f m}, m ∈ s.regs f → m.instruction = .deleteKeyAndPropagate → m.value = none
  regs_left : p.isLeft = true → ∀ {f m}, m ∈ s.regs f → m.instruction ≠ .propagateOnlyIfFkValAvailable
  final : ∀ f k, finalSub s f k = if (s.left k).map p.fk = some f then some (s.left k) else none
  out : ∀ k, Answers s k ∨ settle p s k = p.joinRow (s.left k) s.right

variable {p : FkProtocol VA KO VB VR} {s : State K VA KO VB VR} {m : Registration K VA}

omit [DecidableEq K] [DecidableEq VA] [DecidableEq KO] in
theorem resolve_none (p : FkProtocol VA KO VB VR) (b : Option VB) : p.resolve none b = none := by
  unfold resolve
  split <;> rfl

theorem Inv.start (p : FkProtocol VA KO VB VR) : Inv p (State.start : State K VA KO VB VR) where
  subs_fk h := nomatch h
  regs_fk h := absurd h List.not_mem_nil
  regs_none h := absurd h List.not_mem_nil
  regs_left _ _ _ h := absurd h List.not_mem_nil
  final _ _ := rfl
  out _ := .inr (resolve_none p none).symm

theorem Inv.resolve_answer (h : Inv p s) {f : KO} (hm : m ∈ s.regs f) {b : Option VB}
    (hb : answer (s.right f) m.instruction = some b) (hv : m.value = s.left m.key) :
    p.resolve (s.left m.key) b = p.joinRow (s.left m.key) s.right := by
  unfold joinRow
  rw [← hv]
  cases hi : m.instruction with
  | deleteKeyNoPropagate =>
    rw [hi] at hb
    cases hb
  | deleteKeyAndPropagate =>
    rw [h.regs_none hm hi, resolve_none, resolve_none]
  | propagateNullIfNoFkValAvailable =>
    have hfk := h.regs_fk hm (by rw [hi]; rfl)
    obtain ⟨v, hval, hf⟩ := Option.map_eq_some_iff.mp hfk
    rw [hi] at hb
    rw [hval, Option.bind_some, hf, Option.some.inj hb]
  | propagateOnlyIfFkValAvailable =>
    have hfk := h.regs_fk hm (by rw [hi]; rfl)
    obtain ⟨v, hval, hf⟩ := Option.map_eq_some_iff.mp hfk
    rw [hi] at hb
    obtain ⟨b', hright, rfl⟩ := Option.map_eq_some_iff.mp hb
    rw [hval, Option.bind_some, hf, hright]

section Steps

variable (p s) {k : K} {f : KO}

theorem step_respond_nil (h : s.resps k = []) : p.step s (.respond k) = s := by
  simp only [step, h]

theorem step_respond_cons {m : Response VA VB} {rest : List (Response VA VB)} (h : s.resps k = m :: rest) :
    p.step s (.respond k) = { s with
      resps := Function.update s.resps k rest
      out := if m.value = s.left k then Function.update s.out k (p.resolve (s.left k) m.foreign) else s.out } := by
  simp only [step, h]

theorem step_register_nil (h : s.regs f = []) : p.step s (.register f) = s := by
  simp only [step, h]

theorem step_register_cons {rest : List (Registration K VA)} (h : s.regs f = m :: rest) :
    p.step s (.register f) = { s with
      regs := Function.update s.regs f rest
      subs := Function.update s.subs f (Function.update (s.subs f) m.key
        (if m.instruction.isDelete then none else some m.value))
      resps := enqueueAll s.resps
        ((answer (s.right f) m.instruction).toList.map fun b => (m.key, ⟨m.value, b⟩)) } := by
  simp only [step, h]

end Steps

omit [DecidableEq K] [DecidableEq KO] in
theorem deliver_append (l : Option VA) (o : Option VR) (ms ms' : List (Response VA VB)) :
    deliver p l o (ms ++ ms') = deliver p l (deliver p l o ms) ms' := List.foldl_append

omit [DecidableEq K] [DecidableEq KO] in
theorem deliver_current (l : Option VA) (o : Option VR) (b : Option VB) :
    deliver p l o [⟨l, b⟩] = p.resolve l b := if_pos rfl

omit [DecidableEq K] [DecidableEq KO] in
theorem deliver_stale {l v : Option VA} (h : v ≠ l) (o : Option VR) (b : Option VB) :
    deliver p l o [⟨v, b⟩] = o := if_neg h

theorem settle_respond (s : State K VA KO VB VR) (k k' : K) :
    settle p (p.step s (.respond k)) k' = settle p s k' := by
  rcases hresps : s.resps k with _ | ⟨m, rest⟩
  · rw [step_respond_nil p s hresps]
  · rw [step_respond_cons p s hresps]
    unfold settle deliver
    dsimp only
    by_cases hk : k' = k
    · subst hk
      rw [Function.update_self, hresps, List.foldl_cons]
      split <;> simp
    · rw [Function.update_of_ne hk]
      split <;> simp [hk]

theorem Inv.respond (h : Inv p s) (k : K) : Inv p (p.step s (.respond k)) := by
  have hsettle := settle_respond (p := p) s k
  rcases hresps : s.resps k with _ | ⟨m, rest⟩
  · rw [step_respond_nil p s hresps]
    exact h
  · rw [step_respond_cons p s hresps] at hsettle ⊢
    exact ⟨h.subs_fk, h.regs_fk, h.regs_none, h.regs_left, h.final, fun k' => (h.out k').imp id (hsettle k').trans⟩

section Register

variable {f : KO} {m : Registration K VA} {rest : List (Registration K VA)}

omit [DecidableEq K] [DecidableEq VA] in
theorem mem_of_mem_rest (hregs : s.regs f = m :: rest) {f' : KO} {m' : Registration K VA}
    (hm' : m' ∈ Function.update s.regs f rest f') : m' ∈ s.regs f' := by
  by_cases hf : f' = f
  · subst hf
    rw [Function.update_self] at hm'
    rw [hregs]
    exact List.mem_cons_of_mem _ hm'
  · rwa [Function.update_of_ne hf] at hm'

omit [DecidableEq K] [DecidableEq VA] in
theorem Answers.delivered (hregs : s.regs f = m :: rest) {k : K} (h : Answers s k) :
    (m.key = k ∧ m.value = s.left k ∧ (answer (s.right f) m.instruction).isSome) ∨
      ∃ f', ∃ m' ∈ Function.update s.regs f rest f', m'.key = k ∧ m'.value = s.left k ∧
        (answer (s.right f') m'.instruction).isSome := by
  obtain ⟨f', m', hm', hans⟩ := h
  by_cases hf : f' = f
  · subst hf
    rw [hregs] at hm'
    rcases List.mem_cons.mp hm' with rfl | hm'
    · exact .inl hans
    · exact .inr ⟨f', m', by rwa [Function.update_self], hans⟩
  · exact .inr ⟨f', m', by rwa [Function.update_of_ne hf], hans⟩

theorem Inv.register_out (h : Inv p s) (hregs : s.regs f = m :: rest) (k : K) :
    (∃ f', ∃ m' ∈ Function.update s.regs f rest f', m'.key = k ∧ m'.value = s.left k ∧
        (answer (s.right f') m'.instruction).isSome) ∨
      deliver p (s.left k) (s.out k) (enqueueAll s.resps
        ((answer (s.right f) m.instruction).toList.map fun b => (m.key, ⟨m.value, b⟩)) k)
        = p.joinRow (s.left k) s.right := by
  have hm : m ∈ s.regs f := hregs ▸ List.mem_cons_self
  rw [enqueueAll_apply]
  rcases hans : answer (s.right f) m.instruction with _ | b
  · rcases h.out k with hout | hout
    · rcases hout.delivered hregs with hfirst | hlater
      · rw [hans] at hfirst
        exact absurd hfirst.2.2 (by simp)
      · exact .inl hlater
    · exact .inr (by simpa [settle] using hout)
  · by_cases hcur : m.key = k ∧ m.value = s.left k
    · obtain ⟨rfl, hv⟩ := hcur
      refine .inr ?_
      simp only [Option.toList_some, List.map_singleton, decide_true, List.filter_singleton, cond_true]
      rw [deliver_append, hv, deliver_current]
      exact h.resolve_answer hm hans hv
    · have hsame : deliver p (s.left k) (s.out k) (s.resps k ++ List.map Prod.snd (List.filter (fun m' => m'.1 = k)
          ((some b).toList.map fun b => (m.key, (⟨m.value, b⟩ : Response VA VB))))) = settle p s k := by
        by_cases hk : m.key = k
        · have hv : m.value ≠ s.left k := fun hv => hcur ⟨hk, hv⟩
          simp only [Option.toList_some, List.map_singleton, hk, decide_true, List.filter_singleton, cond_true]
          rw [deliver_append, deliver_stale hv]
          rfl
        · simp only [Option.toList_some, List.map_singleton, hk, decide_false, List.filter_singleton, cond_false,
            List.map_nil, List.append_nil]
          rfl
      rw [hsame]
      rcases h.out k with hout | hout
      · rcases hout.delivered hregs with hfirst | hlater
        · exact absurd ⟨hfirst.1, hfirst.2.1⟩ hcur
        · exact .inl hlater
      · exact .inr hout

theorem finalSub_register (hregs : s.regs f = m :: rest) (f' : KO) (k : K) :
    finalSub (p.step s (.register f)) f' k = finalSub s f' k := by
  rw [step_register_cons p s hregs]
  unfold finalSub
  dsimp only
  by_cases hf : f' = f
  · subst hf
    rw [Function.update_self, Function.update_self, hregs, List.foldl_cons]
    refine congrArg (List.foldl _ · rest) ?_
    unfold Registration.apply
    by_cases hk : k = m.key
    · subst hk
      rw [Function.update_self, if_pos rfl]
    · rw [Function.update_of_ne hk, if_neg (Ne.symm hk)]
  · rw [Function.update_of_ne hf, Function.update_of_ne hf]

end Register

theorem Inv.register (h : Inv p s) (f : KO) : Inv p (p.step s (.register f)) := by
  rcases hregs : s.regs f with _ | ⟨m, rest⟩
  · rw [step_register_nil p s hregs]
    exact h
  · have hm : m ∈ s.regs f := hregs ▸ List.mem_cons_self
    have hfinal := finalSub_register (p := p) hregs
    rw [step_register_cons p s hregs] at hfinal ⊢
    refine ⟨fun {f' k u} hu => ?_, fun hm' => h.regs_fk (mem_of_mem_rest hregs hm'),
      fun hm' => h.regs_none (mem_of_mem_rest hregs hm'),
      fun hleft _ _ hm' => h.regs_left hleft (mem_of_mem_rest hregs hm'),
      fun f' k => (hfinal f' k).trans (h.final f' k), h.register_out hregs⟩
    dsimp only at hu
    by_cases hf : f' = f
    · subst hf
      rw [Function.update_self] at hu
      by_cases hk : k = m.key
      · subst hk
        rw [Function.update_self] at hu
        split at hu
        · cases hu
        · rename_i hput
          rw [← Option.some.inj hu]
          exact h.regs_fk hm (Bool.not_eq_true _ ▸ hput)
      · rw [Function.update_of_ne hk] at hu
        exact h.subs_fk hu
    · rw [Function.update_of_ne hf] at hu
      exact h.subs_fk hu

omit [DecidableEq VA] [DecidableEq KO] in
theorem foldl_apply_eq_some {k : K} {u : Option VA} : ∀ {l : List (Registration K VA)} {o : Option (Option VA)},
    l.foldl (Registration.apply k) o = some u →
      o = some u ∨ ∃ m ∈ l, m.key = k ∧ m.instruction.isDelete = false ∧ m.value = u
  | [], _, h => .inl h
  | m :: ms, o, h => by
    rcases foldl_apply_eq_some (l := ms) h with happly | ⟨m', hm', hprop⟩
    · unfold Registration.apply at happly
      split at happly
      · rename_i hk
        split at happly
        · cases happly
        · rename_i hput
          exact .inr ⟨m, List.mem_cons_self, hk, Bool.not_eq_true _ ▸ hput, Option.some.inj happly⟩
      · exact .inl happly
    · exact .inr ⟨m', List.mem_cons_of_mem _ hm', hprop⟩

omit [DecidableEq K] [DecidableEq VA] in
theorem joinRow_update (p : FkProtocol VA KO VB VR) (l : Option VA) (right : KO → Option VB) (f : KO)
    (new : Option VB) : p.joinRow l (Function.update right f new)
      = if l.map p.fk = some f then p.resolve l new else p.joinRow l right := by
  unfold joinRow
  cases l with
  | none =>
    rw [if_neg (by simp)]
    rfl
  | some v =>
    rw [Option.bind_some, Option.bind_some, Option.map_some]
    by_cases hf : p.fk v = f
    · subst hf
      rw [Function.update_self, if_pos rfl]
    · rw [Function.update_of_ne hf, if_neg fun h => hf (Option.some.inj h)]

section Right

variable {f : KO} {k : K} {new : Option VB} {ts : Int}

theorem settle_right_stale (h : ∀ v, s.subs f k = some v → v ≠ s.left k) :
    settle p (p.step s (.right f new ts)) k = settle p s k := by
  show deliver p (s.left k) (s.out k) (s.resps k ++ (s.subs f k).toList.map fun v => ⟨v, new⟩) = _
  rcases hsub : s.subs f k with _ | v
  · rw [Option.toList_none, List.map_nil, List.append_nil]
    rfl
  · rw [Option.toList_some, List.map_singleton, deliver_append, deliver_stale (h v hsub)]
    rfl

theorem Inv.right_out (h : Inv p s)
    (hsafe : new = none → s.right f ≠ none → ∀ m ∈ s.regs f, m.instruction ≠ .propagateOnlyIfFkValAvailable)
    (k : K) : Answers (p.step s (.right f new ts)) k ∨
      settle p (p.step s (.right f new ts)) k = p.joinRow (s.left k) (Function.update s.right f new) := by
  rw [joinRow_update]
  by_cases hfk : (s.left k).map p.fk = some f
  · rw [if_pos hfk]
    by_cases hsub : s.subs f k = some (s.left k)
    · -- the subscriber gets the new value
      refine .inr ?_
      show deliver p (s.left k) (s.out k) (s.resps k ++ (s.subs f k).toList.map fun v => ⟨v, new⟩) = _
      rw [hsub, Option.toList_some, List.map_singleton, deliver_append, deliver_current]
    · -- its registration is still in flight
      have hfinal := h.final f k
      rw [if_pos hfk] at hfinal
      obtain hsub' | ⟨m, hm, hkey, hput, hval⟩ := foldl_apply_eq_some hfinal
      · exact absurd hsub' hsub
      · by_cases hans : (answer new m.instruction).isSome
        · refine .inl ⟨f, m, hm, hkey, hval, ?_⟩
          show (answer (Function.update s.right f new f) m.instruction).isSome
          rwa [Function.update_self]
        · have honly : m.instruction = .propagateOnlyIfFkValAvailable ∧ new = none := by
            rcases hi : m.instruction <;> rw [hi] at hput hans <;> simp_all [answer, Instruction.isDelete]
          have hright : s.right f = none := by
            by_contra hne
            exact hsafe honly.2 hne m hm honly.1
          have hrows : Function.update s.right f new = s.right := by
            rw [honly.2, ← hright]
            exact Function.update_eq_self f s.right
          have hstep : p.joinRow (s.left k) s.right = p.resolve (s.left k) new := by
            rw [← hrows, joinRow_update, if_pos hfk]
          rw [settle_right_stale fun v hv hvl => hsub (hvl ▸ hv), ← hstep]
          refine (h.out k).imp (fun ⟨f', m', hm', hk', hv', hans'⟩ => ⟨f', m', hm', hk', hv', ?_⟩) id
          show (answer (Function.update s.right f new f') m'.instruction).isSome
          rwa [hrows]
  · rw [if_neg hfk, settle_right_stale fun v hv hvl => hfk (hvl ▸ h.subs_fk hv)]
    refine (h.out k).imp (fun ⟨f', m', hm', hk', hv', hans'⟩ => ⟨f', m', hm', hk', hv', ?_⟩) id
    show (answer (Function.update s.right f new f') m'.instruction).isSome
    by_cases hf : f' = f
    · subst hf
      -- a registration at `f` with the current value is a delete, so its answer does not depend on the row
      have hdel : m'.instruction.isDelete = true := by
        by_contra hput
        exact hfk (hv' ▸ h.regs_fk hm' (Bool.not_eq_true _ ▸ hput))
      rcases hi : m'.instruction <;> rw [hi] at hdel hans' <;> simp_all [answer, Instruction.isDelete]
    · rwa [Function.update_of_ne hf]

theorem Inv.right (h : Inv p s)
    (hsafe : new = none → s.right f ≠ none → ∀ m ∈ s.regs f, m.instruction ≠ .propagateOnlyIfFkValAvailable) :
    Inv p (p.step s (.right f new ts)) :=
  ⟨h.subs_fk, h.regs_fk, h.regs_none, h.regs_left, h.final, h.right_out hsafe⟩

end Right

section Left

omit [DecidableEq K] [DecidableEq VA] in
/-- What the instructions of a change are: a subscription is made at the new foreign key, a propagated
delete is for a row that is gone, and a left join always propagates. -/
theorem instructions_spec (p : FkProtocol VA KO VB VR) (old new : Option VA) :
    ∀ i ∈ p.instructions old new, (i.2.isDelete = false → new.map p.fk = some i.1) ∧
      (i.2 = .deleteKeyAndPropagate → new = none) ∧
      (p.isLeft = true → i.2 ≠ .propagateOnlyIfFkValAvailable) := by
  unfold instructions
  rcases hleft : p.isLeft with _ | _
  · rcases old with _ | o <;> rcases new with _ | n
    · simp
    · simp [Instruction.isDelete]
    · simp [Instruction.isDelete]
    · by_cases hf : p.fk o = p.fk n <;> simp [hf, Instruction.isDelete]
  · intro i hi
    rw [if_pos rfl, List.mem_append, List.mem_map, List.mem_map] at hi
    rcases hi with ⟨o, -, rfl⟩ | ⟨n, hn, rfl⟩
    · simp [Instruction.isDelete]
    · rw [Option.mem_toList] at hn
      simp [hn]

omit [DecidableEq K] [DecidableEq VA] in
/-- The instructions at `f` move the subscription there from the old row to the new one. -/
theorem instructions_final (p : FkProtocol VA KO VB VR) (old new : Option VA) (f : KO) :
    ((p.instructions old new).filter fun i => i.1 = f).foldl
        (fun _ i => if i.2.isDelete then none else some new) (if old.map p.fk = some f then some old else none)
      = if new.map p.fk = some f then some new else none := by
  unfold instructions
  rcases p.isLeft with _ | _ <;> rcases old with _ | o <;> rcases new with _ | n
  · simp
  · by_cases hn : p.fk n = f <;> simp [hn, Instruction.isDelete]
  · by_cases ho : p.fk o = f <;> simp [ho, Instruction.isDelete]
  · by_cases hon : p.fk o = p.fk n
    · by_cases hn : p.fk n = f <;> simp [hon, hn, Instruction.isDelete]
    · by_cases ho : p.fk o = f <;> by_cases hn : p.fk n = f <;> simp_all [Instruction.isDelete]
  · simp
  · by_cases hn : p.fk n = f <;> simp [hn, Instruction.isDelete]
  · by_cases ho : p.fk o = f <;> simp [ho, Instruction.isDelete]
  · by_cases hon : p.fk n = p.fk o
    · by_cases hn : p.fk o = f <;> simp [hon, hn, Instruction.isDelete]
    · by_cases ho : p.fk o = f <;> by_cases hn : p.fk n = f <;> simp_all [Instruction.isDelete]

variable {k : K} {new : Option VA} {ts partition : Int}

theorem regs_left (p : FkProtocol VA KO VB VR) (s : State K VA KO VB VR) (k : K) (new : Option VA)
    (ts partition : Int) (f : KO) : (p.step s (.left k new ts partition)).regs f
      = s.regs f ++ ((p.instructions (s.left k) new).filter fun i => i.1 = f).map fun i => ⟨k, i.2, new⟩ := by
  show enqueueAll s.regs _ f = _
  rw [enqueueAll_apply, List.filter_map, List.map_map]
  rfl

theorem mem_regs_left {f : KO} :
    m ∈ (p.step s (.left k new ts partition)).regs f ↔
      m ∈ s.regs f ∨ ∃ i ∈ p.instructions (s.left k) new, i.1 = f ∧ m = ⟨k, i.2, new⟩ := by
  rw [regs_left, List.mem_append, List.mem_map]
  refine or_congr Iff.rfl (exists_congr fun i => ?_)
  rw [List.mem_filter, decide_eq_true_eq, and_assoc, eq_comm (a := m)]

theorem Answers.left_of_ne {k' : K} (hk : k' ≠ k) (h : Answers s k') :
    Answers (p.step s (.left k new ts partition)) k' := by
  obtain ⟨f, m, hm, hkey, hval, hans⟩ := h
  refine ⟨f, m, mem_regs_left.mpr (.inl hm), hkey, ?_, hans⟩
  show m.value = Function.update s.left k new k'
  rw [Function.update_of_ne hk, hval]

theorem finalSub_left (h : Inv p s) (f : KO) (k' : K) :
    finalSub (p.step s (.left k new ts partition)) f k'
      = if (Function.update s.left k new k').map p.fk = some f then some (Function.update s.left k new k')
        else none := by
  unfold finalSub
  rw [regs_left, List.foldl_append, List.foldl_map,
    show (s.regs f).foldl (Registration.apply k') ((p.step s (.left k new ts partition)).subs f k') = _ from
      h.final f k']
  by_cases hk : k' = k
  · subst hk
    rw [Function.update_self, ← instructions_final p (s.left k') new f]
    refine congrFun (congrFun (congrArg _ ?_) _) _
    funext o i
    exact if_pos rfl
  · rw [Function.update_of_ne hk]
    have hnone : (fun (o : Option (Option VA)) (i : KO × Instruction) =>
        Registration.apply k' o ⟨k, i.2, new⟩) = fun o _ => o := by
      funext o i
      exact if_neg (Ne.symm hk)
    rw [hnone]
    exact List.foldl_fixed _

def Idle (s : State K VA KO VB VR) (k : K) : Prop :=
  s.resps k = [] ∧ ∀ f, ∀ m ∈ s.regs f, m.key = k →
    m.instruction ≠ .propagateNullIfNoFkValAvailable ∧ m.instruction ≠ .deleteKeyAndPropagate

/-- When an event may happen. A left join must not lose a row. In an inner join, a row that is subscribed
to a missing right row must not wait for an older message, and a right row must not vanish under a
registration that would then stay without an answer. -/
def Safe (p : FkProtocol VA KO VB VR) (s : State K VA KO VB VR) : FkEvent K VA KO VB → Prop
  | .left k none _ _ => p.isLeft = true → s.left k = none
  | .left k (some n) _ _ => p.isLeft = false → s.right (p.fk n) = none →
    (∀ o, s.left k = some o → p.fk o = p.fk n) → Idle s k
  | .right f none _ => s.right f ≠ none → ∀ m ∈ s.regs f, m.instruction ≠ .propagateOnlyIfFkValAvailable
  | _ => True

theorem Inv.out_of_idle (h : Inv p s) (hidle : Idle s k)
    (hright : ∀ o, s.left k = some o → s.right (p.fk o) = none) : s.out k = p.joinRow (s.left k) s.right := by
  rcases h.out k with ⟨f, m, hm, hkey, hval, hans⟩ | hout
  · exfalso
    obtain ⟨hnull, hprop⟩ := hidle.2 f m hm hkey
    cases hi : m.instruction with
    | propagateNullIfNoFkValAvailable => exact hnull hi
    | deleteKeyAndPropagate => exact hprop hi
    | deleteKeyNoPropagate =>
      rw [hi] at hans
      cases hans
    | propagateOnlyIfFkValAvailable =>
      obtain ⟨o, ho, hf⟩ := Option.map_eq_some_iff.mp (h.regs_fk hm (by rw [hi]; rfl))
      have hnone := hright o (hval.symm.trans ho)
      rw [hi, ← hf, hnone] at hans
      cases hans
  · unfold settle at hout
    rw [hidle.1] at hout
    exact hout

omit [DecidableEq K] [DecidableEq VA] in
/-- The changes that no message puts right: none at all, a deleted row of a left join, and a row of an
inner join whose foreign key is kept or new and has no right row. -/
theorem unanswered_cases {p : FkProtocol VA KO VB VR} {right : KO → Option VB} {old new : Option VA}
    (h : ¬ ∃ i ∈ p.instructions old new, (answer (right i.1) i.2).isSome) :
    (old = none ∧ new = none) ∨ (p.isLeft = true ∧ new = none) ∨
      ∃ n, new = some n ∧ p.isLeft = false ∧ right (p.fk n) = none ∧ ∀ o, old = some o → p.fk o = p.fk n := by
  rcases hleft : p.isLeft with _ | _ <;> rcases old with _ | o <;> rcases new with _ | n
  · exact .inl ⟨rfl, rfl⟩
  · refine .inr (.inr ⟨n, rfl, rfl, ?_, fun _ ho => nomatch ho⟩)
    simpa [instructions, hleft, answer] using h
  · refine absurd ⟨(p.fk o, .deleteKeyAndPropagate), ?_, rfl⟩ h
    simp [instructions, hleft]
  · by_cases hf : p.fk o = p.fk n
    · refine .inr (.inr ⟨n, rfl, rfl, ?_, fun o' ho => Option.some.inj ho ▸ hf⟩)
      simpa [instructions, hleft, answer, hf] using h
    · refine absurd ⟨(p.fk n, .propagateNullIfNoFkValAvailable), ?_, rfl⟩ h
      simp [instructions, hleft, hf]
  · exact .inl ⟨rfl, rfl⟩
  · refine absurd ⟨(p.fk n, .propagateNullIfNoFkValAvailable), ?_, rfl⟩ h
    simp [instructions, hleft]
  · exact .inr (.inl ⟨rfl, rfl⟩)
  · refine absurd ⟨(p.fk n, .propagateNullIfNoFkValAvailable), ?_, rfl⟩ h
    simp [instructions, hleft]

omit [DecidableEq K] [DecidableEq VA] [DecidableEq KO] in
theorem joinRow_eq_none {p : FkProtocol VA KO VB VR} (hinner : p.isLeft = false) {l : Option VA}
    {right : KO → Option VB} (h : ∀ a, l = some a → right (p.fk a) = none) : p.joinRow l right = none := by
  unfold joinRow
  cases l with
  | none => exact resolve_none p _
  | some a =>
    rw [Option.bind_some, h a rfl]
    unfold resolve
    rw [hinner]
    rfl

theorem Inv.left_same (h : Inv p s) (hold : s.left k = none) :
    Answers (p.step s (.left k none ts partition)) k ∨
      deliver p none (s.out k) (s.resps k) = p.joinRow none s.right := by
  have hsame : Function.update s.left k none = s.left := by
    rw [← hold]
    exact Function.update_eq_self k s.left
  rcases h.out k with ⟨f, m, hm, hkey, hval, hsome⟩ | hout
  · refine .inl ⟨f, m, mem_regs_left.mpr (.inl hm), hkey, ?_, hsome⟩
    show m.value = Function.update s.left k none k
    rw [hsame, hval]
  · unfold settle at hout
    rw [hold] at hout
    exact .inr hout

theorem Inv.left_out (h : Inv p s) (hsafe : Safe p s (.left k new ts partition)) :
    Answers (p.step s (.left k new ts partition)) k ∨
      deliver p new (s.out k) (s.resps k) = p.joinRow new s.right := by
  by_cases hans : ∃ i ∈ p.instructions (s.left k) new, (answer (s.right i.1) i.2).isSome
  · obtain ⟨i, hi, hsome⟩ := hans
    refine .inl ⟨i.1, ⟨k, i.2, new⟩, mem_regs_left.mpr (.inr ⟨i, hi, rfl, rfl⟩), rfl, ?_, hsome⟩
    exact (Function.update_self k new s.left).symm
  · rcases unanswered_cases hans with ⟨hold, rfl⟩ | ⟨hleft, rfl⟩ | ⟨n, rfl, hinner, hright, hold⟩
    · exact h.left_same hold
    · exact h.left_same (hsafe hleft)
    · have hidle : Idle s k := hsafe hinner hright hold
      have hnone : ∀ o, s.left k = some o → s.right (p.fk o) = none := fun o ho => (hold o ho) ▸ hright
      have hout : s.out k = none := (h.out_of_idle hidle hnone).trans (joinRow_eq_none hinner hnone)
      rw [hidle.1, hout]
      exact .inr (joinRow_eq_none hinner fun a ha => Option.some.inj ha ▸ hright).symm

theorem Inv.left (h : Inv p s) (hsafe : Safe p s (.left k new ts partition)) :
    Inv p (p.step s (.left k new ts partition)) := by
  have hspec := instructions_spec p (s.left k) new
  refine ⟨h.subs_fk, fun {f m} hm hput => ?_, fun {f m} hm hi => ?_, fun hleft f m hm => ?_, finalSub_left h,
    fun k' => ?_⟩
  · rcases mem_regs_left.mp hm with hm | ⟨i, hi, rfl, rfl⟩
    · exact h.regs_fk hm hput
    · exact (hspec i hi).1 hput
  · rcases mem_regs_left.mp hm with hm | ⟨i, hi', rfl, rfl⟩
    · exact h.regs_none hm hi
    · exact (hspec i hi').2.1 hi
  · rcases mem_regs_left.mp hm with hm | ⟨i, hi, rfl, rfl⟩
    · exact h.regs_left hleft hm
    · exact (hspec i hi).2.2 hleft
  · by_cases hk : k' = k
    · subst hk
      refine (h.left_out hsafe).imp id fun hout => ?_
      show deliver p (Function.update s.left k' new k') (s.out k') (s.resps k')
        = p.joinRow (Function.update s.left k' new k') s.right
      rw [Function.update_self]
      exact hout
    · refine (h.out k').imp (fun hans => hans.left_of_ne hk) fun hout => ?_
      show deliver p (Function.update s.left k new k') (s.out k') (s.resps k')
        = p.joinRow (Function.update s.left k new k') s.right
      rw [Function.update_of_ne hk]
      exact hout

end Left

theorem Inv.step (h : Inv p s) {x : FkEvent K VA KO VB} (hsafe : Safe p s x) : Inv p (p.step s x) := by
  cases x with
  | left k new ts partition => exact h.left hsafe
  | right f new ts =>
    refine h.right fun hnew => ?_
    subst hnew
    exact hsafe
  | register f => exact h.register f
  | respond k => exact h.respond k

def Drained (s : State K VA KO VB VR) : Prop := (∀ f, s.regs f = []) ∧ ∀ k, s.resps k = []

theorem Inv.out_of_drained (h : Inv p s) (hd : Drained s) (k : K) : s.out k = p.joinRow (s.left k) s.right := by
  rcases h.out k with ⟨f, m, hm, -⟩ | hout
  · rw [hd.1 f] at hm
    exact absurd hm List.not_mem_nil
  · unfold settle at hout
    rw [hd.2 k] at hout
    exact hout

end FkProtocol

end KrabkaStreams
