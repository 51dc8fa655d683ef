import KrabkaStreams.Dsl.ForeignKeySemantics
import KrabkaStreams.Lib.Lists
import KrabkaStreams.Proofs.ForeignKeyProtocol
import KrabkaStreams.Proofs.Subscription
import KrabkaStreams.Proofs.TableGroupBy

/-!
# The foreign-key join follows its protocol

With lawful serdes, hashes without collisions and foreign values that are not empty, every event of the
join is the event of the protocol (`Sim.step`).
-/

namespace KrabkaStreams

open BigEndian Runs

variable {K VA KO VB VR : Type} {subs : KO → K → Option (Option VA)}

section Lists

variable {κ μ ν : Type} [DecidableEq κ]

theorem forall₂_enqueueAll {R : κ → μ → ν → Prop} {ms : List (κ × μ)} {ns : List (κ × ν)}
    (h : List.Forall₂ (fun m n => m.1 = n.1 ∧ R m.1 m.2 n.2) ms ns) :
    ∀ {c : κ → List μ} {a : κ → List ν}, (∀ x, List.Forall₂ (R x) (c x) (a x)) →
      ∀ x, List.Forall₂ (R x) (enqueueAll c ms x) (enqueueAll a ns x) := by
  induction h with
  | nil => exact fun hc => hc
  | @cons m n ms ns hmn _ ih =>
    intro c a hc
    refine ih fun x => ?_
    obtain ⟨hkey, hR⟩ := hmn
    dsimp only
    by_cases hx : x = m.1
    · subst hx
      rw [Function.update_self, ← hkey, Function.update_self]
      exact List.rel_append (hc _) (.cons hR .nil)
    · rw [Function.update_of_ne hx, Function.update_of_ne (hkey ▸ hx)]
      exact hc x

theorem filter_key_eq {k : κ} {w : μ} : ∀ {es : List (κ × μ)}, (es.map Prod.fst).Nodup → (k, w) ∈ es →
    es.filter (fun e => e.1 = k) = [(k, w)]
  | e :: es, hn, he => by
    obtain ⟨hfresh, htail⟩ := List.nodup_cons.mp hn
    rcases List.mem_cons.mp he with rfl | he
    · rw [List.filter_cons_of_pos (by simp), List.filter_eq_nil_iff.mpr]
      intro e' he' hk
      exact hfresh (List.mem_map.mpr ⟨e', he', of_decide_eq_true hk⟩)
    · have hne : e.1 ≠ k := fun hk => hfresh (hk ▸ List.mem_map.mpr ⟨_, he, rfl⟩)
      rw [List.filter_cons_of_neg (by simpa using hne)]
      exact filter_key_eq htail he

end Lists

namespace ForeignKeyJoin

/-- What the join needs of its environment: serdes that give back, under any name, what they serialized,
hashes without collisions, foreign values that are not empty, and foreign keys that fit a message. -/
structure Sound (j : ForeignKeyJoin K VA KO VB VR) : Prop where
  k : ∀ t t' x, j.kSerde.deserialize t' (j.kSerde.serialize t x) = .ok x
  ko : ∀ t t' x, j.koSerde.deserialize t' (j.koSerde.serialize t x) = .ok x
  vb : ∀ t t' x, j.vbSerde.deserialize t' (j.vbSerde.serialize t x) = .ok x
  hash : ∀ v v', j.hashOf v = j.hashOf v' → v = v'
  nonempty : ∀ t b, j.vbSerde.serialize t b ≠ []
  fits : ∀ t f, (j.koSerde.serialize t f).length < 2 ^ 31

variable {j : ForeignKeyJoin K VA KO VB VR}

theorem isHash_map_hashOf (j : ForeignKeyJoin K VA KO VB VR) (v : Option VA) : IsHash (v.map j.hashOf) := by
  intro h hv
  obtain ⟨v, -, rfl⟩ := Option.map_eq_some_iff.mp hv
  exact length_hash128 _

namespace Sound

theorem ko_inj (hj : j.Sound) {t : String} {f f' : KO}
    (h : j.koSerde.serialize t f = j.koSerde.serialize t f') : f = f' :=
  Serde.Lawful.inj (fun t x => hj.ko t t x) h

theorem k_inj (hj : j.Sound) {t : String} {x x' : K} (h : j.kSerde.serialize t x = j.kSerde.serialize t x') :
    x = x' :=
  Serde.Lawful.inj (fun t x => hj.k t t x) h

theorem map_hashOf_inj (hj : j.Sound) {v v' : Option VA} : v.map j.hashOf = v'.map j.hashOf ↔ v = v' :=
  (Option.map_injective fun _ _ h => hj.hash _ _ h).eq_iff

theorem fkDiffers_eq [DecidableEq KO] (hj : j.Sound) (f f' : KO) : j.fkDiffers f f' = decide (f ≠ f') := by
  unfold fkDiffers
  by_cases h : f = f'
  · subst h
    simp
  · have hne : j.koSerde.serialize "" f ≠ j.koSerde.serialize "" f' := fun he => h (hj.ko_inj he)
    simp [h, hne]

theorem instructions_eq [DecidableEq KO] (hj : j.Sound) (old new : Option VA) :
    (if j.isLeft then j.leftJoinInstructions (old.map j.fkExtractor) (new.map j.fkExtractor)
      else j.defaultJoinInstructions (old.map j.fkExtractor) (new.map j.fkExtractor))
      = j.protocol.instructions old new := by
  unfold FkProtocol.instructions protocol leftJoinInstructions defaultJoinInstructions
  rcases j.isLeft with _ | _ <;> rcases old with _ | o <;> rcases new with _ | n <;> try rfl
  · simp only [Option.map_some, hj.fkDiffers_eq]
    by_cases hf : j.fkExtractor o = j.fkExtractor n <;> simp [hf]
  · simp only [Option.map_some, hj.fkDiffers_eq]
    by_cases hf : j.fkExtractor n = j.fkExtractor o <;> simp [hf]

end Sound

/-- A registration in flight with the message of the protocol that it carries. -/
structure CarriesRegistration (j : ForeignKeyJoin K VA KO VB VR) (f : KO) (r : Record KO SubscriptionWrapper)
    (m : FkProtocol.Registration K VA) : Prop where
  key : r.key = some f
  instruction : r.value.instruction = m.instruction
  hash : r.value.hash = m.value.map j.hashOf
  primaryKey : r.value.primaryKey = j.kSerde.serialize "" m.key
  wellFormed : r.value.WellFormed

structure CarriesResponse (j : ForeignKeyJoin K VA KO VB VR) (k : K) (r : Record K SubscriptionResponseWrapper)
    (m : FkProtocol.Response VA VB) : Prop where
  key : r.key = some k
  hash : r.value.hash = m.value.map j.hashOf
  foreign : ∃ name, r.value.foreignValue = m.foreign.map (j.vbSerde.serialize name)

def HoldsSubs (j : ForeignKeyJoin K VA KO VB VR) (store : SubscriptionBytesStore)
    (subs : KO → K → Option (Option VA)) : Prop :=
  ∃ g, store.Subscribes g ∧
    (∀ f k, (g (j.koSerde.serialize j.subscriptionStore f, j.kSerde.serialize "" k)).map (·.2.hash)
      = (subs f k).map (Option.map j.hashOf)) ∧
    ∀ fb pb e, g (fb, pb) = some e → ∃ k, j.kSerde.serialize "" k = pb

/-- The state of the join is that of the protocol, without its output. -/
structure Sim (j : ForeignKeyJoin K VA KO VB VR) (c : State K VA KO VB) (a : FkProtocol.State K VA KO VB VR) :
    Prop where
  left : c.left.Rows a.left
  right : c.right.Rows a.right
  subs : j.HoldsSubs c.subscriptions a.subs
  regs : ∀ f, List.Forall₂ (j.CarriesRegistration f) (c.registrations f) (a.regs f)
  resps : ∀ k, List.Forall₂ (j.CarriesResponse k) (c.responses k) (a.resps k)

theorem hopRegistration_eq (hj : j.Sound) (f : KO) (i : Instruction) (v : Option VA) (k : K) (partition ts : Int) :
    ∃ r, j.hopRegistration ⟨some f, ⟨i, v.map j.hashOf, j.kSerde.serialize "" k, partition⟩, ts⟩ = .ok (f, r) ∧
      j.CarriesRegistration f r ⟨k, i, v⟩ := by
  let w : SubscriptionWrapper := ⟨i, v.map j.hashOf, j.kSerde.serialize "" k, partition⟩
  have hhash : IsHash w.hash := j.isHash_map_hashOf v
  refine ⟨⟨some f, { w with primaryPartition := beInt (beIntBytes 4 partition) }, ts⟩, ?_, rfl, rfl, rfl, rfl,
    SubscriptionWrapper.wellFormed_decoded hhash⟩
  unfold hopRegistration hopKey
  simp only [hj.ko]
  rw [SubscriptionWrapper.deserialize_serialize_of_hash hhash]
  rfl

theorem hopResponse_eq (hj : j.Sound) (k : K) (v : Option VA) (b : Option VB) (name : String) (ts : Int) :
    ∃ r, j.hopResponse ⟨some k, ⟨v.map j.hashOf, b.map (j.vbSerde.serialize name)⟩, ts⟩ = .ok (k, r) ∧
      j.CarriesResponse k r ⟨v, b⟩ := by
  let w : SubscriptionResponseWrapper := ⟨v.map j.hashOf, b.map (j.vbSerde.serialize name)⟩
  have hforeign : w.foreignValue ≠ some [] := by
    intro he
    obtain ⟨b', -, hb⟩ := Option.map_eq_some_iff.mp he
    exact hj.nonempty name b' hb
  refine ⟨⟨some k, w, ts⟩, ?_, rfl, rfl, name, rfl⟩
  unfold hopResponse hopKey
  simp only [hj.k]
  rw [SubscriptionResponseWrapper.deserialize_serialize (j.isHash_map_hashOf v) hforeign]
  rfl

theorem mapM_hop {α β γ κ : Type} {hop : α → Except ProcessorError (κ × β)} {R : κ → β → γ → Prop}
    {key : α → κ} {m : α → γ} : ∀ {l : List α}, (∀ x ∈ l, ∃ r, hop x = .ok (key x, r) ∧ R (key x) r (m x)) →
      ∃ sent, l.mapM hop = .ok sent ∧
        List.Forall₂ (fun m n => m.1 = n.1 ∧ R m.1 m.2 n.2) sent (l.map fun x => (key x, m x))
  | [], _ => ⟨[], rfl, .nil⟩
  | x :: l, h => by
    obtain ⟨r, hr, hR⟩ := h x List.mem_cons_self
    obtain ⟨sent, hsent, hall⟩ := mapM_hop (l := l) fun y hy => h y (List.mem_cons_of_mem _ hy)
    refine ⟨(key x, r) :: sent, ?_, .cons ⟨rfl, hR⟩ hall⟩
    rw [List.mapM_cons, hr, hsent]
    rfl

theorem HoldsSubs.rangeByForeign {store : SubscriptionBytesStore} (hj : j.Sound) (h : j.HoldsSubs store subs)
    (f : KO) :
    ∃ es : List (K × Option VA × SubscriptionWrapper),
      store.rangeByForeign (j.koSerde.serialize j.subscriptionStore f)
        = .ok (es.map fun e => (j.kSerde.serialize "" e.1, e.2.2)) ∧
      (∀ e ∈ es, subs f e.1 = some e.2.1 ∧ e.2.2.hash = e.2.1.map j.hashOf) ∧
      (∀ k v, subs f k = some v → ∃ w, (k, v, w) ∈ es) ∧ (es.map Prod.fst).Nodup := by
  obtain ⟨g, hg, heq, hkeys⟩ := h
  obtain ⟨l, hl, hmem, hsorted⟩ := hg.rangeByForeign (hj.fits j.subscriptionStore f)
  have hhash : ∀ {k v ts w}, subs f k = some v →
      g (j.koSerde.serialize j.subscriptionStore f, j.kSerde.serialize "" k) = some (ts, w) →
      w.hash = v.map j.hashOf := by
    intro k v ts w hsub hgw
    have := heq f k
    rw [hsub, hgw] at this
    exact Option.some.inj this
  obtain ⟨es, rfl, hes⟩ := SortedMap.exists_eq_map
    (g := fun e : K × Option VA × SubscriptionWrapper => (j.kSerde.serialize "" e.1, e.2.2))
    (P := fun e => subs f e.1 = some e.2.1 ∧ e.2.2.hash = e.2.1.map j.hashOf) l fun x hx => by
      obtain ⟨ts, hgx⟩ := (hmem x.1 x.2).mp hx
      obtain ⟨k, hk⟩ := hkeys _ _ _ hgx
      rw [← hk] at hgx
      have hsub := heq f k
      rw [hgx] at hsub
      obtain ⟨v, hv, -⟩ := Option.map_eq_some_iff.mp hsub.symm
      exact ⟨(k, v, x.2), ⟨hv, hhash hv hgx⟩, Prod.ext hk rfl⟩
  refine ⟨es, hl, hes, fun k v hv => ?_, ?_⟩
  · have hsome := heq f k
    rw [hv] at hsome
    obtain ⟨⟨ts, w⟩, hgw, -⟩ := Option.map_eq_some_iff.mp hsome
    obtain ⟨e, he, hew⟩ := List.mem_map.mp ((hmem _ _).mpr ⟨ts, hgw⟩)
    obtain ⟨hkey, -⟩ := Prod.mk.inj hew
    have hk : e.1 = k := hj.k_inj hkey
    have hv' : e.2.1 = v := Option.some.inj ((hes e he).1.symm.trans (hk ▸ hv))
    subst hk hv'
    exact ⟨e.2.2, he⟩
  · rw [List.pairwise_map] at hsorted
    rw [List.nodup_iff_pairwise_ne, List.pairwise_map]
    refine hsorted.imp fun {e e'} hlt heq' => ?_
    rw [heq'] at hlt
    exact lt_irrefl _ hlt

theorem holds_update [DecidableEq K] [DecidableEq KO] {g : Bytes × Bytes → Option (Int × SubscriptionWrapper)}
    (hj : j.Sound)
    (heq : ∀ f k, (g (j.koSerde.serialize j.subscriptionStore f, j.kSerde.serialize "" k)).map (·.2.hash) = (subs f k).map (Option.map j.hashOf))
    (hkeys : ∀ fb pb e, g (fb, pb) = some e → ∃ k, j.kSerde.serialize "" k = pb) (f : KO) (k : K)
    {e : Option (Int × SubscriptionWrapper)} {o : Option (Option VA)}
    (heo : e.map (·.2.hash) = o.map (Option.map j.hashOf)) :
    (∀ f' k', (Function.update g (j.koSerde.serialize j.subscriptionStore f, j.kSerde.serialize "" k) e
        (j.koSerde.serialize j.subscriptionStore f', j.kSerde.serialize "" k')).map (·.2.hash)
      = (Function.update subs f (Function.update (subs f) k o) f' k').map (Option.map j.hashOf)) ∧
    ∀ fb pb e', Function.update g (j.koSerde.serialize j.subscriptionStore f, j.kSerde.serialize "" k) e (fb, pb)
      = some e' → ∃ k, j.kSerde.serialize "" k = pb := by
  constructor
  · intro f' k'
    by_cases hf : f' = f
    · subst hf
      rw [Function.update_self]
      by_cases hk : k' = k
      · subst hk
        rw [Function.update_self, Function.update_self, heo]
      · rw [Function.update_of_ne hk, Function.update_of_ne fun he => hk (hj.k_inj (Prod.mk.inj he).2)]
        exact heq f' k'
    · rw [Function.update_of_ne hf, Function.update_of_ne fun he => hf (hj.ko_inj (Prod.mk.inj he).1)]
      exact heq f' k'
  · intro fb pb e' he'
    by_cases hkey : (fb, pb) = (j.koSerde.serialize j.subscriptionStore f, j.kSerde.serialize "" k)
    · exact ⟨k, (Prod.mk.inj hkey).2.symm⟩
    · rw [Function.update_of_ne hkey] at he'
      exact hkeys fb pb e' he'

theorem subscriptionReceive_eq [DecidableEq K] [DecidableEq KO] (hj : j.Sound)
    {store : SubscriptionBytesStore} (h : j.HoldsSubs store subs) {f : KO} {r : Record KO SubscriptionWrapper}
    {m : FkProtocol.Registration K VA} (hr : j.CarriesRegistration f r m) :
    ∃ store', j.subscriptionReceive store r = .ok store' ∧
      j.HoldsSubs store' (Function.update subs f (Function.update (subs f) m.key
        (if m.instruction.isDelete then none else some m.value))) := by
  obtain ⟨g, hg, heq, hkeys⟩ := h
  have hfits := hj.fits j.subscriptionStore f
  unfold subscriptionReceive
  rw [hr.key, hr.instruction]
  show ∃ store', (if m.instruction.isDelete = true then _ else _) = Except.ok store' ∧ _
  by_cases hdel : m.instruction.isDelete = true
  · rw [if_pos hdel, if_pos hdel]
    obtain ⟨prev, store', hdelete, hg'⟩ := hg.delete hfits r.value.primaryKey
    refine ⟨store', bind_eq_ok.mpr ⟨_, hdelete, rfl⟩, _, hg', ?_⟩
    rw [hr.primaryKey]
    exact holds_update hj heq hkeys f m.key rfl
  · rw [if_neg hdel, if_neg hdel]
    obtain ⟨store', hput, hg'⟩ := hg.put hfits r.value.primaryKey hr.wellFormed r.timestamp
    refine ⟨store', hput, _, hg', ?_⟩
    rw [hr.primaryKey]
    exact holds_update hj heq hkeys f m.key (congrArg some hr.hash)

theorem subscriptionJoin_eq (hj : j.Sound) {right : TableStore KO VB} {rows : KO → Option VB} (h : right.Rows rows)
    {f : KO} {r : Record KO SubscriptionWrapper} {m : FkProtocol.Registration K VA}
    (hr : j.CarriesRegistration f r m) :
    j.subscriptionJoin right r = .ok ((FkProtocol.answer (rows f) m.instruction).toList.map fun b =>
      ⟨some m.key, ⟨m.value.map j.hashOf, b.map (j.vbSerde.serialize j.bStore)⟩, r.timestamp⟩) := by
  unfold subscriptionJoin
  rw [hr.key]
  refine bind_eq_ok.mpr ⟨_, h.get f, ?_⟩
  rw [hr.instruction, hr.hash, hr.primaryKey, hj.k]
  cases m.instruction with
  | deleteKeyAndPropagate => rfl
  | propagateNullIfNoFkValAvailable => rfl
  | propagateOnlyIfFkValAvailable => cases rows f <;> rfl
  | deleteKeyNoPropagate => rfl

theorem subscriptionResolve_eq [DecidableEq VA] (hj : j.Sound) {left : TableStore K VA} {rows : K → Option VA}
    (h : left.Rows rows) {k : K} {r : Record K SubscriptionResponseWrapper} {m : FkProtocol.Response VA VB}
    (hr : j.CarriesResponse k r m) :
    j.subscriptionResolve left r = .ok (if m.value = rows k then
      [⟨some k, ⟨none, j.protocol.resolve (rows k) m.foreign⟩, r.timestamp⟩] else []) := by
  unfold subscriptionResolve
  rw [hr.key]
  refine bind_eq_ok.mpr ⟨_, h.get k, ?_⟩
  rw [hr.hash]
  by_cases hv : m.value = rows k
  · rw [if_pos hv, if_neg (not_not.mpr (congrArg _ hv))]
    obtain ⟨name, hforeign⟩ := hr.foreign
    rw [hforeign]
    cases m.foreign with
    | none => rfl
    | some b =>
      simp only [Option.map_some, Option.bind_some, hj.vb]
      rfl
  · rw [if_neg hv, if_pos fun he => hv (hj.map_hashOf_inj.mp he)]
    rfl

/-- What the resolver forwards in an event, and the output after it: a row goes out for a response with the
current left value. -/
inductive Forwards [DecidableEq K] (a : FkProtocol.State K VA KO VB VR) :
    FkEvent K VA KO VB → List (Record K (Change VR)) → (K → Option VR) → Prop
  | nothing (x : FkEvent K VA KO VB) : Forwards a x [] a.out
  | row {k : K} {m : FkProtocol.Response VA VB} (hm : m ∈ a.resps k) (hv : m.value = a.left k) (new : Option VR)
    (ts : Int) : Forwards a (.respond k) [⟨some k, ⟨none, new⟩, ts⟩] (Function.update a.out k new)

section Steps

variable [DecidableEq K] [DecidableEq VA] [DecidableEq KO] {c : State K VA KO VB}
  {a : FkProtocol.State K VA KO VB VR}

theorem Sim.step_left (hj : j.Sound) (h : j.Sim c a) (k : K) (new : Option VA) (ts partition : Int) :
    ∃ c', j.step c (.left k new ts partition) = .ok (c', []) ∧
      j.Sim c' (j.protocol.step a (.left k new ts partition)) := by
  obtain ⟨left', hrec, hleft⟩ := h.left.reconcile k new
  let record (i : KO × Instruction) : Record KO SubscriptionWrapper :=
    ⟨some i.1, ⟨i.2, new.map j.hashOf, j.kSerde.serialize "" k, partition⟩, ts⟩
  have hsend : j.subscriptionSend partition ⟨some k, ⟨a.left k, new⟩, ts⟩
      = .ok ((j.protocol.instructions (a.left k) new).map record) := by
    rw [← hj.instructions_eq]
    rfl
  obtain ⟨sent, hsent, hall⟩ := mapM_hop (R := j.CarriesRegistration)
    (l := j.protocol.instructions (a.left k) new) (m := fun i => (⟨k, i.2, new⟩ : FkProtocol.Registration K VA))
    fun i _ => hopRegistration_eq hj i.1 i.2 new k partition ts
  refine ⟨{ c with left := left', registrations := enqueueAll c.registrations sent }, ?_, hleft, h.right, h.subs,
    forall₂_enqueueAll hall h.regs, h.resps⟩
  exact bind_eq_ok.mpr ⟨_, h.left.get k, bind_eq_ok.mpr ⟨left', hrec, bind_eq_ok.mpr ⟨_, hsend,
    bind_eq_ok.mpr ⟨sent, List.mapM_map.trans hsent, rfl⟩⟩⟩⟩

theorem Sim.step_right (hj : j.Sound) (h : j.Sim c a) (f : KO) (new : Option VB) (ts : Int) :
    ∃ c', j.step c (.right f new ts) = .ok (c', []) ∧ j.Sim c' (j.protocol.step a (.right f new ts)) := by
  obtain ⟨right', hrec, hright⟩ := h.right.reconcile f new
  obtain ⟨es, hrange, hes, hall, hnodup⟩ := h.subs.rangeByForeign hj f
  let record (e : K × Option VA × SubscriptionWrapper) : Record K SubscriptionResponseWrapper :=
    ⟨some e.1, ⟨e.2.1.map j.hashOf, new.map (j.vbSerde.serialize j.subscriptionStore)⟩, ts⟩
  have hsend : j.foreignTableJoin c.subscriptions ⟨some f, ⟨a.right f, new⟩, ts⟩ = .ok (es.map record) := by
    refine bind_eq_ok.mpr ⟨_, hrange, ?_⟩
    refine congrArg _ ?_
    rw [List.filterMap_map, ← List.filterMap_eq_map]
    refine List.filterMap_congr fun e he => ?_
    simp only [Function.comp_apply, hj.k]
    show some _ = some _
    rw [(hes e he).2]
  obtain ⟨sent, hsent, hcarry⟩ := mapM_hop (R := j.CarriesResponse) (l := es)
    (m := fun e => (⟨e.2.1, new⟩ : FkProtocol.Response VA VB))
    fun e _ => hopResponse_eq hj e.1 e.2.1 new j.subscriptionStore ts
  refine ⟨{ c with right := right', responses := enqueueAll c.responses sent }, ?_, h.left, hright, h.subs,
    h.regs, fun k => ?_⟩
  · exact bind_eq_ok.mpr ⟨_, h.right.get f, bind_eq_ok.mpr ⟨right', hrec, bind_eq_ok.mpr ⟨_, hsend,
      bind_eq_ok.mpr ⟨sent, List.mapM_map.trans hsent, rfl⟩⟩⟩⟩
  · have hsame : enqueueAll a.resps (es.map fun e => (e.1, (⟨e.2.1, new⟩ : FkProtocol.Response VA VB))) k
        = a.resps k ++ (a.subs f k).toList.map fun v => ⟨v, new⟩ := by
      rw [enqueueAll_apply]
      refine congrArg _ ?_
      rcases hsub : a.subs f k with _ | v
      · rw [List.filter_eq_nil_iff.mpr]
        · rfl
        · intro x hx hk
          obtain ⟨e, he, rfl⟩ := List.mem_map.mp hx
          rw [← of_decide_eq_true hk, (hes e he).1] at hsub
          cases hsub
      · obtain ⟨w, hw⟩ := hall k v hsub
        rw [filter_key_eq (w := (⟨v, new⟩ : FkProtocol.Response VA VB)) (by rwa [List.map_map])
          (List.mem_map.mpr ⟨_, hw, rfl⟩)]
        rfl
    show List.Forall₂ _ _ (a.resps k ++ (a.subs f k).toList.map fun v => ⟨v, new⟩)
    rw [← hsame]
    exact forall₂_enqueueAll hcarry h.resps k

theorem Sim.step_register (hj : j.Sound) (h : j.Sim c a) (f : KO) :
    ∃ c', j.step c (.register f) = .ok (c', []) ∧ j.Sim c' (j.protocol.step a (.register f)) := by
  have hregs := h.regs f
  rcases hc : c.registrations f with _ | ⟨r, rest⟩ <;> rcases ha : a.regs f with _ | ⟨m, rest'⟩ <;>
    rw [hc, ha] at hregs
  · refine ⟨c, ?_, ?_⟩
    · simp only [step, hc]
    · rw [FkProtocol.step_register_nil _ _ ha]
      exact h
  · cases hregs
  · cases hregs
  · obtain ⟨hr, hrest⟩ := List.forall₂_cons.mp hregs
    obtain ⟨store', hreceive, hsubs⟩ := subscriptionReceive_eq hj h.subs hr
    obtain ⟨sent, hsent, hcarry⟩ := mapM_hop (R := j.CarriesResponse)
      (l := (FkProtocol.answer (a.right f) m.instruction).toList)
      (m := fun b => (⟨m.value, b⟩ : FkProtocol.Response VA VB))
      fun b _ => hopResponse_eq hj m.key m.value b j.bStore r.timestamp
    refine ⟨{ c with
      subscriptions := store'
      registrations := Function.update c.registrations f rest
      responses := enqueueAll c.responses sent }, ?_, ?_⟩
    · simp only [step, hc]
      exact bind_eq_ok.mpr ⟨_, hreceive, bind_eq_ok.mpr ⟨_, subscriptionJoin_eq hj h.right hr,
        bind_eq_ok.mpr ⟨sent, List.mapM_map.trans hsent, rfl⟩⟩⟩
    · rw [FkProtocol.step_register_cons _ _ ha]
      refine ⟨h.left, h.right, hsubs, fun f' => ?_, forall₂_enqueueAll hcarry h.resps⟩
      by_cases hf : f' = f
      · subst hf
        simpa using hrest
      · simpa [hf] using h.regs f'

theorem Sim.step_respond (hj : j.Sound) (h : j.Sim c a) (k : K) :
    ∃ c' outs, j.step c (.respond k) = .ok (c', outs) ∧ j.Sim c' (j.protocol.step a (.respond k)) ∧
      Forwards a (.respond k) outs (j.protocol.step a (.respond k)).out := by
  have hresps := h.resps k
  rcases hc : c.responses k with _ | ⟨r, rest⟩ <;> rcases ha : a.resps k with _ | ⟨m, rest'⟩ <;>
    rw [hc, ha] at hresps
  · refine ⟨c, [], ?_, ?_⟩
    · simp only [step, hc]
    · rw [FkProtocol.step_respond_nil _ _ ha]
      exact ⟨h, .nothing _⟩
  · cases hresps
  · cases hresps
  · obtain ⟨hr, hrest⟩ := List.forall₂_cons.mp hresps
    refine ⟨{ c with responses := Function.update c.responses k rest }, if m.value = a.left k then
      [⟨some k, ⟨none, j.protocol.resolve (a.left k) m.foreign⟩, r.timestamp⟩] else [], ?_, ?_⟩
    · simp only [step, hc]
      exact bind_eq_ok.mpr ⟨_, subscriptionResolve_eq hj h.left hr, rfl⟩
    · rw [FkProtocol.step_respond_cons _ _ ha]
      refine ⟨⟨h.left, h.right, h.subs, h.regs, fun k' => ?_⟩, ?_⟩
      · by_cases hk : k' = k
        · subst hk
          simpa using hrest
        · simpa [hk] using h.resps k'
      · split
        · rename_i hv
          exact .row (ha ▸ List.mem_cons_self) hv _ _
        · exact .nothing _

theorem Sim.step (hj : j.Sound) (h : j.Sim c a) (x : FkEvent K VA KO VB) :
    ∃ c' outs, j.step c x = .ok (c', outs) ∧ j.Sim c' (j.protocol.step a x) ∧
      Forwards a x outs (j.protocol.step a x).out := by
  cases x with
  | left k new ts partition =>
    obtain ⟨c', hstep, hsim⟩ := h.step_left hj k new ts partition
    exact ⟨c', [], hstep, hsim, .nothing _⟩
  | right f new ts =>
    obtain ⟨c', hstep, hsim⟩ := h.step_right hj f new ts
    exact ⟨c', [], hstep, hsim, .nothing _⟩
  | register f =>
    obtain ⟨c', hstep, hsim⟩ := h.step_register hj f
    refine ⟨c', [], hstep, hsim, ?_⟩
    rcases ha : a.regs f with _ | ⟨m, rest⟩
    · rw [FkProtocol.step_register_nil _ _ ha]
      exact .nothing _
    · rw [FkProtocol.step_register_cons _ _ ha]
      exact .nothing _
  | respond k => exact h.step_respond hj k

end Steps

end ForeignKeyJoin

end KrabkaStreams
