import KrabkaStreams.Dsl.ForeignKeyJoin

/-!
# The foreign-key join and its topics

The join as it runs: the tables, the subscription store and the messages in flight, in one channel for
each foreign and each primary key. A channel delivers in order, whenever it likes.
-/

namespace KrabkaStreams

variable {K VA KO VB VR : Type}

inductive FkEvent (K VA KO VB : Type)
  | left (key : K) (new : Option VA) (ts : Int) (partition : Int)
  | right (key : KO) (new : Option VB) (ts : Int)
  | register (fk : KO)
  | respond (key : K)

namespace FkEvent

def IsChange : FkEvent K VA KO VB → Prop
  | left .. => True
  | right .. => True
  | _ => False

def applyLeft [DecidableEq K] (rows : K → Option VA) : FkEvent K VA KO VB → K → Option VA
  | left key new _ _ => Function.update rows key new
  | _ => rows

def applyRight [DecidableEq KO] (rows : KO → Option VB) : FkEvent K VA KO VB → KO → Option VB
  | right key new _ => Function.update rows key new
  | _ => rows

def leftRows [DecidableEq K] (xs : List (FkEvent K VA KO VB)) : K → Option VA :=
  xs.foldl applyLeft fun _ => none

def rightRows [DecidableEq KO] (xs : List (FkEvent K VA KO VB)) : KO → Option VB :=
  xs.foldl applyRight fun _ => none

end FkEvent

def enqueueAll {κ μ : Type} [DecidableEq κ] (channels : κ → List μ) (ms : List (κ × μ)) : κ → List μ :=
  ms.foldl (fun c m => Function.update c m.1 (c m.1 ++ [m.2])) channels

namespace ForeignKeyJoin

structure State (K VA KO VB : Type) where
  left : TableStore K VA
  right : TableStore KO VB
  subscriptions : SubscriptionBytesStore
  registrations : KO → List (Record KO SubscriptionWrapper)
  responses : K → List (Record K SubscriptionResponseWrapper)

def State.Drained (s : State K VA KO VB) : Prop := (∀ f, s.registrations f = []) ∧ ∀ k, s.responses k = []

def hopKey {κ : Type} (serde : Serde κ) (topic sourceName : String) (key : Option κ) : Except ProcessorError κ :=
  match key with
  | none => .error .panicked
  | some key => match serde.deserialize sourceName (serde.serialize topic key) with
    | .ok key => .ok key
    | .error message => .error (.serde sourceName message)

def hopRegistration (j : ForeignKeyJoin K VA KO VB VR) (r : Record KO SubscriptionWrapper) :
    Except ProcessorError (KO × Record KO SubscriptionWrapper) := do
  let fk ← hopKey j.koSerde j.registrationTopic j.registrationSource r.key
  let w ← SubscriptionWrapper.deserialize r.value.serialize
  return (fk, ⟨some fk, w, r.timestamp⟩)

def hopResponse (j : ForeignKeyJoin K VA KO VB VR) (r : Record K SubscriptionResponseWrapper) :
    Except ProcessorError (K × Record K SubscriptionResponseWrapper) := do
  let key ← hopKey j.kSerde j.responseTopic j.responseSource r.key
  let w ← SubscriptionResponseWrapper.deserialize r.value.serialize
  return (key, ⟨some key, w, r.timestamp⟩)

section

variable [DecidableEq K] [DecidableEq KO]

def step (j : ForeignKeyJoin K VA KO VB VR) (s : State K VA KO VB) :
    FkEvent K VA KO VB → Except ProcessorError (State K VA KO VB × List (Record K (Change VR)))
  | .left key new ts partition => do
    let old ← s.left.get key
    let left ← s.left.reconcile key new
    let sent ← j.subscriptionSend partition ⟨some key, ⟨old, new⟩, ts⟩
    let sent ← sent.mapM j.hopRegistration
    return ({ s with left := left, registrations := enqueueAll s.registrations sent }, [])
  | .right key new ts => do
    let old ← s.right.get key
    let right ← s.right.reconcile key new
    let sent ← j.foreignTableJoin s.subscriptions ⟨some key, ⟨old, new⟩, ts⟩
    let sent ← sent.mapM j.hopResponse
    return ({ s with right := right, responses := enqueueAll s.responses sent }, [])
  | .register fk => match s.registrations fk with
    | [] => .ok (s, [])
    | r :: rest => do
      let subscriptions ← j.subscriptionReceive s.subscriptions r
      let sent ← j.subscriptionJoin s.right r
      let sent ← sent.mapM j.hopResponse
      return ({ s with
        subscriptions := subscriptions
        registrations := Function.update s.registrations fk rest
        responses := enqueueAll s.responses sent }, [])
  | .respond key => match s.responses key with
    | [] => .ok (s, [])
    | r :: rest => do
      let out ← j.subscriptionResolve s.left r
      return ({ s with responses := Function.update s.responses key rest }, out)

def run (j : ForeignKeyJoin K VA KO VB VR) (s : State K VA KO VB) :
    List (FkEvent K VA KO VB) → Except ProcessorError (State K VA KO VB × List (Record K (Change VR)))
  | [] => .ok (s, [])
  | x :: xs => do
    let (s, out) ← j.step s x
    let (s, rest) ← j.run s xs
    return (s, out ++ rest)

end

end ForeignKeyJoin

end KrabkaStreams
