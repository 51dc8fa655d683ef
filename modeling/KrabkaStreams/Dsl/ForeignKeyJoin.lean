import KrabkaStreams.Dsl.Murmur3
import KrabkaStreams.Dsl.Table
import KrabkaStreams.Stores.Subscription

/-!
# The foreign-key join

A left change subscribes its row at the foreign key of its value. A registration and a right change are
answered, and the resolver drops an answer whose hash is not that of the current left value.
-/

namespace KrabkaStreams

variable {K VA KO VB VR : Type}

/-- The extractor, the joiner and the serdes of a join, and the names that its processors pass to the
serdes. -/
structure ForeignKeyJoin (K VA KO VB VR : Type) where
  fkExtractor : VA → KO
  joiner : VA → Option VB → VR
  isLeft : Bool
  kSerde : Serde K
  vaSerde : Serde VA
  koSerde : Serde KO
  vbSerde : Serde VB
  subscriptionStore : String
  aStore : String
  bStore : String
  registrationTopic : Topic
  registrationSource : String
  responseTopic : Topic
  responseSource : String

namespace ForeignKeyJoin

variable (j : ForeignKeyJoin K VA KO VB VR)

def hashOf (v : VA) : Bytes := hash128 (j.vaSerde.serialize "" v)

def fkDiffers (a b : KO) : Bool :=
  j.koSerde.serialize "" a ≠ j.koSerde.serialize "" b

def leftJoinInstructions (oldFk newFk : Option KO) : List (KO × Instruction) :=
  let subscribe := newFk.toList.map fun nfk => (nfk, Instruction.propagateNullIfNoFkValAvailable)
  match oldFk with
  | some ofk =>
    (if newFk.all fun nfk => j.fkDiffers nfk ofk then [(ofk, .deleteKeyNoPropagate)] else []) ++ subscribe
  | none => subscribe

def defaultJoinInstructions (oldFk newFk : Option KO) : List (KO × Instruction) :=
  match oldFk, newFk with
  | none, none => []
  | some ofk, none => [(ofk, .deleteKeyAndPropagate)]
  | some ofk, some nfk =>
    if j.fkDiffers ofk nfk then
      [(ofk, .deleteKeyNoPropagate), (nfk, .propagateNullIfNoFkValAvailable)]
    else [(nfk, .propagateOnlyIfFkValAvailable)]
  | none, some nfk => [(nfk, .propagateOnlyIfFkValAvailable)]

/-- `SubscriptionSendProcessor::process`: the subscriptions for a change of a left row. -/
def subscriptionSend (partition : Int) (r : Record K (Change VA)) :
    Except ProcessorError (List (Record KO SubscriptionWrapper)) := do
  let some key := r.key | throw .panicked
  let hash := r.value.new.map j.hashOf
  let oldFk := r.value.old.map j.fkExtractor
  let newFk := r.value.new.map j.fkExtractor
  let instructions := if j.isLeft then j.leftJoinInstructions oldFk newFk
    else j.defaultJoinInstructions oldFk newFk
  return instructions.map fun i => ⟨some i.1, ⟨i.2, hash, j.kSerde.serialize "" key, partition⟩, r.timestamp⟩

/-- `SubscriptionReceiveProcessor::process`: the store after it; the record goes on unchanged. -/
def subscriptionReceive (store : SubscriptionBytesStore) (r : Record KO SubscriptionWrapper) :
    Except ProcessorError SubscriptionBytesStore := do
  let some fk := r.key | throw .panicked
  let fkBytes := j.koSerde.serialize j.subscriptionStore fk
  if r.value.instruction.isDelete then
    let (_, store) ← store.delete fkBytes r.value.primaryKey
    return store
  else store.put fkBytes r.value.primaryKey r.value r.timestamp

/-- `SubscriptionJoinProcessor::process`: the answer to a registration, if there is one. -/
def subscriptionJoin (right : TableStore KO VB) (r : Record KO SubscriptionWrapper) :
    Except ProcessorError (List (Record K SubscriptionResponseWrapper)) := do
  let some fk := r.key | throw .panicked
  let fkVal ← right.get fk
  let fkValBytes := fkVal.map (j.vbSerde.serialize j.bStore)
  let pk := (j.kSerde.deserialize j.bStore r.value.primaryKey).toOption
  let respond (foreignValue : Option Bytes) : List (Record K SubscriptionResponseWrapper) :=
    [⟨pk, ⟨r.value.hash, foreignValue⟩, r.timestamp⟩]
  match r.value.instruction with
  | .deleteKeyAndPropagate => return respond none
  | .propagateNullIfNoFkValAvailable => return respond fkValBytes
  | .propagateOnlyIfFkValAvailable => match fkValBytes with
    | some fv => return respond (some fv)
    | none => return []
  | .deleteKeyNoPropagate => return []

/-- `ForeignTableJoinProcessor::process`: the answers to all subscribers of a changed right row. -/
def foreignTableJoin (store : SubscriptionBytesStore) (r : Record KO (Change VB)) :
    Except ProcessorError (List (Record K SubscriptionResponseWrapper)) := do
  let some fk := r.key | throw .panicked
  let newVb := r.value.new.map (j.vbSerde.serialize j.subscriptionStore)
  let subs ← store.rangeByForeign (j.koSerde.serialize j.subscriptionStore fk)
  return subs.filterMap fun s => match j.kSerde.deserialize j.subscriptionStore s.1 with
    | .ok pk => some ⟨some pk, ⟨s.2.hash, newVb⟩, r.timestamp⟩
    | .error _ => none

def subscriptionResolve (left : TableStore K VA) (r : Record K SubscriptionResponseWrapper) :
    Except ProcessorError (List (Record K (Change VR))) := do
  let some key := r.key | throw .panicked
  let currentVa ← left.get key
  if r.value.hash ≠ currentVa.map j.hashOf then return []
  let foreignVb := r.value.foreignValue.bind fun b => (j.vbSerde.deserialize j.aStore b).toOption
  let result := if r.value.foreignValue.isNone && (!j.isLeft || currentVa.isNone) then none
    else currentVa.map fun va => j.joiner va foreignVb
  return [⟨some key, ⟨none, result⟩, r.timestamp⟩]

end ForeignKeyJoin

end KrabkaStreams
