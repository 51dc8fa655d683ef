import KrabkaStreams.Record

/-!
# Typed queries to a store

A query carries its keys as boxed values of any type. A store takes back the type of its own keys, and
answers a query of another kind of store with a failure.
-/

namespace KrabkaStreams

/-- A boxed key: of the type of the store's own keys, or of another one. -/
inductive AnyKey (K : Type)
  | own (key : K)
  | other

inductive Iq2Query (K : Type)
  | key (key : AnyKey K)
  | range (lo hi : Option (AnyKey K)) (descending : Bool)
  | windowKey (key : AnyKey K) (fromTs toTs : Int)
  | windowRange (lo hi : Option (AnyKey K)) (fromTs toTs : Int)
  | versionedKey (key : AnyKey K) (asOf : Option Int)
  | multiVersionedKey (key : AnyKey K) (fromTs toTs : Option Int) (descending : Bool)

inductive Iq2Failure
  | unknownQueryType
  | keyTypeMismatch
  deriving DecidableEq, Repr

def AnyKey.downcast {K : Type} : AnyKey K → Except Iq2Failure K
  | .own key => .ok key
  | .other => .error .keyTypeMismatch

end KrabkaStreams
