import KrabkaStreams.Record

/-!
# The values between two nodes

The graph passes boxed values; `A` stands for the types of the application, and the runtime adds changes
and windowed keys. A node that meets another shape than its own fails with the downcast error.
-/

namespace KrabkaStreams

inductive Value (A : Type)
  | atom (a : A)
  | change (old new : Option A)
  | windowed (key : A) (start stop : Int)
  deriving DecidableEq, Repr

def Value.asAtom {A : Type} : Value A → Option A
  | .atom a => some a
  | _ => none

structure Serde (A : Type) where
  serialize : Topic → A → Bytes
  deserialize : Topic → Bytes → Except String A

def Serde.Lawful {A : Type} (serde : Serde A) : Prop :=
  ∀ topic a, serde.deserialize topic (serde.serialize topic a) = .ok a

def bytesSerde : Serde Bytes := ⟨fun _ b => b, fun _ b => .ok b⟩

end KrabkaStreams
