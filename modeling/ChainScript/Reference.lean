import ChainScript.Value.Basic

/-!
# References

A reference describes one pending read, write or delete. How the access will be carried out is fixed
when the reference is made, by what it names: a binding of an environment, an ordinary slot under a
primitive key, or a resolver whose handlers take the access over.
-/

namespace ChainScript

/-- What a reference names. -/
inductive AccessedName where
  | ordinary (key : Value)
  | virtual (resolver : Value)
  | binding (name : Value)
deriving DecidableEq

/-- One pending access. The base of a binding is the environment that holds it, or null when no
environment does. -/
structure Reference where
  base : Value
  name : AccessedName
  thisValue : Value
  strict : Bool
  resolvable : Bool
  isSuper : Bool
deriving DecidableEq

namespace AccessedName

/-- The value that names the slot, the binding or the resolver. -/
def value : AccessedName → Value
  | .ordinary v | .virtual v | .binding v => v

/-- The name of the kind of access. -/
def kind : AccessedName → String
  | .ordinary _ => "OrdinaryName"
  | .virtual _ => "VirtualResolver"
  | .binding _ => "BindingName"

end AccessedName

namespace Reference

/-- Whether a resolver will take the access over. -/
def isVirtual (ref : Reference) : Bool :=
  match ref.name with
  | .virtual _ => true
  | _ => false

/-- Whether the reference names a property rather than a binding. -/
def isProperty (ref : Reference) : Bool :=
  match ref.name with
  | .binding _ => false
  | _ => true

end Reference

end ChainScript
