import ChainScript.Fault.Kind
import ChainScript.Reference

/-!
# What functions of the host do

A function of the host does one of a few simple things, or follows a program of its own. A
`HostProgram` is a tree of requests to the language and the host: each names one access, call or
run, or one change of what the host holds, and says how the program goes on with what it is
answered. It may keep to any data of the host in between. It sees the language through these
requests alone, so it neither catches a fault nor learns how strict the program around it is.
-/

namespace ChainScript

/-- A failure that a host function raises on purpose. -/
structure HostFailure where
  kind : FaultKind
  message : String
deriving DecidableEq

/-- What a function of the host does request by request, until it answers or raises a failure. A
program that suspends makes something to await, which follows a program of its own when it is
awaited. -/
inductive HostProgram where
  | answer (v : Value)
  | raise (failure : HostFailure)
  | get (base key this : Value) (next : Value → HostProgram)
  | set (base key value this : Value) (next : Bool → HostProgram)
  | delete (base key : Value) (next : Bool → HostProgram)
  | chain (base resolver : Value) (strict : Bool) (next : Reference → HostProgram)
  | binding (env name : Value) (strict : Bool) (next : Reference → HostProgram)
  | read (ref : Reference) (next : Value → HostProgram)
  | write (ref : Reference) (value : Value) (next : HostProgram)
  | remove (ref : Reference) (next : Bool → HostProgram)
  | call (f : Value) (arguments : List Value) (next : Value → HostProgram)
  | scope (parent : Value) (next : Value → HostProgram)
  | run (env tree : Value) (next : Value → HostProgram)
  | record (name : Value) (arguments : List Value) (next : HostProgram)
  | items (v : Value) (next : List Value → HostProgram)
  | refill (list : Value) (items : List Value) (next : HostProgram)
  | attach (target onGet onSet onDelete : Value) (next : HostProgram)
  | detach (target : Value) (next : Bool → HostProgram)
  | suspend (once : Bool) (held : List Value) (body : HostProgram) (next : Value → HostProgram)

/-- What a host function does with its arguments. The values held by a program are those that it can
bring up on its own. -/
inductive Behaviour where
  | arguments
  | constant (value : Value)
  | argument (i : Nat)
  | count (calls : Nat)
  | getSlot (key : Value)
  | setSlot (key : Value)
  | raise (failure : HostFailure)
  | script (params : List String) (body : Value)
  | program (held : List Value) (body : List Value → HostProgram)

end ChainScript
