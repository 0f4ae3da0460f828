import ChainScript.Run

/-!
# Attaching handlers

A host attaches handlers to classes and takes them away again, before a program runs or from a
function that the program calls. What is no class, or cannot be called, is refused.
-/

namespace ChainScript.Host

/-- The handler that a host gives, or none. What cannot be called is refused. -/
def givenHandler (v : Value) : Run (Option Value) := do
  if v = .null then return none
  else if (← Run.heap).isCallable v then return some v
  else Run.fail (.attachHandler v)

/-- Attaches handlers to a class. -/
def attach (target onGet onSet onDelete : Value) : Run HandlerSet := do
  match target with
  | .type c =>
    let handlers : HandlerSet :=
      ⟨← givenHandler onGet, ← givenHandler onSet, ← givenHandler onDelete⟩
    modify fun m => { m with registry := Registry.attach m.registry c handlers }
    return handlers
  | _ => Run.fail (.attachTarget target)

/-- Takes the handlers of a class away, and says whether there were any. -/
def detach (target : Value) : Run Bool := do
  match target with
  | .type c =>
    let attached := Table.contains (← get).registry c
    modify fun m => { m with registry := Registry.detach m.registry c }
    return attached
  | _ => return false

end ChainScript.Host
