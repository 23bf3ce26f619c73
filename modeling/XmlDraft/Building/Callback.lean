import XmlDraft.Building.Session

/-!
# Callbacks

Functions that a caller hands over: a callback that fills a new builder, and fragments that
are checked before they are used.
-/

namespace XmlDraft

namespace Value

/-- The numbers of arguments that the body of a value sees when it is called with a builder;
there is none where the value has no body. -/
def countsSeen : Value → List Nat
  | function ps _ => [ps.countP Parameter.isNeeded]
  | bound ps _ _ => [ps.countP Parameter.isNeeded]
  | callable ps _ _ _ => [ps.countP Parameter.isNeeded]
  | _ => []

/-- The check of a fragment that takes a number of arguments. -/
def checkFragment (v : Value) (arity : Nat) : Except Fault Unit :=
  match v with
  | none => .error (.misuse .noFragment)
  | _ =>
    if !v.isCallable then .error (.misuse .notCallable)
    else if v.arity? = some arity then .ok ()
    else .error (.misuse (.wrongArity arity))

/-- How the fragment of a call ends if its body does nothing, and the numbers of arguments
that it sees. -/
def tryFragment (v : Value) (takesBuilder : Bool) : Except Fault (List Nat) :=
  let extra := if takesBuilder then 1 else 0
  let bound' := fun (ps : List Parameter) (given : Nat) =>
    if Signature.binds ps (given + extra) then .ok v.countsSeen else .error .badCall
  match v with
  | function ps _ => bound' ps 0
  | bound ps given _ => bound' ps given
  | callable ps _ _ _ => bound' ps 0
  | builtin name => (Run.callBuiltin name takesBuilder).map fun _ => []
  | _ => .error .badCall

end Value

namespace Builder

/-- The builder that a callback fills, as it is when the callback ends, and the numbers of
arguments that the callback saw, unless it failed. -/
def build (callback : Value) (settings : Settings) : Builder × Except Fault (List Nat) :=
  let b : Builder := { settings := settings }
  match callback with
  | .none => (b, .error (.misuse .noCallback))
  | v =>
    let (r, outcome) := Run.invoke ⟨b, []⟩ true v
    (r.builder, outcome.map fun _ => v.countsSeen)

end Builder

end XmlDraft
