import XmlDraft.Value.Basic
import XmlDraft.Text.Quoted

/-!
# Building functions by name

A target names a module and, behind a colon, a value in it that can be called; dots lead on
to members of values.
-/

namespace XmlDraft

namespace Command

/-- The modules that there are, each with the values that it holds. -/
structure Catalogue where
  /-- The modules by name. -/
  modules : List (String × List (String × Value)) := []

/-- Why a target names nothing that can be called. -/
inductive TargetFault where
  /-- It is not made of a module and a value. -/
  | malformed (target : String)
  /-- The name of the module begins with a dot, so that it depends on another module. -/
  | relative
  /-- A module is not there. -/
  | noModule (name missing : String) (around : Option String)
  /-- A module or a value has no such member. -/
  | noMember (target member : String)
  /-- The value cannot be called. -/
  | notCallable (target : String)
deriving DecidableEq, Repr

namespace TargetFault

/-- The wording of a fault. -/
def message : TargetFault → String
  | malformed target => "Expected MODULE:CALLABLE, got " ++ Text.quoted target
  | relative => "the module depends on another one"
  | noModule name missing around =>
    let end' := match around with
      | some a => "; " ++ Text.quoted a ++ " is not a package"
      | none => ""
    "Cannot import module " ++ Text.quoted name ++ ": No module named " ++ Text.quoted missing
      ++ end'
  | noMember target member =>
    Text.quoted target ++ " has no attribute " ++ Text.quoted member
  | notCallable target => Text.quoted target ++ " is not callable"

end TargetFault

namespace Catalogue

/-- The fault of a module that is not there: the names before its dots are looked for one
after another, and the first that is missing is told, with the module around it. -/
def missing (c : Catalogue) (name : String) (around : Option String) :
    List (List Char) → TargetFault
  | [] => .noModule name name around
  | part :: parts =>
    let reached := match around with
      | some a => a ++ "." ++ String.ofList part
      | none => String.ofList part
    if (c.modules.lookup reached).isSome then c.missing name (some reached) parts
    else .noModule name reached around

/-- The values that a module holds. -/
def members (c : Catalogue) (name : String) : Except TargetFault (List (String × Value)) :=
  if name.toList.head? = some '.' then .error .relative
  else
    match c.modules.lookup name with
    | some members => .ok members
    | none => .error (c.missing name none (name.toList.splitOn '.'))

/-- The members of a value that has some. -/
def membersOf (v : Value) : List (String × Value) :=
  let named := fun (fields : List (FieldName × Value)) =>
    fields.filterMap fun f => f.1.text?.map fun name => (name, f.2)
  match v with
  | .type fields => fields
  | .object fields => named fields
  | .record fields => fields
  | .row fields => named fields
  | .callable _ fields _ _ => named fields
  | _ => []

/-- The value to which a name and further names lead, one after another, from the members of
a module. -/
def follow (target : String) (members : List (String × Value)) (name : String) :
    List String → Except TargetFault Value
  | [] =>
    match members.lookup name with
    | none => .error (.noMember target name)
    | some v => .ok v
  | next :: names =>
    match members.lookup name with
    | none => .error (.noMember target name)
    | some v => follow target (membersOf v) next names

/-- The value of a target, which can be called. -/
def find (c : Catalogue) (target : String) : Except TargetFault Value := do
  let cs := target.toList
  let name := cs.takeWhile (· ≠ ':')
  let path := (cs.dropWhile (· ≠ ':')).drop 1
  if name = [] || path = [] then .error (.malformed target)
  let members ← c.members (String.ofList name)
  match (path.splitOn '.').map String.ofList with
  | [] => .error (.malformed target)
  | first :: names =>
    let v ← follow target members first names
    if v.isCallable then .ok v else .error (.notCallable target)

end Catalogue

end Command

end XmlDraft
