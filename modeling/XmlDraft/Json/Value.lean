import XmlDraft.Number.Shortest

/-!
# JSON values

The values of the data format in which settings are kept: objects keep the order of
their names, whole numbers are exact, and the other numbers are binary ones, the
infinities and the value that is no number among them.
-/

namespace XmlDraft

/-- A JSON value. -/
inductive Json where
  | null
  | bool (b : Bool)
  | int (n : Int)
  | real (x : Binary64)
  | str (s : String)
  | arr (items : List Json)
  | obj (members : List (String × Json))

namespace Json

instance : Inhabited Json := ⟨null⟩

/-- The text of a value that is one. -/
def text? : Json → Option String
  | str s => some s
  | _ => none

/-- Whether a number is zero. -/
def isZero : Binary64 → Bool
  | .finite _ 0 _ => true
  | _ => false

/-- Null, false, zero, and whatever is empty count as nothing. -/
def counts : Json → Bool
  | null => false
  | bool b => b
  | int n => n ≠ 0
  | real x => !isZero x
  | str s => s ≠ ""
  | arr items => !items.isEmpty
  | obj members => !members.isEmpty

/-- The number of characters, items or members of a value that has any. -/
def size? : Json → Option Nat
  | str s => some s.length
  | arr items => some items.length
  | obj members => some members.length
  | _ => none

/-- The word for the kind of a value. -/
def kindName : Json → String
  | null => "NoneType"
  | bool _ => "bool"
  | int _ => "int"
  | real _ => "float"
  | str _ => "str"
  | arr _ => "list"
  | obj _ => "dict"

/-- The member of an object under a name. -/
def get? (j : Json) (name : String) : Option Json :=
  match j with
  | obj members => members.lookup name
  | _ => none

/-- Puts a member into an object; a name that is there keeps its place. -/
def put (members : List (String × Json)) (name : String) (value : Json) :
    List (String × Json) :=
  match members with
  | [] => [(name, value)]
  | (n, v) :: rest =>
    if n = name then (n, value) :: rest else (n, v) :: put rest name value

/-- The exact value of a number, where truth values count as zero and one. -/
def ratio? : Json → Option (Int × Nat)
  | bool b => some (if b then 1 else 0, 1)
  | int n => some (n, 1)
  | real x => x.ratio?
  | _ => none

/-- Whether two values are numbers of the same value; an infinity equals itself. -/
def sameNumber (a b : Json) : Bool :=
  match a, b with
  | real (.infinite s), real (.infinite t) => s = t
  | _, _ =>
    match a.ratio?, b.ratio? with
    | some (n, d), some (m, e) => n * e = m * d
    | _, _ => false

mutual

/-- Whether two values are equal: numbers by value, objects without regard to order. -/
def same : Json → Json → Bool
  | null, null => true
  | str s, str t => s = t
  | arr xs, arr ys => sameItems xs ys
  | obj xs, obj ys => xs.length = ys.length && sameMembers xs ys
  | a, b => sameNumber a b

/-- Whether two lists have equal items. -/
def sameItems : List Json → List Json → Bool
  | [], [] => true
  | x :: xs, y :: ys => same x y && sameItems xs ys
  | _, _ => false

/-- Whether all members of one object are in another. -/
def sameMembers : List (String × Json) → List (String × Json) → Bool
  | [], _ => true
  | (name, x) :: xs, ys =>
    (match ys.lookup name with
      | some y => same x y
      | none => false)
      && sameMembers xs ys

end

end Json

end XmlDraft
