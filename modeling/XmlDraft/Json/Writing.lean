import XmlDraft.Json.Value

/-!
# Writing JSON

The text of a JSON value in ASCII: other characters are written as escapes, those
beyond the basic plane as two.  On one line a comma and a blank stand between items; with
an indentation every item stands on a line of its own.
-/

namespace XmlDraft

namespace Json

/-- The escape of a number below 65536. -/
def unitEscape (n : Nat) : List Char :=
  '\\' :: 'u' :: Text.padZeros 4 (Text.hexDigits n)

/-- A character between quotes. -/
def charText (c : Char) : List Char :=
  if c = '"' || c = '\\' then ['\\', c]
  else if c = '\n' then ['\\', 'n']
  else if c = '\r' then ['\\', 'r']
  else if c = '\t' then ['\\', 't']
  else if c = '\x08' then ['\\', 'b']
  else if c = '\x0c' then ['\\', 'f']
  else if 0x20 ≤ c.toNat && c.toNat < 0x7F then [c]
  else if c.toNat < 0x10000 then unitEscape c.toNat
  else
    let m := c.toNat - 0x10000
    unitEscape (0xD800 + m / 0x400) ++ unitEscape (0xDC00 + m % 0x400)

/-- A text between quotes. -/
def stringText (s : String) : List Char :=
  '"' :: s.toList.flatMap charText ++ ['"']

/-- The text of a binary number. -/
def realText : Binary64 → List Char
  | .nan => "NaN".toList
  | .infinite negative => (if negative then "-Infinity" else "Infinity").toList
  | x => x.text.toList

/-- What begins a line of a level, if there is an indentation. -/
def lineStart (indent : Option (List Char)) (level : Nat) : List Char :=
  match indent with
  | some unit => '\n' :: (List.replicate level unit).flatten
  | none => []

/-- What stands between two items of a level. -/
def separator (indent : Option (List Char)) (level : Nat) : List Char :=
  match indent with
  | some _ => ',' :: lineStart indent level
  | none => [',', ' ']

mutual

/-- The text of a value inside `level` others. -/
def textAt (indent : Option (List Char)) (level : Nat) : Json → List Char
  | null => "null".toList
  | bool b => (if b then "true" else "false").toList
  | int n => (Text.intText n).toList
  | real x => realText x
  | str s => stringText s
  | arr [] => ['[', ']']
  | arr (x :: xs) =>
    '[' :: lineStart indent (level + 1) ++ textAt indent (level + 1) x
      ++ itemsText indent (level + 1) xs ++ lineStart indent level ++ [']']
  | obj [] => ['\x7b', '\x7d']
  | obj ((name, x) :: xs) =>
    '\x7b' :: lineStart indent (level + 1) ++ stringText name ++ ':' :: ' '
      :: textAt indent (level + 1) x
      ++ membersText indent (level + 1) xs ++ lineStart indent level ++ ['\x7d']

/-- The text of items that follow another one. -/
def itemsText (indent : Option (List Char)) (level : Nat) : List Json → List Char
  | [] => []
  | x :: xs => separator indent level ++ textAt indent level x ++ itemsText indent level xs

/-- The text of members that follow another one. -/
def membersText (indent : Option (List Char)) (level : Nat) :
    List (String × Json) → List Char
  | [] => []
  | (name, x) :: xs =>
    separator indent level ++ stringText name ++ ':' :: ' ' :: textAt indent level x
      ++ membersText indent level xs

end

/-- The text of a value, on one line or with an indentation. -/
def text (j : Json) (indent : Option String) : String :=
  String.ofList (j.textAt (indent.map String.toList) 0)

mutual

/-- Whether a value can be written: whole numbers of more than 4300 digits cannot. -/
def isWritable : Json → Bool
  | int n => n.natAbs < Nat.pow 10 4300
  | arr items => allWritable items
  | obj members => allMembersWritable members
  | null => true
  | bool _ => true
  | real _ => true
  | str _ => true

/-- Whether all items can be written. -/
def allWritable : List Json → Bool
  | [] => true
  | x :: xs => isWritable x && allWritable xs

/-- Whether all members can be written. -/
def allMembersWritable : List (String × Json) → Bool
  | [] => true
  | (_, x) :: xs => isWritable x && allMembersWritable xs

end

end Json

end XmlDraft
