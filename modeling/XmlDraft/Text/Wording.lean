import XmlDraft.Text.Quoted

/-!
# Wordings

A text that is a member of an enumeration of texts counts by its characters wherever texts
are joined, compared or looked at, but a template prints it under the name of the member.
A wording is a text together with that name, where it has one.
-/

namespace XmlDraft

/-- A text, and its printed form where it is a member of an enumeration of texts. -/
structure Wording where
  /-- The text. -/
  text : String
  /-- The printed form of the member, if it is one. -/
  member : Option String := none
deriving DecidableEq, Repr

namespace Wording

/-- A text that is no member of an enumeration. -/
instance : Coe String Wording where
  coe text := { text := text }

/-- The printed form, as a template shows it. -/
def printed (w : Wording) : String :=
  w.member.getD w.text

/-- The quoted form, as a message shows it. -/
def shown (w : Wording) : String :=
  match w.member with
  | some name => "<" ++ name ++ ": " ++ Text.quoted w.text ++ ">"
  | none => Text.quoted w.text

end Wording

end XmlDraft
