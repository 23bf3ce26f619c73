import XmlDraft.Text.Quoted

/-!
# Paths of files

A path is a list of names, from the folder in which it begins: the top folder, or the one
where a program runs.  The dot names no further folder and is left out, and so are repeated
slashes; a path that begins with exactly two slashes keeps both.  Two dots stay, for what they
lead to depends on the folders that there are.
-/

namespace XmlDraft

/-- A path: the slashes at its head, and the names behind them. -/
structure FilePath where
  /-- The number of slashes at the head: none, one or two. -/
  slashes : Nat
  /-- The names. -/
  names : List String
deriving DecidableEq, Repr

namespace FilePath

/-- The path that a text writes. -/
def ofText (s : String) : FilePath where
  slashes :=
    match (s.toList.takeWhile (· = '/')).length with
    | 0 => 0
    | 2 => 2
    | _ => 1
  names := (s.toList.splitOn '/').filterMap fun part =>
    if part = [] || part = ['.'] then none else some (String.ofList part)

/-- The text of a path; the folder in which a path begins is a dot. -/
def text (p : FilePath) : String :=
  if p.slashes = 0 && p.names = [] then "."
  else String.ofList (List.replicate p.slashes '/') ++ Text.joined "/" p.names

/-- The path of the folder around a path; the beginning of a path is its own. -/
def parent (p : FilePath) : FilePath :=
  { p with names := p.names.dropLast }

/-- Whether a path holds the character that no path may hold. -/
def hasNull (p : FilePath) : Bool :=
  p.names.any fun name => '\x00' ∈ name.toList

end FilePath

end XmlDraft
