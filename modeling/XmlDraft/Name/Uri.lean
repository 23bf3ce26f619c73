/-!
# Addresses of namespaces

The syntax of URI references, as far as it tells which texts are references at all, and
which of them are absolute: those with a scheme.
-/

namespace XmlDraft

namespace Uri

/-- A character that stands for itself wherever characters of addresses may stand. -/
def isPlain (c : Char) : Bool :=
  c.isAlphanum || "-._~!$&'()*+,;=".toList.contains c

/-- A hexadecimal digit. -/
def isHex (c : Char) : Bool :=
  c.isDigit || ('a' ≤ c && c ≤ 'f') || ('A' ≤ c && c ≤ 'F')

/-- What follows the longest run of plain characters, encoded characters and the extra
ones. -/
def skip (extra : List Char) : List Char → List Char
  | '%' :: a :: b :: cs => if isHex a && isHex b then skip extra cs else '%' :: a :: b :: cs
  | c :: cs => if isPlain c || c ∈ extra then skip extra cs else c :: cs
  | [] => []

/-- What follows the name of a host. -/
def skipHost? (cs : List Char) : Option (List Char) :=
  match cs with
  | '[' :: more =>
    match more.dropWhile (· ≠ ']') with
    | _ :: rest => some rest
    | [] => none
  | _ => some (skip [] cs)

/-- What follows a port, if a colon begins one. -/
def skipPort? (cs : List Char) : Option (List Char) :=
  match cs with
  | ':' :: c :: more => if c.isDigit then some (more.dropWhile Char.isDigit) else none
  | [':'] => none
  | _ => some cs

/-- What follows a host with its user and its port. -/
def skipAuthority? (cs : List Char) : Option (List Char) := do
  let host := match skip [':'] cs with
    | '@' :: rest => rest
    | _ => cs
  let rest ← skipHost? host
  skipPort? rest

/-- What follows a path; after a host it is empty or begins with a slash. -/
def skipPath? (cs : List Char) : Option (List Char) :=
  match cs with
  | '/' :: '/' :: more =>
    (skipAuthority? more).map fun rest =>
      match rest with
      | '/' :: _ => skip [':', '@', '/'] rest
      | _ => rest
  | _ => some (skip [':', '@', '/'] cs)

/-- Whether nothing but a query and a fragment is left. -/
def endsWell (cs : List Char) : Bool :=
  let rest := match cs with
    | '?' :: more => skip [':', '@', '/', '?'] more
    | _ => cs
  let rest := match rest with
    | '#' :: more => skip [':', '@', '/', '?', '[', ']'] more
    | _ => rest
  rest.isEmpty

/-- What follows the scheme and its colon. -/
def afterScheme? (cs : List Char) : Option (List Char) :=
  match cs with
  | c :: more =>
    if c.isAlpha then
      match more.dropWhile fun d => d.isAlphanum || d = '+' || d = '-' || d = '.' with
      | ':' :: rest => some rest
      | _ => none
    else none
  | [] => none

/-- Whether a text is a reference with a scheme. -/
def isAbsolute (s : String) : Bool :=
  ((afterScheme? s.toList).bind skipPath?).any endsWell

/-- Whether a text is a reference without a scheme; its first part has no colon. -/
def isRelative (s : String) : Bool :=
  let first := s.toList.takeWhile fun c => c ≠ '/' && c ≠ '?' && c ≠ '#'
  ':' ∉ first && (skipPath? s.toList).any endsWell

end Uri

end XmlDraft
