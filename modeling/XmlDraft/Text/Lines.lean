/-!
# Lines

Ends of lines.  A line ends at a line feed, at a carriage return, and at both together.
-/

namespace XmlDraft

namespace Text

/-- A line feed in place of every end of a line. -/
def unifyLines : List Char → List Char
  | '\r' :: '\n' :: cs => '\n' :: unifyLines cs
  | '\r' :: cs => '\n' :: unifyLines cs
  | c :: cs => c :: unifyLines cs
  | [] => []

end Text

end XmlDraft
