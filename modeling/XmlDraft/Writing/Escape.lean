/-!
# Escaping

References in place of the characters that would end character data or an attribute
value, or that reading would change: the delimiters of markup, the carriage return, and
within a value also the quote, the tab and the line feed.
-/

namespace XmlDraft

namespace Writing

/-- The form of a character in character data. -/
def textEscape (c : Char) : List Char :=
  if c = '&' then "&amp;".toList
  else if c = '<' then "&lt;".toList
  else if c = '>' then "&gt;".toList
  else if c = '\r' then "&#xD;".toList
  else [c]

/-- The form of a character in an attribute value between double quotes. -/
def valueEscape (c : Char) : List Char :=
  if c = '"' then "&quot;".toList
  else if c = '\t' then "&#x9;".toList
  else if c = '\n' then "&#xA;".toList
  else textEscape c

/-- Character data with its references. -/
def escapeText (cs : List Char) : List Char :=
  cs.flatMap textEscape

/-- An attribute value with its references. -/
def escapeValue (cs : List Char) : List Char :=
  cs.flatMap valueEscape

/-- The end of a CDATA section in parts: the brackets in one section and the angle in the next. -/
def dividedEnd : List Char :=
  "]]]]><![CDATA[>".toList

/-- The content of CDATA sections: wherever the end of a section stands in the text, the
section ends between its brackets and another one goes on with the rest. -/
def splitCData : List Char → List Char
  | ']' :: ']' :: '>' :: cs => dividedEnd ++ splitCData cs
  | c :: cs => c :: splitCData cs
  | [] => []

/-- A text as one CDATA section, or as several where it holds the end of one. -/
def cdataSections (cs : List Char) : List Char :=
  "<![CDATA[".toList ++ splitCData cs ++ "]]>".toList

end Writing

end XmlDraft
