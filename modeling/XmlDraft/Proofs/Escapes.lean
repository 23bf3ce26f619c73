import XmlDraft.Proofs.RoundTrip
import XmlDraft.Proofs.Sections

/-!
# Escapes that are undone

Escaping writes a reference in place of each character that would end a text or a value, or that
reading would change.  What escaped characters stand for is told here without the reader: the ends
of lines are unified, in a value white space becomes spaces, and then the references are expanded.
Main statement: nothing is left in escaped characters that can end them or open markup, each
ampersand begins a reference of its own, and they stand for what was escaped, which is also what the
reader finds.
-/

namespace XmlDraft

/-! ### What escaped characters stand for -/

namespace Decoding

/-- The character with a number of digits of a base. -/
def numbered? (base : Nat) (ds : List Char) : Option Char :=
  if ds ≠ [] ∧ ds.all fun d => (Text.digitValue? d).any (· < base) then
    Reading.charOfNumber? (Text.ofDigits base ds)
  else none

/-- The character that the text between an ampersand and a semicolon stands for. -/
def referent? : List Char → Option Char
  | '#' :: 'x' :: ds => numbered? 16 ds
  | '#' :: ds => numbered? 10 ds
  | name => Reading.predefined? name

/-- Characters with their references expanded, unless one of them stands for nothing or markup
begins; `held` is what was read of a reference that has not ended. -/
def expanded? (held : Option (List Char)) : List Char → Option (List Char)
  | [] => if held.isNone then some [] else none
  | c :: cs =>
    match held with
    | none =>
      if c = '&' then expanded? (some []) cs
      else if c = '<' then none
      else (expanded? none cs).map (c :: ·)
    | some body =>
      if c = ';' then (referent? body).bind fun d => (expanded? none cs).map (d :: ·)
      else expanded? (some (body ++ [c])) cs

/-- What character data stands for. -/
def text? (cs : List Char) : Option (List Char) :=
  expanded? none (Text.unifyLines cs)

/-- What an attribute value stands for. -/
def value? (cs : List Char) : Option (List Char) :=
  expanded? none ((Text.unifyLines cs).map fun c => if Reading.isBlank c then ' ' else c)

theorem expanded?_body {body : List Char} (h : ';' ∉ body) (held after : List Char) :
  expanded? (some held) (body ++ ';' :: after)
    = (referent? (held ++ body)).bind fun d => (expanded? none after).map (d :: ·)
  := by
  induction body generalizing held with
  | nil => simp [expanded?]
  | cons c body ih =>
      rw [List.mem_cons, not_or] at h
      simp [expanded?, Ne.symm h.1, ih h.2]

/-- A reference is expanded to the character that it stands for. -/
theorem expanded?_reference {body : List Char} {c : Char} (h : ';' ∉ body)
    (hc : referent? body = some c) (after : List Char) :
  expanded? none ('&' :: (body ++ ';' :: after)) = (expanded? none after).map (c :: ·)
  := by
  simp [expanded?, expanded?_body h, hc]

end Decoding

open Decoding (referent? expanded?)

/-! ### Escapes -/

/-- A way to escape characters so that none of some special ones is left but the ampersand: each
character is written as it is, if it is not special, or as a reference to it. -/
structure IsEscape (escape : Char → List Char) (specials : List Char) : Prop where
  /-- The ampersand and the bracket that opens markup are special. -/
  marks : '&' ∈ specials ∧ '<' ∈ specials
  /-- A character is written as it is, or as a reference. -/
  forms (c : Char) : (escape c = [c] ∧ c ∉ specials)
    ∨ ∃ body, escape c = '&' :: (body ++ [';']) ∧ referent? body = some c ∧ ';' ∉ body
      ∧ ∀ d ∈ body ++ [';'], d ∉ specials

/-- What is special in character data. -/
def textSpecials : List Char :=
  ['&', '<', '>', '\r']

/-- What is special in an attribute value. -/
def valueSpecials : List Char :=
  textSpecials ++ ['"', '\t', '\n']

/-- What stands between the ampersands and the semicolons of references. -/
def referenceBodies : List (List Char) :=
  ["amp", "lt", "gt", "#xD", "quot", "#x9", "#xA"].map String.toList

/-- What gives references to the special characters and leaves the others alone escapes them. -/
theorem isEscape_of_bodies {escape : Char → List Char} {specials : List Char}
    (hmarks : '&' ∈ specials ∧ '<' ∈ specials)
    (hforms : specials.all fun c => referenceBodies.any fun body =>
      escape c = '&' :: (body ++ [';']) ∧ referent? body = some c ∧ ';' ∉ body
        ∧ (body ++ [';']).all (· ∉ specials))
    (hplain : ∀ c, c ∉ specials → escape c = [c]) :
  IsEscape escape specials
  where
  marks := hmarks
  forms c := by
    by_cases hc : c ∈ specials
    · obtain ⟨body, -, hbody⟩ := List.any_eq_true.mp (List.all_eq_true.mp hforms c hc)
      obtain ⟨hform, hreferent, hend, hinner⟩ := of_decide_eq_true hbody
      exact .inr ⟨body, hform, hreferent, hend, List.all_iff_forall_prop.mp hinner⟩
    · exact .inl ⟨hplain c hc, hc⟩

theorem isEscape_textEscape :
  IsEscape Writing.textEscape textSpecials
  := by
  refine isEscape_of_bodies (by decide) (by decide) fun c hc => ?_
  simp only [textSpecials, List.mem_cons, List.not_mem_nil, or_false, not_or] at hc
  simp [Writing.textEscape, hc]

theorem isEscape_valueEscape :
  IsEscape Writing.valueEscape valueSpecials
  := by
  refine isEscape_of_bodies (by decide) (by decide) fun c hc => ?_
  simp only [valueSpecials, textSpecials, List.cons_append, List.nil_append, List.mem_cons,
    List.not_mem_nil, or_false, not_or] at hc
  simp [Writing.valueEscape, Writing.textEscape, hc]

namespace IsEscape

variable {escape : Char → List Char} {specials : List Char} (h : IsEscape escape specials)

include h

/-- No special character but the ampersand is left. -/
theorem notMem {d : Char} (hd : d ∈ specials) (hamp : d ≠ '&') (cs : List Char) :
  d ∉ cs.flatMap escape
  := by
  intro hmem
  obtain ⟨c, -, hc⟩ := List.mem_flatMap.mp hmem
  rcases h.forms c with ⟨hform, hplain⟩ | ⟨body, hform, -, -, hplain⟩
  · rw [hform, List.mem_singleton] at hc
    exact hplain (hc ▸ hd)
  · rw [hform, List.mem_cons] at hc
    exact hplain d (hc.resolve_left hamp) hd

/-- The ampersand in an escaped character is its first one, and begins the reference to it. -/
theorem first {c : Char} {before more : List Char} (heq : escape c = before ++ '&' :: more) :
  ∃ body, before = [] ∧ more = body ++ [';'] ∧ escape c = '&' :: (body ++ [';'])
    ∧ referent? body = some c
  := by
  rcases h.forms c with ⟨hform, hplain⟩ | ⟨body, hform, hc, -, hplain⟩
  · rw [hform, eq_comm, List.append_eq_singleton_iff] at heq
    rcases heq with ⟨-, hmore⟩ | ⟨-, hmore⟩
    · rw [List.cons.injEq] at hmore
      exact absurd h.marks.1 (hmore.1 ▸ hplain)
    · cases hmore
  · cases before with
    | nil => exact ⟨body, rfl, (List.cons.inj (hform.symm.trans heq)).2.symm, hform, hc⟩
    | cons d before =>
        have htail := (List.cons.inj (hform.symm.trans heq)).2
        have hamp : '&' ∈ body ++ [';'] := by
          rw [htail]
          exact List.mem_append_right _ List.mem_cons_self
        exact absurd h.marks.1 (hplain '&' hamp)

/-- Each ampersand begins the reference of a character that was escaped. -/
theorem references {cs before after : List Char}
    (heq : cs.flatMap escape = before ++ '&' :: after) :
  ∃ p c q body, cs = p ++ c :: q ∧ before = p.flatMap escape
    ∧ after = body ++ ';' :: q.flatMap escape ∧ escape c = '&' :: (body ++ [';'])
    ∧ referent? body = some c
  := by
  induction cs generalizing before with
  | nil => exact absurd heq.symm (by simp)
  | cons c cs ih =>
      rw [List.flatMap_cons] at heq
      rcases List.append_eq_append_iff.mp heq with ⟨more, hbefore, hrest⟩ | ⟨more, hc, hafter⟩
      · obtain ⟨p, d, q, body, rfl, hp, hd⟩ := ih hrest
        exact ⟨c :: p, d, q, body, rfl, by rw [hbefore, hp, List.flatMap_cons], hd⟩
      · cases more with
        | nil =>
            have hrest : cs.flatMap escape = [] ++ '&' :: after := hafter.symm
            obtain ⟨p, d, q, body, rfl, hp, hd⟩ := ih hrest
            refine ⟨c :: p, d, q, body, rfl, ?_, hd⟩
            rw [List.flatMap_cons, ← hp, hc, List.append_nil, List.append_nil]
        | cons d more =>
            obtain ⟨rfl, rfl⟩ := List.cons.inj hafter
            obtain ⟨body, rfl, rfl, hform, hbody⟩ := h.first hc
            exact ⟨[], c, cs, body, rfl, rfl, by simp, hform, hbody⟩

/-- Expanding the references gives what was escaped. -/
theorem expanded (cs : List Char) :
  expanded? none (cs.flatMap escape) = some cs
  := by
  induction cs with
  | nil => rfl
  | cons c cs ih =>
      rw [List.flatMap_cons]
      rcases h.forms c with ⟨hform, hplain⟩ | ⟨body, hform, hc, hend, -⟩
      · have hamp : c ≠ '&' := fun hc => hplain (hc ▸ h.marks.1)
        have hless : c ≠ '<' := fun hc => hplain (hc ▸ h.marks.2)
        rw [hform, List.singleton_append, expanded?]
        simp [hamp, hless, ih]
      · rw [hform, List.cons_append, List.append_assoc, List.singleton_append,
          Decoding.expanded?_reference hend hc, ih]
        rfl

/-- Different characters are escaped differently. -/
theorem injective :
  Function.Injective fun cs : List Char => cs.flatMap escape
  := by
  intro cs ds heq
  have hcs := h.expanded cs
  rw [show cs.flatMap escape = ds.flatMap escape from heq, h.expanded ds] at hcs
  exact (Option.some.inj hcs).symm

end IsEscape

/-! ### Decoding -/

theorem text?_escapeText (cs : List Char) :
  Decoding.text? (Writing.escapeText cs) = some cs
  := by
  have hlines := isEscape_textEscape.notMem (by decide : '\r' ∈ textSpecials) (by decide) cs
  rw [Decoding.text?, Writing.escapeText, (Text.unifyLines_eq_self_iff _).mpr hlines]
  exact isEscape_textEscape.expanded cs

theorem value?_escapeValue (cs : List Char) :
  Decoding.value? (Writing.escapeValue cs) = some cs
  := by
  have hlines := isEscape_valueEscape.notMem (by decide : '\r' ∈ valueSpecials) (by decide) cs
  have hblanks : ∀ c ∈ cs.flatMap Writing.valueEscape,
      (if Reading.isBlank c then ' ' else c) = c := by
    intro c hc
    split_ifs with hblank
    · simp only [Reading.isBlank, Bool.or_eq_true, decide_eq_true_eq] at hblank
      rcases hblank with ((rfl | rfl) | rfl) | rfl
      · rfl
      all_goals exact absurd hc (isEscape_valueEscape.notMem (by decide) (by decide) cs)
    · rfl
  rw [Decoding.value?, Writing.escapeValue, (Text.unifyLines_eq_self_iff _).mpr hlines,
    List.map_congr_left hblanks, List.map_id']
  exact isEscape_valueEscape.expanded cs

/-! ### Reading -/

namespace Document

variable {name : QName} (hname : isAsciiName name.localPart) (hspace : name.space = none)
  (hown : name.member = none)

/-- A root without a declaration around it is read from its markup. -/
theorem read_compact {attributes : Attributes} {children : List Node}
    (h : (rooted name attributes children).IsReadable) :
  readDocument (.text (String.ofList (Writing.compact none (.element name attributes children))))
    = .ok (rooted name attributes children).unified.normal
  := by
  obtain ⟨head, hhead⟩ := Writing.exists_head isStandard_standardLayout h.declaration
  have hnil : head = [] := by
    have hempty : Writing.documentText standardLayout false ⟨none, []⟩ = .ok [] := rfl
    have hwritten := hempty.symm.trans (hhead.written false [] rfl)
    rw [Except.ok.injEq, eq_comm, List.append_eq_nil_iff] at hwritten
    exact hwritten.1
  have hread := h.read hhead
  rwa [hnil, List.nil_append, Writing.compactList, Writing.compactList, List.append_nil] at hread

include hspace in
/-- A root in no namespace has none in front of its children. -/
theorem inSameSpace :
  { name with space := Writing.innerScope none name } = name
  := by
  obtain ⟨localPart, space, hne, member⟩ := name
  obtain rfl : space = none := hspace
  rfl

include hname hspace hown

/-- A value between quotes is read as the text that was escaped. -/
theorem read_value {key value : String} (hkey : isAsciiName key)
    (hdeclares : key ≠ "xmlns") (hvalue : isCharText value) :
  readDocument (.text (String.ofList ('<' :: name.localPart.toList ++ ' ' :: key.toList
      ++ "=\"".toList ++ Writing.escapeValue value.toList ++ "\" />".toList)))
    = .ok (rooted name [(key, value)] [])
  := by
  have hreadable : (rooted name [(key, value)] []).IsReadable := by
    refine ⟨rfl, ?_, [], _, [], rfl, rfl, by simp⟩
    simp [nodes, Node.nodesList, Node.nodes, Node.IsReadable, Node.isLegible, Node.isPlain,
      Node.IsSound, hname, hspace, hown, hkey, hvalue, Ne.symm hdeclares]
  have hmarkup : Writing.compact none (.element name [(key, value)] [])
      = '<' :: name.localPart.toList ++ ' ' :: key.toList
        ++ "=\"".toList ++ Writing.escapeValue value.toList ++ "\" />".toList := by
    simp [Writing.compact, Writing.tagAttributes, Writing.declared, Writing.attributesText,
      Writing.attributeText, hspace, nonempty?]
  have hnormal : (rooted name [(key, value)] []).unified.normal
      = rooted name [(key, value)] [] := by
    simp [unified, normal, Node.unifiedList, Node.unified, Node.normalList, Node.normal,
      Node.joinTexts, inSameSpace hspace]
  have hread := read_compact hreadable
  rwa [hmarkup, hnormal] at hread

/-- Character data in an element is read as the text that was escaped. -/
theorem read_text {value : String} (hne : value ≠ "") (hvalue : isCharText value) :
  readDocument (.text (String.ofList ('<' :: name.localPart.toList ++ '>'
      :: (Writing.escapeText value.toList ++ "</".toList ++ name.localPart.toList ++ ['>']))))
    = .ok (rooted name [] [.text value])
  := by
  have hreadable : (rooted name [] [.text value]).IsReadable := by
    refine ⟨rfl, ?_, [], _, [], rfl, rfl, by simp⟩
    simp [nodes, Node.nodesList, Node.nodes, Node.IsReadable, Node.isLegible, Node.isPlain,
      Node.IsSound, hname, hspace, hown, hne, hvalue]
  have hmarkup : Writing.compact none (.element name [] [.text value])
      = '<' :: name.localPart.toList ++ '>'
        :: (Writing.escapeText value.toList ++ "</".toList ++ name.localPart.toList ++ ['>']) := by
    simp [Writing.compact, Writing.compactList, Writing.tagAttributes, Writing.declared,
      Writing.attributesText, hspace, nonempty?, QName.printed_eq hown]
  have hnormal : (rooted name [] [.text value]).unified.normal = rooted name [] [.text value] := by
    simp [unified, normal, Node.unifiedList, Node.unified, Node.normalList, Node.normal,
      Node.joinTexts, inSameSpace hspace]
  have hread := read_compact hreadable
  rwa [hmarkup, hnormal] at hread

end Document

/-! ### Both together -/

/-- What it takes to undo the escaping of characters: nothing special is left but ampersands, each
of which begins the reference to a character that was escaped, and decoding gives the characters. -/
structure IsUndone (escape : List Char → List Char) (specials : List Char)
    (decode? : List Char → Option (List Char)) (cs : List Char) : Prop where
  /-- No special character but the ampersand is left. -/
  plain : ∀ d ∈ specials, d ≠ '&' → d ∉ escape cs
  /-- Each ampersand begins the reference to a character that was escaped. -/
  references : ∀ before after, escape cs = before ++ '&' :: after →
    ∃ p c q body, cs = p ++ c :: q ∧ before = escape p ∧ escape [c] = '&' :: (body ++ [';'])
      ∧ referent? body = some c ∧ after = body ++ ';' :: escape q
  /-- Decoding gives what was escaped. -/
  decoded : decode? (escape cs) = some cs

theorem IsEscape.isUndone {escape : Char → List Char} {specials : List Char}
    (h : IsEscape escape specials) {decode? : List Char → Option (List Char)} {cs : List Char}
    (hdecoded : decode? (cs.flatMap escape) = some cs) :
  IsUndone (fun cs => cs.flatMap escape) specials decode? cs
  where
  plain _ hd hamp := h.notMem hd hamp cs
  references before after heq := by
    obtain ⟨p, c, q, body, hcs, hp, hafter, hform, hc⟩ := h.references heq
    exact ⟨p, c, q, body, hcs, hp, by rw [List.flatMap_singleton, hform], hc, hafter⟩
  decoded := hdecoded

open Writing (escapeText escapeValue)

/-- Escaped text holds no bracket of markup and no carriage return, an escaped value holds no quote,
tab and line feed either, their ampersands are those of their own references, and decoding gives
what was escaped, so that different characters are escaped differently and no end of a CDATA section
is among them.  The reader of a value stops at the quote behind it, and what it finds in an
attribute and in an element is what was escaped. -/
theorem escapes_undone :
  Function.Injective escapeText ∧ Function.Injective escapeValue
    ∧ ∀ v : String,
      IsUndone escapeText textSpecials Decoding.text? v.toList
        ∧ IsUndone escapeValue valueSpecials Decoding.value? v.toList
        ∧ ¬ "]]>".toList <:+: escapeText v.toList ∧ ¬ "]]>".toList <:+: escapeValue v.toList
        ∧ (isCharText v →
          (∀ (m : Reading.Medium) (rest : List Char), m.alphabet.divides = false →
            m.valueBody '"' (escapeValue v.toList ++ '"' :: rest)
              = .ok (escapeValue v.toList, rest))
          ∧ ∀ name : QName, isAsciiName name.localPart → name.space = none → name.member = none →
            (∀ key, isAsciiName key → key ≠ "xmlns" →
              readDocument (.text (String.ofList ('<' :: name.localPart.toList ++ ' ' :: key.toList
                  ++ "=\"".toList ++ escapeValue v.toList ++ "\" />".toList)))
                = .ok (Document.rooted name [(key, v)] []))
            ∧ (v ≠ "" →
              readDocument (.text (String.ofList ('<' :: name.localPart.toList ++ '>'
                  :: (escapeText v.toList ++ "</".toList ++ name.localPart.toList ++ ['>']))))
                = .ok (Document.rooted name [] [.text v])))
  := by
  have hends {cs : List Char} (h : '>' ∉ cs) : ¬ "]]>".toList <:+: cs :=
    fun hpart => h (hpart.subset (by decide))
  refine ⟨isEscape_textEscape.injective, isEscape_valueEscape.injective, fun v => ?_⟩
  refine ⟨isEscape_textEscape.isUndone (text?_escapeText _),
    isEscape_valueEscape.isUndone (value?_escapeValue _),
    hends (isEscape_textEscape.notMem (by decide) (by decide) _),
    hends (isEscape_valueEscape.notMem (by decide) (by decide) _), fun hv => ⟨?_, ?_⟩⟩
  · exact fun m rest _ =>
      Reading.Medium.valueBody_escapeValue (Reading.Medium.isXmlChar_of_isCharText hv) rest
  · intro name hname hspace hown
    exact ⟨fun key hkey hdeclares => Document.read_value hname hspace hown hkey hdeclares hv,
      fun hne => Document.read_text hname hspace hown hne hv⟩

/-- A text that looks like a reference in front of both ends of lines, a tab, a quote and the end of
a CDATA section. -/
theorem escapes_undone_of_reference :
  let v := "&#13;\r\n\t\"]]>"
  let name : QName := ⟨"a", none, by decide, none⟩
  isCharText v
    ∧ readDocument (.text "<a>&amp;#13;&#xD;\n\t\"]]&gt;</a>")
      = .ok (Document.rooted name [] [.text v])
    ∧ readDocument (.text "<a b=\"&amp;#13;&#xD;&#xA;&#x9;&quot;]]&gt;\" />")
      = .ok (Document.rooted name [("b", v)] [])
  := by
  intro v name
  have hv : isCharText v := by decide
  obtain ⟨-, -, hall⟩ := escapes_undone
  obtain ⟨-, -, -, -, hread⟩ := hall v
  obtain ⟨hvalue, htext⟩ := (hread hv).2 name (by decide) rfl rfl
  have htextMarkup : "<a>&amp;#13;&#xD;\n\t\"]]&gt;</a>"
      = String.ofList ('<' :: name.localPart.toList ++ '>'
        :: (escapeText v.toList ++ "</".toList ++ name.localPart.toList ++ ['>'])) := by
    decide
  have hvalueMarkup : "<a b=\"&amp;#13;&#xD;&#xA;&#x9;&quot;]]&gt;\" />"
      = String.ofList ('<' :: name.localPart.toList ++ ' ' :: "b".toList
        ++ "=\"".toList ++ escapeValue v.toList ++ "\" />".toList) := by
    decide
  rw [htextMarkup, hvalueMarkup]
  exact ⟨hv, htext (by decide), hvalue "b" (by decide) (by decide)⟩

end XmlDraft
