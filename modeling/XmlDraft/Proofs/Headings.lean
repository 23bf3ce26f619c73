import XmlDraft.Proofs.NormalForm
import XmlDraft.Proofs.Scanning
import XmlDraft.Reading.Assembly

/-!
# Declarations that were written

A declaration is written with its version and its encoding, whether it sets them or not, and
with the word for standing alone if it has one.  Main statement: a legible declaration is read
with just these.
-/

namespace XmlDraft

namespace Writing

/-- The text of a declaration after its target. -/
def headingText (version encoding : String) (standalone : Option String) : List Char :=
  attributeText "version".toList version
    ++ (attributeText "encoding".toList encoding
      ++ (standalone.map (attributeText "standalone".toList)).getD [])

/-- The layout that a builder has by default, as far as declarations go. -/
structure IsStandard (layout : Layout) : Prop where
  version : layout.version = .str "1.0"
  encoding : layout.encoding = .str "utf-8"

/-- A field that holds a word is written as the word, and one that is not set or empty as the
word that stands for it. -/
theorem fieldOr_legible {p : String → Bool} {field : Option Field} {word : String}
    (h : field.all fun f => f.text?.any p) (hword : p word ∧ word ≠ "") :
  ∃ s, fieldOr field (.str word) = .ok s
    ∧ ((field.filter Field.counts).getD (.text word)).plain = .text s ∧ p s ∧ s ≠ ""
  := by
  cases field with
  | none => exact ⟨word, rfl, rfl, hword⟩
  | some f =>
      obtain ⟨s, htext, hs⟩ := Option.any_eq_true _ _ |>.mp h
      have hplain : f.plain = .text s := Field.plain_of_text? htext
      by_cases hempty : f.counts
      · refine ⟨s, ?_, ?_, hs, ?_⟩
        · simp [fieldOr, hempty, htext]
        · rw [Option.filter_some, if_pos hempty, Option.getD_some, hplain]
        · exact (Field.counts_iff htext).mp hempty
      · refine ⟨word, ?_, ?_, hword⟩
        · simp [fieldOr, hempty, Json.text?]
        · rw [Option.filter_some, if_neg hempty]
          rfl

/-- A legible declaration is written with the words that fill it. -/
theorem declarationText_legible {layout : Layout} (hlayout : IsStandard layout) {d : Declaration}
    (h : d.isLegible) :
  ∃ version encoding standalone,
    declarationText layout d
        = .ok ("<?xml".toList ++ headingText version encoding standalone ++ "?>".toList)
      ∧ d.filled = ⟨some (.text version), some (.text encoding), standalone.map .text⟩
      ∧ Declaration.isWord version ∧ version ≠ ""
      ∧ Declaration.isEncodingName encoding ∧ encoding ≠ ""
      ∧ ∀ word ∈ standalone, word = "yes" ∨ word = "no"
  := by
  simp only [Declaration.isLegible, Bool.and_eq_true] at h
  obtain ⟨⟨hversion, hencoding⟩, hstandalone⟩ := h
  have hone : Declaration.isWord "1.0" ∧ "1.0" ≠ "" := by decide
  have hutf : Declaration.isEncodingName "utf-8" ∧ "utf-8" ≠ "" := by decide
  obtain ⟨version, htext, hfilled, hword, hversionNe⟩ := fieldOr_legible hversion hone
  obtain ⟨encoding, htext', hfilled', hword', hne⟩ := fieldOr_legible hencoding hutf
  rw [← hlayout.version] at htext
  rw [← hlayout.encoding] at htext'
  have hwords : ∃ standalone : Option String, d.standalone.map Field.plain = standalone.map .text
      ∧ d.standalone.map Field.text? = standalone.map some
      ∧ ∀ word ∈ standalone, word = "yes" ∨ word = "no" := by
    cases hs : d.standalone with
    | none => exact ⟨none, rfl, rfl, by simp⟩
    | some f =>
        rw [hs] at hstandalone
        obtain ⟨word, htext, hword⟩ := Option.any_eq_true _ _ |>.mp hstandalone
        refine ⟨some word, ?_, ?_, by simpa using hword⟩
        · rw [Option.map_some, Field.plain_of_text? htext, Option.map_some]
        · rw [Option.map_some, htext, Option.map_some]
  obtain ⟨standalone, hplain, htexts, hwords⟩ := hwords
  refine ⟨version, encoding, standalone, ?_, ?_, hword, hversionNe, hword', hne, hwords⟩
  · unfold declarationText
    rw [htext, htext']
    cases standalone with
    | none =>
        rw [Option.map_none, Option.map_eq_none_iff] at htexts
        simp [bind, Except.bind, pure, Except.pure, headingText, htexts]
    | some word =>
        obtain ⟨f, hf, hword⟩ := Option.map_eq_some_iff.mp htexts
        simp [bind, Except.bind, pure, Except.pure, headingText, hf, hword]
  · unfold Declaration.filled Declaration.effectiveVersion Declaration.effectiveEncoding
    rw [hfilled, hfilled', hplain]

/-- A declaration of words is written with them. -/
theorem declarationText_words (layout : Layout) {version encoding : String}
    (hversion : version ≠ "") (hencoding : encoding ≠ "") (standalone : Option String) :
  declarationText layout ⟨some (.text version), some (.text encoding), standalone.map .text⟩
    = .ok ("<?xml".toList ++ headingText version encoding standalone ++ "?>".toList)
  := by
  have hfield (word : String) (hne : word ≠ "") (default' : Json) :
      fieldOr (some (.text word)) default' = .ok word := by
    simp [fieldOr, Field.counts, hne, Field.text?]
  unfold declarationText
  rw [hfield version hversion, hfield encoding hencoding]
  cases standalone with
  | none => simp [bind, Except.bind, pure, Except.pure, headingText]
  | some word => simp [bind, Except.bind, pure, Except.pure, headingText, Field.text?]

end Writing

namespace Reading

/-! ### Words -/

namespace HeadingPart

/-- The characters of words are written as they are and may stand anywhere in a declaration. -/
theorem isValueChar_cases {c : Char} (h : isValueChar c) :
  Writing.valueEscape c = [c] ∧ isXmlChar c ∧ isNameChar c ∧ c ≠ '?' ∧ c ≠ '\r'
  := by
  have hascii : c.toNat < 0x80 := by
    have hcases := h
    simp only [isValueChar, isAsciiLetter, Text.isDigit, Bool.or_eq_true, Bool.and_eq_true,
      decide_eq_true_eq, Char.le_def, UInt32.le_iff_toNat_le] at hcases
    rcases hcases with ((((⟨_, hz⟩ | ⟨_, hz⟩) | ⟨_, hz⟩) | rfl) | rfl) | rfl
    · exact Nat.lt_of_le_of_lt hz (by decide)
    · exact Nat.lt_of_le_of_lt hz (by decide)
    · exact Nat.lt_of_le_of_lt hz (by decide)
    · decide
    · decide
    · decide
  refine forall_ascii (P := fun c => isValueChar c → Writing.valueEscape c = [c] ∧ isXmlChar c
    ∧ isNameChar c ∧ c ≠ '?' ∧ c ≠ '\r') ?_ hascii h
  decide

/-- A word is written as it is. -/
theorem escapeValue_word {word : String} (h : Declaration.isWord word) :
  Writing.escapeValue word.toList = word.toList
  := by
  have hall : ∀ c ∈ word.toList, isValueChar c := by simpa [Declaration.isWord] using h
  generalize word.toList = cs at hall ⊢
  induction cs with
  | nil => rfl
  | cons c cs ih =>
      rw [List.forall_mem_cons] at hall
      have hrest := ih hall.2
      simp only [Writing.escapeValue, List.flatMap_cons] at hrest ⊢
      rw [hrest, (isValueChar_cases hall.1).1]
      rfl

/-- A part of a declaration that was written is found again. -/
theorem read_attributeText {name : List Char} (hname : ∀ c ∈ name, isValueChar c) (hne : name ≠ [])
    {word : String} (hword : Declaration.isWord word) (rest : List Char) :
  ∃ p, read (Writing.attributeText name word ++ rest) = .ok (some (p, rest))
    ∧ p.name = name ∧ p.value = word.toList
  := by
  have hwordChars : ∀ c ∈ word.toList, isValueChar c := by simpa [Declaration.isWord] using hword
  let inside := word.toList ++ '"' :: rest
  have hvalue : inside.takeWhile isValueChar = word.toList
      ∧ inside.dropWhile isValueChar = '"' :: rest :=
    run_append hwordChars (by decide : (!isValueChar '"') = true)
  cases name with
  | nil => exact absurd rfl hne
  | cons c cs =>
      let here := c :: cs ++ '=' :: '"' :: inside
      have hmarkup : Writing.attributeText (c :: cs) word ++ rest = ' ' :: here := by
        simp [Writing.attributeText, escapeValue_word hword, here, inside]
      have hnames (d : Char) (hd : d ∈ c :: cs) : isNameChar d :=
        (isValueChar_cases (hname d hd)).2.2.1
      have hrun : here.takeWhile isNameChar = c :: cs
          ∧ here.dropWhile isNameChar = '=' :: '"' :: inside :=
        run_append hnames (by decide : (!isNameChar '=') = true)
      have hblank : isBlank c = false := by
        have hc := hnames c List.mem_cons_self
        rw [isNameChar, Bool.and_eq_true, Bool.not_eq_true'] at hc
        exact hc.2
      have hhere : (' ' :: here).dropWhile isBlank = here := by
        rw [List.dropWhile_cons_of_pos (by decide)]
        exact List.dropWhile_cons_of_neg (by simp [hblank])
      have hread : readValue (c :: cs) here ('"' :: inside)
          = .ok (⟨c :: cs, here, word.toList, inside⟩, rest) := by
        simp [readValue, isBlank, hvalue]
      have hcons : here ≠ [] := List.cons_ne_nil _ _
      refine ⟨⟨c :: cs, here, word.toList, inside⟩, ?_, rfl, rfl⟩
      have hspace : isBlank ' ' = true := by decide
      have hequals : ('=' :: '"' :: inside).dropWhile isBlank = '=' :: '"' :: inside :=
        List.dropWhile_cons_of_neg (by decide)
      rw [hmarkup]
      unfold read
      clear_value here
      simp only [hspace, Bool.not_true, Bool.false_eq_true, ite_false, hhere, hrun, hequals, hread,
        List.cons_ne_nil]
      rfl

end HeadingPart

/-! ### Declarations -/

namespace Heading

theorem isWord_of_isEncodingName {s : String} (h : Declaration.isEncodingName s) :
  Declaration.isWord s
  := by
  rw [Declaration.isEncodingName, Bool.and_eq_true] at h
  exact h.1

/-- The word for standing alone is read as what it says. -/
theorem closeStandalone_word (h : Heading) {p : HeadingPart} {word : String}
    (hname : p.name = "standalone".toList) (hvalue : p.value = word.toList)
    (hword : word = "yes" ∨ word = "no") :
  h.closeStandalone p [] = .ok { h with standalone := some (word = "yes") }
  := by
  rcases hword with rfl | rfl <;> simp [closeStandalone, hname, hvalue]

/-- The part for standing alone is read where there is one. -/
theorem afterEncoding_word (h : Heading) {standalone : Option String}
    (hwords : ∀ word ∈ standalone, word = "yes" ∨ word = "no") (hnone : h.standalone = none) :
  h.afterEncoding ((standalone.map (Writing.attributeText "standalone".toList)).getD [])
    = .ok { h with standalone := standalone.map (· = "yes") }
  := by
  cases standalone with
  | none =>
      simp only [Option.map_none, Option.getD_none, afterEncoding, HeadingPart.read, bind,
        Except.bind]
      rw [← hnone]
  | some word =>
      have hword := hwords word rfl
      have hplain : Declaration.isWord word := by
        rcases hword with rfl | rfl <;> decide
      have hchars : ∀ c ∈ "standalone".toList, HeadingPart.isValueChar c :=
    List.all_iff_forall_prop.mp (by decide)
      obtain ⟨p, hread, hname, hvalue⟩ :=
        HeadingPart.read_attributeText hchars (by decide) hplain []
      rw [List.append_nil] at hread
      simp only [Option.map_some, Option.getD_some, afterEncoding, hread, bind, Except.bind]
      exact h.closeStandalone_word hname hvalue hword

/-- The text of a declaration is read with the words that it was written with. -/
theorem ofText_headingText {version encoding : String} {standalone : Option String}
    (hversion : Declaration.isWord version) (hencoding : Declaration.isEncodingName encoding)
    (hne : encoding ≠ "") (hwords : ∀ word ∈ standalone, word = "yes" ∨ word = "no") :
  ∃ here, ofText (Writing.headingText version encoding standalone)
    = .ok ⟨version.toList, some (encoding.toList, here), standalone.map (· = "yes")⟩
  := by
  have hversionName : ∀ c ∈ "version".toList, HeadingPart.isValueChar c :=
    List.all_iff_forall_prop.mp (by decide)
  have hencodingName : ∀ c ∈ "encoding".toList, HeadingPart.isValueChar c :=
    List.all_iff_forall_prop.mp (by decide)
  have hlast (h : Heading) (hnone : h.standalone = none) := h.afterEncoding_word hwords hnone
  unfold Writing.headingText
  generalize (standalone.map (Writing.attributeText "standalone".toList)).getD [] = last at hlast ⊢
  obtain ⟨p, hread, hname, hvalue⟩ := HeadingPart.read_attributeText hversionName (by decide)
    hversion (Writing.attributeText "encoding".toList encoding ++ last)
  obtain ⟨q, hread', hname', hvalue'⟩ := HeadingPart.read_attributeText hencodingName (by decide)
    (isWord_of_isEncodingName hencoding) last
  have hletter : encoding.toList.head?.any isAsciiLetter := by
    rw [Declaration.isEncodingName, Bool.and_eq_true] at hencoding
    cases hs : encoding.toList with
    | nil => exact absurd (String.toList_eq_nil_iff.mp hs) hne
    | cons c cs =>
        rw [hs] at hencoding
        simpa using hencoding.2
  refine ⟨q.inside, ?_⟩
  simp only [ofText, hread, bind, Except.bind, hname, ite_true, afterVersion, hread', hname',
    hletter, hvalue, hvalue']
  rw [hlast _ rfl]

end Heading

/-! ### Scanning -/

/-- What a declaration is written with may stand in an instruction. -/
theorem attributeText_chars {name : List Char} (hname : ∀ c ∈ name, HeadingPart.isValueChar c)
    {word : String} (hword : Declaration.isWord word) :
  ∀ c ∈ Writing.attributeText name word, isXmlChar c ∧ c ≠ '?' ∧ c ≠ '\r'
  := by
  have hplain (c : Char) (hc : HeadingPart.isValueChar c) :
      isXmlChar c ∧ c ≠ '?' ∧ c ≠ '\r' := by
    obtain ⟨_, hchar, _, hother⟩ := HeadingPart.isValueChar_cases hc
    exact ⟨hchar, hother⟩
  have hmarks : ∀ c ∈ [' ', '=', '"'], isXmlChar c ∧ c ≠ '?' ∧ c ≠ '\r' :=
    List.all_iff_forall_prop.mp (by decide)
  have hwordChars : ∀ c ∈ word.toList, HeadingPart.isValueChar c := by
    simpa [Declaration.isWord] using hword
  intro c hc
  simp only [Writing.attributeText, HeadingPart.escapeValue_word hword, List.cons_append,
    List.mem_cons, List.mem_append, List.append_assoc, List.not_mem_nil, or_false] at hc
  rcases hc with rfl | hc | rfl | rfl | hc | rfl
  · exact hmarks _ (by simp)
  · exact hplain c (hname c hc)
  · exact hmarks _ (by simp)
  · exact hmarks _ (by simp)
  · exact hplain c (hwordChars c hc)
  · exact hmarks _ (by simp)

namespace Medium

variable {m : Medium}

/-- The text of an instruction ends at its end. -/
theorem instructionBody_append {cs : List Char} (h : ∀ c ∈ cs, isXmlChar c)
    (hend : ¬ ['?', '>'] <:+: cs) (rest : List Char) :
  m.instructionBody (cs ++ '?' :: '>' :: rest) = .ok (cs, rest)
  := by
  induction cs with
  | nil => simp [instructionBody]
  | cons c cs ih =>
      rw [List.forall_mem_cons] at h
      rw [List.infix_cons_iff, not_or] at hend
      have hrest := ih h.2 hend.2
      by_cases hc : c = '?'
      · subst hc
        have hnext : ∀ more, cs ++ '?' :: '>' :: rest ≠ '>' :: more := by
          intro more hmore
          cases cs with
          | nil => exact absurd (List.head_eq_of_cons_eq hmore) (by decide)
          | cons d ds =>
              apply hend.1
              rw [List.head_eq_of_cons_eq hmore]
              exact ⟨ds, rfl⟩
        rw [List.cons_append, instructionBody, hrest]
        · rfl
        · exact hnext
      · rw [List.cons_append, instructionBody, if_pos h.1, hrest]
        · rfl
        · exact hc

end Medium

theorem headingText_chars {version encoding : String} {standalone : Option String}
    (hversion : Declaration.isWord version) (hencoding : Declaration.isEncodingName encoding)
    (hwords : ∀ word ∈ standalone, word = "yes" ∨ word = "no") :
  ∀ c ∈ Writing.headingText version encoding standalone, isXmlChar c ∧ c ≠ '?' ∧ c ≠ '\r'
  := by
  have hencoding' := Heading.isWord_of_isEncodingName hencoding
  intro c hc
  simp only [Writing.headingText, List.mem_append] at hc
  rcases hc with hc | hc | hc
  · exact attributeText_chars (List.all_iff_forall_prop.mp (by decide)) hversion c hc
  · exact attributeText_chars (List.all_iff_forall_prop.mp (by decide)) hencoding' c hc
  · cases standalone with
    | none => cases hc
    | some word =>
        have hword : Declaration.isWord word := by
          rcases hwords word rfl with rfl | rfl <;> decide
        exact attributeText_chars (List.all_iff_forall_prop.mp (by decide)) hword c hc

/-- The declaration at the head of a text is found. -/
theorem Medium.token_heading {m : Medium} {version encoding : String}
    {standalone : Option String}
    (hversion : Declaration.isWord version) (hencoding : Declaration.isEncodingName encoding)
    (hwords : ∀ word ∈ standalone, word = "yes" ∨ word = "no") (rest : List Char) :
  m.token '<' ('?' :: ("xml".toList ++ (Writing.headingText version encoding standalone
      ++ '?' :: '>' :: rest)))
    = .ok (.declaration (Writing.headingText version encoding standalone), rest)
  := by
  have hchars := headingText_chars hversion hencoding hwords
  have hblank : isBlank '<' = false := by decide
  have hxml : "xml".toList = ['x', 'm', 'l'] := by decide
  obtain ⟨more, hmore⟩ : ∃ more, Writing.headingText version encoding standalone = ' ' :: more :=
    ⟨_, rfl⟩
  have hname : IsPlainName m.alphabet ['x', 'm', 'l'] :=
    isPlainName_letters _ (by decide) (List.all_iff_forall_prop.mp (by decide))
  have htarget := plainName_append hname (m.alphabet.isInner_mark (c := ' ') (by decide))
    (more ++ '?' :: '>' :: rest)
  have hbody := instructionBody_append (m := m) (fun c hc => (hchars c hc).1)
    (fun hend => (hchars '?' (hend.subset List.mem_cons_self)).2.1 rfl) rest
  have hreserved : isReserved ['x', 'm', 'l'] = true := by decide
  rw [hmore, List.cons_append] at hbody ⊢
  rw [hxml]
  unfold token markupToken
  simp only [hblank, Bool.false_eq_true, ite_false, instruction, htarget, hbody, bind, Except.bind,
    Except.map, hreserved]
  rfl

end Reading

end XmlDraft
