import XmlDraft.Proofs.Legible
import XmlDraft.Reading.Entity
import XmlDraft.Writing.Render
import Mathlib.Data.Bool.AllAny
import Mathlib.Tactic.SplitIfs

/-!
# Scanning what was written

Every piece of markup that is written is found again by the scanner for it, together with the
characters that follow: names, references, values of attributes, tags, comments and the
openings of CDATA sections.  Main statement: so it is for the tags of legible elements.
-/

namespace XmlDraft

namespace Reading

/-! ### Runs of characters -/

/-- Characters are a run of one kind and others that do not go on with it. -/
theorem exists_run (p : Char → Bool) (cs : List Char) :
  ∃ run others, cs = run ++ others ∧ (∀ c ∈ run, p c) ∧ others.head?.all fun c => !p c
  := by
  induction cs with
  | nil => exact ⟨[], [], rfl, by simp, rfl⟩
  | cons c cs ih =>
      obtain ⟨run, others, rfl, hrun, hstop⟩ := ih
      cases hc : p c with
      | true => exact ⟨c :: run, others, rfl, List.forall_mem_cons.mpr ⟨hc, hrun⟩, hstop⟩
      | false => exact ⟨[], c :: (run ++ others), rfl, by simp, by simp [hc]⟩

/-- A run is taken as a whole and nothing more. -/
theorem run_append {p : Char → Bool} {run rest : List Char} (hrun : ∀ c ∈ run, p c)
    (hstop : rest.head?.all fun c => !p c) :
  (run ++ rest).takeWhile p = run ∧ (run ++ rest).dropWhile p = rest
  := by
  have hrest : rest.takeWhile p = [] ∧ rest.dropWhile p = rest := by
    cases rest with
    | nil => simp
    | cons c cs =>
        have hc : p c = false := by simpa using hstop
        simp [hc]
  rw [List.takeWhile_append_of_pos hrun, List.dropWhile_append_of_pos hrun, hrest.1, hrest.2,
    List.append_nil]
  exact ⟨rfl, rfl⟩

/-- What holds for every number below 128 holds for every character of ASCII. -/
theorem forall_ascii {P : Char → Prop} (h : ∀ n < 0x80, P (Char.ofNat n)) {c : Char}
    (hc : c.toNat < 0x80) :
  P c
  := by
  have hone := h c.toNat hc
  rwa [Char.ofNat_toNat] at hone

/-! ### Media -/

/-- A medium of sources in which colons do not divide names, which follow the fourth edition. -/
structure Medium.IsUsual (m : Medium) : Prop where
  divides : m.alphabet.divides = false
  isFifth : m.alphabet.isFifth = false
  known : 0x80 ≤ m.alphabet.known
  unifies : m.unifies

/-- A usual medium of sources that end with a whole character, each character of which takes a unit
at least. -/
structure Medium.IsIntact (m : Medium) : Prop extends m.IsUsual where
  ending : m.ending = .clean
  spare : m.spare = 0
  unit : ∀ c, m.unit ≤ m.width c

/-- A medium of sources that end with a whole character, each character of which takes a unit at
least, and in which ends of lines are unified, whatever names it has. -/
structure Medium.IsSettled (m : Medium) : Prop where
  unifies : m.unifies
  ending : m.ending = .clean
  spare : m.spare = 0
  unit : ∀ c, m.unit ≤ m.width c

theorem Medium.IsIntact.isSettled {m : Medium} (hm : m.IsIntact) :
  m.IsSettled
  := ⟨hm.unifies, hm.ending, hm.spare, hm.unit⟩

theorem utf8Width_pos (c : Char) :
  1 ≤ utf8Width c
  := by
  unfold utf8Width
  split_ifs <;> decide

theorem Medium.isIntact_plain :
  ({} : Medium).IsIntact
  := ⟨⟨rfl, rfl, Nat.le_refl _, rfl⟩, rfl, rfl, utf8Width_pos⟩

/-- Where a source ends with a whole character nothing changes if it is cut out as a whole. -/
theorem Medium.IsIntact.enclosed_eq {m : Medium} (hm : m.IsIntact) :
  m.enclosed = m
  := by
  rw [enclosed, ← hm.ending, ← hm.spare]

/-! ### Names -/

namespace Alphabet

variable {a : Alphabet} {c : Char}

theorem isStart_eq (a : Alphabet) (hc : c.toNat < 0x80) :
  a.isStart c = (isAsciiLetter c || c = '_' || (c = ':' && !a.divides))
  := by
  simp [isStart, hc]

theorem isInner_eq (a : Alphabet) (hc : c.toNat < 0x80) :
  a.isInner c = (isAsciiLetter c || c = '_' || (c = ':' && !a.divides) || ('0' ≤ c && c ≤ '9')
    || c = '-' || c = '.')
  := by
  have hbeyond : ¬ 0x80 ≤ c.toNat := Nat.not_le.mpr hc
  rw [isInner, isStart_eq a hc]
  simp [hbeyond]

theorem isStart_ascii (ha : a.divides = false) (hc : c.toNat < 0x80) :
  a.isStart c = (isAsciiLetter c || c = '_' || c = ':')
  := by
  rw [isStart_eq a hc, ha, Bool.not_false, Bool.and_true]

theorem isInner_ascii (ha : a.divides = false) (hc : c.toNat < 0x80) :
  a.isInner c
    = (isAsciiLetter c || c = '_' || c = ':' || ('0' ≤ c && c ≤ '9') || c = '-' || c = '.')
  := by
  rw [isInner_eq a hc, ha, Bool.not_false, Bool.and_true]

/-- Within ASCII a reader has the names of the grammar, apart from colons where it divides names. -/
theorem names_ascii (hcolon : a.divides → c ≠ ':') (hc : c.toNat < 0x80) :
  a.isStart c = Name.isStart c ∧ a.isInner c = Name.isInner c
  := by
  have hdivides : (c = ':' && !a.divides : Bool) = (c = ':' : Bool) := by
    cases h : a.divides with
    | false => simp
    | true => simp [hcolon h]
  rw [isStart_eq a hc, isInner_eq a hc, hdivides]
  refine forall_ascii (P := fun c =>
    (isAsciiLetter c || c = '_' || c = ':' : Bool) = Name.isStart c
      ∧ (isAsciiLetter c || c = '_' || c = ':' || ('0' ≤ c && c ≤ '9') || c = '-' || c = '.' : Bool)
        = Name.isInner c) ?_ hc
  decide

/-- Where all characters beyond ASCII are taken for beginnings of elements, what begins a name
begins one. -/
theorem opensElement_of_known (hknown : a.known ≤ 0x80) (h : a.isStart c) :
  a.opensElement c
  := by
  unfold opensElement
  split_ifs
  · exact h
  · simp [hknown]

/-- In the fourth edition names consist of characters of documents. -/
theorem isXmlChar_of_isInner (ha : a.divides = false) (hfifth : a.isFifth = false)
    (h : a.isInner c) :
  isXmlChar c
  := by
  by_cases hc : c.toNat < 0x80
  · rw [isInner_ascii ha hc] at h
    exact forall_ascii (P := fun c => (isAsciiLetter c || c = '_' || c = ':'
      || ('0' ≤ c && c ≤ '9') || c = '-' || c = '.' : Bool) → isXmlChar c) (by decide) hc h
  · have hletters : letterRanges.all fun r => r.2 < 0xFFFE := by decide
    have hfollowing : followingRanges.all fun r => r.2 < 0xFFFE := by decide
    have hbeyond {ranges : List (Nat × Nat)} (hranges : ranges.all fun r => r.2 < 0xFFFE)
        (hin : Text.inRanges ranges c.toNat) : c.toNat < 0xFFFE := by
      obtain ⟨r, hr, -, hwithin⟩ := Text.inRanges_iff.mp hin
      have hlast := of_decide_eq_true (List.all_eq_true.mp hranges r hr)
      omega
    have hlast : c.toNat < 0xFFFE := by
      simp only [isInner, isStart, if_neg hc, hfifth, Bool.false_eq_true, ite_false,
        Bool.or_eq_true, Bool.and_eq_true, decide_eq_true_eq] at h
      rcases h with (((hstart | hdigit) | rfl) | rfl) | ⟨_, hin⟩
      · split_ifs at hstart with hsign
        · omega
        · exact hbeyond hletters hstart
      · exact absurd (Nat.lt_of_le_of_lt hdigit.2 (by decide)) hc
      · decide
      · decide
      · exact hbeyond hfollowing hin
    rw [isXmlChar, if_neg (by omega)]
    simp only [Bool.and_eq_true, decide_eq_true_eq]
    omega

/-- What begins a name of the fourth edition seems to begin an element, however many of the
characters are told apart. -/
theorem opensElement_of_isStart (ha : a.divides = false) (hfifth : a.isFifth = false)
    (h : a.isStart c) :
  a.opensElement c
  := by
  have hinner : a.isInner c := by simp [isInner, h]
  unfold opensElement
  split_ifs
  · exact h
  · rw [isXmlChar_of_isInner ha hfifth hinner, Bool.or_true]

/-- The characters that stand around names in markup. -/
def marks : List Char :=
  [' ', '\t', '\n', '\r', '<', '>', '/', '=', ';', '#', '%', '"', '\'', '?', '*', '+', ',', '|', '(',
    ')', '[', ']']

/-- What stands around a name in markup does not go on with it. -/
theorem isInner_mark (a : Alphabet) (hc : c ∈ marks) :
  a.isInner c = false
  := by
  have hall : ∀ d ∈ marks, d.toNat < 0x80 ∧ d ≠ ':'
      ∧ (isAsciiLetter d || d = '_' || ('0' ≤ d && d ≤ '9') || d = '-' || d = '.') = false :=
    List.all_iff_forall_prop.mp (by decide)
  obtain ⟨hascii, hcolon, hmark⟩ := hall c hc
  simpa [isInner_eq a hascii, hcolon] using hmark

end Alphabet

/-- The characters of a name as a reader sees them. -/
structure IsPlainName (a : Alphabet) (name : List Char) : Prop where
  start : name.head?.any a.isStart
  inner : ∀ c ∈ name, a.isInner c

/-- A name of ASCII characters is one of any alphabet that does not divide it. -/
theorem isPlainName_of_asciiName {a : Alphabet} {s : String} (hcolon : a.divides → ':' ∉ s.toList)
    (h : isAsciiName s) :
  IsPlainName a s.toList
  := by
  simp only [isAsciiName, Bool.and_eq_true, List.all_eq_true, decide_eq_true_eq] at h
  obtain ⟨hname, hascii⟩ := h
  have hdivides (c : Char) (hc : c ∈ s.toList) (h : a.divides) : c ≠ ':' :=
    fun heq => hcolon h (heq ▸ hc)
  have hinner (c : Char) (hc : c ∈ s.toList) : a.isInner c := by
    rw [(Alphabet.names_ascii (hdivides c hc) (hascii c hc)).2]
    exact Name.isInner_of_mem hname hc
  refine ⟨?_, hinner⟩
  unfold Name.isName at hname
  split at hname
  · cases hname
  · rename_i c cs hs
    have hmem : c ∈ s.toList := hs ▸ List.mem_cons_self
    rw [Bool.and_eq_true] at hname
    rw [hs]
    simpa [(Alphabet.names_ascii (hdivides c hmem) (hascii c hmem)).1] using hname.1

/-- What no name begins with: the marks behind an opening bracket, and the character zero. -/
def nonNames : List Char :=
  ['!', '?', '/', '\x00']

/-- A name begins with a character that may begin one, which is none of those marks. -/
theorem exists_start {a : Alphabet} {name : List Char} (h : IsPlainName a name) :
  ∃ c cs, name = c :: cs ∧ a.isStart c ∧ c ∉ nonNames
  := by
  cases name with
  | nil => cases h.start
  | cons c cs =>
      have hstart : a.isStart c := by simpa using h.start
      refine ⟨c, cs, rfl, hstart, ?_⟩
      intro hmem
      have hall : ∀ d ∈ nonNames, d.toNat < 0x80 ∧ d ≠ ':'
          ∧ (isAsciiLetter d || d = '_') = false := List.all_iff_forall_prop.mp (by decide)
      obtain ⟨hascii, hcolon, hmark⟩ := hall c hmem
      have hnone : a.isStart c = false := by
        simpa [Alphabet.isStart_eq a hascii, hcolon] using hmark
      rw [hnone] at hstart
      cases hstart

namespace Medium

variable {m : Medium} {name : List Char} {d : Char}

theorem innerName_append {cs : List Char} (h : ∀ c ∈ cs, m.alphabet.isInner c)
    (hd : m.alphabet.isInner d = false) (rest : List Char) :
  m.innerName (cs ++ d :: rest) = .ok (cs, d :: rest)
  := by
  induction cs with
  | nil => simp [innerName, hd]
  | cons c cs ih =>
      rw [List.forall_mem_cons] at h
      rw [List.cons_append, innerName, if_pos h.1, ih h.2]
      rfl

theorem plainName_append (h : IsPlainName m.alphabet name) (hd : m.alphabet.isInner d = false)
    (rest : List Char) :
  m.plainName (name ++ d :: rest) = .ok (name, d :: rest)
  := by
  cases name with
  | nil => cases h.start
  | cons c cs =>
      have hstart : m.alphabet.isStart c := by simpa using h.start
      have hinner := (List.forall_mem_cons.mp h.inner).2
      simp only [plainName, nameStart, List.cons_append, hstart, ite_true, bind, Except.bind,
        innerName_append hinner hd]

theorem qualifiedName_append (h : IsPlainName m.alphabet name)
    (hd : m.alphabet.isInner d = false) (hcolon : d ≠ ':') (rest : List Char) :
  m.qualifiedName (name ++ d :: rest) = .ok (name, d :: rest)
  := by
  simp only [qualifiedName, plainName_append h hd, bind, Except.bind]
  split
  · rename_i heq
    exact absurd (List.head_eq_of_cons_eq heq) hcolon
  · rfl

theorem endNameRest_append {cs : List Char} (h : ∀ c ∈ cs, m.alphabet.isInner c)
    (hd : m.alphabet.isInner d = false) (hcolon : d ≠ ':') (rest : List Char) :
  m.endNameRest (cs ++ d :: rest) = .ok (cs, d :: rest)
  := by
  induction cs with
  | nil => simp [endNameRest, hd, hcolon]
  | cons c cs ih =>
      rw [List.forall_mem_cons] at h
      simp only [List.cons_append, endNameRest, h.1, Bool.true_or, ite_true, ih h.2]
      rfl

end Medium

/-! ### References -/

/-- What a reference stands for when it stands for a character. -/
def Reference.standsFor (r : Reference) (c : Char) : Prop :=
  r = .numbered (some c) ∨ ∃ name, r = .named name ∧ predefined? name = some c

/-- The text behind an ampersand that makes a reference to a character, wherever it stands. -/
structure IsReferenceTo (c : Char) (body : List Char) : Prop where
  plain : ∀ d ∈ body, isXmlChar d ∧ d ≠ '"' ∧ d ≠ '<' ∧ d ≠ '&'
  found : ∀ (m : Medium) (rest : List Char),
    ∃ r, m.reference (body ++ rest) = .ok (r, rest) ∧ r.standsFor c

theorem isPlainName_letters (a : Alphabet) {name : List Char} (hne : name ≠ [])
    (h : ∀ c ∈ name, isAsciiLetter c ∧ c.toNat < 0x80) :
  IsPlainName a name
  where
    start := by
      cases name with
      | nil => exact absurd rfl hne
      | cons c cs =>
          obtain ⟨hletter, hascii⟩ := h c List.mem_cons_self
          simp [Alphabet.isStart_eq a hascii, hletter]
    inner c hc := by
      obtain ⟨hletter, hascii⟩ := h c hc
      simp [Alphabet.isInner_eq a hascii, hletter]

theorem Medium.reference_named {m : Medium} {name : List Char} (h : IsPlainName m.alphabet name)
    (rest : List Char) :
  m.reference (name ++ ';' :: rest) = .ok (.named name, rest)
  := by
  have hsign : ∀ more, name ++ ';' :: rest ≠ '#' :: more := by
    intro more hmore
    cases name with
    | nil => cases h.start
    | cons c cs =>
        have hmark := m.alphabet.isInner_mark (c := '#') (by decide)
        rw [← List.head_eq_of_cons_eq hmore] at hmark
        exact Bool.false_ne_true (hmark.symm.trans (h.inner c List.mem_cons_self))
  unfold reference
  split
  · rename_i heq
    exact absurd heq (hsign _)
  · rename_i heq
    exact absurd heq (hsign _)
  · rw [plainName_append h (m.alphabet.isInner_mark (by decide))]
    rfl

/-- A name that every document knows makes a reference to its character. -/
theorem isReferenceTo_predefined (name : List Char) {c : Char} (h : predefined? name = some c) :
  IsReferenceTo c (name ++ [';'])
  := by
  have hname : name ∈ ["lt", "gt", "amp", "quot", "apos"].map String.toList := by
    unfold predefined? at h
    split_ifs at h with hlt hgt hamp hquot hapos
    · exact hlt ▸ by decide
    · exact hgt ▸ by decide
    · exact hamp ▸ by decide
    · exact hquot ▸ by decide
    · exact hapos ▸ by decide
  have hall : ∀ word ∈ ["lt", "gt", "amp", "quot", "apos"].map String.toList,
      word ≠ [] ∧ (word.all fun d => isAsciiLetter d ∧ d.toNat < 0x80)
        ∧ (word ++ [';']).all fun d => isXmlChar d ∧ d ≠ '"' ∧ d ≠ '<' ∧ d ≠ '&' :=
    List.all_iff_forall_prop.mp (by decide)
  obtain ⟨hne, hletters, hplain⟩ := hall name hname
  refine ⟨List.all_iff_forall_prop.mp hplain, ?_⟩
  intro m rest
  have hp := isPlainName_letters m.alphabet hne (List.all_iff_forall_prop.mp hletters)
  rw [List.append_assoc, List.singleton_append]
  exact ⟨.named name, Medium.reference_named hp rest, .inr ⟨name, rfl, h⟩⟩

/-- A character of character data is written as it is, or as a reference to it. -/
theorem textEscape_cases (c : Char) :
  (Writing.textEscape c = [c] ∧ c ≠ '&' ∧ c ≠ '<' ∧ c ≠ '>' ∧ c ≠ '\r')
    ∨ ∃ body, Writing.textEscape c = '&' :: body ∧ IsReferenceTo c body
  := by
  unfold Writing.textEscape
  split_ifs with hamp hless hgreater hreturn
  · subst hamp
    exact .inr ⟨_, rfl, isReferenceTo_predefined "amp".toList rfl⟩
  · subst hless
    exact .inr ⟨_, rfl, isReferenceTo_predefined "lt".toList rfl⟩
  · subst hgreater
    exact .inr ⟨_, rfl, isReferenceTo_predefined "gt".toList rfl⟩
  · subst hreturn
    exact .inr ⟨"#xD;".toList, rfl, List.all_iff_forall_prop.mp (by decide),
      fun m rest => ⟨.numbered (some '\r'), rfl, .inl rfl⟩⟩
  · exact .inl ⟨rfl, hamp, hless, hgreater, hreturn⟩

/-- A character of a value is written as it is, or as a reference to it. -/
theorem valueEscape_cases (c : Char) :
  (Writing.valueEscape c = [c] ∧ c ≠ '&' ∧ c ≠ '<' ∧ c ≠ '"'
      ∧ c ≠ '\t' ∧ c ≠ '\n' ∧ c ≠ '\r')
    ∨ ∃ body, Writing.valueEscape c = '&' :: body ∧ IsReferenceTo c body
  := by
  unfold Writing.valueEscape
  split_ifs with hquote htab hfeed
  · subst hquote
    exact .inr ⟨_, rfl, isReferenceTo_predefined "quot".toList rfl⟩
  · subst htab
    exact .inr ⟨"#x9;".toList, rfl, List.all_iff_forall_prop.mp (by decide),
      fun m rest => ⟨.numbered (some '\t'), rfl, .inl rfl⟩⟩
  · subst hfeed
    exact .inr ⟨"#xA;".toList, rfl, List.all_iff_forall_prop.mp (by decide),
      fun m rest => ⟨.numbered (some '\n'), rfl, .inl rfl⟩⟩
  · rcases textEscape_cases c with ⟨heq, hamp, hless, _, hreturn⟩ | h
    · exact .inl ⟨heq, hamp, hless, hquote, htab, hfeed, hreturn⟩
    · exact .inr h

/-! ### Values -/

namespace Medium

variable {m : Medium}

theorem valueBody_plain {cs : List Char}
    (h : ∀ d ∈ cs, isXmlChar d ∧ d ≠ '"' ∧ d ≠ '<' ∧ d ≠ '&') (more : List Char)
    {value rest : List Char} (hmore : m.valueBody '"' more = .ok (value, rest)) :
  m.valueBody '"' (cs ++ more) = .ok (cs ++ value, rest)
  := by
  induction cs with
  | nil => exact hmore
  | cons c cs ih =>
      rw [List.forall_mem_cons] at h
      obtain ⟨⟨hchar, hquote, hless, hamp⟩, hcs⟩ := h
      simp [valueBody, hchar, hquote, hless, hamp, ih hcs, bind, Except.bind]

/-- The scanner of a value stops at the quote behind it. -/
theorem valueBody_escapeValue {cs : List Char} (h : ∀ c ∈ cs, isXmlChar c) (rest : List Char) :
  m.valueBody '"' (Writing.escapeValue cs ++ '"' :: rest) = .ok (Writing.escapeValue cs, rest)
  := by
  induction cs with
  | nil => simp [Writing.escapeValue, valueBody]
  | cons c cs ih =>
      rw [List.forall_mem_cons] at h
      have hrest := ih h.2
      simp only [Writing.escapeValue, List.flatMap_cons] at hrest ⊢
      rw [List.append_assoc]
      rcases valueEscape_cases c with ⟨heq, hamp, hless, hquote, _⟩ | ⟨body, heq, href⟩
      · rw [heq]
        apply valueBody_plain _ _ hrest
        simpa using ⟨h.1, hquote, hless, hamp⟩
      · obtain ⟨r, hr, _⟩ := href.found m (cs.flatMap Writing.valueEscape ++ '"' :: rest)
        have hbody := valueBody_plain href.plain _ hrest
        have hamp : isXmlChar '&' := by decide
        rw [heq, List.cons_append, valueBody]
        simp [hamp, hr, hbody, bind, Except.bind]

/-! ### Tags -/

/-- Attributes that can be written in a tag and read from it. -/
def AreReadable (m : Medium) (attributes : Attributes) : Prop :=
  ∀ a ∈ attributes, IsPlainName m.alphabet a.1.toList ∧ ∀ c ∈ a.2.toList, isXmlChar c

/-- What a tag holds of attributes: their names and their escaped values. -/
def rawParts (attributes : Attributes) : List (List Char × List Char) :=
  attributes.map fun a => (a.1.toList, Writing.escapeValue a.2.toList)

theorem isXmlChar_of_isCharText {s : String} (h : isCharText s) :
  ∀ c ∈ s.toList, isXmlChar c
  := by
  intro c hc
  rw [isXmlChar_eq_isChar]
  exact List.all_eq_true.mp h c hc

theorem equalsQuote_quote (rest : List Char) :
  m.equalsQuote ('=' :: '"' :: rest) = .ok ('"', rest)
  := by
  simp [equalsQuote, isBlank]

theorem tagAttribute_append {name value : String}
    (hname : IsPlainName m.alphabet name.toList) (hvalue : ∀ c ∈ value.toList, isXmlChar c)
    (rest : List Char) :
  ∃ a, m.tagAttribute
        (name.toList ++ '=' :: '"' :: (Writing.escapeValue value.toList ++ '"' :: rest))
      = .ok (a, rest)
    ∧ (a.name, a.value) = (name.toList, Writing.escapeValue value.toList)
  := by
  have hq := qualifiedName_append hname (m.alphabet.isInner_mark (c := '=') (by decide)) (by decide)
    ('"' :: (Writing.escapeValue value.toList ++ '"' :: rest))
  have hv := m.valueBody_escapeValue hvalue rest
  let inside := Writing.escapeValue value.toList ++ '"' :: rest
  refine ⟨⟨name.toList, Writing.escapeValue value.toList,
    name.toList ++ '=' :: '"' :: inside, inside⟩, ?_, rfl⟩
  simp only [tagAttribute, hq, equalsQuote_quote, hv, bind, Except.bind]
  rfl

theorem attributeText_append (name : List Char) (value : String) (rest : List Char) :
  Writing.attributeText name value ++ rest
    = ' ' :: (name ++ '=' :: '"' :: (Writing.escapeValue value.toList ++ '"' :: rest))
  := by
  simp [Writing.attributeText]

theorem tagRest_attribute {name : List Char} (h : IsPlainName m.alphabet name) (first : Bool)
    (fuel : Nat) (more : List Char) :
  m.tagRest first (fuel + 1) (' ' :: (name ++ more))
    = (m.tagAttribute (name ++ more)).bind fun (a, rest) =>
        (m.tagRest false fuel rest).map fun ((others, isEmpty), rest) =>
          ((a :: others, isEmpty), rest)
  := by
  cases name with
  | nil => cases h.start
  | cons c cs =>
      have hinner := h.inner c List.mem_cons_self
      have hmark : c ∉ Alphabet.marks := by
        intro hc
        exact Bool.false_ne_true ((m.alphabet.isInner_mark hc).symm.trans hinner)
      simp only [Alphabet.marks, List.mem_cons, not_or] at hmark
      have hblank : isBlank c = false := by simp [isBlank, hmark]
      have hspace : isBlank ' ' = true := by decide
      have hdrop : (' ' :: (c :: (cs ++ more))).dropWhile isBlank = c :: (cs ++ more) := by
        simp only [List.dropWhile_cons, hspace, hblank, ite_true, Bool.false_eq_true, ite_false]
      rw [List.cons_append, tagRest]
      · rw [if_pos hspace, hdrop]
        split
        · rename_i heq
          cases heq
        · rename_i heq
          exact absurd (List.head_eq_of_cons_eq heq) (by simp [hmark])
        · rename_i heq
          exact absurd (List.head_eq_of_cons_eq heq) (by simp [hmark])
        · rfl
      · decide
      · decide

/-- The end of a tag, of an element with content or of one without. -/
def tagEnd (isEmpty : Bool) : List Char :=
  if isEmpty then " />".toList else ['>']

/-- The attributes of a tag and its end are found again. -/
theorem tagRest_attributesText {attributes : Attributes} (h : m.AreReadable attributes)
    (isEmpty first : Bool) (fuel : Nat) (rest : List Char)
    (hfuel : attributes.length < fuel) :
  ∃ found, m.tagRest first fuel (Writing.attributesText attributes ++ (tagEnd isEmpty ++ rest))
      = .ok ((found, isEmpty), rest)
    ∧ found.map (fun a => (a.name, a.value)) = rawParts attributes
  := by
  induction attributes generalizing first fuel with
  | nil =>
      obtain ⟨fuel, rfl⟩ := Nat.exists_eq_succ_of_ne_zero (Nat.ne_of_gt hfuel)
      refine ⟨[], ?_, rfl⟩
      cases isEmpty <;> simp [Writing.attributesText, tagEnd, tagRest, isBlank]
  | cons a others ih =>
      obtain ⟨name, value⟩ := a
      obtain ⟨fuel, rfl⟩ := Nat.exists_eq_succ_of_ne_zero (Nat.ne_of_gt (Nat.zero_lt_of_lt hfuel))
      obtain ⟨⟨hname, hvalue⟩, hothers⟩ := List.forall_mem_cons.mp h
      obtain ⟨found, hfound, hparts⟩ := ih hothers false fuel (Nat.lt_of_succ_lt_succ hfuel)
      obtain ⟨a, ha, hpart⟩ := tagAttribute_append hname hvalue
        (Writing.attributesText others ++ (tagEnd isEmpty ++ rest))
      refine ⟨a :: found, ?_, ?_⟩
      · rw [Writing.attributesText, List.append_assoc, attributeText_append,
          tagRest_attribute hname, ha]
        simp only [Except.bind, hfound, Except.map]
      · rw [List.map_cons, hparts, hpart]
        rfl

/-- What follows the name in a start tag is a blank or the end of the tag. -/
theorem exists_mark (attributes : Attributes) (isEmpty : Bool) (rest : List Char) :
  ∃ d more, Writing.attributesText attributes ++ (tagEnd isEmpty ++ rest) = d :: more
    ∧ d ∈ Alphabet.marks ∧ d ≠ ':'
  := by
  cases attributes with
  | nil =>
      cases isEmpty with
      | false => exact ⟨'>', rest, rfl, by decide, by decide⟩
      | true => exact ⟨' ', '/' :: '>' :: rest, rfl, by decide, by decide⟩
  | cons a others =>
      rw [Writing.attributesText, List.append_assoc, attributeText_append]
      exact ⟨' ', _, rfl, by decide, by decide⟩

theorem length_le_attributesText (attributes : Attributes) :
  attributes.length ≤ (Writing.attributesText attributes).length
  := by
  induction attributes with
  | nil => exact Nat.le_refl 0
  | cons a others ih =>
      simp only [Writing.attributesText, Writing.attributeText, List.length_cons,
        List.length_append]
      omega

/-- A start tag is found again. -/
theorem startTag_append {name : String} {attributes : Attributes}
    (hname : IsPlainName m.alphabet name.toList) (h : m.AreReadable attributes) (isEmpty : Bool)
    (rest : List Char) :
  ∃ found, m.startTag
        (name.toList ++ (Writing.attributesText attributes ++ (tagEnd isEmpty ++ rest)))
      = .ok (⟨name.toList, found, isEmpty⟩, rest)
    ∧ found.map (fun a => (a.name, a.value)) = rawParts attributes
  := by
  obtain ⟨d, more, hmore, hd, hcolon⟩ := exists_mark attributes isEmpty rest
  have hq := qualifiedName_append hname (m.alphabet.isInner_mark hd) hcolon more
  rw [← hmore] at hq
  have hlength := length_le_attributesText attributes
  obtain ⟨found, hfound, hparts⟩ := tagRest_attributesText h isEmpty true
    ((Writing.attributesText attributes ++ (tagEnd isEmpty ++ rest)).length + 1) rest
    (by rw [List.length_append]; omega)
  refine ⟨found, ?_, hparts⟩
  simp only [startTag, hq, hfound, bind, Except.bind]

/-- The name of an end tag is found again. -/
theorem endTag_append {name : List Char} (hname : IsPlainName m.alphabet name)
    (rest : List Char) :
  m.endTag (name ++ '>' :: rest) = .ok (name, rest)
  := by
  have hmark := m.alphabet.isInner_mark (c := '>') (by decide)
  cases name with
  | nil => cases hname.start
  | cons c cs =>
      have hstart : m.alphabet.isStart c := by simpa using hname.start
      have hrest := endNameRest_append (List.forall_mem_cons.mp hname.inner).2 hmark (by decide) rest
      simp only [endTag, nameStart, List.cons_append, hstart, ite_true, bind, Except.bind, hrest]

/-! ### Comments and CDATA sections -/

/-- A comment ends where it was ended. -/
theorem commentBody_append {cs : List Char} (h : ∀ c ∈ cs, isXmlChar c)
    (hbreaks : breaksComment cs = false) (rest : List Char) :
  m.commentBody (cs ++ '-' :: '-' :: '>' :: rest) = .ok (cs, rest)
  := by
  induction cs using breaksComment.induct with
  | case1 => simp [commentBody]
  | case2 => cases hbreaks
  | case3 cs => cases hbreaks
  | case4 c cs hlast hpair ih =>
      rw [List.forall_mem_cons] at h
      have hcs : breaksComment cs = false := by
        rw [breaksComment] at hbreaks
        · exact hbreaks
        · exact hlast
        · exact hpair
      have hrest := ih h.2 hcs
      by_cases hc : c = '-'
      · subst hc
        cases cs with
        | nil => exact absurd rfl (hlast rfl)
        | cons d ds =>
            have hd : d ≠ '-' := by
              rintro rfl
              exact hpair ds rfl rfl
            rw [List.cons_append, List.cons_append, commentBody, ← List.cons_append, hrest]
            · rfl
            · exact fun _ heq => hd (List.head_eq_of_cons_eq heq)
            · exact fun heq => hd (List.head_eq_of_cons_eq heq)
            · exact fun _ heq => hd (List.head_eq_of_cons_eq heq)
      · rw [List.cons_append, commentBody, if_pos h.1, hrest]
        · rfl
        · exact hc

theorem cdataOpening_append (hm : m.IsSettled) (rest : List Char) :
  m.cdataOpening ("CDATA[".toList ++ rest) = .ok ((), rest)
  := by
  have hword : "CDATA[".toList = ['C', 'D', 'A', 'T', 'A', '['] := by decide
  have hwidth : 6 * m.unit ≤ totalWidth m.width ['C', 'D', 'A', 'T', 'A', '['] := by
    have hC := hm.unit 'C'
    have hD := hm.unit 'D'
    have hA := hm.unit 'A'
    have hT := hm.unit 'T'
    have hbracket := hm.unit '['
    simp only [totalWidth]
    omega
  have htake : (['C', 'D', 'A', 'T', 'A', '['] ++ rest).take 6 = ['C', 'D', 'A', 'T', 'A', '['] := by
    simp
  rw [cdataOpening, if_neg]
  · rw [hword]
    simp [expected]
  · rw [hword, htake]
    omega

end Medium

end Reading

end XmlDraft
