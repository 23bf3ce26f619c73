import XmlDraft.Proofs.Codecs
import XmlDraft.Proofs.Layouts

/-!
# Reading octets that were written

The octets of a document show their encoding by the first two of them, without a mark in front: the
markup begins with an opening bracket and no zero.  A declaration names the same encoding again, so
that a reader goes on in it.  Main statement: the octets of a document begin as its text does, in a
medium in which what was written is read.
-/

namespace XmlDraft

/-! ### Characters of markup -/

namespace Writing

open Reading (Declarations Medium isXmlChar)

/-- Characters of documents are left if each is written as it is, or as a reference to it. -/
theorem isXmlChar_of_escape {escape : Char → List Char}
    (hforms : ∀ d, escape d = [d] ∨ ∃ body, escape d = '&' :: body ∧ Reading.IsReferenceTo d body)
    {cs : List Char} (h : ∀ c ∈ cs, isXmlChar c) :
  ∀ c ∈ cs.flatMap escape, isXmlChar c
  := by
  intro c hc
  obtain ⟨d, hd, hc⟩ := List.mem_flatMap.mp hc
  rcases hforms d with heq | ⟨body, heq, href⟩
  · rw [heq, List.mem_singleton] at hc
    exact hc ▸ h d hd
  · rw [heq, List.mem_cons] at hc
    rcases hc with rfl | hc
    · decide
    · exact (href.plain c hc).1

theorem escapeText_chars {cs : List Char} (h : ∀ c ∈ cs, isXmlChar c) :
  ∀ c ∈ escapeText cs, isXmlChar c
  := isXmlChar_of_escape (fun d => (Reading.textEscape_cases d).imp_left And.left) h

theorem escapeValue_chars {cs : List Char} (h : ∀ c ∈ cs, isXmlChar c) :
  ∀ c ∈ escapeValue cs, isXmlChar c
  := isXmlChar_of_escape (fun d => (Reading.valueEscape_cases d).imp_left And.left) h

theorem splitCData_chars {cs : List Char} (h : ∀ c ∈ cs, isXmlChar c) :
  ∀ c ∈ splitCData cs, isXmlChar c
  := by
  induction cs using splitCData.induct with
  | case1 cs ih =>
      have hend : ∀ c ∈ dividedEnd, isXmlChar c := List.all_iff_forall_prop.mp (by decide)
      rw [splitCData, List.forall_mem_append]
      exact ⟨hend, ih fun c hc => h c (by simp [hc])⟩
  | case2 c cs hends ih =>
      rw [List.forall_mem_cons] at h
      rw [splitCData, List.forall_mem_cons]
      · exact ⟨h.1, ih h.2⟩
      · exact hends
  | case3 => exact h

/-- What stands between delimiters, behind a line break, consists of characters of documents with
them. -/
theorem enclosed_chars {opening closing line cs : List Char} (hopening : opening.all isXmlChar)
    (hclosing : closing.all isXmlChar) (hline : ∀ c ∈ line, isXmlChar c)
    (h : ∀ c ∈ cs, isXmlChar c) :
  ∀ c ∈ line ++ opening ++ cs ++ closing, isXmlChar c
  := by
  simp only [List.forall_mem_append]
  exact ⟨⟨⟨hline, List.all_eq_true.mp hopening⟩, h⟩, List.all_eq_true.mp hclosing⟩

theorem cdataSections_chars {cs : List Char} (h : ∀ c ∈ cs, isXmlChar c) :
  ∀ c ∈ cdataSections cs, isXmlChar c
  := by
  unfold cdataSections
  exact enclosed_chars (by decide) (by decide) (List.forall_mem_nil _) (splitCData_chars h)

theorem name_chars {m : Medium} (hm : m.IsUsual) {name : List Char}
    (h : Reading.IsPlainName m.alphabet name) :
  ∀ c ∈ name, isXmlChar c
  := fun c hc => Reading.Alphabet.isXmlChar_of_isInner hm.divides hm.isFifth (h.inner c hc)

theorem attributesText_chars {m : Medium} (hm : m.IsUsual) {attributes : Attributes}
    (h : m.AreReadable attributes) :
  ∀ c ∈ attributesText attributes, isXmlChar c
  := by
  induction attributes with
  | nil => simp [attributesText]
  | cons p rest ih =>
      obtain ⟨⟨hname, hvalue⟩, hrest⟩ := List.forall_mem_cons.mp h
      have hmarks : isXmlChar ' ' ∧ isXmlChar '=' ∧ isXmlChar '"' := by decide
      simp only [attributesText, attributeText, List.cons_append, List.append_assoc,
        List.forall_mem_cons, List.forall_mem_append]
      exact ⟨hmarks.1, name_chars hm hname, hmarks.2.1, hmarks.2.2, escapeValue_chars hvalue,
        hmarks.2.2, by simp, ih hrest⟩

theorem breakLine_chars {layout : Option Layout} (hlayout : ∀ l ∈ layout, l.IsBlank)
    (mixed started : Bool) (level : Nat) :
  ∀ c ∈ breakLine layout mixed started level, isXmlChar c
  := by
  cases layout with
  | none => simp [breakLine]
  | some l =>
      have hl := hlayout l rfl
      have hmarks : isXmlChar '\r' ∧ isXmlChar '\n' := by decide
      unfold breakLine
      dsimp only
      split_ifs
      · rw [Layout.lineBreak_eq, List.forall_mem_append]
        refine ⟨?_, fun c hc => ?_⟩
        · rcases hl.newline_cases with hline | hline | hline <;> simp [hline, hmarks]
        · rcases hl.indentation level c hc with rfl | rfl <;> decide
      · simp

mutual

/-- The markup of a node that can be written consists of characters of documents. -/
theorem nodeText_chars {m : Medium} (hm : m.IsUsual) {layout : Option Layout}
    (hlayout : ∀ l ∈ layout, l.IsBlank) {d : Declarations} (mixed started : Bool) (level : Nat)
    (scope : Option String) (n : Node)
    (h : n.IsWritable m.alphabet d scope) :
  ∀ c ∈ nodeText layout mixed started level scope n, isXmlChar c
  := by
  have hbreak := breakLine_chars hlayout mixed
  cases n with
  | element name attributes children =>
      obtain ⟨htag, hchildren⟩ := h
      have hname := name_chars hm htag.plain
      have hprinted : name.printed = name.localPart := QName.printed_eq htag.own
      have hattributes := attributesText_chars hm fun p hp =>
        ⟨(htag.read p hp).name, (htag.read p hp).value⟩
      have hmarks : ∀ c ∈ ['<', '>', '/', ' '], isXmlChar c :=
        List.all_iff_forall_prop.mp (by decide)
      have hempty : ∀ c ∈ " />".toList, isXmlChar c := List.all_iff_forall_prop.mp (by decide)
      have hclosing : ∀ c ∈ "</".toList, isXmlChar c := List.all_iff_forall_prop.mp (by decide)
      simp only [List.forall_mem_cons] at hmarks
      rw [attributesText_tagAttributes, List.forall_mem_append] at hattributes
      cases children with
      | nil =>
          simp only [nodeText, List.append_assoc, List.cons_append, List.forall_mem_append,
            List.forall_mem_cons]
          exact ⟨hbreak started level, hmarks.1, hname, hattributes.1, hattributes.2, hempty⟩
      | cons n ns =>
          obtain ⟨hn, hns⟩ := hchildren
          rw [← declared_or] at hn hns
          simp only [nodeText, hprinted, List.append_assoc, List.cons_append, List.forall_mem_append,
            List.forall_mem_cons]
          exact ⟨hbreak started level, hmarks.1, hname, hattributes.1, hattributes.2, hmarks.2.1,
            nodeText_chars hm hlayout mixed true (level + 1) _ n hn,
            nodesText_chars hm hlayout _ true (level + 1) _ ns hns,
            breakLine_chars hlayout _ true level, hclosing, hname, hmarks.2.1, by simp⟩
  | text value => exact escapeText_chars (Reading.Medium.isXmlChar_of_isCharText h.1)
  | cdata value => exact cdataSections_chars (Reading.Medium.isXmlChar_of_isCharText h.1)
  | comment value =>
      rw [nodeText, Wording.printed_eq h.2]
      exact enclosed_chars (by decide) (by decide) (hbreak started level)
        (Reading.Medium.isXmlChar_of_isCharText h.1.1)
  | doctype t => exact h.elim

theorem nodesText_chars {m : Medium} (hm : m.IsUsual) {layout : Option Layout}
    (hlayout : ∀ l ∈ layout, l.IsBlank) {d : Declarations} (mixed started : Bool) (level : Nat)
    (scope : Option String)
    (ns : List Node) (h : Node.AreWritable m.alphabet d scope ns) :
  ∀ c ∈ nodesText layout mixed started level scope ns, isXmlChar c
  := by
  cases ns with
  | nil => simp [nodesText]
  | cons n ns =>
      obtain ⟨hn, hns⟩ := h
      rw [nodesText, List.forall_mem_append]
      exact ⟨nodeText_chars hm hlayout mixed started level scope n hn,
        nodesText_chars hm hlayout _ true level scope ns hns⟩

end

end Writing

/-! ### The beginning of octets -/

/-- The medium of octets that write nothing but characters is intact. -/
theorem Reading.isIntact_clean (e : Reading.InputEncoding) :
  (e.medium ⟨[], .clean, 0⟩ ({} : Reading.Manner).alphabet).IsIntact
  where
    divides := rfl
    isFifth := rfl
    known := by cases e <;> exact Nat.le_of_ble_eq_true rfl
    unifies := rfl
    ending := rfl
    spare := rfl
    unit c := by
      cases e with
      | utf8 => exact Reading.utf8Width_pos c
      | utf16 lowFirst =>
          change 2 ≤ if c.toNat < 0x10000 then 2 else 4
          split_ifs <;> decide
      | _ => exact Nat.le_refl 1

namespace OutputEncoding

open Reading (Manner Medium Script Alphabet isXmlChar)

/-- The medium of the octets of a text. -/
def medium (e : OutputEncoding) : Medium :=
  e.input.medium ⟨[], .clean, 0⟩ ({} : Manner).alphabet

theorem isIntact_medium (e : OutputEncoding) :
  e.medium.IsIntact
  := Reading.isIntact_clean e.input

/-- The octets behind others are read as a script of their own. -/
theorem script_encode (e : OutputEncoding) (before : List Char) {after : List Char}
    (h : ∀ c ∈ after, isXmlChar c) :
  ∃ shadow, e.input.script ({} : Manner).alphabet (e.encode (before ++ after))
      (Reading.totalWidth e.input.width before)
    = ⟨e.medium, shadow, after⟩
  := by
  rw [encode_append, ← length_encode, Reading.InputEncoding.script, List.drop_left,
    e.decode_encode h]
  exact ⟨_, rfl⟩

/-- The first two octets show the encoding. -/
theorem detect?_encode (e : OutputEncoding) {c : Char} (hc : c ≠ '\x00') (more : List Char) :
  Reading.detect? (e.encode ('<' :: c :: more)) = some (e.input, 0)
  := by
  cases e with
  | utf8 =>
      have hpositive : c.toNat ≠ 0 := fun hzero => hc (Char.ext (UInt32.toNat_inj.mp hzero))
      have hfirst : ∃ o os, utf8Octets c = o :: os ∧ o ≠ 0 := by
        rcases utf8Octets_cases c with ⟨_, o, hoctets, ho⟩ | ⟨_, _, o, p, hoctets, ho, _⟩
          | ⟨_, _, o, p, q, hoctets, ho, _⟩ | ⟨_, o, p, q, r, hoctets, ho, _⟩
        all_goals exact ⟨_, _, hoctets, fun hzero => by rw [hzero] at ho; simp at ho; omega⟩
      obtain ⟨o, os, hoctets, ho⟩ := hfirst
      have hbracket : utf8Octets '<' = [0x3C] := by decide
      rw [encode, List.flatMap_cons, List.flatMap_cons, hoctets, hbracket]
      simp [Reading.detect?, ho, input]
  | utf16 =>
      have hbracket : utf16Octets '<' = [0x3C, 0x00] := by decide
      rw [encode, List.flatMap_cons, hbracket]
      simp [Reading.detect?, input]

end OutputEncoding

/-! ### Declared encodings -/

/-- Whether a declaration names an encoding of written documents, in any letter case. -/
def Declaration.names (d : Declaration) (e : OutputEncoding) : Bool :=
  d.encoding.any fun f => f.text?.any fun s => s.toList.map Char.toLower = e.name.toList

/-- Whether a declaration names one of the encodings of written documents, or none. -/
def Declaration.namesOutput (d : Declaration) : Bool :=
  d.encoding.all (fun f => !f.counts) || [OutputEncoding.utf8, .utf16].any d.names

namespace OutputEncoding

/-- The name that a declaration gives to its encoding leaves a reader of its octets in it. -/
def IsKept (e : OutputEncoding) (d : Declaration) : Prop :=
  ∀ s here, e.input.declared s (Writing.encodingName d) here = .ok e.input

/-- An encoding is kept where it is called by its name, in any letter case. -/
theorem declared_name (e : OutputEncoding) {name : List Char}
    (h : name.map Char.toLower = e.name.toList) (s : Reading.Script) (here : List Char) :
  e.input.declared s name here = .ok e.input
  := by
  have hname : e.input.ofName? name = some e.input := by
    unfold Reading.InputEncoding.ofName?
    rw [h]
    cases e <;> rfl
  have hagrees : e.input.agrees e.input = true := by cases e <;> rfl
  rw [Reading.InputEncoding.declared, hname]
  simp only [hagrees, ite_true]

theorem exists_name {e : OutputEncoding} {d : Declaration} (h : d.names e) :
  ∃ f name, d.encoding = some f ∧ f.text? = some name
    ∧ name.toList.map Char.toLower = e.name.toList
  := by
  obtain ⟨f, hf, hname⟩ := (Option.any_eq_true _ _).mp h
  obtain ⟨name, htext, hname⟩ := (Option.any_eq_true _ _).mp hname
  exact ⟨f, name, hf, htext, of_decide_eq_true hname⟩

/-- The encoding that a declaration names is selected for it, and kept. -/
theorem select_names {e : OutputEncoding} {d : Declaration} (h : d.names e) :
  select (some d) = .ok e ∧ e.IsKept d
  := by
  obtain ⟨f, name, hencoding, htext, hname⟩ := exists_name h
  obtain ⟨version, encoding, standalone⟩ := d
  obtain rfl : encoding = some f := hencoding
  have hne : name ≠ "" := by
    rintro rfl
    cases e <;> cases hname
  constructor
  · simp only [select, htext, hname]
    cases e <;> rfl
  · intro s here
    rw [Writing.encodingName_text htext hne]
    exact declared_name e hname s here

/-- Where no encoding is named, the one that is written by default is selected, and kept. -/
theorem select_unnamed {d : Declaration} (h : d.encoding.all fun f => !f.counts) :
  select (some d) = .ok utf8 ∧ utf8.IsKept d
  := by
  have hfilled : Writing.encodingName d = "utf-8".toList := by
    have hnone : d.encoding.filter Field.counts = none := by
      cases hd : d.encoding with
      | none => rfl
      | some f => simpa [hd, Option.filter_some] using h
    simp only [Writing.encodingName, Declaration.filled, Declaration.effectiveEncoding, hnone,
      Option.getD_none, Field.plain]
  constructor
  · obtain ⟨version, encoding, standalone⟩ := d
    cases encoding with
    | none => rfl
    | some f =>
        have hcounts : f.counts = false := by simpa using h
        cases htext : f.text? with
        | none => simp [select, htext, hcounts]
        | some name =>
            obtain rfl : name = "" := by
              simpa [hcounts] using (Field.counts_iff htext).not
            simp [select, htext]
  · intro s here
    rw [hfilled]
    exact declared_name utf8 (by decide) s here

/-- The encoding that is selected for a declaration which names one of those that are written, or
none, is kept. -/
theorem isKept_of_namesOutput {e : OutputEncoding} {d : Declaration} (h : d.namesOutput)
    (hselect : select (some d) = .ok e) :
  e.IsKept d
  := by
  simp only [Declaration.namesOutput, List.any_cons, List.any_nil, Bool.or_false,
    Bool.or_eq_true] at h
  have hkept {e' : OutputEncoding} (he : select (some d) = .ok e' ∧ e'.IsKept d) : e.IsKept d := by
    rw [he.1] at hselect
    exact Except.ok.inj hselect ▸ he.2
  rcases h with h | h | h
  · exact hkept (select_unnamed h)
  · exact hkept (select_names h)
  · exact hkept (select_names h)

end OutputEncoding

/-! ### Beginnings -/

namespace Writing

open Reading (isXmlChar)

/-- The octets of a document begin with its head, and go on in the encoding that its declaration
names. -/
theorem IsHead.beginSource_octets {layout : Layout} {declaration : Option Declaration}
    {head : List Char} (h : IsHead layout declaration head) (e : OutputEncoding)
    {m : Reading.Medium} {body : List Char} (hnone : declaration = none → e.medium = m)
    (hsome : ∀ d ∈ declaration, ∃ new, (∀ s here,
        e.input.declared s (encodingName d) here = .ok new)
      ∧ ∃ shadow, new.script ({} : Reading.Manner).alphabet (e.encode (head ++ body))
          (Reading.totalWidth e.input.width head) = ⟨m, shadow, body⟩)
    (hbody : declaration = none → Reading.BeginsNode body) (hchars : ∀ c ∈ body, isXmlChar c) :
  ∃ b, Reading.beginSource {} (.octets (e.encode (head ++ body))) = .ok b
    ∧ Reading.HasBegun b m (declaration.map Declaration.filled) body
  := by
  obtain ⟨c, more, hbegins, hzero⟩ := h.begins hbody
  have hall : ∀ c ∈ head ++ body, isXmlChar c := by
    rw [List.forall_mem_append]
    exact ⟨fun c hc => (h.chars c hc).1, hchars⟩
  obtain ⟨shadow, hscript⟩ := e.script_encode [] hall
  rw [List.nil_append, Reading.totalWidth] at hscript
  have hswitch : ∀ d ∈ declaration, ∀ here, ∃ s', Reading.switchScript e.input
      ({} : Reading.Manner).alphabet (e.encode (head ++ body)) 0 ⟨e.medium, shadow, head ++ body⟩
      (encodingName d) here body = .ok (s', body) ∧ s'.medium = m := by
    intro d hd here
    obtain ⟨new, hnew, shadow', hscript'⟩ := hsome d hd
    have hread : (head ++ body).take ((head ++ body).length - body.length) = head := by
      simp
    refine ⟨⟨m, shadow', body⟩, ?_, rfl⟩
    simp only [Reading.switchScript, hnew, hread, bind, Except.bind, Nat.zero_add, hscript']
  obtain ⟨b, hb, hbegun⟩ :=
    h.read hbody (s := ⟨e.medium, shadow, head ++ body⟩) rfl hnone hswitch
  refine ⟨b, ?_, hbegun⟩
  have hdetect := e.detect?_encode hzero more
  rw [← hbegins] at hdetect
  simp only [Reading.beginSource, hdetect, Bool.false_eq_true, ite_false, hscript]
  exact hb

/-- Octets in the encoding that their declaration names begin as the text does. -/
theorem IsHead.beginSource_kept {layout : Layout} {declaration : Option Declaration}
    {head : List Char} (h : IsHead layout declaration head) {e : OutputEncoding}
    (hkept : ∀ d ∈ declaration, e.IsKept d) {body : List Char}
    (hbody : declaration = none → Reading.BeginsNode body) (hchars : ∀ c ∈ body, isXmlChar c) :
  ∃ b, Reading.beginSource {} (.octets (e.encode (head ++ body))) = .ok b
    ∧ Reading.HasBegun b e.medium (declaration.map Declaration.filled) body
  := h.beginSource_octets e (fun _ => rfl)
    (fun d hd => ⟨e.input, hkept d hd, e.script_encode head hchars⟩) hbody hchars

end Writing

end XmlDraft
