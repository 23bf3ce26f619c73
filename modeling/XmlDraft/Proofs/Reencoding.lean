import XmlDraft.Proofs.Octets
import XmlDraft.Proofs.Rereading

/-!
# Documents that change their encoding

A source is read in the encoding that its declaration names.  It is written in UTF-16 if that is the
name, and in UTF-8 otherwise, with the same declaration.  Main statement: what is written is read
again as the same document if the declaration names the encoding in which it is written; or if it
names none and no name holds a sign that is a letter in UTF-16 only; or if everything is ASCII and
the encoding that it names takes one octet for each character.
-/

namespace XmlDraft

/-! ### One octet for each character -/

/-- A character of ASCII. -/
def isAscii (c : Char) : Bool :=
  c.toNat < 0x80

namespace Reading

open OutputEncoding (utf8Octets)

/-- Encodings of one octet for each character agree on ASCII. -/
theorem decodeSingle_ascii {char? : UInt8 → Option Char}
    (h : ∀ o : UInt8, o < 0x80 → char? o = some (Char.ofNat o.toNat)) {cs : List Char}
    (hcs : ∀ c ∈ cs, isAscii c) :
  decodeSingle char? (cs.flatMap utf8Octets) = ⟨cs, .clean, 0⟩
  := by
  induction cs with
  | nil => rfl
  | cons c cs ih =>
      rw [List.forall_mem_cons] at hcs
      have hc : c.toNat < 0x80 := of_decide_eq_true hcs.1
      have hoctet : c.toNat.toUInt8.toNat = c.toNat := OutputEncoding.toNat_octet (by omega)
      have hlow : c.toNat.toUInt8 < 0x80 := by
        rw [UInt8.lt_iff_toNat_lt, hoctet]
        exact hc
      rw [List.flatMap_cons, utf8Octets, if_pos hc, List.singleton_append, decodeSingle, h _ hlow,
        ih hcs.2, hoctet, Char.ofNat_toNat]
      rfl

namespace InputEncoding

/-- ASCII is read the same in all encodings of one octet for each of its characters. -/
theorem decode_ascii {e : InputEncoding} (he : e.unit = 1) {cs : List Char}
    (hascii : ∀ c ∈ cs, isAscii c) (hchars : ∀ c ∈ cs, isXmlChar c) :
  e.decode (OutputEncoding.utf8.encode cs) = ⟨cs, .clean, 0⟩
  := by
  cases e with
  | utf8 => exact OutputEncoding.utf8.decode_encode hchars
  | utf16 lowFirst => cases he
  | latin1 => exact decodeSingle_ascii (fun _ _ => rfl) hascii
  | ascii => exact decodeSingle_ascii (fun _ ho => if_pos ho) hascii
  | page upper => exact decodeSingle_ascii (fun _ ho => if_pos ho) hascii

/-- Octets behind others are read in an encoding to which a declaration switches, if they are
ASCII. -/
theorem script_ascii {e : InputEncoding} (he : e.unit = 1) (before : List Char) {after : List Char}
    (hascii : ∀ c ∈ after, isAscii c) (hchars : ∀ c ∈ after, isXmlChar c) :
  ∃ shadow, e.script ({} : Manner).alphabet (OutputEncoding.utf8.encode (before ++ after))
      (totalWidth utf8.width before)
    = ⟨e.medium ⟨[], .clean, 0⟩ ({} : Manner).alphabet, shadow, after⟩
  := by
  have hlength : (OutputEncoding.utf8.encode before).length = (totalWidth utf8.width before) :=
    OutputEncoding.utf8.length_encode before
  rw [OutputEncoding.encode_append, ← hlength, script, List.drop_left,
    decode_ascii he hascii hchars]
  exact ⟨_, rfl⟩

/-- The names of encodings of two octets or more for each character. -/
def wideNames : List String :=
  ["utf-16", "utf-16be", "utf-16le"]

/-- A declaration of a name that is none of theirs asks for the same encoding behind UTF-8 as behind
any other one, and that one takes one octet for each character of ASCII. -/
theorem declared_single {e new : InputEncoding} {s : Script} {name here : List Char}
    (hname : String.ofList (name.map Char.toLower) ∉ wideNames)
    (h : e.declared s name here = .ok new) :
  new.unit = 1 ∧ ∀ s here, utf8.declared s name here = .ok new
  := by
  simp only [wideNames, List.mem_cons, List.not_mem_nil, or_false, not_or] at hname
  have hof (current : InputEncoding) : current.ofName? name
      = utf8.ofName? name := by
    simp only [ofName?, hname, ite_false]
  unfold declared at h ⊢
  rw [hof e] at h
  cases hnamed : utf8.ofName? name with
  | none =>
      simp only [hnamed] at h ⊢
      cases hpage : codePage? (String.ofList name) with
      | none => simp [hpage] at h
      | some page =>
          cases page with
          | table upper =>
              simp only [hpage, Except.ok.injEq] at h ⊢
              exact ⟨h ▸ rfl, fun _ _ => h⟩
          | _ => simp [hpage] at h
  | some e' =>
      have hsingle : e'.unit = 1 := by
        simp only [ofName?, hname, ite_false] at hnamed
        split_ifs at hnamed <;> (cases hnamed; rfl)
      have hagrees : utf8.agrees e' = true := by
        cases e' with
        | utf16 lowFirst => cases hsingle
        | _ => rfl
      simp only [hnamed] at h ⊢
      split_ifs at h
      obtain rfl := Except.ok.inj h
      exact ⟨hsingle, fun _ _ => if_pos hagrees⟩

end InputEncoding

/-- A source whose declaration names an encoding of written documents has signs among its letters
only if what is written in that encoding has. -/
theorem Medium.IsNamed.signs {m : Medium} {d : Declaration} (h : m.IsNamed (some d))
    {e : OutputEncoding} (hname : d.names e) :
  m.alphabet.signs → e.medium.alphabet.signs
  := by
  obtain ⟨f, name, hencoding, htext, hlower⟩ := OutputEncoding.exists_name hname
  obtain ⟨current, s, here, new, decoded, hnew, rfl⟩ :=
    h d rfl name (by rw [hencoding, Option.bind_some, htext])
  cases e with
  | utf16 => exact fun _ => rfl
  | utf8 =>
      have hof : current.ofName? name.toList = some .utf8 := by
        unfold InputEncoding.ofName?
        rw [hlower]
        rfl
      unfold InputEncoding.declared at hnew
      simp only [hof] at hnew
      split_ifs at hnew
      obtain rfl := Except.ok.inj hnew
      exact id

end Reading

/-! ### Documents -/

/-- Whether a declaration names an encoding of two octets or more for each character. -/
def Declaration.namesWide (d : Declaration) : Bool :=
  d.encoding.any fun f => f.text?.any fun s =>
    String.ofList (s.toList.map Char.toLower) ∈ Reading.InputEncoding.wideNames

namespace Document

open Reading (Medium Declarations)
open Writing (compactList)

/-- Whether everything that is written of a document is ASCII. -/
def isAscii (d : Document) : Bool :=
  (d.render standardLayout false).toOption.any fun text => text.toList.all XmlDraft.isAscii

/-- A document that is read again from the octets in which it is written. -/
inductive KeepsEncoding (d : Document) : Prop where
  /-- It is written in the encoding that its declaration names. -/
  | named {declaration : Declaration} {e : OutputEncoding}
    (hdeclaration : d.declaration = some declaration) (hname : declaration.names e)
  /-- No encoding is named, and no name holds a sign that is a letter in UTF-16 only. -/
  | unnamed (hnone : ∀ h ∈ d.declaration, h.encoding = none)
    (hsigns : ∀ n ∈ d.nodes, n.holdsNoSign)
  /-- The encoding that is named takes one octet for each character, and everything is ASCII. -/
  | ascii (hsingle : ∀ h ∈ d.declaration, h.namesWide = false) (hascii : d.isAscii)

/-- The names in a document are ASCII if its markup is. -/
theorem holdsNoSign_of_ascii {d : Document}
    (h : ∀ c ∈ compactList none d.children, XmlDraft.isAscii c) :
  ∀ n ∈ d.nodes, n.holdsNoSign
  := by
  intro n hn
  have hsign : ∀ c ∈ Writing.verbatim n, c ∉ Reading.latinSigns := by
    have hsigns : ∀ c ∈ Reading.latinSigns, XmlDraft.isAscii c = false :=
      List.all_iff_forall_prop.mp (by decide)
    intro c hc hmem
    have hascii := h c (Writing.mem_compactList_of_verbatim hn hc)
    rw [hsigns c hmem] at hascii
    cases hascii
  cases n with
  | element name attributes children =>
      rw [Writing.verbatim, List.forall_mem_append] at hsign
      simp only [Node.holdsNoSign, List.all_cons, Bool.and_eq_true, List.all_map, List.all_eq_true,
        Function.comp_apply, decide_eq_true_eq]
      exact ⟨hsign.1, fun p hp c hc => hsign.2 c (List.mem_flatMap.mpr ⟨p, hp, hc⟩)⟩
  | _ => rfl

/-- A document begins again where it is written, in a medium in which it is read again. -/
def BeginsAgain (d : Document) (head : List Char) : Prop :=
  ∃ e m b, OutputEncoding.select d.declaration = .ok e ∧ m.IsIntact ∧ d.IsRewritable m
    ∧ Reading.beginSource {} (.octets (e.encode (head ++ compactList none d.children))) = .ok b
    ∧ Reading.HasBegun b m (d.declaration.map Declaration.filled) (compactList none d.children)

section Accepted

variable {m : Medium} {declarations : Declarations} {front others : List Node} {d : Document}
    (h : d.IsAccepted m declarations front others) (hdoctype : d.doctype? = none)

include h hdoctype

theorem IsAccepted.markup_chars :
  ∀ c ∈ compactList none d.children, Reading.isXmlChar c
  := by
  obtain ⟨hnotes, hdeclarations⟩ := h.bare hdoctype
  have hwritable : Node.AreWritable m.alphabet declarations none d.children := by
    rw [h.children]
    exact Node.areWritable_append.mpr
      ⟨(Reading.AreComments.of_notes hnotes).areWritable _ _, h.others.writable⟩
  rw [← Writing.nodesText_none false false 0 none]
  exact Writing.nodesText_chars h.usual (by simp) _ _ _ _ _ hwritable

variable {head : List Char} (hhead : Writing.IsHead standardLayout d.declaration head)

include hhead

/-- A document begins again in the encoding that is selected for it, if its declaration leaves a
reader there. -/
theorem IsAccepted.begins_kept {e : OutputEncoding}
    (hselect : OutputEncoding.select d.declaration = .ok e)
    (hkept : ∀ declaration ∈ d.declaration, e.IsKept declaration)
    (hsigns : (m.alphabet.signs → e.medium.alphabet.signs) ∨ ∀ n ∈ d.nodes, n.holdsNoSign) :
  d.BeginsAgain head
  := by
  have hm := e.isIntact_medium
  have hrewritable := h.isRewritable_bare hm.toIsUsual hdoctype hsigns
  obtain ⟨b, hb, hbegun⟩ := hhead.beginSource_kept hkept
    (fun _ => hrewritable.beginsNode) (h.markup_chars hdoctype)
  exact ⟨e, e.medium, b, hselect, hm, hrewritable, hb, hbegun⟩

theorem IsAccepted.begins_unnamed
    (hnone : ∀ declaration ∈ d.declaration, declaration.encoding.all fun f => !f.counts)
    (hsigns : ∀ n ∈ d.nodes, n.holdsNoSign) :
  d.BeginsAgain head
  := by
  have hselect : OutputEncoding.select d.declaration = .ok .utf8
      ∧ ∀ declaration ∈ d.declaration, OutputEncoding.utf8.IsKept declaration := by
    cases hd : d.declaration with
    | none => exact ⟨rfl, by simp⟩
    | some declaration =>
        obtain ⟨hselect, hkept⟩ := OutputEncoding.select_unnamed (hnone declaration hd)
        exact ⟨hselect, by simpa using hkept⟩
  exact h.begins_kept hdoctype hhead hselect.1 hselect.2 (.inr hsigns)

/-- A document of ASCII begins again in UTF-8 and goes on in the encoding that its declaration
names. -/
theorem IsAccepted.begins_single (hnamed : m.IsNamed d.declaration)
    {declaration : Declaration} {f : Field} {name : String} (hd : d.declaration = some declaration)
    (hencoding : declaration.encoding = some f) (htext : f.text? = some name) (hne : name ≠ "")
    (hsingle : declaration.namesWide = false)
    (hascii : ∀ c ∈ compactList none d.children, XmlDraft.isAscii c) :
  d.BeginsAgain head
  := by
  have hwide : String.ofList (name.toList.map Char.toLower)
      ∉ Reading.InputEncoding.wideNames := by
    simpa [Declaration.namesWide, hencoding, htext] using hsingle
  obtain ⟨current, s, here, new, decoded, hnew, _⟩ :=
    hnamed declaration hd name (by rw [hencoding, Option.bind_some, htext])
  obtain ⟨hunit, hdeclared⟩ := Reading.InputEncoding.declared_single hwide hnew
  have hchars := h.markup_chars hdoctype
  have hm := Reading.isIntact_clean new
  have hrewritable := h.isRewritable_bare hm.toIsUsual hdoctype (.inr (holdsNoSign_of_ascii hascii))
  obtain ⟨version, encoding, standalone⟩ := declaration
  obtain rfl : encoding = some f := hencoding
  have hselect : OutputEncoding.select d.declaration = .ok .utf8 := by
    have hother : name.toList.map Char.toLower ≠ "utf-16".toList := by
      intro heq
      rw [heq] at hwide
      exact hwide (by decide)
    simp only [hd, OutputEncoding.select, htext, hother, ite_false]
  have hscript := Reading.InputEncoding.script_ascii hunit head hascii hchars
  obtain ⟨b, hb, hbegun⟩ := hhead.beginSource_octets .utf8 (by simp [hd])
    (fun declaration' hd' => by
      obtain rfl := Option.some.inj (hd.symm.trans hd')
      rw [Writing.encodingName_text htext hne]
      exact ⟨new, hdeclared, hscript⟩)
    (fun _ => hrewritable.beginsNode) hchars
  exact ⟨.utf8, _, b, hselect, hm, hrewritable, hb, hbegun⟩

theorem IsAccepted.begins_again (hnamed : m.IsNamed d.declaration) (hkeeps : d.KeepsEncoding) :
  d.BeginsAgain head
  := by
  cases hkeeps with
  | @named declaration e hdeclaration hname =>
      obtain ⟨hselect, hkept⟩ := OutputEncoding.select_names hname
      rw [hdeclaration] at hnamed
      refine h.begins_kept hdoctype hhead (hdeclaration ▸ hselect) ?_ (.inl (hnamed.signs hname))
      simpa [hdeclaration] using hkept
  | unnamed hnone hsigns =>
      refine h.begins_unnamed hdoctype hhead (fun declaration hd => ?_) hsigns
      rw [hnone declaration hd]
      rfl
  | ascii hsingle hascii =>
      have hmarkup : ∀ c ∈ compactList none d.children, XmlDraft.isAscii c := by
        have hrender := ((h.isRewritable_bare h.usual hdoctype (.inl id)).rewrite hhead).1
        simp only [isAscii, hrender, Except.toOption, Option.any_some, String.toList_ofList,
          List.all_append, Bool.and_eq_true, List.all_eq_true] at hascii
        exact hascii.2
      by_cases hnone : ∀ declaration ∈ d.declaration, declaration.encoding.all fun f => !f.counts
      · exact h.begins_unnamed hdoctype hhead hnone (holdsNoSign_of_ascii hmarkup)
      · push Not at hnone
        obtain ⟨declaration, hd, hcounts⟩ := hnone
        have hlegible := h.declaration
        rw [Option.mem_def.mp hd, Option.all_some, Declaration.isLegible, Bool.and_eq_true,
          Bool.and_eq_true] at hlegible
        have hwords := hlegible.1.2
        cases hencoding : declaration.encoding with
        | none => simp [hencoding] at hcounts
        | some f =>
            rw [hencoding] at hcounts hwords
            cases htext : f.text? with
            | none => simp [htext] at hwords
            | some name =>
                have hne : name ≠ "" := (Field.counts_iff htext).mp (by simpa using hcounts)
                exact h.begins_single hdoctype hhead hnamed hd hencoding htext hne
                  (hsingle declaration hd) hmarkup

end Accepted

end Document

/-- A document that was read from octets is written in octets that are read again as the same
document, apart from the namespaces that its elements inherit and the fields of its declaration that
were not set, and its markup is the same. -/
theorem documents_octets_again {os : List UInt8} {d : Document}
    (h : readDocument (.octets os) = .ok d) (hdoctype : d.doctype? = none)
    (hkeeps : d.KeepsEncoding) :
  ∃ text e, d.render standardLayout false = .ok text
    ∧ OutputEncoding.select d.declaration = .ok e
    ∧ readDocument (.octets (e.encode text.toList)) = .ok d.inherited
    ∧ d.inherited.render standardLayout false = .ok text
  := by
  obtain ⟨m, declarations, front, others, haccepted, _, hnamed⟩ := readDocument_ok h
  have hread := haccepted.isAsRead
  have hentities : declarations.entities = [] := by rw [(haccepted.bare hdoctype).2]
  obtain ⟨head, hhead⟩ := Writing.exists_head isStandard_standardLayout haccepted.declaration
  obtain ⟨e, m', b, hselect, hm, hrewritable, hb, hbegun⟩ :=
    haccepted.begins_again hdoctype hhead (hnamed os rfl) hkeeps
  have hsame := haccepted.unified_normal hdoctype
  have hkept : Node.unifiedList d.children = d.children :=
    Node.unifiedList_eq fun n hn => (hread n hn).keepsLines hentities
  obtain ⟨htext, hagain⟩ := hrewritable.rewrite hhead
  rw [hkept, hsame] at hagain
  refine ⟨_, e, htext, hselect, ?_, hagain⟩
  rw [String.toList_ofList,
    hrewritable.read_begun_bare (Document.areBare_of_doctype? hdoctype) hm hb hbegun, hsame]

end XmlDraft
