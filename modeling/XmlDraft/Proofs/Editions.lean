import Mathlib.Data.List.Permutation
import XmlDraft.Proofs.Landing
import XmlDraft.Proofs.Order
import XmlDraft.Proofs.Rereading

/-!
# Names of two editions

A builder checks names by the fifth edition, and a reader tells names by the fourth one, so that
there are names which a builder accepts and no reader takes.  Main statement: an element whose name
was checked, and one whose attributes were checked, is read back under these names just if the
reader takes them for names as well.
-/

namespace XmlDraft

open Reading (IsPlainName Medium)

/-- A text that a reader takes for a name. -/
def Reading.IsReadName (name : String) : Prop :=
  IsPlainName ({} : Medium).alphabet name.toList

/-- The local part, the namespace and the attributes of the root of a document. -/
def Document.rootTag? (d : Document) : Option (String × Option String × Attributes) :=
  d.root?.bind fun
    | .element name attributes _ => some (name.localPart, name.space, attributes)
    | _ => none

/-! ### Letters beyond ASCII -/

/-- Accented letters begin a name in both editions, and a ligature does so in the fifth alone. -/
theorem Reading.start_letters :
  (Name.isName "é" ∧ Name.isName "ö" ∧ Name.isName "Ĳ")
    ∧ ({} : Medium).alphabet.isStart 'é' ∧ ({} : Medium).alphabet.isStart 'ö'
    ∧ ({} : Medium).alphabet.isStart 'Ĳ' = false
  := by
  decide

/-! ### Attributes of a bag -/

namespace Prepared

/-- One attribute adds its name if it has a value and declares no namespace. -/
theorem mem_applied {p : FieldName × Option String} (h : p.2.isSome → p.1.text?.isSome)
    {e : QName × Attributes} {name : String} :
  name ∈ (applied e p).2.map Prod.fst
    ↔ name ∈ e.2.map Prod.fst ∨ name ≠ "xmlns" ∧ ∃ value, p = (.text name, some value)
  := by
  obtain ⟨field, value⟩ := p
  cases value with
  | none => simp [applied, applyOne, Except.toOption]
  | some value =>
      cases field with
      | other isPrivate => cases h rfl
      | text n =>
          by_cases hn : n = "xmlns"
          · have hnone : ¬ (name ≠ "xmlns"
                ∧ ∃ v, (FieldName.text n, some value) = (FieldName.text name, some v)) := by
              rintro ⟨hne, _, heq⟩
              cases heq
              exact hne hn
            have hspace : (applied e (.text n, some value)).2 = e.2 := by
              simp [applied, applyOne, FieldName.text?, declaresSpace, hn, Except.toOption]
            rw [hspace, or_iff_left hnone]
          · simp only [applied, applyOne, FieldName.text?, Option.any_some, declaresSpace, hn,
              decide_false, Bool.false_eq_true, ite_false, Attributes.assign, Except.map,
              Except.toOption, Option.getD_some, Attributes.map_fst_set]
            split_ifs with hmem
            · refine ⟨.inl, fun h => h.elim id ?_⟩
              rintro ⟨-, _, heq⟩
              cases heq
              exact hmem
            · rw [List.mem_append, List.mem_singleton]
              refine or_congr_right ⟨?_, ?_⟩
              · rintro rfl
                exact ⟨hn, value, rfl⟩
              · rintro ⟨-, _, heq⟩
                cases heq
                rfl

/-- The names on an element are those of the bag that have a value and declare no namespace. -/
theorem mem_apply {ps : Prepared} (h : ∀ p ∈ ps, p.2.isSome → p.1.text?.isSome) {q : QName}
    {attributes : Attributes} {name : String} :
  name ∈ (ps.apply q attributes).2.map Prod.fst
    ↔ name ∈ attributes.map Prod.fst
      ∨ name ≠ "xmlns" ∧ ∃ value, (FieldName.text name, some value) ∈ ps
  := by
  rw [apply, copy_eq h (q, attributes)]
  generalize hattributes : (q, attributes) = e
  rw [show attributes = e.2 by rw [← hattributes]]
  clear hattributes
  induction ps generalizing e with
  | nil => simp
  | cons p ps ih =>
      rw [List.forall_mem_cons] at h
      rw [List.foldl_cons, ih h.2, mem_applied h.1, or_assoc, ← and_or_left]
      simp only [List.mem_cons, exists_or, eq_comm]

/-- What holds of the values of a bag holds of the attributes and of the namespace. -/
theorem apply_values {P : String → Prop} {ps : Prepared} (hps : ∀ p ∈ ps, ∀ s ∈ p.2, P s)
    {q : QName} {attributes : Attributes} (hattributes : ∀ a ∈ attributes, P a.2)
    (hspace : ∀ u ∈ q.space, P u) :
  (∀ a ∈ (ps.apply q attributes).2, P a.2) ∧ ∀ u ∈ (ps.apply q attributes).1.space, P u
  := by
  refine apply_induct (P := fun e => (∀ a ∈ e.2, P a.2) ∧ ∀ u ∈ e.1.space, P u) ?_
    ⟨hattributes, hspace⟩
  rintro p hp e e' ⟨hattributes, hspace⟩ hset
  obtain ⟨-, rfl⟩ | ⟨name, value, rfl, ⟨-, rfl⟩ | ⟨-, rfl⟩⟩ := applyOne_ok hset
  · exact ⟨hattributes, hspace⟩
  · refine ⟨hattributes, fun u hu => ?_⟩
    have hu : u ∈ nonempty? (some value) := hu
    obtain ⟨heq, -⟩ := Option.mem_filter_iff.mp hu
    exact Option.some.inj heq ▸ hps _ hp value rfl
  · refine ⟨fun a ha => ?_, hspace⟩
    rcases Attributes.mem_set ha with ha | rfl
    · exact hattributes a ha
    · exact hps _ hp value rfl

/-- The names of checked attributes are texts. -/
theorem ofFields_texts {fields : List (FieldName × Value)} {ps : Prepared}
    (h : ofFields true fields = .ok ps) :
  ∀ p ∈ ps, p.2.isSome → p.1.text?.isSome
  := by
  intro p hp _
  obtain ⟨name, hname, -⟩ := Option.any_eq_true _ _ |>.mp (ofFields_named h p hp)
  rw [hname, Option.isSome_some]

end Prepared

/-! ### Elements that are built -/

/-- A name is the local part of the name of an element in no namespace. -/
theorem Name.exists_qname {name : String} (hname : isName name) :
  ∃ q, QName.of? name none = some q ∧ q.localPart = name ∧ q.space = none
  := by
  have hne : name ≠ "" := by
    rintro rfl
    cases hname
  exact ⟨⟨name, none, hne, none⟩, dif_pos hne, rfl, rfl⟩

namespace Builder

/-- The mark is taken from the head of a name that is checked. -/
theorem tagName_marked {name : String} (hname : Name.isName name) :
  tagName {} (.str ("_" ++ name)) = .ok name
  := by
  have hmarked : ("_" ++ name).toList = '_' :: name.toList := by
    rw [String.toList_append]
    rfl
  have hne : "_" ++ name ≠ "" := by
    intro h
    rw [h] at hmarked
    cases hmarked
  have hwithout : withoutMark ({} : Settings).escapeMark ("_" ++ name) = .ok name := by
    have hmark : "_".toList = ['_'] := by decide
    simp only [withoutMark, hmarked, hmark]
    simp
  have hrequired : (Value.str ("_" ++ name)).requireText "name" = .ok ("_" ++ name) := by
    simp [Value.requireText, Value.wording?, hne]
  have hnamed : name ≠ "" := by
    rintro rfl
    cases hname
  simp only [tagName, hrequired, hwithout, bind, Except.bind, hnamed, if_false]
  simp [Json.counts, Name.check, hname]

section Tags

variable {name : String} {arguments : List Value} {named : List (String × Value)}
  {bag : Option (List (FieldName × Value))} {ps : Prepared} {q : QName}
  (hclassify : Arguments.classify arguments named = .ok ⟨none, bag, none⟩)
  (hps : Prepared.ofFields true (bag.getD []) = .ok ps) (hq : QName.of? name none = some q)

include hclassify hps hq

theorem elementOf_bag :
  elementOf {} name arguments named = .ok (newElement q none ps, .nothing)
  := by
  have hcopied := Prepared.copy_eq (Prepared.ofFields_texts hps) (q, [])
  simp only [elementOf, hclassify, bind, Except.bind]
  rw [show ({} : Settings).checkNames.counts = true from rfl, hps]
  simp only [hq, hcopied, Sequel.of]

/-- A tag with a bag of attributes makes a document of one element. -/
theorem runSteps_tag (hname : Name.isName name) :
  (({} : Builder).runSteps [.call "Tag" (.str ("_" ++ name) :: arguments) named]).1.draft.document
    = ⟨none, [newElement q none ps]⟩
  := by
  have happend : ({} : Draft).append (newElement q none ps)
      = .ok { document := ⟨none, [newElement q none ps]⟩ } := rfl
  have hstart : ∃ b place, b.draft.document = ⟨none, [newElement q none ps]⟩
      ∧ ({} : Builder).startElement (.str ("_" ++ name)) arguments named
        = (b, .ok (place, .nothing)) := by
    rw [startElement, tagName_marked hname, warn_eq]
    simp only [elementOf_bag hclassify hps hq, happend]
    exact ⟨_, _, rfl, rfl⟩
  obtain ⟨b, place, hdocument, hstart⟩ := hstart
  have hstep : Run.step ⟨{}, []⟩ none (.call "Tag" (.str ("_" ++ name) :: arguments) named)
      = (⟨b, []⟩, .ok ()) := by
    rw [Run.step_call, show ({} : Builder).elementCall? "Tag" (.str ("_" ++ name) :: arguments)
      = some (.str ("_" ++ name), arguments) from rfl]
    simp only [hstart, Run.callElement]
  simp only [runSteps, runStep, hstep]
  rw [render_draft, hdocument]

end Tags

end Builder

/-! ### Documents of one element -/

namespace Document

/-- A document of one element without children. -/
def ofTag (q : QName) (attributes : Attributes) : Document :=
  ⟨none, [.element q attributes []]⟩

theorem render_ofTag (layout : Layout) (q : QName) (attributes : Attributes) :
  (ofTag q attributes).render layout false
    = .ok (String.ofList (Writing.tagOpening none q attributes ++ " />".toList))
  := by
  have hnone : ∀ d ∈ (none : Option Declaration), Writing.declarationText layout d = .ok [] := by
    simp
  rw [render, ofTag, Writing.documentText_eq layout hnone (fun _ => rfl) false rfl,
    Option.isSome_none, if_neg Bool.false_ne_true, Writing.nodesText_none, Writing.compactList,
    Writing.compactList,
    Writing.compact_empty]
  simp [Except.map]

theorem looksWide_tag {q : QName} (hq : Name.isName q.localPart) (attributes : Attributes)
    (rest : List Char) :
  Reading.looksWide (Writing.tagOpening none q attributes ++ rest) = false
  := by
  unfold Name.isName at hq
  split at hq
  · cases hq
  · rename_i c cs hc
    have hzero : c ≠ '\x00' := by
      rintro rfl
      exact absurd (Bool.and_eq_true_iff.mp hq).1 (by decide)
    rw [Writing.tagOpening, hc]
    simp [Reading.looksWide, hzero]

/-- An element whose name and whose attributes a reader takes can be written and read again. -/
theorem isRewritable_ofTag {q : QName} {attributes : Attributes}
    (hname : Reading.IsReadName q.localPart) (hown : q.member = none)
    (hattributes : ∀ a ∈ attributes, Reading.IsReadName a.1 ∧ isCharText a.2)
    (hspace : ∀ u ∈ q.space, isCharText u) (hsound : (Node.element q attributes []).IsSound) :
  (ofTag q attributes).IsRewritable {}
  := by
  have hletters : IsPlainName ({} : Medium).alphabet "xmlns".toList :=
    Reading.isPlainName_letters _ (by decide) (List.all_iff_forall_prop.mp (by decide))
  have htyped (element other value : List Char) :
      Reading.IsTyped (({} : Reading.Declarations).isPlainAt element other) value := by
    simp [Reading.Declarations.isPlainAt, Reading.IsTyped]
  have htag : Writing.IsTag ({} : Medium).alphabet {} none q attributes := by
    refine ⟨hname, ?_, hsound.1, hsound.2, hown⟩
    intro p hp
    rw [Writing.tagAttributes, List.mem_append] at hp
    rcases hp with hp | hp
    · obtain ⟨hplain, hvalue⟩ := hattributes p hp
      exact ⟨hplain, Reading.Medium.isXmlChar_of_isCharText hvalue, htyped _ _ _⟩
    · obtain ⟨uri, hdeclared, rfl⟩ := List.mem_map.mp hp
      have hown := (Writing.declared_some (Option.mem_toList.mp hdeclared)).1
      have hread : Reading.IsRead ({} : Medium).alphabet {} q.localPart.toList
          ("xmlns".toList, uri.toList) :=
        ⟨hletters, Reading.Medium.isXmlChar_of_isCharText (hspace uri hown), htyped _ _ _⟩
      exact hread
  refine ⟨rfl, {}, [], [], .element q attributes [], [], rfl, ?_⟩
  exact {
    leading := .bare (by simp)
    unquoted := by simp [Reading.AreUnquoted]
    opening := by simp [Reading.AreComments]
    isElement := rfl
    writable := ⟨htag, trivial⟩
    closing := by simp [Reading.AreComments] }

/-- The names of a root that was read are names of the reader. -/
theorem isReadName_of_read {markup : String} {d : Document}
    (h : readDocument (.text markup) = .ok d) (hlooks : Reading.looksWide markup.toList = false)
    {name : String} {space : Option String} {attributes : Attributes}
    (hroot : d.rootTag? = some (name, space, attributes)) :
  Reading.IsReadName name ∧ ∀ a ∈ attributes, Reading.IsReadName a.1
  := by
  obtain ⟨m, declarations, front, others, haccepted, hplain, -⟩ := readDocument_ok h
  obtain rfl := hplain markup rfl hlooks
  obtain ⟨n, hn, htag⟩ := Option.bind_eq_some_iff.mp hroot
  have helement : n.isElement := List.find?_some hn
  have hmem : n ∈ others := by
    have hchild := List.mem_of_find?_eq_some hn
    rw [haccepted.children, List.mem_append] at hchild
    refine hchild.resolve_left fun hfront => ?_
    rw [haccepted.front.isElement_eq_false n hfront] at helement
    cases helement
  obtain ⟨scope, hwritable⟩ := haccepted.others.writable.nodes n
    (Node.mem_nodesList.mpr ⟨n, hmem, Node.mem_nodes n⟩)
  cases n with
  | element q found children =>
      cases htag
      exact ⟨hwritable.1.plain, fun a ha =>
        (hwritable.1.read a (List.mem_append_left _ ha)).name⟩
  | _ => cases helement

theorem rootTag?_ofTag (q : QName) (attributes : Attributes) :
  (ofTag q attributes).unified.normal.rootTag?
    = some (q.localPart, Writing.innerScope none q, attributes)
  := rfl

end Document

open Reading (IsReadName)

section Tags

variable {name : String} {arguments : List Value} {named : List (String × Value)}
  {bag : Option (List (FieldName × Value))} {ps : Prepared} {q : QName}

/-- A tag with a bag of attributes is written, and it is read back with its attributes just if a
reader takes its name and theirs. -/
theorem Builder.tag_read_back (hname : Name.isName name)
    (hclassify : Arguments.classify arguments named = .ok ⟨none, bag, none⟩)
    (hps : Prepared.ofFields true (bag.getD []) = .ok ps)
    (hchars : ∀ p ∈ ps, ∀ s ∈ p.2, isCharText s) (hq : QName.of? name none = some q) :
  let b := (({} : Builder).runSteps [.call "Tag" (.str ("_" ++ name) :: arguments) named]).1
  let tag := ps.apply q []
  let markup := String.ofList (Writing.tagOpening none tag.1 tag.2 ++ " />".toList)
  (b.render false).2 = .ok markup
    ∧ (IsReadName name → (∀ a ∈ tag.2, IsReadName a.1) →
      ∃ d, readDocument (.text markup) = .ok d
        ∧ d.rootTag? = some (name, Writing.innerScope none tag.1, tag.2))
    ∧ ∀ d space attributes, readDocument (.text markup) = .ok d →
      d.rootTag? = some (name, space, attributes) →
      IsReadName name ∧ ∀ a ∈ attributes, IsReadName a.1
  := by
  intro b tag markup
  have hdocument : b.draft.document = Document.ofTag tag.1 tag.2 :=
    Builder.runSteps_tag hclassify hps hq hname
  have helement := Builder.elementOf_bag hclassify hps hq
  have hlocal : tag.1.localPart = name := Option.some.inj (Builder.elementOf_localPart helement)
  have hrender := Document.render_ofTag standardLayout tag.1 tag.2
  refine ⟨?_, ?_, ?_⟩
  · have hsettings := Builder.settings_runSteps
      [.call "Tag" (.str ("_" ++ name) :: arguments) named] {}
    have hlayout : b.settings.layout = .checked standardLayout := by
      rw [hsettings]
      rfl
    apply Builder.render_document hlayout
    · exact ⟨.utf8, by rw [hdocument]; rfl⟩
    · rw [hdocument, hrender]
  · intro hread hattributes
    have hsound : (Node.element tag.1 tag.2 []).IsSound :=
      (Builder.elementOf_made (fun _ => hname) helement _ (Node.mem_nodes _)).sound
    have hspace : ∀ u ∈ q.space, isCharText u := by
      obtain ⟨_, hq', -, hnone⟩ := Name.exists_qname hname
      obtain rfl := Option.some.inj (hq.symm.trans hq')
      simp [hnone]
    have hnone : ∀ a ∈ ([] : Attributes), isCharText a.2 := by simp
    obtain ⟨hvalues, huri⟩ := Prepared.apply_values (P := fun s => isCharText s) hchars hnone hspace
    have hown : tag.1.member = none :=
      (ps.apply_name q []).2.trans (QName.of?_eq_some hq).2.2
    have hrewritable := Document.isRewritable_ofTag (by rw [hlocal]; exact hread) hown
      (fun a ha => ⟨hattributes a ha, hvalues a ha⟩) huri hsound
    obtain ⟨head, hhead⟩ :=
      Writing.exists_head isStandard_standardLayout hrewritable.declaration
    have hmarkup := (hrewritable.rewrite hhead).1
    rw [hrender, Except.ok.injEq] at hmarkup
    refine ⟨(Document.ofTag tag.1 tag.2).unified.normal, ?_, ?_⟩
    · have hbare : Reading.AreBare (Document.ofTag tag.1 tag.2).children := by
        simp [Reading.AreBare, Document.ofTag]
      have hagain := hrewritable.read_bare hbare hhead
      rwa [← hmarkup] at hagain
    · rw [Document.rootTag?_ofTag, hlocal]
  · intro d space attributes hd hroot
    refine Document.isReadName_of_read hd ?_ hroot
    rw [String.toList_ofList]
    exact Document.looksWide_tag (by rw [hlocal]; exact hname) _ _

end Tags

/-- An element without attributes whose name was checked is written with that name, and its root is
read back with it and in no namespace just if a reader takes it for a name.  With a bag of checked
attributes of characters of documents all of them but the one that declares a namespace are read
back under their names just if a reader takes these for names. -/
theorem checked_names_read_back :
  (∀ name, Name.isName name →
      let b := (({} : Builder).runSteps [.call "Tag" [.str ("_" ++ name)] []]).1
      (b.render false).2 = .ok ("<" ++ name ++ " />")
        ∧ ((∃ d, readDocument (.text ("<" ++ name ++ " />")) = .ok d
            ∧ d.rootTag? = some (name, none, [])) ↔ IsReadName name))
    ∧ ∀ name arguments named bag ps, Name.isName name → IsReadName name →
      Arguments.classify arguments named = .ok ⟨none, bag, none⟩ →
      Prepared.ofFields true (bag.getD []) = .ok ps → (∀ p ∈ ps, ∀ s ∈ p.2, isCharText s) →
      let b := (({} : Builder).runSteps [.call "Tag" (.str ("_" ++ name) :: arguments) named]).1
      ∃ markup, (b.render false).2 = .ok markup
        ∧ ((∃ d space attributes, readDocument (.text markup) = .ok d
            ∧ d.rootTag? = some (name, space, attributes)
            ∧ ∀ other value, (.text other, some value) ∈ ps → other ≠ "xmlns" →
              other ∈ attributes.map Prod.fst)
          ↔ ∀ other value, (.text other, some value) ∈ ps → other ≠ "xmlns" → IsReadName other)
  := by
  constructor
  · intro name hname b
    obtain ⟨q, hq, hlocal, hspace⟩ := Name.exists_qname hname
    have hclassify : Arguments.classify [] [] = .ok ⟨none, none, none⟩ := rfl
    have hps : Prepared.ofFields true ((none : Option (List (FieldName × Value))).getD []) = .ok [] :=
      rfl
    obtain ⟨hmarkup, hback, hnames⟩ := Builder.tag_read_back hname hclassify hps (by simp) hq
    have hinner : Writing.innerScope none q = none := by
      rw [Writing.innerScope, hspace]
      rfl
    have htext : String.ofList (Writing.tagOpening none q [] ++ " />".toList)
        = "<" ++ name ++ " />" := by
      have hplain : Writing.tagAttributes none q [] = [] := by
        simp [Writing.tagAttributes, Writing.declared, hspace, nonempty?]
      rw [← String.toList_inj, String.toList_ofList, Writing.tagOpening, hplain, hlocal]
      simp [Writing.attributesText]
    rw [Prepared.apply, Prepared.copy, htext] at hmarkup hback hnames
    refine ⟨hmarkup, ?_, ?_⟩
    · rintro ⟨d, hd, hroot⟩
      exact (hnames d none [] hd hroot).1
    · intro hread
      obtain ⟨d, hd, hroot⟩ := hback hread (by simp)
      exact ⟨d, hd, by rw [hroot, hinner]⟩
  · intro name arguments named bag ps hname hread hclassify hps hchars b
    obtain ⟨q, hq, -, -⟩ := Name.exists_qname hname
    obtain ⟨hmarkup, hback, hnames⟩ := Builder.tag_read_back hname hclassify hps hchars hq
    refine ⟨_, hmarkup, ?_, ?_⟩
    · rintro ⟨d, space, attributes, hd, hroot, hkept⟩ other value hp hne
      obtain ⟨a, ha, heq⟩ := List.mem_map.mp (hkept other value hp hne)
      exact heq ▸ (hnames d space attributes hd hroot).2 a ha
    · intro hattributes
      have htexts := Prepared.ofFields_texts hps
      obtain ⟨d, hd, hroot⟩ := hback hread (fun a ha => by
        obtain hnone | ⟨hne, value, hp⟩ := (Prepared.mem_apply htexts).mp (List.mem_map_of_mem ha)
        · cases hnone
        · exact hattributes a.1 value hp hne)
      refine ⟨d, _, _, hd, hroot, fun other value hp hne => ?_⟩
      exact (Prepared.mem_apply htexts).mpr (.inr ⟨hne, value, hp⟩)

/-- An element with an accented name, and one with a namespace and an accented attribute. -/
theorem checked_names_read_back_of_accents :
  let arguments : List Value := [.mapping [(.str "xmlns", .str "u"), (.str "ö", .str "1")]]
  let b := (({} : Builder).runSteps [.call "Tag" (.str ("_" ++ "a") :: arguments) []]).1
  (∃ d, readDocument (.text ("<" ++ "é" ++ " />")) = .ok d
      ∧ d.rootTag? = some ("é", none, []))
    ∧ ∃ markup d space attributes, (b.render false).2 = .ok markup
      ∧ readDocument (.text markup) = .ok d ∧ d.rootTag? = some ("a", space, attributes)
      ∧ "ö" ∈ attributes.map Prod.fst
  := by
  intro arguments b
  obtain ⟨⟨hname, hother, -⟩, hstart, hstartOther, -⟩ := Reading.start_letters
  have haccent : IsReadName "é" := Reading.isPlainName_cons hstart (by simp)
  have hattribute : IsReadName "ö" := Reading.isPlainName_cons hstartOther (by simp)
  have hletter : IsReadName "a" := Reading.isPlainName_of_asciiName nofun (by cbv)
  have hps : Prepared.ofFields true [(.text "xmlns", .str "u"), (.text "ö", .str "1")]
      = .ok [(.text "xmlns", some "u"), (.text "ö", some "1")] := by
    cbv
  refine ⟨(checked_names_read_back.1 "é" hname).2.mpr haccent, ?_⟩
  obtain ⟨markup, hmarkup, hattributes⟩ := checked_names_read_back.2 "a" arguments []
    (some [(.text "xmlns", .str "u"), (.text "ö", .str "1")])
    [(.text "xmlns", some "u"), (.text "ö", some "1")] (by cbv) hletter rfl hps (by decide)
  obtain ⟨d, space, attributes, hd, hroot, hkept⟩ := hattributes.mpr (by
    intro other value hp hne
    rcases List.mem_cons.mp hp with hp | hp
    · cases hp
      exact absurd rfl hne
    · cases List.mem_singleton.mp hp
      exact hattribute)
  exact ⟨markup, d, space, attributes, hmarkup, hd, hroot,
    hkept "ö" "1" (by simp) (by decide)⟩

/-- A ligature that is a letter in the fifth edition and not in the fourth one is checked and
written as the name of an element and of an attribute, and no document is read with them. -/
theorem checked_names_not_read :
  let written (arguments : List Value) :=
    ((({} : Builder).runSteps [.call "Tag" arguments []]).1.render false).2
  Name.isName "Ĳ"
    ∧ (written [.str ("_" ++ "Ĳ")] = .ok "<Ĳ />"
      ∧ ∀ d space attributes, readDocument (.text "<Ĳ />") = .ok d →
          d.rootTag? ≠ some ("Ĳ", space, attributes))
    ∧ (written [.str ("_" ++ "a"), .mapping [(.str "Ĳ", .str "1")]] = .ok "<a Ĳ=\"1\" />"
      ∧ ∀ d space attributes, readDocument (.text "<a Ĳ=\"1\" />") = .ok d →
          d.rootTag? = some ("a", space, attributes) → "Ĳ" ∉ attributes.map Prod.fst)
  := by
  obtain ⟨⟨-, -, hname⟩, -, -, hstart⟩ := Reading.start_letters
  have hnot : ¬ IsReadName "Ĳ" := by
    rintro ⟨hread, -⟩
    rw [show "Ĳ".toList = ['Ĳ'] from rfl, List.head?_cons, Option.any_some, hstart] at hread
    cases hread
  have hempty : Arguments.classify [] [] = .ok ⟨none, none, none⟩ := rfl
  have hnone : Prepared.ofFields true ((none : Option (List (FieldName × Value))).getD []) = .ok [] :=
    rfl
  have hbag : Arguments.classify [.mapping [(.str "Ĳ", .str "1")]] []
      = .ok ⟨none, some [(.text "Ĳ", .str "1")], none⟩ := rfl
  have hps : Prepared.ofFields true ((some [(FieldName.text "Ĳ", Value.str "1")]).getD [])
      = .ok [(.text "Ĳ", some "1")] := by
    cbv
  have hletter : Name.isName "a" := by cbv
  obtain ⟨helement, -, hnames⟩ := Builder.tag_read_back hname hempty hnone (by simp)
    (show QName.of? "Ĳ" none = some ⟨"Ĳ", none, by decide, none⟩ from rfl)
  obtain ⟨hattribute, -, hothers⟩ := Builder.tag_read_back hletter hbag hps (by decide)
    (show QName.of? "a" none = some ⟨"a", none, by decide, none⟩ from rfl)
  refine ⟨hname, ⟨helement, ?_⟩, hattribute, ?_⟩
  · intro d space attributes hd hroot
    exact hnot (hnames d space attributes hd hroot).1
  · intro d space attributes hd hroot hmem
    obtain ⟨a, ha, heq⟩ := List.mem_map.mp hmem
    exact hnot (heq ▸ (hothers d space attributes hd hroot).2 a ha)

end XmlDraft
