import XmlDraft.Proofs.Writable
import Mathlib.Data.List.TakeDrop
import Mathlib.Data.List.TakeWhile

/-!
# Tags whose names are resolved

Where names are taken apart, one without a colon has no prefix, and an attribute of such a name is
in no namespace.  An element declares its namespace behind its attributes, as the default one.
Main statement: the tag of an element that can be written is resolved to the name of the element in
the namespace that is in scope inside it, whatever else is in scope around it.
-/

namespace XmlDraft

namespace Reading

/-! ### Names without colons -/

theorem span_whole {name : List Char} (h : ':' ∉ name) :
  name.span (· ≠ ':') = (name, [])
  := by
  have hkept : ∀ c ∈ name, decide (c ≠ ':') = true :=
    fun c hc => decide_eq_true fun heq => h (heq ▸ hc)
  rw [List.span_eq_takeWhile_dropWhile, List.takeWhile_eq_self_iff.mpr hkept,
    List.dropWhile_eq_nil_iff.mpr hkept]

theorem splitName?_eq_none {name : List Char} (h : ':' ∉ name) :
  splitName? name = none
  := by
  rw [splitName?, span_whole h]

/-- A name without a colon declares a namespace only if it is the one that does. -/
theorem declaredPrefix?_eq_none {name : List Char} (h : ':' ∉ name) (hne : name ≠ "xmlns".toList) :
  declaredPrefix? name = none
  := by
  rw [declaredPrefix?, if_neg hne, splitName?_eq_none h]

/-- Names of an alphabet that divides them hold no colons. -/
theorem IsPlainName.colon_notMem {a : Alphabet} (ha : a.divides) {name : List Char}
    (h : IsPlainName a name) :
  ':' ∉ name
  := by
  intro hmem
  have hcolon : a.isInner ':' = false := by
    rw [Alphabet.isInner_eq a (by decide), ha]
    decide
  exact Bool.false_ne_true (hcolon.symm.trans (h.inner _ hmem))

theorem labelOf_whole {name : List Char} (h : ':' ∉ name) (scope : Scope)
    (space : Option (List Char)) (start : List Char) :
  labelOf scope space name start
    = .ok ⟨String.ofList name, space.map String.ofList, String.ofList name⟩
  := by
  rw [labelOf, splitName?_eq_none h]

/-- The attributes of a tag, none of which is in a namespace. -/
def plainLabels (attributes : Attributes) : List (Label × String) :=
  attributes.map fun a => (⟨a.1, none, a.1⟩, a.2)

theorem labelsOf_whole {attributes : Attributes} (h : ∀ a ∈ attributes, ':' ∉ a.1.toList)
    (scope : Scope) (start : List Char) (seen : List Label) :
  labelsOf scope start seen (attributes.map fun a => (a.1.toList, a.2.toList))
    = .ok (plainLabels attributes)
  := by
  induction attributes generalizing seen with
  | nil => rfl
  | cons a others ih =>
      obtain ⟨ha, hothers⟩ := List.forall_mem_cons.mp h
      simp [labelsOf, labelOf_whole ha, ih hothers, plainLabels, bind, Except.bind]

/-! ### Declarations of namespaces -/

/-- A namespace that a tag may declare as the default one, given the character that stands between a
namespace and a local part: it does not hold the character, and it is none of those that have a
prefix of their own. -/
structure IsDeclarable (separator : Char) (uri : String) : Prop where
  separator : separator ∉ uri.toList
  xml : uri.toList ≠ xmlSpace
  xmlns : uri.toList ≠ xmlnsSpace

theorem Scope.refusal?_eq_none {separator : Char} {uri : String} (h : IsDeclarable separator uri) :
  refusal? separator [] uri.toList = none
  := by
  simp [refusal?, h.separator, h.xml, h.xmlns]

theorem Scope.hasDefault_initial :
  initial.HasDefault none
  := rfl

/-- The namespaces in scope inside an element that was written. -/
def Scope.inside (s : Scope) (outer : Option String) (name : QName) : Scope :=
  (Writing.declared outer name).toList.map (fun uri => ([], uri.toList)) ++ s

theorem Scope.HasDefault.inside {s : Scope} {outer : Option String} (h : s.HasDefault outer)
    (name : QName) :
  (s.inside outer name).HasDefault (Writing.innerScope outer name)
  := by
  rw [HasDefault, Scope.inside, ← Writing.declared_or]
  cases hdeclared : Writing.declared outer name with
  | none => exact h
  | some uri =>
      have hne : uri ≠ "" := by
        rintro rfl
        exact absurd (Writing.declared_some hdeclared).2 (by decide)
      simp [space?, hne]

/-- The tag of an element that was written, with its name resolved: the element is in the namespace
in scope inside it, its attributes are in none, and it declares its namespace unless that is the one
around it. -/
def scopedTag (outer : Option String) (name : QName) (attributes : Attributes) : Tag where
  name := ⟨name.localPart, Writing.innerScope outer name, name.localPart⟩
  given := plainLabels attributes
  defaulted := []
  declared := (Writing.declared outer name).toList.map fun uri => (none, some uri)

namespace Held

variable {m : Medium} {d : Declarations} {opened : List (List Char)} {separator : Option Char}
  {direct : Option Nat} {element start : List Char}

theorem readAll_append (h : Held) (before after : List RawAttribute) :
  h.readAll m d opened separator direct element start (before ++ after)
    = (h.readAll m d opened separator direct element start before).bind fun h =>
        h.readAll m d opened separator direct element start after
  := by
  induction before generalizing h with
  | nil => rfl
  | cons a others ih =>
      simp only [List.cons_append, readAll, bind]
      cases h.read m d opened separator direct element start a with
      | error f => rfl
      | ok next => exact ih next

/-- The attribute that declares the default namespace is read as its declaration. -/
theorem read_default (d : Declarations) (opened : List (List Char)) (direct : Option Nat)
    (start : List Char) {separator : Char} {uri : String}
    (huri : IsDeclarable separator uri) {a : RawAttribute}
    (ha : (a.name, a.value) = ("xmlns".toList, Writing.escapeValue uri.toList))
    (htyped : IsTyped (d.isPlainAt element "xmlns".toList) uri.toList) (h : Held)
    (hfresh : "xmlns".toList ∉ h.names) :
  h.read m d opened (some separator) direct element start a
    = .ok { h with
        names := "xmlns".toList :: h.names
        scope := ([], uri.toList) :: h.scope
        declared := ([], uri.toList) :: h.declared }
  := by
  obtain ⟨hname, hvalue⟩ := Prod.mk.injEq .. ▸ ha
  have hread := attributeValue_escapeValue (m := m) d opened direct h.spent htyped
  have hprefix : declaredPrefix? "xmlns".toList = some [] := if_pos rfl
  unfold Declarations.isPlainAt at hread
  simp only [read, hname, hfresh, ite_false, hvalue, hread, add, hprefix, Option.map_some,
    Option.bind_some, Scope.refusal?_eq_none huri]

/-- The attributes of an element that was written are given, and its namespace is declared. -/
theorem readAll_written (opened : List (List Char)) (direct : Option Nat) (start : List Char)
    {separator : Char} (hm : m.alphabet.divides) {outer : Option String} {name : QName}
    {attributes : Attributes}
    (htag : Writing.IsTag m.alphabet d outer name attributes)
    (hspace : ∀ uri ∈ name.space, IsDeclarable separator uri) {raws : List RawAttribute}
    (hraws : raws.map (fun a => (a.name, a.value))
      = Medium.rawParts (Writing.tagAttributes outer name attributes)) (scope : Scope)
    (spent : Nat) :
  ∃ names, Held.readAll m d opened (some separator) direct name.localPart.toList start
      ⟨[], [], scope, [], spent⟩ raws
    = .ok ⟨names, (attributes.map fun a => (a.1.toList, a.2.toList)).reverse,
        scope.inside outer name,
        (Writing.declared outer name).toList.map fun uri => ([], uri.toList), spent⟩
  := by
  have hread : ∀ p ∈ attributes, IsRead m.alphabet d name.localPart.toList
      (p.1.toList, p.2.toList) := fun p hp => htag.read p (List.mem_append_left _ hp)
  have hnothing : ∀ p ∈ attributes, DeclaresNothing (some separator) p.1.toList := by
    intro p hp
    refine .inr (declaredPrefix?_eq_none ((hread p hp).name.colon_notMem hm) fun heq => ?_)
    exact htag.space (List.mem_map.mpr ⟨p, hp, String.toList_injective heq⟩)
  rw [Medium.rawParts, Writing.tagAttributes, List.map_append] at hraws
  obtain ⟨before, last, rfl, hbefore, hlast⟩ := List.map_eq_append_iff.mp hraws
  have hgiven := readAll_rawParts (m := m) d opened direct name.localPart.toList start attributes
    before hbefore (fun p hp => (hread p hp).typed) hnothing htag.nodup ⟨[], [], scope, [], spent⟩
    (fun _ _ => List.not_mem_nil)
  rw [readAll_append, hgiven]
  cases hdeclared : Writing.declared outer name with
  | none =>
      rw [hdeclared] at hlast
      cases List.map_eq_nil_iff.mp hlast
      simp [readAll, Except.bind, Scope.inside, hdeclared]
  | some uri =>
      rw [hdeclared] at hlast
      obtain ⟨a, rfl, ha⟩ := List.map_eq_singleton_iff.mp hlast
      have hown : uri ∈ name.space := (Writing.declared_some hdeclared).1
      have hmem : ("xmlns", uri) ∈ Writing.tagAttributes outer name attributes :=
        List.mem_append_right _ (by simp [hdeclared])
      have hdeclaration : IsRead m.alphabet d name.localPart.toList ("xmlns".toList, uri.toList) :=
        htag.read _ hmem
      have htyped := hdeclaration.typed
      have hfresh : "xmlns".toList ∉ (attributes.map fun a => a.1.toList).reverse ++ [] := by
        rw [List.append_nil, List.mem_reverse]
        intro hmem
        obtain ⟨p, hp, heq⟩ := List.mem_map.mp hmem
        exact htag.space (List.mem_map.mpr ⟨p, hp, String.toList_injective heq⟩)
      let given : Held := ⟨(attributes.map fun a => a.1.toList).reverse ++ [],
        (attributes.map fun a => (a.1.toList, a.2.toList)).reverse ++ [], scope, [], spent⟩
      have hdefault := read_default (m := m) d opened direct start (hspace uri hown) ha htyped given
        hfresh
      refine ⟨"xmlns".toList :: given.names, ?_⟩
      simp only [Except.bind, readAll, bind]
      rw [hdefault]
      simp [given, Scope.inside, hdeclared]

end Held

/-- The tag of an element that was written is resolved to the name of the element in the namespace
in scope inside it, where no attributes are declared. -/
theorem resolveTag_written {m : Medium} (hm : m.alphabet.divides) {separator : Char}
    {d : Declarations} (hd : d.attributes = []) (opened : List (List Char)) (direct : Option Nat)
    (spent : Nat)
    (start : List Char) {scope : Scope} {outer : Option String} (hscope : scope.HasDefault outer)
    {name : QName} {attributes : Attributes}
    (htag : Writing.IsTag m.alphabet d outer name attributes)
    (hspace : ∀ uri ∈ name.space, IsDeclarable separator uri) {raws : List RawAttribute}
    (hraws : raws.map (fun a => (a.name, a.value))
      = Medium.rawParts (Writing.tagAttributes outer name attributes)) (isEmpty : Bool) :
  resolveTag m d opened (some separator) direct start scope spent
      ⟨name.localPart.toList, raws, isEmpty⟩
    = .ok (scopedTag outer name attributes, scope.inside outer name, spent)
  := by
  obtain ⟨names, hread⟩ := Held.readAll_written opened direct start hm htag hspace hraws scope spent
  have hnone : d.attributesOf name.localPart.toList = [] := by simp [Declarations.attributesOf, hd]
  have hcolons : ∀ a ∈ attributes, ':' ∉ a.1.toList := fun a ha =>
    (htag.read a (List.mem_append_left _ ha)).name.colon_notMem hm
  have hdefault : ((scope.inside outer name).space? []).map String.ofList
      = Writing.innerScope outer name := by
    rw [hscope.inside name]
    cases Writing.innerScope outer name <;> simp
  have hdeclared : (Writing.declared outer name).toList.map (fun uri =>
      (nonempty? (some (String.ofList [])), nonempty? (some (String.ofList uri.toList))))
      = (Writing.declared outer name).toList.map fun uri => (none, some uri) := by
    refine List.map_congr_left fun uri huri => ?_
    have hown := (Writing.declared_some (Option.mem_toList.mp huri)).2
    rw [String.ofList_toList, hown]
    rfl
  have hlabels : (plainLabels attributes).length = attributes.length := List.length_map _
  simp only [resolveTag, hread, bind, Except.bind, hnone, Held.addDefaults, tagOf,
    List.reverse_reverse, labelsOf_whole hcolons, labelOf_whole (htag.plain.colon_notMem hm), hdefault,
    String.ofList_toList, List.length_reverse, List.length_map, ← hlabels, List.take_length,
    List.drop_length]
  cases hspace : Writing.declared outer name with
  | none => simp [scopedTag, hspace]
  | some uri =>
      rw [hspace] at hdeclared
      simpa [scopedTag, hspace] using hdeclared

end Reading

end XmlDraft
