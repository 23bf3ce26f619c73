import XmlDraft.Proofs.Assembling
import XmlDraft.Proofs.TopLevel
import XmlDraft.Proofs.Typed
import Mathlib.Data.List.Chain

/-!
# Documents that are put together

What a reader puts together can be written: its names are plain, its strings consist of
characters of documents, and the value of each attribute is of the type that was declared for it.
It is also as reading leaves it: texts stand apart, and sections and comments are as they were
written.  The namespace of an element is declared by the element, or it is the one that writing
has in scope.  Main statement: an assembly keeps all of this with every tag, every node and every
text that is added to it.
-/

namespace XmlDraft

open Reading (Alphabet Declarations IsPlainName IsRead isXmlChar)

/-! ### Nodes -/

/-- A tag that can be written and read again, where attributes are of the types that were declared
for them: its name and those of its attributes are plain, the name is printed as it is, and no two
attributes have the same. -/
structure Writing.IsTag (a : Alphabet) (d : Declarations) (scope : Option String) (name : QName)
    (attributes : Attributes) : Prop where
  plain : IsPlainName a name.localPart.toList
  read : ∀ p ∈ Writing.tagAttributes scope name attributes,
    IsRead a d name.localPart.toList (p.1.toList, p.2.toList)
  nodup : (attributes.map Prod.fst).Nodup
  space : "xmlns" ∉ attributes.map Prod.fst
  own : name.member = none

namespace Node

mutual

/-- A node that can be written and read again inside a root, given the default namespace that
writing has in scope. -/
def IsWritable (a : Alphabet) (d : Declarations) (scope : Option String) : Node → Prop
  | .element name attributes children =>
    Writing.IsTag a d scope name attributes
      ∧ AreWritable a d (Writing.innerScope scope name) children
  | .text value => isCharText value ∧ value ≠ ""
  | .cdata value => isCharText value ∧ value ≠ ""
  | .comment value =>
    (isCharText value.text ∧ breaksComment value.text.toList = false) ∧ value.member = none
  | .doctype _ => False

/-- Nodes that can be written and read again. -/
def AreWritable (a : Alphabet) (d : Declarations) (scope : Option String) : List Node → Prop
  | [] => True
  | n :: ns => IsWritable a d scope n ∧ AreWritable a d scope ns

end

/-- Whether a node is a text. -/
def isText : Node → Bool
  | .text _ => true
  | _ => false

/-- Two nodes of which one at least is no text. -/
def StandApart (m n : Node) : Prop :=
  m.isText = false ∨ n.isText = false

/-- A node as reading leaves it: the namespace of an element is not empty, and its texts stand
apart; a section holds no end of one, and carriage returns only where entities were declared; a
comment holds no carriage return. -/
def IsAsRead (d : Declarations) : Node → Prop
  | .element name _ children => name.space ≠ some "" ∧ children.IsChain StandApart
  | .text _ => True
  | .cdata value => Writing.HoldsNoEnd value.toList ∧ ('\r' ∈ value.toList → d.entities ≠ [])
  | .comment value => '\r' ∉ value.printed.toList
  | .doctype _ => True

theorem areWritable_append {a : Alphabet} {d : Declarations} {scope : Option String}
    {before after : List Node} :
  AreWritable a d scope (before ++ after)
    ↔ AreWritable a d scope before ∧ AreWritable a d scope after
  := by
  induction before with
  | nil => simp [AreWritable]
  | cons n ns ih => simp [AreWritable, ih, and_assoc]

section Nodes

variable {a : Alphabet} {d : Declarations}

mutual

/-- Every node of a tree that can be written can be written where it stands. -/
theorem IsWritable.nodes {scope : Option String} {n : Node} (h : n.IsWritable a d scope) :
  ∀ m ∈ n.nodes, ∃ inner, m.IsWritable a d inner
  := by
  cases n with
  | element name attributes children =>
      rw [forall_nodes_element]
      exact ⟨⟨scope, h⟩, AreWritable.nodes h.2⟩
  | text value => simpa [Node.nodes] using ⟨scope, h⟩
  | cdata value => simpa [Node.nodes] using ⟨scope, h⟩
  | comment value => simpa [Node.nodes] using ⟨scope, h⟩
  | doctype t => exact h.elim

theorem AreWritable.nodes {scope : Option String} {ns : List Node} (h : AreWritable a d scope ns) :
  ∀ m ∈ nodesList ns, ∃ inner, m.IsWritable a d inner
  := by
  cases ns with
  | nil => simp [nodesList]
  | cons n ns =>
      rw [forall_nodesList_cons]
      exact ⟨IsWritable.nodes h.1, AreWritable.nodes h.2⟩

end

/-- A node that can be written is of a form that calls give to nodes. -/
theorem IsWritable.isSound {scope : Option String} {n : Node} (h : n.IsWritable a d scope) :
  n.IsSound
  := by
  cases n with
  | element name attributes children => exact ⟨h.1.nodup, h.1.space⟩
  | text value => exact h.2
  | cdata value => exact h.2
  | comment value => exact h.1.2
  | doctype t => exact h

theorem IsWritable.not_doctype {scope : Option String} {n : Node} (h : n.IsWritable a d scope) :
  ¬ n.isDoctype
  := by
  cases n with
  | doctype t => exact h.elim
  | _ => exact Bool.false_ne_true

mutual

/-- Nodes that can be read from their markup can be written wherever no attributes are declared and
their names are not divided. -/
theorem isWritable_of_readable (hd : d.attributes = []) (scope : Option String) {n : Node}
    (hnames : a.divides → ∀ m ∈ n.nodes, m.isUnprefixed) (h : ∀ m ∈ n.nodes, m.IsReadable) :
  n.IsWritable a d scope
  := by
  have hreadable := h n (mem_nodes n)
  cases n with
  | element name attributes children =>
      rw [forall_nodes_element] at h
      have hplain {s : String} (hs : s ∈ (element name attributes children).tagNames)
          (hname : isAsciiName s) : IsPlainName a s.toList := by
        refine Reading.isPlainName_of_asciiName (fun hdivides => ?_) hname
        have hown := List.all_eq_true.mp (hnames hdivides _ (mem_nodes _)) s hs
        simpa using hown
      obtain ⟨⟨hlegible, hown⟩, hnodup, hspace⟩ := hreadable
      simp only [isLegible, Bool.and_eq_true, List.all_eq_true] at hlegible
      obtain ⟨⟨hname, huri⟩, hattributes⟩ := hlegible
      have htyped (element other value : List Char) :
          Reading.IsTyped (d.isPlainAt element other) value := by
        simp [Declarations.isPlainAt, hd, Reading.IsTyped]
      have hchars {s : String} (hs : isCharText s) := Reading.Medium.isXmlChar_of_isCharText hs
      refine ⟨⟨hplain List.mem_cons_self hname, ?_, hnodup, hspace,
          Option.isNone_iff_eq_none.mp hown⟩,
        areWritable_of_readable hd _
          (fun hdivides => (forall_nodes_element.mp (hnames hdivides)).2) h.2⟩
      intro p hp
      rw [Writing.tagAttributes, List.mem_append] at hp
      rcases hp with hp | hp
      · obtain ⟨hascii, hvalue⟩ := hattributes p hp
        have hmem := List.mem_cons_of_mem name.localPart (List.mem_map_of_mem (f := Prod.fst) hp)
        exact ⟨hplain hmem hascii, hchars hvalue, htyped _ _ _⟩
      · obtain ⟨uri, hdeclared, rfl⟩ := List.mem_map.mp hp
        have hown := (Writing.declared_some (Option.mem_toList.mp hdeclared)).1
        have hletters : IsPlainName a "xmlns".toList := Reading.isPlainName_letters _ (by decide)
          (List.all_iff_forall_prop.mp (by decide))
        have hread : IsRead a d name.localPart.toList ("xmlns".toList, uri.toList) :=
          ⟨hletters, hchars (by simpa [hown] using huri), htyped _ _ _⟩
        exact hread
  | text value => exact ⟨hreadable.1.1, hreadable.2⟩
  | cdata value => exact ⟨hreadable.1.1, hreadable.2⟩
  | comment value =>
      exact ⟨⟨hreadable.1.1, hreadable.2⟩, Option.isNone_iff_eq_none.mp hreadable.1.2⟩
  | doctype t => exact hreadable.2

theorem areWritable_of_readable (hd : d.attributes = []) (scope : Option String) {ns : List Node}
    (hnames : a.divides → ∀ m ∈ nodesList ns, m.isUnprefixed)
    (h : ∀ m ∈ nodesList ns, m.IsReadable) :
  AreWritable a d scope ns
  := by
  cases ns with
  | nil => trivial
  | cons n ns =>
      rw [forall_nodesList_cons] at h
      exact ⟨isWritable_of_readable hd scope
          (fun hdivides => (forall_nodesList_cons.mp (hnames hdivides)).1) h.1,
        areWritable_of_readable hd scope
          (fun hdivides => (forall_nodesList_cons.mp (hnames hdivides)).2) h.2⟩

end

end Nodes

/-- Nodes stand apart with one more behind them that stands apart from the last of them. -/
theorem isChain_concat {ns : List Node} (h : ns.IsChain StandApart) {n : Node}
    (hn : ∀ m ∈ ns.getLast?, m.StandApart n) :
  (ns ++ [n]).IsChain StandApart
  := by
  rw [List.isChain_append]
  refine ⟨h, List.isChain_singleton n, ?_⟩
  intro m hm k hk
  cases hk
  exact hn m hm

/-- A text goes on with a text before it, so that texts stand apart. -/
theorem isChain_join {ns : List Node} (h : ns.IsChain StandApart) (s : String) :
  (Reading.Assembly.join ns s).IsChain StandApart
  := by
  rcases Reading.Assembly.lastText_cases ns with ⟨before, t, rfl⟩ | hlast
  · rw [List.isChain_append] at h
    rw [Reading.Assembly.join_text]
    refine isChain_concat h.1 fun m hm => .inl ?_
    exact (h.2.2 m hm _ rfl).resolve_right (by simp [isText])
  · rw [Reading.Assembly.join_other hlast]
    refine isChain_concat h fun m hm => .inl ?_
    cases m with
    | text t => exact absurd hm (hlast t)
    | _ => rfl

/-- Children of an element that can be written and are as reading leaves them. -/
structure AreSound (a : Alphabet) (d : Declarations) (scope : Option String) (ns : List Node) :
    Prop where
  writable : AreWritable a d scope ns
  read : ∀ m ∈ nodesList ns, m.IsAsRead d
  apart : ns.IsChain StandApart

variable {a : Alphabet} {d : Declarations} {scope : Option String} {ns : List Node}

theorem areSound_nil :
  AreSound a d scope []
  := ⟨trivial, by simp [nodesList], List.isChain_nil⟩

/-- A node that is no text stands apart from the children before it. -/
theorem AreSound.append (sound : AreSound a d scope ns) {n : Node}
    (hn : n.IsWritable a d scope) (hread : ∀ m ∈ n.nodes, m.IsAsRead d)
    (hother : n.isText = false) :
  AreSound a d scope (ns ++ [n])
  where
    writable := areWritable_append.mpr ⟨sound.writable, hn, trivial⟩
    read := by
      rw [nodesList_append, List.forall_mem_append]
      exact ⟨sound.read, by simpa [nodesList] using hread⟩
    apart := isChain_concat sound.apart fun _ _ => .inr hother

/-- A text that goes on can be written, and leaves texts apart. -/
theorem AreSound.join (sound : AreSound a d scope ns) {s : String} (hs : isCharText s)
    (hne : s ≠ "") :
  AreSound a d scope (Reading.Assembly.join ns s)
  := by
  have hapart := isChain_join sound.apart s
  rcases Reading.Assembly.lastText_cases ns with ⟨before, t, rfl⟩ | hlast
  · rw [Reading.Assembly.join_text] at hapart ⊢
    obtain ⟨hbefore, ht⟩ := areWritable_append.mp sound.writable
    have hread := sound.read
    rw [nodesList_append, List.forall_mem_append] at hread
    refine ⟨areWritable_append.mpr ⟨hbefore, ⟨?_, ?_⟩, trivial⟩, ?_, hapart⟩
    · have ht' := ht.1.1
      simp only [isCharText, String.toList_append, List.all_append, Bool.and_eq_true] at hs ht' ⊢
      exact ⟨ht', hs⟩
    · exact fun h => hne (String.append_eq_empty_iff.mp h).2
    · rw [nodesList_append, List.forall_mem_append]
      exact ⟨hread.1, by simp [nodesList, nodes, IsAsRead]⟩
  · rw [Reading.Assembly.join_other hlast] at hapart ⊢
    refine ⟨areWritable_append.mpr ⟨sound.writable, ⟨hs, hne⟩, trivial⟩, ?_, hapart⟩
    rw [nodesList_append, List.forall_mem_append]
    exact ⟨sound.read, by simp [nodesList, nodes, IsAsRead]⟩

end Node

/-- A document that goes on from another one: behind the nodes of that one at the top level are
others that can be written and are as reading leaves them. -/
structure Document.Extends (a : Alphabet) (d : Declarations) (start after : Document) : Prop where
  declaration : after.declaration = start.declaration
  children : ∃ others, after.children = start.children ++ others ∧ Node.AreSound a d none others
  ordered : after.IsOrdered

theorem Document.extends_refl {a : Alphabet} {d : Declarations} {start : Document}
    (h : start.IsOrdered) :
  start.Extends a d start
  := ⟨rfl, ⟨[], by simp, Node.areSound_nil⟩, h⟩

namespace Reading

/-! ### Open elements -/

/-- The namespace that writing has in scope inside open elements, the innermost of which comes
first. -/
def writtenScope : List OpenElement → Option String
  | [] => none
  | o :: others => Writing.innerScope (writtenScope others) o.name

/-- An open element that can be written as far as it goes. -/
structure OpenElement.IsSound (a : Alphabet) (d : Declarations) (scope : Option String)
    (o : OpenElement) : Prop where
  tag : Writing.IsTag a d scope o.name o.attributes
  space : o.name.space ≠ some ""
  children : Node.AreSound a d (Writing.innerScope scope o.name) o.children

/-- Open elements that can be written as far as they go, each one inside those after it. -/
def AreOpen (a : Alphabet) (d : Declarations) : List OpenElement → Prop
  | [] => True
  | o :: others => o.IsSound a d (writtenScope others) ∧ AreOpen a d others

namespace Assembly

/-- An assembly between two nodes of which everything behind the first nodes at the top level can
be written; the default namespaces in scope are those of the open elements. -/
structure IsSound (a : Alphabet) (d : Declarations) (start : Document) (s : Assembly) : Prop where
  opened : AreOpen a d s.opened
  spaces : s.spaces = s.opened.map (fun o => o.name.space) ++ [none]
  closed : s.openSection = none
  document : start.Extends a d s.document

variable {a : Alphabet} {d : Declarations} {start : Document} {s s' : Assembly}

/-! ### Nodes -/

/-- A node can be attached where it can be written. -/
theorem IsSound.attach (sound : s.IsSound a d start) {n : Node}
    (hn : n.IsWritable a d (writtenScope s.opened)) (hread : ∀ m ∈ n.nodes, m.IsAsRead d)
    (hother : n.isText = false) (h : s.attach n = .ok s') :
  s'.IsSound a d start
  := by
  obtain ⟨hopened, hspaces, hclosed, hdocument⟩ := sound
  unfold Assembly.attach at h
  split at h
  · rename_i o others ho
    cases h
    rw [ho] at hopened hspaces hn
    obtain ⟨⟨htag, hspace, hchildren⟩, hothers⟩ := hopened
    exact ⟨⟨⟨htag, hspace, hchildren.append hn hread hother⟩, hothers⟩, hspaces, hclosed, hdocument⟩
  · rename_i ho
    rw [ho] at hn
    obtain ⟨document, happend, heq⟩ := map_ok h
    obtain ⟨hplaced, rfl⟩ := Document.append_ok (mapError_ok happend)
    cases heq
    obtain ⟨others, hchildren, hothers⟩ := hdocument.children
    refine ⟨hopened, hspaces, hclosed, hdocument.declaration, ?_, hdocument.ordered.append hplaced⟩
    exact ⟨others ++ [n], by rw [← List.append_assoc, ← hchildren], hothers.append hn hread hother⟩

/-- Characters can be added wherever an assembly stands. -/
theorem IsSound.addCharacters (sound : s.IsSound a d start) {t : String} (ht : isCharText t)
    (hne : t ≠ "") :
  (s.addCharacters t).IsSound a d start
  := by
  obtain ⟨hopened, hspaces, hclosed, hdocument⟩ := sound
  unfold Assembly.addCharacters
  split
  · rename_i before hbefore
    rw [hclosed] at hbefore
    cases hbefore
  · split
    · rename_i o others ho
      rw [ho] at hopened hspaces
      obtain ⟨⟨htag, hspace, hchildren⟩, hothers⟩ := hopened
      exact ⟨⟨⟨htag, hspace, hchildren.join ht hne⟩, hothers⟩, hspaces, hclosed, hdocument⟩
    · exact ⟨hopened, hspaces, hclosed, hdocument⟩

theorem IsSound.addComment (sound : s.IsSound a d start) {t : String} (ht : isCharText t)
    (hbreaks : breaksComment t.toList = false) (hreturn : '\r' ∉ t.toList)
    (h : s.addComment t = .ok s') :
  s'.IsSound a d start
  := by
  unfold Assembly.addComment at h
  split_ifs at h
  · cases h
    exact ⟨sound.opened, sound.spaces, sound.closed, sound.document⟩
  · have hread : ∀ m ∈ (Node.comment t).nodes, m.IsAsRead d := by
      simpa [Node.nodes, Node.IsAsRead, Wording.printed] using hreturn
    exact sound.attach (n := .comment t) ⟨⟨ht, hbreaks⟩, rfl⟩ hread rfl h

/-! ### Tags -/

/-- The attributes of a tag are those that stand in it, other than a declaration of its
namespace; without one the namespace in scope stays. -/
theorem attributesOf_givenOf (space : Option String) (parts : List (List Char × List Char))
    (held : Attributes) (hnodup : (parts.map Prod.fst).Nodup)
    (hfresh : ∀ p ∈ parts, String.ofList p.1 ∉ held.map Prod.fst) :
  ∃ attributes inner, attributesOf space (givenOf parts) held = (held ++ attributes, inner)
    ∧ (attributes.map Prod.fst).Nodup
    ∧ (∀ q ∈ attributes, q.1 ≠ "xmlns" ∧ (q.1.toList, q.2.toList) ∈ parts)
    ∧ (inner = space ∨ ∃ value, ("xmlns".toList, value) ∈ parts
        ∧ inner = nonempty? (some (String.ofList value)))
  := by
  induction parts generalizing space held with
  | nil => exact ⟨[], space, by simp [givenOf, attributesOf], by simp, by simp, .inl rfl⟩
  | cons p parts ih =>
      obtain ⟨name, value⟩ := p
      rw [List.map_cons, List.nodup_cons] at hnodup
      rw [List.forall_mem_cons] at hfresh
      simp only [givenOf, List.map_cons, attributesOf, wholeLabel]
      split_ifs with hspace
      · -- the declaration of the namespace
        have hname : name = "xmlns".toList := by rw [← hspace, String.toList_ofList]
        obtain ⟨attributes, inner, heq, hattributes, hmem, hinner⟩ :=
          ih (nonempty? (some (String.ofList value))) held hnodup.2 hfresh.2
        refine ⟨attributes, inner, heq, hattributes, ?_, .inr ?_⟩
        · exact fun q hq => ⟨(hmem q hq).1, List.mem_cons_of_mem _ (hmem q hq).2⟩
        · rcases hinner with rfl | ⟨other, hother, _⟩
          · exact ⟨value, hname ▸ List.mem_cons_self, rfl⟩
          · exact absurd (List.mem_map.mpr ⟨_, hother, hname.symm⟩) hnodup.1
      · obtain ⟨attributes, inner, heq, hattributes, hmem, hinner⟩ :=
          ih space (held ++ [(String.ofList name, String.ofList value)]) hnodup.2 (by
            intro q hq
            rw [List.map_append, List.mem_append, not_or]
            refine ⟨hfresh.2 q hq, ?_⟩
            rw [List.map_singleton, List.mem_singleton, String.ofList_inj]
            exact fun h => hnodup.1 (List.mem_map.mpr ⟨q, hq, h⟩))
        refine ⟨(String.ofList name, String.ofList value) :: attributes, inner, ?_, ?_, ?_, ?_⟩
        · rw [set_append hfresh.1]
          exact heq.trans (by simp)
        · rw [List.map_cons, List.nodup_cons]
          refine ⟨?_, hattributes⟩
          intro hq
          obtain ⟨q, hq, hname⟩ := List.mem_map.mp hq
          apply hnodup.1
          refine List.mem_map.mpr ⟨_, (hmem q hq).2, ?_⟩
          rw [hname, String.toList_ofList]
        · rw [List.forall_mem_cons]
          refine ⟨⟨hspace, ?_⟩, ?_⟩
          · simp
          · exact fun q hq => ⟨(hmem q hq).1, List.mem_cons_of_mem _ (hmem q hq).2⟩
        · refine hinner.imp_right ?_
          rintro ⟨other, hother, hi⟩
          exact ⟨other, List.mem_cons_of_mem _ hother, hi⟩

/-- A namespace in scope is not empty, and it is the one that writing has in scope there. -/
theorem IsSound.space_eq (sound : s.IsSound a d start) {uri : String}
    (h : s.spaces.headD none = some uri) :
  uri ≠ "" ∧ writtenScope s.opened = some uri
  := by
  obtain ⟨hopened, hspaces, _⟩ := sound
  cases ho : s.opened with
  | nil =>
      rw [hspaces, ho] at h
      cases h
  | cons o others =>
      rw [ho] at hopened
      rw [hspaces, ho] at h
      have hspace : o.name.space = some uri := h
      have hne : uri ≠ "" := by
        rintro rfl
        exact hopened.1.space hspace
      exact ⟨hne, by simp [writtenScope, Writing.innerScope, hspace, nonempty?, hne]⟩

/-- A tag that was read opens an element that can be written. -/
theorem IsSound.openTag (sound : s.IsSound a d start) {t : Tag} {name : List Char}
    {parts : List (List Char × List Char)} (hname : t.name = wholeLabel name)
    (hgiven : t.given = givenOf parts) (hplain : IsPlainName a name)
    (hnodup : (parts.map Prod.fst).Nodup) (hread : ∀ p ∈ parts, IsRead a d name p)
    (h : s.openTag t = .ok s') :
  s'.IsSound a d start
  := by
  obtain ⟨attributes, inner, heq, hattributes, hmem, hinner⟩ :=
    attributesOf_givenOf (s.spaces.headD none) parts [] hnodup (by simp)
  unfold Assembly.openTag at h
  rw [hgiven, heq, hname] at h
  dsimp only [wholeLabel] at h
  split at h
  · cases h
  · rename_i q hq
    cases h
    obtain ⟨hlocal, hspace, hown⟩ := QName.of?_eq_some hq
    have hlocal' : q.localPart.toList = name := by rw [hlocal, String.toList_ofList]
    refine ⟨⟨⟨⟨hlocal' ▸ hplain, ?_, hattributes, ?_, hown⟩, ?_, Node.areSound_nil⟩, sound.opened⟩, ?_,
      sound.closed, sound.document⟩
    · intro p hp
      rw [Writing.tagAttributes, List.mem_append] at hp
      rw [hlocal']
      rcases hp with hp | hp
      · exact hread _ (hmem p hp).2
      · -- only an element that declares its namespace is written with the declaration
        obtain ⟨uri, huri, rfl⟩ := List.mem_map.mp hp
        have hdeclared := Option.mem_toList.mp huri
        obtain ⟨hown, hne⟩ := Writing.declared_some hdeclared
        rw [hspace] at hown
        rcases hinner with hsame | ⟨value, hvalue, hnew⟩
        · have hscope := (sound.space_eq (hsame.symm.trans hown)).2
          simp [Writing.declared, hspace, hown, hne, hscope] at hdeclared
        · have huri' : value = uri.toList := by
            rw [hnew, nonempty?, Option.filter_eq_some_iff, Option.some.injEq] at hown
            rw [← hown.1, String.toList_ofList]
          exact huri' ▸ hread _ hvalue
    · intro hxmlns
      obtain ⟨p, hp, hpname⟩ := List.mem_map.mp hxmlns
      exact (hmem p hp).1 hpname
    · rw [hspace]
      rintro rfl
      rcases hinner with hsame | ⟨value, _, hnew⟩
      · exact (sound.space_eq hsame.symm).1 rfl
      · rw [eq_comm, nonempty?, Option.filter_eq_some_iff] at hnew
        simp at hnew
    · rw [List.map_cons, List.cons_append, ← sound.spaces, hspace]

/-- The end of an element attaches it. -/
theorem IsSound.closeTag (sound : s.IsSound a d start) (h : s.closeTag = .ok s') :
  s'.IsSound a d start
  := by
  unfold Assembly.closeTag at h
  split at h
  · rename_i o others ho
    have hopened := sound.opened
    have hspaces := sound.spaces
    rw [ho] at hopened hspaces
    obtain ⟨ho, hothers⟩ := hopened
    have outside :
        ({ s with opened := others, spaces := s.spaces.tail } : Assembly).IsSound a d start :=
      ⟨hothers, by rw [hspaces]; rfl, sound.closed, sound.document⟩
    have hwritable : (Node.element o.name o.attributes o.children).IsWritable a d
        (writtenScope others) := ⟨ho.tag, ho.children.writable⟩
    refine outside.attach hwritable ?_ rfl h
    rw [Node.forall_nodes_element]
    exact ⟨⟨ho.space, ho.children.apart⟩, ho.children.read⟩
  · cases h
    exact sound

end Assembly

end Reading

end XmlDraft
