import XmlDraft.Proofs.Legible
import XmlDraft.Text.Lines
import XmlDraft.Writing.Render
import Mathlib.Tactic.SplitIfs

/-!
# Normal forms

What is left of a document when its markup is read again.  Texts that follow one another are
one text; a CDATA section that holds the end of one is several; an element that has no
namespace of its own is in the one around it; and a declaration says what it was written with.
Apart from that, ends of lines in comments and CDATA sections are unified.  Main statement:
neither the normal form nor anything else can be told from the markup, and unified ends of
lines are those of the markup.
-/

namespace XmlDraft

/-! ### Without layout -/

namespace Writing

/-- The attributes of an element together with the declaration of its namespace. -/
def tagAttributes (scope : Option String) (name : QName) (attributes : Attributes) : Attributes :=
  attributes ++ (declared scope name).toList.map fun uri => ("xmlns", uri)

/-- The namespace in scope inside an element. -/
def innerScope (scope : Option String) (name : QName) : Option String :=
  (nonempty? name.space).or scope

mutual

/-- The markup of a node without any layout, given the default namespace in scope. -/
def compact (scope : Option String) : Node → List Char
  | .element name attributes children =>
    let opening :=
      '<' :: name.localPart.toList ++ attributesText (tagAttributes scope name attributes)
    match children with
    | [] => opening ++ " />".toList
    | n :: ns =>
      opening ++ '>' :: (compact (innerScope scope name) n ++ compactList (innerScope scope name) ns)
        ++ "</".toList ++ name.printed.toList ++ ['>']
  | .text value => escapeText value.toList
  | .cdata value => cdataSections value.toList
  | .comment value => "<!--".toList ++ value.printed.toList ++ "-->".toList
  | .doctype d => doctypeText d

/-- The markup of nodes one after another without any layout. -/
def compactList (scope : Option String) : List Node → List Char
  | [] => []
  | n :: ns => compact scope n ++ compactList scope ns

end

theorem attributesText_append (before after : Attributes) :
  attributesText (before ++ after) = attributesText before ++ attributesText after
  := by
  induction before with
  | nil => rfl
  | cons p rest ih => simp [attributesText, ih]

/-- The namespace of a name is none, or it is not empty and counts. -/
theorem nonempty?_cases (space : Option String) :
  nonempty? space = none ∨ ∃ uri, space = some uri ∧ nonempty? (some uri) = some uri
  := by
  cases space with
  | none => exact .inl rfl
  | some uri =>
      by_cases h : uri = ""
      · exact .inl (by simp [nonempty?, h])
      · exact .inr ⟨uri, rfl, by simp [nonempty?, h]⟩

/-- The namespace that an element declares is its own. -/
theorem declared_some {scope : Option String} {name : QName} {uri : String}
    (h : declared scope name = some uri) :
  name.space = some uri ∧ nonempty? (some uri) = some uri
  := by
  unfold declared at h
  rcases nonempty?_cases name.space with hnone | ⟨own, hspace, hown⟩
  · simp [hnone] at h
  · simp only [hspace, hown] at h
    split_ifs at h
    cases h
    exact ⟨hspace, hown⟩

theorem declared_or (scope : Option String) (name : QName) :
  (declared scope name).or scope = innerScope scope name
  := by
  unfold declared innerScope
  cases h : nonempty? name.space with
  | none => rfl
  | some uri =>
      dsimp only
      split_ifs with hs
      · rw [← hs]
        rfl
      · rfl

/-- An element declares its namespace behind its attributes. -/
theorem attributesText_tagAttributes (scope : Option String) (name : QName)
    (attributes : Attributes) :
  attributesText (tagAttributes scope name attributes)
    = attributesText attributes ++ declarationOf (declared scope name)
  := by
  rw [tagAttributes, attributesText_append]
  cases declared scope name <;> simp [declarationOf, attributesText]

/-- No line is broken without indentation, nor in mixed content. -/
theorem breakLine_eq_nil {layout : Option Layout} {mixed : Bool} (h : layout = none ∨ mixed)
    (started : Bool) (level : Nat) :
  breakLine layout mixed started level = []
  := by
  rcases h with rfl | rfl
  · rfl
  · cases layout <;> rfl

mutual

/-- Without indentation and in mixed content the markup of a node depends on the namespace in scope
alone. -/
theorem nodeText_compact {layout : Option Layout} {mixed : Bool} (h : layout = none ∨ mixed)
    (started : Bool) (level : Nat) (scope : Option String) (n : Node) :
  nodeText layout mixed started level scope n = compact scope n
  := by
  cases n with
  | element name attributes children =>
      have hmore (more : Bool) : layout = none ∨ mixed || more :=
        h.imp_right fun hmixed => by rw [hmixed, Bool.true_or]
      cases children with
      | nil => simp [nodeText, compact, breakLine_eq_nil h, attributesText_tagAttributes]
      | cons c cs =>
          simp [nodeText, compact, breakLine_eq_nil h, breakLine_eq_nil (hmore _),
            attributesText_tagAttributes, declared_or, nodeText_compact h _ _ _ c,
            nodesText_compact (hmore _) _ _ _ cs]
  | text value => rfl
  | cdata value => rfl
  | comment value => rw [nodeText, compact, breakLine_eq_nil h, List.nil_append]
  | doctype d => rw [nodeText, compact, breakLine_eq_nil h, List.nil_append]

theorem nodesText_compact {layout : Option Layout} {mixed : Bool} (h : layout = none ∨ mixed)
    (started : Bool) (level : Nat) (scope : Option String) (ns : List Node) :
  nodesText layout mixed started level scope ns = compactList scope ns
  := by
  cases ns with
  | nil => rfl
  | cons n ns =>
      rw [nodesText, compactList, nodeText_compact h _ _ _ n, nodesText_compact _ _ _ _ ns]
      exact h.imp_right fun hmixed => by rw [hmixed, Bool.true_or]

end

theorem nodesText_none (mixed started : Bool) (level : Nat) (scope : Option String)
    (ns : List Node) :
  nodesText none mixed started level scope ns = compactList scope ns
  := nodesText_compact (.inl rfl) started level scope ns

end Writing

/-! ### Normal forms -/

namespace Node

/-- Nodes in which texts that follow one another are one text. -/
def joinTexts : List Node → List Node
  | .text s :: .text t :: ns => joinTexts (.text (s ++ t) :: ns)
  | n :: ns => n :: joinTexts ns
  | [] => []
termination_by ns => ns.length

/-- The texts of the sections that a text is cut into: wherever the end of a section stands in
it, it is cut between the brackets and the angle. -/
def cutSections : List Char → List (List Char)
  | ']' :: ']' :: '>' :: cs => [']', ']'] :: (cutSections cs).modifyHead ('>' :: ·)
  | c :: cs => (cutSections cs).modifyHead (c :: ·)
  | [] => [[]]

mutual

/-- The normal form of a node, given the default namespace in scope; only a CDATA section may
become several nodes. -/
def normal (scope : Option String) : Node → List Node
  | .element name attributes children =>
    let inner := Writing.innerScope scope name
    [.element { name with space := inner } attributes (joinTexts (normalList inner children))]
  | .text value => [.text value]
  | .cdata value => (cutSections value.toList).map fun cs => .cdata (String.ofList cs)
  | .comment value => [.comment value]
  | .doctype d => [.doctype d]

/-- The normal forms of nodes one after another. -/
def normalList (scope : Option String) : List Node → List Node
  | [] => []
  | n :: ns => normal scope n ++ normalList scope ns

end

/-- The normal form of an element is an element. -/
theorem exists_normal (scope : Option String) {n : Node} (hn : n.isElement) :
  ∃ e, normal scope n = [e] ∧ e.isElement
  := by
  cases n with
  | element name attributes children => exact ⟨_, by rw [normal], rfl⟩
  | _ => cases hn

theorem normalList_append (scope : Option String) (before after : List Node) :
  normalList scope (before ++ after) = normalList scope before ++ normalList scope after
  := by
  induction before with
  | nil => rfl
  | cons n ns ih => simp [normalList, ih]

/-- The text with a line feed in place of every end of a line. -/
def unifiedText (s : String) : String :=
  String.ofList (Text.unifyLines s.toList)

@[simp]
theorem unifiedText_toList (s : String) :
  (unifiedText s).toList = Text.unifyLines s.toList
  := String.toList_ofList

/-- A wording the printed form of which has unified ends of lines. -/
def unifiedWording (w : Wording) : Wording :=
  match w.member with
  | some name => { w with member := some (unifiedText name) }
  | none => unifiedText w.text

@[simp]
theorem printed_unifiedWording (w : Wording) :
  (unifiedWording w).printed = unifiedText w.printed
  := by
  obtain ⟨text, _ | name⟩ := w <;> rfl

mutual

/-- A node with unified ends of lines in its comments and CDATA sections. -/
def unified : Node → Node
  | .element name attributes children => .element name attributes (unifiedList children)
  | .text value => .text value
  | .cdata value => .cdata (unifiedText value)
  | .comment value => .comment (unifiedWording value)
  | .doctype d => .doctype d

/-- Nodes with unified ends of lines in their comments and CDATA sections. -/
def unifiedList : List Node → List Node
  | [] => []
  | n :: ns => unified n :: unifiedList ns

end

@[simp]
theorem isElement_unified (n : Node) :
  n.unified.isElement = n.isElement
  := by
  cases n <;> simp [unified, isElement]

theorem unifiedList_append (before after : List Node) :
  unifiedList (before ++ after) = unifiedList before ++ unifiedList after
  := by
  induction before with
  | nil => rfl
  | cons n ns ih => simp [unifiedList, ih]

end Node

/-- A field in which a text is no member of an enumeration. -/
def Field.plain : Field → Field
  | .member s _ => .text s
  | f => f

@[simp] theorem Field.text?_plain (f : Field) :
  f.plain.text? = f.text?
  := by
  cases f <;> rfl

theorem Field.plain_of_text? {f : Field} {s : String} (h : f.text? = some s) :
  f.plain = .text s
  := by
  cases f with
  | text t => exact congrArg Field.text (Option.some.inj h)
  | member t printed => exact congrArg Field.text (Option.some.inj h)
  | _ => cases h

/-- A text in a field counts unless it is empty. -/
theorem Field.counts_iff {f : Field} {s : String} (h : f.text? = some s) :
  f.counts ↔ s ≠ ""
  := by
  cases f with
  | text t => simp [Field.counts, ← Option.some.inj h]
  | member t printed => simp [Field.counts, ← Option.some.inj h]
  | _ => cases h

/-- A declaration with the version and the encoding that are written where none is set, and
with plain texts. -/
def Declaration.filled (d : Declaration) : Declaration where
  version := some (d.effectiveVersion (.text "1.0")).plain
  encoding := some (d.effectiveEncoding (.text "utf-8")).plain
  standalone := d.standalone.map Field.plain

namespace Document

/-- The normal form of a document. -/
def normal (d : Document) : Document where
  declaration := d.declaration.map Declaration.filled
  children := Node.normalList none d.children

/-- The document with unified ends of lines in its comments and CDATA sections. -/
def unified (d : Document) : Document :=
  { d with children := Node.unifiedList d.children }

end Document

/-! ### Sections -/

namespace Writing

/-- A CDATA section of a text that holds no end of one. -/
def cdataSection (cs : List Char) : List Char :=
  "<![CDATA[".toList ++ cs ++ "]]>".toList

/-- A text that holds no end of a CDATA section. -/
def HoldsNoEnd (cs : List Char) : Prop :=
  ¬ [']', ']', '>'] <:+: cs

theorem holdsNoEnd_cons {c : Char} {cs : List Char} :
  HoldsNoEnd (c :: cs) ↔ ¬ [']', ']', '>'] <+: c :: cs ∧ HoldsNoEnd cs
  := by
  rw [HoldsNoEnd, HoldsNoEnd, List.infix_cons_iff, not_or]

theorem splitCData_of_holdsNoEnd {cs : List Char} (h : HoldsNoEnd cs) :
  splitCData cs = cs
  := by
  induction cs using splitCData.induct with
  | case1 cs ih =>
      exfalso
      apply h
      exact (List.prefix_append [']', ']', '>'] cs).isInfix
  | case2 c cs hends ih =>
      obtain ⟨_, hcs⟩ := holdsNoEnd_cons.mp h
      rw [splitCData, ih hcs]
      exact hends
  | case3 => rfl

end Writing

namespace Node

open Writing

/-- A text is cut into sections the first of which it begins with, and none of them holds the
end of a section. -/
theorem cutSections_spec (cs : List Char) :
  ∃ first others, cutSections cs = first :: others ∧ first <+: cs
    ∧ HoldsNoEnd first ∧ ∀ p ∈ others, HoldsNoEnd p
  := by
  induction cs using cutSections.induct with
  | case1 cs ih =>
      obtain ⟨first, others, hcut, hprefix, hfirst, hothers⟩ := ih
      refine ⟨[']', ']'], ('>' :: first) :: others, ?_, ?_, ?_, ?_⟩
      · rw [cutSections, hcut, List.modifyHead_cons]
      · exact ⟨'>' :: cs, rfl⟩
      · unfold HoldsNoEnd
        decide
      · rw [List.forall_mem_cons, holdsNoEnd_cons]
        refine ⟨⟨?_, hfirst⟩, hothers⟩
        simp
  | case2 c cs hends ih =>
      obtain ⟨first, others, hcut, hprefix, hfirst, hothers⟩ := ih
      refine ⟨c :: first, others, ?_, ?_, ?_, hothers⟩
      · rw [cutSections, hcut, List.modifyHead_cons]
        exact hends
      · exact List.cons_prefix_cons.mpr ⟨rfl, hprefix⟩
      · rw [holdsNoEnd_cons]
        refine ⟨?_, hfirst⟩
        intro hend
        obtain ⟨rest, hrest⟩ := hend.trans (List.cons_prefix_cons.mpr ⟨rfl, hprefix⟩)
        exact hends rest (List.head_eq_of_cons_eq hrest).symm (List.tail_eq_of_cons_eq hrest).symm
  | case3 =>
      refine ⟨[], [], rfl, List.prefix_rfl, ?_, by simp⟩
      simp [HoldsNoEnd]

/-- The sections of a text make it up. -/
theorem flatten_cutSections (cs : List Char) :
  (cutSections cs).flatten = cs
  := by
  induction cs using cutSections.induct with
  | case1 cs ih =>
      obtain ⟨first, others, hcut, _⟩ := cutSections_spec cs
      rw [hcut] at ih
      rw [cutSections, hcut, List.modifyHead_cons]
      simpa using ih
  | case2 c cs hends ih =>
      obtain ⟨first, others, hcut, _⟩ := cutSections_spec cs
      rw [hcut] at ih
      rw [cutSections, hcut, List.modifyHead_cons]
      · simpa using ih
      · exact hends
  | case3 => rfl

/-- A text that is not empty is cut into sections that are not empty; an empty text is one empty
section, so that the first one is told apart. -/
theorem cutSections_ne (cs : List Char) :
  (cs ≠ [] → ∀ p ∈ cutSections cs, p ≠ []) ∧ ∀ p ∈ (cutSections cs).tail, p ≠ []
  := by
  induction cs using cutSections.induct with
  | case1 cs ih =>
      obtain ⟨first, others, hcut, _⟩ := cutSections_spec cs
      rw [hcut] at ih
      have hrest : ∀ p ∈ ('>' :: first) :: others, p ≠ [] :=
        List.forall_mem_cons.mpr ⟨List.cons_ne_nil _ _, ih.2⟩
      rw [cutSections, hcut, List.modifyHead_cons]
      exact ⟨fun _ => List.forall_mem_cons.mpr ⟨List.cons_ne_nil _ _, hrest⟩, hrest⟩
  | case2 c cs hends ih =>
      obtain ⟨first, others, hcut, _⟩ := cutSections_spec cs
      rw [hcut] at ih
      rw [cutSections, hcut, List.modifyHead_cons]
      · exact ⟨fun _ => List.forall_mem_cons.mpr ⟨List.cons_ne_nil _ _, ih.2⟩, ih.2⟩
      · exact hends
  | case3 => exact ⟨fun h => absurd rfl h, by simp [cutSections]⟩

end Node

end XmlDraft
