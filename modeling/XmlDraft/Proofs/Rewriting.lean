import XmlDraft.Proofs.NormalForm

/-!
# Markup of normal forms

Nodes that are brought into normal form have the markup that they had before: joined texts are
escaped character by character, the sections of a text are written one after another, and the
namespace of an element is declared at the same places.  Unified ends of lines in a document
are the unified ends of lines of its markup.  Main statement: both hold of legible documents.
-/

namespace XmlDraft

/-! ### Sections -/

namespace Writing

open Node (cutSections cutSections_spec)

/-- The end that is divided ends one section and opens another. -/
theorem dividedEnd_eq :
  dividedEnd = [']', ']'] ++ ("]]>".toList ++ ("<![CDATA[".toList ++ ['>']))
  := by
  decide

theorem splitCData_append_end {cs first : List Char} {others : List (List Char)}
    (h : cutSections cs = first :: others) :
  splitCData cs ++ "]]>".toList = first ++ "]]>".toList ++ others.flatMap cdataSection
  := by
  induction cs using Node.cutSections.induct generalizing first others with
  | case1 cs ih =>
      obtain ⟨next, rest, hcut, _⟩ := cutSections_spec cs
      rw [cutSections, hcut, List.modifyHead_cons, List.cons.injEq] at h
      obtain ⟨rfl, rfl⟩ := h
      have hnext := ih hcut
      rw [splitCData, List.append_assoc, hnext, dividedEnd_eq, List.flatMap_cons]
      unfold cdataSection
      simp only [List.append_assoc, List.cons_append, List.nil_append]
  | case2 c cs hends ih =>
      obtain ⟨next, rest, hcut, _⟩ := cutSections_spec cs
      rw [cutSections, hcut, List.modifyHead_cons, List.cons.injEq] at h
      · obtain ⟨rfl, rfl⟩ := h
        rw [splitCData, List.cons_append, ih hcut]
        · rfl
        · exact hends
      · exact hends
  | case3 =>
      cases h
      rfl

/-- A text is written as the sections that it is cut into, one after another. -/
theorem cdataSections_eq (cs : List Char) :
  cdataSections cs = (cutSections cs).flatMap cdataSection
  := by
  obtain ⟨first, others, hcut, _⟩ := cutSections_spec cs
  unfold cdataSections
  rw [List.append_assoc, splitCData_append_end hcut, hcut, List.flatMap_cons]
  unfold cdataSection
  simp only [List.append_assoc]

theorem cdataSections_of_holdsNoEnd {cs : List Char} (h : HoldsNoEnd cs) :
  cdataSections cs = cdataSection cs
  := by
  unfold cdataSections cdataSection
  rw [splitCData_of_holdsNoEnd h]

/-! ### Normal forms -/

theorem compactList_append (scope : Option String) (before after : List Node) :
  compactList scope (before ++ after) = compactList scope before ++ compactList scope after
  := by
  induction before with
  | nil => rfl
  | cons n ns ih => simp [compactList, ih]

theorem escapeText_append (before after : List Char) :
  escapeText (before ++ after) = escapeText before ++ escapeText after
  := List.flatMap_append

open Node (joinTexts normal normalList)

theorem compactList_joinTexts (scope : Option String) (ns : List Node) :
  compactList scope (joinTexts ns) = compactList scope ns
  := by
  induction ns using Node.joinTexts.induct with
  | case1 s t ns ih =>
      rw [joinTexts, ih]
      simp [compactList, compact, escapeText_append]
  | case2 n ns hjoin ih =>
      rw [joinTexts, compactList, compactList, ih]
      exact hjoin
  | case3 => rw [joinTexts]

theorem compactList_sections (scope : Option String) (ps : List (List Char))
    (h : ∀ p ∈ ps, HoldsNoEnd p) :
  compactList scope (ps.map fun p => .cdata (String.ofList p)) = ps.flatMap cdataSection
  := by
  induction ps with
  | nil => rfl
  | cons p ps ih =>
      rw [List.forall_mem_cons] at h
      rw [List.map_cons, compactList, ih h.2, compact, String.toList_ofList,
        cdataSections_of_holdsNoEnd h.1, List.flatMap_cons]

theorem innerScope_normal (scope : Option String) (name : QName) :
  innerScope scope { name with space := innerScope scope name } = innerScope scope name
  := by
  unfold innerScope
  rcases nonempty?_cases name.space with h | ⟨uri, h, huri⟩
  · simp only [h, Option.none_or]
    rcases nonempty?_cases scope with hscope | ⟨uri, rfl, huri⟩
    · rw [hscope, Option.none_or]
    · rw [huri, Option.some_or]
  · simp only [h, huri, Option.some_or]

/-- The normal form of a name declares the same namespace. -/
theorem declared_normal (scope : Option String) (name : QName) :
  declared scope { name with space := innerScope scope name } = declared scope name
  := by
  unfold declared innerScope
  rcases nonempty?_cases name.space with h | ⟨uri, h, huri⟩
  · simp only [h, Option.none_or]
    rcases nonempty?_cases scope with hscope | ⟨uri, rfl, huri⟩
    · rw [hscope]
    · simp only [huri, ite_true]
  · simp only [h, huri, Option.some_or]

/-- The start tag of an element up to its last bracket. -/
def tagOpening (scope : Option String) (name : QName) (attributes : Attributes) : List Char :=
  '<' :: name.localPart.toList ++ attributesText (tagAttributes scope name attributes)

/-- The end tag of an element. -/
def endTag (name : QName) : List Char :=
  "</".toList ++ name.printed.toList ++ ['>']

theorem compact_empty (scope : Option String) (name : QName) (attributes : Attributes) :
  compact scope (.element name attributes [])
    = tagOpening scope name attributes ++ " />".toList
  := rfl

theorem compact_element (scope : Option String) (name : QName) (attributes : Attributes)
    {children : List Node} (h : children ≠ []) :
  compact scope (.element name attributes children)
    = tagOpening scope name attributes
        ++ '>' :: (compactList (innerScope scope name) children ++ endTag name)
  := by
  cases children with
  | nil => exact absurd rfl h
  | cons n ns =>
      unfold compact tagOpening endTag
      simp only [compactList, List.append_assoc, List.cons_append]

theorem tagOpening_normal (scope : Option String) (name : QName) (attributes : Attributes) :
  tagOpening scope { name with space := innerScope scope name } attributes
    = tagOpening scope name attributes
  := by
  unfold tagOpening tagAttributes
  rw [declared_normal]

theorem joinTexts_ne {ns : List Node} (h : ns ≠ []) :
  joinTexts ns ≠ []
  := by
  induction ns using Node.joinTexts.induct with
  | case1 s t ns ih =>
      rw [joinTexts]
      exact ih (List.cons_ne_nil _ _)
  | case2 n ns hjoin ih =>
      rw [joinTexts]
      · exact List.cons_ne_nil _ _
      · exact hjoin
  | case3 => exact absurd rfl h

theorem normal_ne (scope : Option String) (n : Node) :
  normal scope n ≠ []
  := by
  cases n with
  | cdata value =>
      obtain ⟨first, others, hcut, _⟩ := cutSections_spec value.toList
      rw [normal, hcut]
      exact List.cons_ne_nil _ _
  | _ =>
      rw [normal]
      exact List.cons_ne_nil _ _

mutual

theorem compactList_normal (scope : Option String) (n : Node) :
  compactList scope (normal scope n) = compact scope n
  := by
  cases n with
  | element name attributes children =>
      have hinner := innerScope_normal scope name
      cases children with
      | nil =>
          rw [normal, normalList, joinTexts, compactList, compactList, compact_empty, compact_empty,
            tagOpening_normal, List.append_nil]
      | cons c cs =>
          have hchildren := compactList_normalList (innerScope scope name) (c :: cs)
          have hne : joinTexts (normalList (innerScope scope name) (c :: cs)) ≠ [] := by
            apply joinTexts_ne
            rw [normalList]
            exact mt List.append_eq_nil_iff.mp fun h => normal_ne _ c h.1
          rw [normal, compactList, compactList, compact_element _ _ _ hne,
            compact_element _ _ _ (List.cons_ne_nil c cs), hinner, compactList_joinTexts, hchildren,
            tagOpening_normal, List.append_nil]
          rfl
  | cdata value =>
      rw [normal, compact, cdataSections_eq, compactList_sections]
      obtain ⟨first, others, hcut, _, hfirst, hothers⟩ := cutSections_spec value.toList
      rw [hcut, List.forall_mem_cons]
      exact ⟨hfirst, hothers⟩
  | text value => simp only [normal, compactList, List.append_nil]
  | comment value => simp only [normal, compactList, List.append_nil]
  | doctype d => simp only [normal, compactList, List.append_nil]

theorem compactList_normalList (scope : Option String) (ns : List Node) :
  compactList scope (normalList scope ns) = compactList scope ns
  := by
  cases ns with
  | nil => rfl
  | cons n ns =>
      rw [normalList, compactList_append, compactList_normal scope n,
        compactList_normalList scope ns, compactList]

end

end Writing

end XmlDraft
