import XmlDraft.Tree.Node
import Mathlib.Tactic.SplitIfs

/-!
# The top level

A document has one document type at most and one root at most, the document type stands before
the root, and all other nodes at the top level are comments.  Main statement: whatever may be
attached at the top level of such a document keeps it so.
-/

namespace XmlDraft

/-- The only element among nodes stands between others that are none. -/
theorem Node.exists_root {ns : List Node} (hroot : ∃ n ∈ ns, n.isElement)
    (hone : (ns.filter Node.isElement).length ≤ 1) :
  ∃ before root after, ns = before ++ root :: after ∧ root.isElement
    ∧ ∀ n ∈ before ++ after, n.isElement = false
  := by
  obtain ⟨root, hfind⟩ := Option.isSome_iff_exists.mp (List.find?_isSome.mpr hroot)
  rw [List.find?_eq_some_iff_append] at hfind
  obtain ⟨helement, before, after, rfl, hbefore⟩ := hfind
  have hafter : after.filter Node.isElement = [] := by
    rw [List.filter_append, List.filter_cons_of_pos helement, List.length_append,
      List.length_cons] at hone
    apply List.eq_nil_of_length_eq_zero
    omega
  rw [List.filter_eq_nil_iff] at hafter
  refine ⟨before, root, after, rfl, helement, List.forall_mem_append.mpr ⟨?_, ?_⟩⟩
  · simpa using hbefore
  · simpa using hafter

namespace Document

/-- A document whose nodes at the top level are those that documents have, in their order. -/
structure IsOrdered (d : Document) : Prop where
  doctype : (d.children.filter Node.isDoctype).length ≤ 1
  root : (d.children.filter Node.isElement).length ≤ 1
  order : ∀ before t after, d.children = before ++ .doctype t :: after →
    ∀ n ∈ before, n.isElement = false
  others : ∀ n ∈ d.children, n.isDoctype ∨ n.isElement ∨ ∃ value, n = .comment value

theorem isOrdered_nil (declaration : Option Declaration) :
  IsOrdered ⟨declaration, []⟩
  where
    doctype := by simp
    root := by simp
    order := by simp
    others := by simp

variable {d : Document}

/-- The order of the nodes does not depend on the declaration. -/
theorem IsOrdered.declare (h : d.IsOrdered) (declaration : Option Declaration) :
  IsOrdered ⟨declaration, d.children⟩
  := ⟨h.doctype, h.root, h.order, h.others⟩

theorem filter_root (h : d.root? = none) :
  d.children.filter Node.isElement = []
  := by
  rw [root?, List.find?_eq_none] at h
  exact List.filter_eq_nil_iff.mpr h

theorem filter_doctype (h : d.doctype?.isSome = false) :
  d.children.filter Node.isDoctype = []
  := by
  rw [Option.isSome_eq_false_iff, Option.isNone_iff_eq_none, doctype?,
    List.findSome?_eq_none_iff] at h
  rw [List.filter_eq_nil_iff]
  intro n hn hdoctype
  cases n with
  | doctype t => cases h _ hn
  | _ => cases hdoctype

/-- A document type that is split off behind the last node is one of those before, or that node
itself. -/
theorem append_eq_append_doctype {ns before after : List Node} {n : Node} {t : Doctype}
    (h : ns ++ [n] = before ++ .doctype t :: after) :
  (∃ others, ns = before ++ .doctype t :: others) ∨ (before = ns ∧ n = .doctype t)
  := by
  rcases List.eq_nil_or_concat after with rfl | ⟨others, m, rfl⟩
  · obtain ⟨rfl, hn⟩ := List.append_inj' h rfl
    exact .inr ⟨rfl, List.head_eq_of_cons_eq hn⟩
  · have hsplit : ns ++ [n] = (before ++ .doctype t :: others) ++ [m] := by simpa using h
    exact .inl ⟨others, (List.append_inj' hsplit rfl).1⟩

/-- A node that is not misplaced keeps the order. -/
theorem IsOrdered.append (h : d.IsOrdered) {n : Node} (hn : d.misplacement? n = none) :
  IsOrdered ⟨d.declaration, d.children ++ [n]⟩
  := by
  cases n with
  | element name attributes children =>
      have hroot := filter_root (Option.map_eq_none_iff.mp hn)
      constructor
      · simpa [Node.isDoctype] using h.doctype
      · rw [List.filter_append, hroot, List.nil_append]
        exact List.length_filter_le _ _
      · intro before t after heq m hm
        rcases append_eq_append_doctype heq with ⟨others, hns⟩ | ⟨_, hn⟩
        · exact h.order before t others hns m hm
        · cases hn
      · exact List.forall_mem_append.mpr ⟨h.others, by simp [Node.isElement]⟩
  | doctype u =>
      rw [misplacement?] at hn
      split_ifs at hn with hdoctype hroot
      have hnone := filter_root (Option.isNone_iff_eq_none.mp (by simpa using hroot))
      constructor
      · rw [List.filter_append, filter_doctype (by simpa using hdoctype), List.nil_append]
        exact List.length_filter_le _ _
      · simp [hnone, Node.isElement]
      · intro before t after heq m hm
        rcases append_eq_append_doctype heq with ⟨others, hns⟩ | ⟨rfl, _⟩
        · exact h.order before t others hns m hm
        · simpa using List.filter_eq_nil_iff.mp hnone m hm
      · exact List.forall_mem_append.mpr ⟨h.others, by simp [Node.isDoctype]⟩
  | comment value =>
      constructor
      · simpa [Node.isDoctype] using h.doctype
      · simpa [Node.isElement] using h.root
      · intro before t after heq m hm
        rcases append_eq_append_doctype heq with ⟨others, hns⟩ | ⟨_, hn⟩
        · exact h.order before t others hns m hm
        · cases hn
      · exact List.forall_mem_append.mpr ⟨h.others, by simp⟩
  | text value => cases hn
  | cdata value => cases hn

/-- A node that stands in order is not misplaced behind the nodes before it. -/
theorem IsOrdered.misplacement?_eq_none {before after : List Node} {n : Node}
    {declaration : Option Declaration} (h : IsOrdered ⟨declaration, before ++ n :: after⟩) :
  misplacement? ⟨declaration, before⟩ n = none
  := by
  obtain ⟨hdoctype, hroot, horder, hothers⟩ := h
  rw [List.filter_append, List.length_append] at hdoctype hroot
  have hnone {p : Node → Bool} (hn : p n)
      (h : (before.filter p).length + ((n :: after).filter p).length ≤ 1) :
      ∀ m ∈ before, ¬ p m := by
    rw [List.filter_cons_of_pos hn, List.length_cons] at h
    exact List.filter_eq_nil_iff.mp (List.length_eq_zero_iff.mp (by omega))
  cases n with
  | element name attributes children =>
      have hfirst := hnone (p := Node.isElement) rfl hroot
      simpa [misplacement?, root?] using hfirst
  | doctype t =>
      have hfirst := hnone (p := Node.isDoctype) rfl hdoctype
      have hbefore := horder before t after rfl
      have hdoctype? : doctype? ⟨declaration, before⟩ = none := by
        rw [doctype?, List.findSome?_eq_none_iff]
        intro m hm
        cases m with
        | doctype u => exact absurd rfl (hfirst _ hm)
        | _ => rfl
      have hroot? : root? ⟨declaration, before⟩ = none := by
        simpa [root?] using hbefore
      simp [misplacement?, hdoctype?, hroot?]
  | comment value => rfl
  | text value => simpa [Node.isDoctype, Node.isElement] using hothers (.text value) (by simp)
  | cdata value => simpa [Node.isDoctype, Node.isElement] using hothers (.cdata value) (by simp)

/-- In front of the first node that is no document type stands a document type at most. -/
theorem IsOrdered.exists_first (h : d.IsOrdered) {n : Node} (hn : d.firstNode? = some n) :
  ∃ types rest, d.children = types ++ n :: rest ∧ n.isDoctype = false
    ∧ (types = [] ∨ ∃ t, types = [.doctype t])
  := by
  obtain ⟨hn, types, rest, hchildren, htypes⟩ := List.find?_eq_some_iff_append.mp hn
  have hall : ∀ m ∈ types, m.isDoctype := by simpa using htypes
  have hone := h.doctype
  rw [hchildren, List.filter_append, List.length_append, List.filter_eq_self.mpr hall] at hone
  refine ⟨types, rest, hchildren, by simpa using hn, ?_⟩
  match types with
  | [] => exact .inl rfl
  | [m] =>
      have hm := hall m List.mem_cons_self
      cases m with
      | doctype t => exact .inr ⟨t, rfl⟩
      | _ => cases hm
  | _ :: _ :: _ =>
      simp only [List.length_cons] at hone
      omega

/-- Nodes all of which are comments are so one by one. -/
theorem exists_notes {ns : List Node} (h : ∀ n ∈ ns, ∃ value, n = .comment value) :
  ∃ values : List Wording, ns = values.map .comment
  := by
  induction ns with
  | nil => exact ⟨[], rfl⟩
  | cons n ns ih =>
      obtain ⟨⟨value, rfl⟩, hothers⟩ := List.forall_mem_cons.mp h
      obtain ⟨values, rfl⟩ := ih hothers
      exact ⟨value :: values, rfl⟩

/-- In front of the root stand comments, and a document type among them at most. -/
theorem IsOrdered.exists_front (h : d.IsOrdered) (hroot : d.root?.isSome) :
  ∃ (before after : List Wording) (types : List Node) (root : Node) (rest : List Node),
    d.children = before.map .comment ++ (types ++ (after.map .comment ++ root :: rest))
      ∧ root.isElement ∧ (types = [] ∨ ∃ t, types = [.doctype t])
  := by
  obtain ⟨root, hroot⟩ := Option.isSome_iff_exists.mp hroot
  obtain ⟨helement, front, rest, hchildren, hfront⟩ := List.find?_eq_some_iff_append.mp hroot
  have hother (n : Node) (hn : n ∈ front) (hdoctype : n.isDoctype = false) :
      ∃ value, n = .comment value := by
    have hnone : n.isElement = false := by simpa using hfront n hn
    rcases h.others n (by rw [hchildren]; exact List.mem_append_left _ hn) with hn | hn | hn
    · rw [hdoctype] at hn
      cases hn
    · rw [hnone] at hn
      cases hn
    · exact hn
  cases htyped : front.find? Node.isDoctype with
  | none =>
      rw [List.find?_eq_none] at htyped
      obtain ⟨before, rfl⟩ := exists_notes fun n hn => hother n hn (by simpa using htyped n hn)
      exact ⟨before, [], [], root, rest, by simpa using hchildren, helement, .inl rfl⟩
  | some typed =>
      obtain ⟨hdoctype, before, after, rfl, hbefore⟩ := List.find?_eq_some_iff_append.mp htyped
      -- the only document type has been found, so that comments stand behind it as well
      have hone := h.doctype
      rw [hchildren, List.filter_append, List.filter_append, List.filter_cons_of_pos hdoctype,
        List.length_append, List.length_append, List.length_cons] at hone
      have hafter : after.filter Node.isDoctype = [] := List.length_eq_zero_iff.mp (by omega)
      rw [List.filter_eq_nil_iff] at hafter
      obtain ⟨first, rfl⟩ := exists_notes fun n (hn : n ∈ before) =>
        hother n (List.mem_append_left _ hn) (by simpa using hbefore n hn)
      obtain ⟨last, rfl⟩ := exists_notes fun n (hn : n ∈ after) =>
        hother n (List.mem_append_right _ (List.mem_cons_of_mem _ hn)) (by simpa using hafter n hn)
      cases typed with
      | doctype t =>
          exact ⟨first, last, [.doctype t], root, rest, by simpa using hchildren, helement,
            .inr ⟨t, rfl⟩⟩
      | _ => cases hdoctype

/-- What was attached was not misplaced, and stands behind the other nodes. -/
theorem append_ok {after : Document} {n : Node} (h : d.append n = .ok after) :
  d.misplacement? n = none ∧ after = ⟨d.declaration, d.children ++ [n]⟩
  := by
  unfold append at h
  split at h
  · cases h
  · rename_i hn
    cases h
    exact ⟨hn, rfl⟩

end Document

end XmlDraft
