import XmlDraft.Building.Draft

/-!
# Places

How the children of the node at a place change and how they are read.  Both follow a place
step by step, so that the place of a child acts like the place of its parent followed by the
position of the child.
-/

namespace XmlDraft

namespace Node

/-- An element with other children; a node of another kind stays as it is. -/
def withChildren (n : Node) (children : List Node) : Node :=
  match n with
  | element name attributes _ => element name attributes children
  | n => n

@[simp]
theorem withChildren_children (n : Node) :
  n.withChildren n.children = n
  := by
  cases n <;> rfl

@[simp]
theorem withChildren_withChildren (n : Node) (before after : List Node) :
  (n.withChildren before).withChildren after = n.withChildren after
  := by
  cases n <;> rfl

@[simp]
theorem isElement_withChildren (n : Node) (children : List Node) :
  (n.withChildren children).isElement = n.isElement
  := by
  cases n <;> rfl

theorem children_withChildren {n : Node} (h : n.isElement) (children : List Node) :
  (n.withChildren children).children = children
  := by
  cases n with
  | element => rfl
  | _ => cases h

/-- The list with the children of the node at a place changed by a function. -/
def alterAt (f : List Node → List Node) : Place → List Node → List Node
  | [], ns => f ns
  | i :: rest, ns => ns.modify i fun n => n.withChildren (alterAt f rest n.children)

theorem appendAt_eq_alterAt (new : Node) (place : Place) (ns : List Node) :
  appendAt new place ns = alterAt (fun children => children ++ [new]) place ns
  := by
  induction place generalizing ns with
  | nil => rfl
  | cons i rest ih =>
      rw [appendAt, alterAt]
      congr 1
      funext n
      cases n with
      | element name attributes children => exact congrArg (element name attributes) (ih children)
      | _ => rfl

theorem alterAt_append (f : List Node → List Node) (place rest : Place) (ns : List Node) :
  alterAt f (place ++ rest) ns = alterAt (alterAt f rest) place ns
  := by
  induction place generalizing ns with
  | nil => rfl
  | cons i place ih => simp only [List.cons_append, alterAt, ih]

theorem alterAt_id (place : Place) (ns : List Node) :
  alterAt (fun children => children) place ns = ns
  := by
  induction place generalizing ns with
  | nil => rfl
  | cons i rest ih =>
      simp only [alterAt, ih, withChildren_children]
      exact List.modify_id i ns

theorem childrenAt_append (place rest : Place) (ns : List Node) :
  childrenAt (place ++ rest) ns = childrenAt rest (childrenAt place ns)
  := by
  induction place generalizing ns with
  | nil => rfl
  | cons i place ih => simp only [List.cons_append, childrenAt, ih]

/-- The last child of a list is at the position that counts the others. -/
theorem alterAt_length (f : List Node → List Node) (before : List Node) (n : Node) :
  alterAt f [before.length] (before ++ [n]) = before ++ [n.withChildren (f n.children)]
  := by
  induction before with
  | nil => rfl
  | cons m before ih => exact congrArg (m :: ·) ih

theorem childrenAt_length (before : List Node) (n : Node) :
  childrenAt [before.length] (before ++ [n]) = n.children
  := by
  simp [childrenAt]

end Node

end XmlDraft
