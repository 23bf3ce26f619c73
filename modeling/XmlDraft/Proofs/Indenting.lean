import Mathlib.Data.List.Basic
import XmlDraft.Proofs.Found
import XmlDraft.Proofs.Rewriting

/-!
# What indentation inserts

The markup of a document is a sequence of pieces: a declaration, start tags and end tags, elements
without children, comments and document types, and character data.  Whether a line begins at a piece
is told from the pieces before it alone: which of them are elements that are still open, and whether
character data stands directly in one of those.  Main statement: without indentation the pieces
stand one behind another, and with it a line break stands before those at which a line begins.
-/

namespace XmlDraft

namespace Writing

/-! ### Pieces -/

/-- What a piece of markup is. -/
inductive PieceKind where
  /-- The declaration of a document. -/
  | declaration
  /-- The start tag of an element with children. -/
  | opening
  /-- The end tag of an element with children. -/
  | closing
  /-- An element without children. -/
  | empty
  /-- A comment or a document type. -/
  | aside
  /-- Text or a CDATA section. -/
  | data
deriving DecidableEq, Repr

/-- A piece of markup. -/
structure Piece where
  /-- What it is. -/
  kind : PieceKind
  /-- Its characters. -/
  text : List Char

mutual

/-- The pieces of a node in order, given the default namespace in scope. -/
def pieces (scope : Option String) : Node → List Piece
  | .element name attributes children =>
    match children with
    | [] => [⟨.empty, tagOpening scope name attributes ++ " />".toList⟩]
    | n :: ns =>
      ⟨.opening, tagOpening scope name attributes ++ ['>']⟩
        :: (pieces (innerScope scope name) n ++ piecesList (innerScope scope name) ns
          ++ [⟨.closing, endTag name⟩])
  | .text value => [⟨.data, escapeText value.toList⟩]
  | .cdata value => [⟨.data, cdataSections value.toList⟩]
  | .comment value => [⟨.aside, "<!--".toList ++ value.printed.toList ++ "-->".toList⟩]
  | .doctype d => [⟨.aside, doctypeText d⟩]

/-- The pieces of several nodes in order. -/
def piecesList (scope : Option String) : List Node → List Piece
  | [] => []
  | n :: ns => pieces scope n ++ piecesList scope ns

end

/-- The characters of pieces one behind another. -/
def written (ps : List Piece) : List Char :=
  ps.flatMap Piece.text

/-- The elements that are open behind a piece, given those that are open before it: for each of
them, the innermost first, whether character data stands directly in it so far. -/
def Piece.openBehind (opened : List Bool) (p : Piece) : List Bool :=
  match p.kind with
  | .opening => false :: opened
  | .closing => opened.tail
  | .data => opened.modifyHead fun _ => true
  | _ => opened

/-- The elements that are open behind pieces: for each of them, the innermost first, whether
character data stands directly in it so far. -/
def openElements (before : List Piece) : List Bool :=
  before.foldl Piece.openBehind []

namespace Piece

/-- Whether a piece is the start of an element, a comment or a document type, or the end of an
element with children. -/
def isMarkup (p : Piece) : Bool :=
  p.kind = .opening || p.kind = .closing || p.kind = .empty || p.kind = .aside

/-- Whether a line begins at a piece behind others: something has been written, and no character
data stands directly in an element that is still open, where the one that the piece closes counts
as open. -/
def beginsLine (before : List Piece) (p : Piece) : Bool :=
  p.isMarkup && written before ≠ [] && !(openElements before).any id

/-- The number of elements that are open at a piece, without the one that it closes. -/
def level (before : List Piece) (p : Piece) : Nat :=
  if p.kind = .closing then (openElements before).length - 1 else (openElements before).length

end Piece

/-- The characters of pieces behind others, with a line break before each piece at which a line
begins. -/
def indented (layout : Layout) (before : List Piece) : List Piece → List Char
  | [] => []
  | p :: ps =>
    (if p.beginsLine before then lineBreak layout (p.level before) else [])
      ++ p.text ++ indented layout (before ++ [p]) ps

end Writing

/-- The declaration of a document as a piece, if it has one. -/
def Document.head (layout : Layout) (d : Document) : Except RenderFault (List Writing.Piece) :=
  match d.declaration with
  | some declaration =>
    (Writing.declarationText layout declaration).map fun text => [⟨.declaration, text⟩]
  | none => .ok []

/-- The pieces of a document, unless it cannot be written. -/
def Document.pieces (layout : Layout) (d : Document) : Except RenderFault (List Writing.Piece) := do
  let head ← d.head layout
  if !Writing.allPrintableList d.children then .error .unprintable
  pure (head ++ Writing.piecesList none d.children)

namespace Writing

/-! ### Without indentation -/

theorem written_append (ps qs : List Piece) :
  written (ps ++ qs) = written ps ++ written qs
  := List.flatMap_append

mutual

/-- The pieces of a node one behind another are its markup without indentation. -/
theorem written_pieces (scope : Option String) (n : Node) :
  written (pieces scope n) = compact scope n
  := by
  cases n with
  | element name attributes children =>
      cases children with
      | nil => rw [pieces, compact_empty, written, List.flatMap_singleton]
      | cons c cs =>
          have hfirst := written_pieces (innerScope scope name) c
          have hothers := written_piecesList (innerScope scope name) cs
          rw [compact_element _ _ _ (List.cons_ne_nil c cs), compactList, ← hfirst, ← hothers]
          simp [pieces, written]
  | _ => simp [pieces, compact, written]

theorem written_piecesList (scope : Option String) (ns : List Node) :
  written (piecesList scope ns) = compactList scope ns
  := by
  cases ns with
  | nil => rfl
  | cons n ns =>
      rw [piecesList, compactList, written_append, written_pieces scope n,
        written_piecesList scope ns]

end

/-- The markup of a node is not empty, unless it is character data. -/
theorem compact_ne (scope : Option String) {n : Node} (h : n.isCharacterData = false) :
  compact scope n ≠ []
  := by
  cases n with
  | element name attributes children =>
      cases children with
      | nil => simp [compact]
      | cons c cs => simp [compact]
  | comment value => simp [compact]
  | doctype d => exact List.append_ne_nil_of_right_ne_nil _ (List.cons_ne_nil _ _)
  | _ => cases h

/-! ### Open elements -/

theorem openElements_append (before ps : List Piece) :
  openElements (before ++ ps) = ps.foldl Piece.openBehind (openElements before)
  := List.foldl_append

mutual

/-- Behind a node the same elements are open as before it, and the innermost of them holds the node
if it is character data. -/
theorem foldl_pieces (opened : List Bool) (scope : Option String) (n : Node) :
  (pieces scope n).foldl Piece.openBehind opened
    = opened.modifyHead (· || n.isCharacterData)
  := by
  cases n with
  | element name attributes children =>
      cases children with
      | nil => cases opened <;> simp [pieces, Piece.openBehind, Node.isCharacterData]
      | cons c cs =>
          have hfirst := foldl_pieces (false :: opened) (innerScope scope name) c
          have hothers := foldl_piecesList (c.isCharacterData :: opened) (innerScope scope name) cs
          simp only [List.modifyHead_cons, Bool.false_or] at hfirst hothers
          have helement : (Node.element name attributes (c :: cs)).isCharacterData = false := rfl
          simp only [pieces, List.foldl_cons, List.foldl_append, Piece.openBehind, hfirst, hothers,
            List.foldl_nil, List.tail_cons, helement]
          cases opened <;> simp
  | text value => simp [pieces, Piece.openBehind, Node.isCharacterData]
  | cdata value => simp [pieces, Piece.openBehind, Node.isCharacterData]
  | comment value => cases opened <;> simp [pieces, Piece.openBehind, Node.isCharacterData]
  | doctype d => cases opened <;> simp [pieces, Piece.openBehind, Node.isCharacterData]

theorem foldl_piecesList (opened : List Bool) (scope : Option String) (ns : List Node) :
  (piecesList scope ns).foldl Piece.openBehind opened
    = opened.modifyHead (· || ns.any Node.isCharacterData)
  := by
  cases ns with
  | nil => cases opened <;> simp [piecesList]
  | cons n ns =>
      rw [piecesList, List.foldl_append, foldl_pieces opened scope n,
        foldl_piecesList _ scope ns, List.any_cons]
      cases opened <;> simp [Bool.or_assoc]

end

/-- Inside an element, and where there is no character data, marking is counted. -/
theorem any_modifyHead (opened : List Bool) (isData : Bool) (h : opened ≠ [] ∨ isData = false) :
  (opened.modifyHead (· || isData)).any id = (opened.any id || isData)
  := by
  cases opened with
  | nil => simp_all
  | cons o rest =>
      simp only [List.modifyHead_cons, List.any_cons, id]
      rw [Bool.or_right_comm]

/-! ### With indentation -/

theorem indented_append (layout : Layout) (before ps qs : List Piece) :
  indented layout before (ps ++ qs)
    = indented layout before ps ++ indented layout (before ++ ps) qs
  := by
  induction ps generalizing before with
  | nil => simp [indented]
  | cons p ps ih => simp [indented, ih, List.append_assoc]

/-- A piece that is no character data is written behind the line break that the writer puts before
it. -/
theorem indented_markup (layout : Layout) (before : List Piece) {p : Piece} (hp : p.isMarkup) :
  indented layout before [p]
    = breakLine (some layout) ((openElements before).any id) (written before ≠ [])
        (p.level before) ++ p.text
  := by
  simp only [indented, Piece.beginsLine, hp, Bool.true_and, breakLine, List.append_nil]
  rw [Bool.and_comm]

/-- An element with children is written as its start tag, its children and its end tag. -/
theorem nodeText_children (layout : Option Layout) (mixed started : Bool) (level : Nat)
    (scope : Option String) (name : QName) (attributes : Attributes) {children : List Node}
    (h : children ≠ []) :
  nodeText layout mixed started level scope (.element name attributes children)
    = breakLine layout mixed started level ++ (tagOpening scope name attributes ++ ['>'])
      ++ (nodesText layout mixed true (level + 1) (innerScope scope name) children
        ++ (breakLine layout (mixed || children.any Node.isCharacterData) true level
          ++ endTag name))
  := by
  cases children with
  | nil => exact absurd rfl h
  | cons c cs =>
      simp only [nodeText, nodesText, tagOpening, endTag, attributesText_tagAttributes, declared_or,
        List.append_assoc, List.cons_append, List.nil_append]

mutual

/-- The pieces of a node with their line breaks are its markup with indentation. -/
theorem indented_pieces (layout : Layout) (before : List Piece) (scope : Option String) (n : Node) :
  indented layout before (pieces scope n)
    = nodeText (some layout) ((openElements before).any id) (written before ≠ [])
        (openElements before).length scope n
  := by
  cases n with
  | element name attributes children =>
      cases children with
      | nil =>
          rw [pieces, indented_markup layout before rfl]
          simp [Piece.level, nodeText, tagOpening, attributesText_tagAttributes]
      | cons c cs =>
          let start : Piece := ⟨.opening, tagOpening scope name attributes ++ ['>']⟩
          let inner := innerScope scope name
          have hopened : openElements (before ++ [start]) = false :: openElements before := by
            rw [openElements_append]
            rfl
          have hwritten : written (before ++ [start]) ≠ [] := by
            simp [written, start]
          have hchildren := indented_piecesList layout (before ++ [start]) inner (c :: cs)
            (.inl ⟨by simp [hopened], hwritten⟩)
          have hclosed : openElements (before ++ [start] ++ piecesList inner (c :: cs))
              = (c :: cs).any Node.isCharacterData :: openElements before := by
            rw [openElements_append, foldl_piecesList, hopened, List.modifyHead_cons, Bool.false_or]
          have hend : written (before ++ [start] ++ piecesList inner (c :: cs)) ≠ [] := by
            rw [written_append]
            exact List.append_ne_nil_of_left_ne_nil hwritten _
          have hpieces : pieces scope (.element name attributes (c :: cs))
              = [start] ++ (piecesList inner (c :: cs) ++ [⟨.closing, endTag name⟩]) := by
            simp [pieces, piecesList, start, inner]
          rw [hpieces, indented_append, indented_append, hchildren, indented_markup layout _ rfl,
            indented_markup layout _ rfl, nodeText_children _ _ _ _ _ _ _ (List.cons_ne_nil c cs)]
          -- the element that is closed counts as open, but not for the level
          simp only [Piece.level, hopened, hclosed, hwritten, hend, ne_eq, not_false_eq_true,
            decide_true, List.any_cons, List.length_cons, Nat.add_sub_cancel, ite_true, id,
            Bool.or_false, Bool.or_comm _ ((openElements before).any id)]
          simp [start, inner]
  | text value => simp [pieces, indented, Piece.beginsLine, Piece.isMarkup, nodeText]
  | cdata value => simp [pieces, indented, Piece.beginsLine, Piece.isMarkup, nodeText]
  | comment value =>
      rw [pieces, indented_markup layout before rfl]
      simp [Piece.level, nodeText]
  | doctype d =>
      rw [pieces, indented_markup layout before rfl]
      simp [Piece.level, nodeText]

theorem indented_piecesList (layout : Layout) (before : List Piece) (scope : Option String)
    (ns : List Node)
    (h : (openElements before ≠ [] ∧ written before ≠ [])
      ∨ ∀ n ∈ ns, n.isCharacterData = false) :
  indented layout before (piecesList scope ns)
    = nodesText (some layout) ((openElements before).any id) (written before ≠ [])
        (openElements before).length scope ns
  := by
  cases ns with
  | nil => rfl
  | cons n ns =>
      have hopened : openElements (before ++ pieces scope n)
          = (openElements before).modifyHead (· || n.isCharacterData) := by
        rw [openElements_append, foldl_pieces]
      have hwritten : written (before ++ pieces scope n) ≠ [] := by
        rw [written_append, written_pieces]
        rcases h with ⟨_, h⟩ | h
        · exact List.append_ne_nil_of_left_ne_nil h _
        · exact List.append_ne_nil_of_right_ne_nil _ (compact_ne scope (h n List.mem_cons_self))
      have hany := any_modifyHead (openElements before) n.isCharacterData
        (h.imp And.left fun h => h n List.mem_cons_self)
      have hothers := indented_piecesList layout (before ++ pieces scope n) scope ns
        (h.imp (fun h => ⟨by simpa [hopened] using h.1, hwritten⟩)
          fun h m hm => h m (List.mem_cons_of_mem n hm))
      rw [hopened, hany, List.length_modifyHead] at hothers
      rw [piecesList, nodesText, indented_append, indented_pieces layout before scope n, hothers]
      simp [hwritten]

end

end Writing

/-! ### Documents -/

open Writing
open Reading (bind_ok map_ok)

/-- A declaration is not empty. -/
theorem Writing.declarationText_ne {layout : Layout} {declaration : Declaration} {text : List Char}
    (h : declarationText layout declaration = .ok text) :
  text ≠ []
  := by
  obtain ⟨version, _, h⟩ := bind_ok h
  obtain ⟨encoding, _, h⟩ := bind_ok h
  split at h
  · cases h
    simp
  · split at h <;> cases h
    simp

namespace Document

/-- At the head of a document no line begins and no element is open behind it; it is empty if the
document has no declaration. -/
theorem head_ok {layout : Layout} {d : Document} {head : List Piece}
    (h : d.head layout = .ok head) :
  openElements head = [] ∧ indented layout [] head = written head
    ∧ (written head ≠ [] ↔ d.declaration.isSome)
  := by
  cases hdeclaration : d.declaration with
  | none =>
      rw [Document.head, hdeclaration] at h
      cases h
      simp [openElements, indented, written]
  | some declaration =>
      rw [Document.head, hdeclaration] at h
      obtain ⟨text, htext, rfl⟩ := map_ok h
      have hne := declarationText_ne htext
      simp [openElements, Piece.openBehind, indented, Piece.beginsLine, Piece.isMarkup, written,
        hne]

/-- The markup of a document is its head and the markup of its children. -/
theorem documentText_eq (layout : Layout) (isIndented : Bool) (d : Document) :
  documentText layout isIndented d = (do
    let head ← d.head layout
    if !allPrintableList d.children then .error .unprintable
    pure (written head ++ nodesText (if isIndented then some layout else none) false
      d.declaration.isSome 0 none d.children))
  := by
  cases hdeclaration : d.declaration with
  | none =>
      simp [documentText, Document.head, hdeclaration, written, bind, Except.bind, pure,
        Except.pure]
  | some declaration =>
      cases htext : declarationText layout declaration with
      | error fault =>
          simp [documentText, Document.head, hdeclaration, htext, bind, Except.bind, Except.map]
      | ok text =>
          simp [documentText, Document.head, hdeclaration, htext, written, bind, Except.bind,
            Except.map]

/-- Without indentation the markup of a document is its pieces one behind another. -/
theorem render_written (layout : Layout) (d : Document) :
  d.render layout false = (d.pieces layout).map fun ps => String.ofList (written ps)
  := by
  simp only [Document.render, Document.documentText_eq, Document.pieces]
  cases d.head layout with
  | error fault => rfl
  | ok head =>
      cases allPrintableList d.children with
      | false => rfl
      | true =>
          have hwritten : written (head ++ piecesList none d.children)
              = written head ++ nodesText none false d.declaration.isSome 0 none d.children := by
            rw [written_append, written_piecesList, nodesText_none]
          simp [bind, Except.bind, pure, Except.pure, Except.map, hwritten]

/-- With indentation there is a line break before each piece at which a line begins. -/
theorem render_indented (layout : Layout) {d : Document}
    (hdata : ∀ n ∈ d.children, n.isCharacterData = false) :
  d.render layout true = (d.pieces layout).map fun ps => String.ofList (indented layout [] ps)
  := by
  simp only [Document.render, Document.documentText_eq, Document.pieces]
  cases hhead : d.head layout with
  | error fault => rfl
  | ok head =>
      obtain ⟨hopened, hfirst, hstarted⟩ := Document.head_ok hhead
      cases allPrintableList d.children with
      | false => rfl
      | true =>
          have hindented : indented layout [] (head ++ piecesList none d.children)
              = written head
                ++ nodesText (some layout) false d.declaration.isSome 0 none d.children := by
            rw [indented_append, hfirst, List.nil_append,
              indented_piecesList layout head none d.children (.inr hdata), hopened]
            simp [hstarted]
          simp [bind, Except.bind, pure, Except.pure, Except.map, hindented]

end Document

/-- The markup of a document without indentation is its pieces one behind another; indentation
inserts a line break with the indentation of the level before each piece at which a line begins, and
nothing else. -/
theorem indentation_inserted (layout : Layout) {d : Document}
    (hdata : ∀ n ∈ d.children, n.isCharacterData = false) :
  d.render layout false = (d.pieces layout).map (fun ps => String.ofList (written ps))
    ∧ d.render layout true
      = (d.pieces layout).map (fun ps => String.ofList (indented layout [] ps))
  := ⟨d.render_written layout, Document.render_indented layout hdata⟩

/-- No line begins behind a text, or behind what follows it, up to the end of the element that it
stands in. -/
theorem indentation_inserted_around_text :
  let layout : Layout := { indent := "  ", newline := "\n" }
  let element (name : String) (h : name ≠ "") : List Node → Node :=
    .element ⟨name, none, h, none⟩ []
  let held := element "b" (by decide) [.comment "x", .text "y", element "c" (by decide) []]
  let root := element "a" (by decide) [held, element "d" (by decide) []]
  let d : Document := { children := [.comment "z", root] }
  d.render layout false = (d.pieces layout).map (fun ps => String.ofList (written ps))
    ∧ d.render layout true
      = (d.pieces layout).map (fun ps => String.ofList (indented layout [] ps))
    ∧ d.render layout true
      = .ok "<!--z-->\n<a>\n  <b>\n    <!--x-->y<c /></b>\n  <d />\n</a>"
  := by
  intro layout element held root d
  have hdata : ∀ n ∈ d.children, n.isCharacterData = false := by
    simp [d, root, element, Node.isCharacterData]
  obtain ⟨hwritten, hindented⟩ := indentation_inserted layout hdata
  exact ⟨hwritten, hindented, by cbv⟩

end XmlDraft
