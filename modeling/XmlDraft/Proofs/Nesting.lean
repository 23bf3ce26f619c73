import XmlDraft.Building.Loading
import XmlDraft.Proofs.Calling

/-!
# Open elements follow the nesting of calls

The places of the open elements are those of the elements whose fragments are running around
a site, each being the last child of the one before it.  Main statement: an operation of a
builder, and the beginning and the end of a fragment, do what they do at the site.
-/

namespace XmlDraft

/-! ### Sites and open elements -/

namespace Site

/-- The places of open elements that fit a site: their number is its depth, and the innermost
one leads to the children at the site. -/
structure Fits (s : Site) (opened : List Place) : Prop where
  depth : s.depth = opened.length
  alter : ∀ f children,
    Node.alterAt f (opened.headD []) (s.around children) = s.around (f children)
  children : ∀ children, Node.childrenAt (opened.headD []) (s.around children) = children
  root : opened ≠ [] → ∀ children, (s.around children).any Node.isElement

/-- The run at a site whose open elements have given places. -/
def run (s : Site) (opened : List Place) (h : Sheet) : Run :=
  ⟨⟨s.settings, ⟨s.document h, opened⟩, h.records⟩, h.entries⟩

/-- The top of a document. -/
def top (settings : Settings) : Site :=
  { settings := settings }

theorem top_fits (settings : Settings) :
  (top settings).Fits []
  where
    depth := rfl
    alter _ _ := rfl
    children _ := rfl
    root h := absurd rfl h

namespace Fits

variable {s : Site} {opened : List Place} (fits : s.Fits opened)

include fits

/-- Without open elements nothing stands around the children. -/
theorem around_top (h : opened = []) (children : List Node) :
  s.around children = children
  := by
  subst h
  exact fits.children children

theorem appendAt (new : Node) (children : List Node) :
  Node.appendAt new (opened.headD []) (s.around children) = s.around (children ++ [new])
  := by
  rw [Node.appendAt_eq_alterAt]
  apply fits.alter

/-- The fragment of the last child fits the place of that child. -/
theorem inside (before : List Node) {element : Node} (he : element.isElement) :
  (s.inside before element).Fits ((opened.headD [] ++ [before.length]) :: opened)
  where
    depth := congrArg (· + 1) fits.depth
    alter f children := by
      rw [List.headD_cons, Node.alterAt_append]
      simp only [Site.inside]
      rw [fits.alter, Node.alterAt_length, Node.children_withChildren he,
        Node.withChildren_withChildren]
    children children := by
      rw [List.headD_cons, Node.childrenAt_append]
      simp only [Site.inside]
      rw [fits.children, Node.childrenAt_length, Node.children_withChildren he]
    root _ children := by
      simp only [Site.inside]
      by_cases h : opened = []
      · rw [fits.around_top h]
        simp [he]
      · apply fits.root h

/-- The place of the next node is behind the children at the site. -/
theorem nextPlace (h : Sheet) :
  (s.run opened h).builder.draft.nextPlace = opened.headD [] ++ [h.children.length]
  := by
  simp only [Draft.nextPlace, Draft.current, Draft.width, run, document, fits.children]

/-! ### Adding nodes -/

theorem append (h : Sheet) (n : Node) :
  (s.run opened h).builder.draft.append n
    = (s.add h n).map fun h' => (s.run opened h').builder.draft
  := by
  cases opened with
  | nil =>
      have hd : s.depth = 0 := fits.depth
      have ha := fits.appendAt n h.children
      simp only [List.headD_nil, Node.appendAt] at ha
      simp only [Draft.append, Document.append, Site.add, Site.misplacement?, run, hd, ite_true]
      cases (s.document h).misplacement? n with
      | some m => rfl
      | none => simp [Except.map, Except.mapError, document, ha]
  | cons place rest =>
      have hd : s.depth ≠ 0 := by simp [fits.depth]
      have ha := fits.appendAt n h.children
      simp only [List.headD_cons] at ha
      simp [Draft.append, Site.add, Site.misplacement?, run, hd, document, Except.map, ha]

theorem addNode (h : Sheet) (n : Node) :
  (s.run opened h).builder.addNode n = (s.add h n).map fun h' => (s.run opened h').builder
  := by
  rw [Builder.addNode, fits.append, Site.add]
  split <;> rfl

/-! ### Operations -/

theorem change_add (h : Sheet) (n : Node) :
  (s.run opened h).change ((s.run opened h).builder.addNode n)
    = Prod.map (s.run opened) id (h.change (s.add h n))
  := by
  rw [fits.addNode, Site.add]
  split <;> rfl

theorem append_doctype (h : Sheet) (d : Doctype) :
  ((s.run opened h).builder.draft.document.append (.doctype d)).mapError Fault.misplaced
    = (s.addDoctype h d).map s.document
  := by
  have hdoc : (s.run opened h).builder.draft.document = s.document h := rfl
  rw [hdoc, Site.addDoctype, Document.append]
  split_ifs with hd hs
  · have ho : opened = [] := List.eq_nil_of_length_eq_zero (fits.depth ▸ hd)
    simp only [Site.add, Site.misplacement?, hd, ite_true]
    cases (s.document h).misplacement? (.doctype d) with
    | some m => rfl
    | none => simp [Except.map, Except.mapError, document, fits.around_top ho]
  · simp [Document.misplacement?, hs, Except.map, Except.mapError]
  · have ho : opened ≠ [] := by
      rintro rfl
      exact hd fits.depth
    have hr : (s.document h).root?.isSome := by
      rw [Document.root?, List.find?_isSome]
      exact List.any_eq_true.mp (fits.root ho h.children)
    simp [Document.misplacement?, hs, hr, Except.map, Except.mapError]

theorem change_addDoctype (h : Sheet) (name publicId systemId subset : Value) :
  (s.run opened h).change ((s.run opened h).builder.addDoctype name publicId systemId subset)
    = Prod.map (s.run opened) id (s.operate h .doctype [name, publicId, systemId, subset])
  := by
  have hset : (s.run opened h).builder.settings = s.settings := rfl
  rw [Builder.addDoctype_eq, hset]
  simp only [Site.operate]
  cases Builder.doctypeOf s.settings name publicId systemId subset with
  | error f => rfl
  | ok d =>
      simp only [Except.bind, bind, fits.append_doctype]
      unfold Site.addDoctype Site.add
      split_ifs
      · split <;> rfl
      · rfl
      · rfl

theorem operate (h : Sheet) (o : Operation) (values : List Value) :
  (s.run opened h).operate o values = Prod.map (s.run opened) id (s.operate h o values)
  := by
  unfold Run.operate
  split
  · rename_i v
    simp only [Builder.addComment, Site.operate]
    cases v.requireText "text" with
    | error f => rfl
    | ok t =>
        cases hn : Builder.commentOf t with
        | error f => simp [hn, bind, Except.bind, Run.change, Sheet.change]
        | ok n => simpa [hn, bind, Except.bind] using fits.change_add h n
  · rename_i v
    simp only [Builder.addCData, Site.operate]
    cases v.requireText "text" with
    | error f => rfl
    | ok t => exact fits.change_add h (.cdata t.text)
  · rename_i v
    simp only [Builder.addText, Site.operate]
    cases v.requireText "text" with
    | error f => rfl
    | ok t => exact fits.change_add h (.text t.text)
  · rfl
  · apply fits.change_addDoctype
  · rename_i hcomment hcdata htext hdeclaration hdoctype
    unfold Site.operate
    split
    · exact (hcomment _ rfl rfl).elim
    · exact (hcdata _ rfl rfl).elim
    · exact (htext _ rfl rfl).elim
    · exact (hdeclaration _ _ _ rfl rfl).elim
    · exact (hdoctype _ _ _ _ rfl rfl).elim
    · rfl

/-! ### New elements -/

theorem startElement (h : Sheet) (v : Value) (given : List Value)
    (named : List (String × Value)) :
  (s.run opened h).builder.startElement v given named
    = match s.startElement h v given named with
      | (h', .error f) => ((s.run opened h').builder, .error f)
      | (h', .ok (element, fragment)) =>
        ((s.run opened { h' with children := h'.children ++ [element] }).builder,
          .ok (opened.headD [] ++ [h'.children.length], fragment))
  := by
  let warned : Sheet :=
    { h with records := ((s.builder h).warn (Arguments.warnings given)).records }
  have hwarn : (s.run opened h).builder.warn (Arguments.warnings given)
      = (s.run opened warned).builder := by
    simp only [warned, Builder.warn_eq]
    rfl
  have hset (h' : Sheet) : (s.run opened h').builder.settings = s.settings := rfl
  simp only [Builder.startElement, Site.startElement, hset, hwarn]
  cases Builder.tagName s.settings v with
  | error f => rfl
  | ok name =>
      dsimp only
      cases Builder.elementOf s.settings name given named with
      | error f => rfl
      | ok found =>
          obtain ⟨element, fragment⟩ := found
          dsimp only
          rw [fits.append, Site.add]
          cases hm : s.misplacement? warned element with
          | some m => rfl
          | none =>
              have hdepth : (s.run opened warned).builder.draft.depth = s.depth :=
                fits.depth.symm
              simp only [Except.map, fits.nextPlace, hdepth]
              rfl

end Fits

end Site

end XmlDraft
