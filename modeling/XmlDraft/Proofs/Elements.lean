import XmlDraft.Proofs.Passing
import XmlDraft.Proofs.Writable

/-!
# Reading elements that were written

A reader comes through the markup of an element as the element was written: it opens it at its
start tag, reads its children one after another, and closes it at its end tag.  The texts of
several children that follow one another are taken together before any of them is read.  Main
statement: what the events of an element put together is its normal form with unified ends of
lines, whatever was declared for the attributes, as long as their values are of their types.
-/

namespace XmlDraft

/-- A node that can be written holds no carriage return in the names of its tags. -/
theorem Node.IsWritable.namesKeepLines {a : Reading.Alphabet}
    {d : Reading.Declarations} {scope : Option String} {n : Node} (h : n.IsWritable a d scope) :
  n.NamesKeepLines
  := by
  have hplain {name : List Char} (hname : Reading.IsPlainName a name) : '\r' ∉ name := by
    intro hmem
    have hmark := a.isInner_mark (c := '\r') (by decide)
    exact Bool.false_ne_true (hmark.symm.trans (hname.inner _ hmem))
  cases n with
  | element name attributes children =>
      refine ⟨⟨hplain h.1.plain, ?_⟩, fun p hp => ?_⟩
      · rw [QName.printed_eq h.1.own]
        exact hplain h.1.plain
      · exact hplain (h.1.read p (List.mem_append_left _ hp)).name
  | _ => trivial

namespace Reading

open Assembly (Yields pushText pushNode)

namespace Surroundings

variable {x : Surroundings} {expand : Expanding}

/-! ### Tags -/

/-- The attributes of a tag can be read from it, together with the declaration of its namespace,
and no two of them have the same name. -/
theorem tagAttributes_written {m : Medium} {d : Declarations} {scope : Option String}
    {name : QName} {attributes : Attributes}
    (h : Writing.IsTag m.alphabet d scope name attributes) :
  m.AreReadable (Writing.tagAttributes scope name attributes)
    ∧ ((Writing.tagAttributes scope name attributes).map Prod.fst).Nodup
  := by
  refine ⟨fun p hp => ⟨(h.read p hp).name, (h.read p hp).value⟩, ?_⟩
  rw [Writing.tagAttributes, List.map_append, List.nodup_append]
  refine ⟨h.nodup, ?_, ?_⟩
  · cases Writing.declared scope name <;> simp
  · rintro p hp q hq rfl
    rw [List.map_map] at hq
    obtain ⟨uri, _, rfl⟩ := List.mem_map.mp hq
    exact h.space hp

/-- A name behind an opening bracket begins a start tag. -/
theorem markup_name {name : List Char} (hname : IsPlainName x.medium.alphabet name)
    (start more : List Char) (f : Flow) :
  x.markup start (name ++ more) f = x.startTag start (name ++ more) f
  := by
  obtain ⟨c, cs, rfl, _, hmark⟩ := exists_start hname
  simp only [nonNames, List.mem_cons, not_or] at hmark
  rw [List.cons_append, markup]
  · exact fun h => List.cons_ne_nil _ _ h
  · exact fun _ h => hmark.1 (List.head_eq_of_cons_eq h)
  · exact fun _ h => hmark.2.1 (List.head_eq_of_cons_eq h)
  · exact fun _ h => hmark.2.2.1 (List.head_eq_of_cons_eq h)

/-- The event of a written start tag, with the default values that were found for it. -/
abbrev startEvent (scope : Option String) (name : QName) (attributes : Attributes)
    (defaulted : List (Label × String)) : Event :=
  .start { plainTag name.localPart (Writing.tagAttributes scope name attributes) with
    defaulted := defaulted }

/-- The state after a start tag. -/
def afterTag (f : Flow) (scope : Option String) (name : QName) (attributes : Attributes)
    (defaulted : List (Label × String)) (isEmpty : Bool) : Flow :=
  if isEmpty then (f.emit (startEvent scope name attributes defaulted)).emit .finish
  else { f.emit (startEvent scope name attributes defaulted) with
    opened := ⟨name.localPart.toList, f.scope⟩ :: f.opened }

/-- The markup of an element without children is its tag. -/
theorem compact_append_empty (scope : Option String) (name : QName) (attributes : Attributes)
    (rest : List Char) :
  Writing.compact scope (.element name attributes []) ++ rest
    = '<' :: (name.localPart.toList
        ++ (Writing.attributesText (Writing.tagAttributes scope name attributes)
          ++ (Medium.tagEnd true ++ rest)))
  := by
  simp only [Writing.compact_empty, Writing.tagOpening, Medium.tagEnd, ite_true, List.cons_append,
    List.append_assoc]

/-- The markup of an element with children is its start tag, that of its children, and its end
tag. -/
theorem compact_append_children (scope : Option String) {name : QName} (hown : name.member = none)
    (attributes : Attributes) {children : List Node} (h : children ≠ []) (rest : List Char) :
  Writing.compact scope (.element name attributes children) ++ rest
    = '<' :: (name.localPart.toList
        ++ (Writing.attributesText (Writing.tagAttributes scope name attributes)
          ++ (Medium.tagEnd false
            ++ (Writing.compactList (Writing.innerScope scope name) children
              ++ '<' :: '/' :: (name.localPart.toList ++ '>' :: rest)))))
  := by
  have hend : "</".toList = ['<', '/'] := by decide
  simp only [Writing.compact_element _ _ _ h, Writing.tagOpening, Writing.endTag, Medium.tagEnd,
    hend, QName.printed_eq hown, Bool.false_eq_true, ite_false, List.cons_append,
    List.append_assoc, List.nil_append]

/-- What is left behind a start tag is shorter than the tag and what follows it. -/
theorem length_le_tag (name attributes tail rest : List Char) :
  rest.length ≤ (name ++ (attributes ++ (tail ++ rest))).length
  := by
  simp only [List.length_append]
  omega

theorem step_startTag (expand : Expanding) (hx : x.IsPlain) {scope : Option String} {name : QName}
    {attributes : Attributes}
    (h : Writing.IsTag x.medium.alphabet x.declarations scope name attributes) (isEmpty : Bool)
    (rest : List Char) (f : Flow) :
  ∃ defaulted, x.step expand '<' (name.localPart.toList
      ++ (Writing.attributesText (Writing.tagAttributes scope name attributes)
        ++ (Medium.tagEnd isEmpty ++ rest))) f
    = .ok (afterTag f scope name attributes defaulted isEmpty, rest)
  := by
  obtain ⟨hreadable, hnodup⟩ := tagAttributes_written h
  obtain ⟨raws, htag, hraws⟩ := Medium.startTag_append h.plain hreadable isEmpty rest
  obtain ⟨defaulted, hresolve⟩ := resolveTag_rawParts (m := x.medium) x.declarations x.replacing
    (x.account rest) f.spent
    ('<' :: (name.localPart.toList
      ++ (Writing.attributesText (Writing.tagAttributes scope name attributes)
        ++ (Medium.tagEnd isEmpty ++ rest))))
    f.scope name.localPart _ raws isEmpty hraws (fun p hp => (h.read p hp).typed) hnodup
  refine ⟨defaulted, ?_⟩
  simp only [step, markup_name h.plain, startTag, htag, hx.separator, scanned, Except.mapError,
    bind, Except.bind, hresolve]
  cases isEmpty <;> rfl

/-- The end tag of the innermost element closes it. -/
theorem step_endTag (expand : Expanding) (hbase : x.base = 0) {name : List Char}
    (hname : IsPlainName x.medium.alphabet name) (rest : List Char) (f : Flow) (outside : Scope)
    (others : List Opened)
    (hopened : f.opened = ⟨name, outside⟩ :: others) :
  x.step expand '<' ('/' :: (name ++ '>' :: rest)) f
    = .ok ({ f.emit .finish with opened := others, scope := outside }, rest)
  := by
  have htag := Medium.endTag_append hname rest
  simp [step, markup, endTag, htag, hopened, hbase, scanned, Except.mapError, bind, Except.bind]

/-- The element that a start tag opens, in the namespace that it has once it is read. -/
abbrev openedElement (scope : Option String) (name : QName) (attributes : Attributes) :
    OpenElement :=
  ⟨{ name with space := Writing.innerScope scope name }, attributes, []⟩

/-- An element with children is read from its start tag to its end tag if its children are read in
between. -/
theorem passes_tags (hx : x.IsPlain) {a b : Assembly} {scope : Option String}
    (between : a.IsBetween scope) {name : QName} {attributes : Attributes}
    (htag : Writing.IsTag x.medium.alphabet x.declarations scope name attributes)
    {content rest : List Char} {children : List Node}
    (hchildren : x.Reads expand (content ++ '<' :: '/' :: (name.localPart.toList ++ '>' :: rest))
      ('<' :: '/' :: (name.localPart.toList ++ '>' :: rest))
      (a.inside (openedElement scope name attributes) (Writing.innerScope scope name))
      (a.inside { openedElement scope name attributes with children := children }
        (Writing.innerScope scope name)))
    (ha : a.attach (.element { name with space := Writing.innerScope scope name } attributes children)
      = .ok b)
    (f : Flow) (hyields : Yields f.events a) :
  ∃ es, x.Passes expand ('<' :: (name.localPart.toList
        ++ (Writing.attributesText (Writing.tagAttributes scope name attributes)
          ++ (Medium.tagEnd false
            ++ (content ++ '<' :: '/' :: (name.localPart.toList ++ '>' :: rest)))))) f rest
      { f with events := es }
    ∧ Yields es b
  := by
  obtain ⟨defaulted, hstep⟩ := step_startTag expand hx htag false
    (content ++ '<' :: '/' :: (name.localPart.toList ++ '>' :: rest)) f
  let opened := afterTag f scope name attributes defaulted false
  have hopened : opened.opened = ⟨name.localPart.toList, f.scope⟩ :: f.opened := rfl
  have hne : opened.opened ≠ [] := hopened ▸ List.cons_ne_nil _ _
  obtain ⟨es, hpass, hes⟩ := hchildren opened hne
    (hyields.emit (Assembly.step_start between htag.own htag.nodup htag.space defaulted))
  refine ⟨.finish :: es, ?_, hes.emit ha⟩
  have hend : x.step expand '<' ('/' :: (name.localPart.toList ++ '>' :: rest))
      { opened with events := es } = .ok ({ f with events := .finish :: es }, rest) :=
    step_endTag expand hx.base htag.plain rest _ f.scope f.opened hopened
  have hlength : rest.length ≤ ('/' :: (name.localPart.toList ++ '>' :: rest)).length := by
    simp only [List.length_cons, List.length_append]
    omega
  exact Passes.trans (.of_step (length_le_tag _ _ _ _) hstep) hne
    (hpass.trans hne (.of_step hlength hend))

/-! ### Children -/

/-- The sections of a text are read as nodes one after another. -/
theorem reads_sections (hx : x.IsPlain) {a : Assembly} {scope : Option String}
    (between : a.IsBetween scope)
    (o : OpenElement) (space : Option String) (ps : List (List Char))
    (h : ∀ p ∈ ps, (∀ c ∈ p, isXmlChar c) ∧ Writing.HoldsNoEnd p ∧ p ≠ []) (rest : List Char) :
  x.Reads expand (ps.flatMap Writing.cdataSection ++ rest) rest (a.inside o space)
    (a.inside { o with
      children := ((ps.map Text.unifyLines).map fun cs => .cdata (String.ofList cs)).foldl pushNode
        o.children } space)
  := by
  induction ps generalizing o with
  | nil => exact .refl _ _
  | cons p ps ih =>
      rw [List.forall_mem_cons] at h
      obtain ⟨⟨hchars, hend, hne⟩, hps⟩ := h
      rw [List.flatMap_cons, List.append_assoc]
      have hothers := ih { o with
        children := o.children ++ [.cdata (String.ofList (Text.unifyLines p))] } hps
      exact (reads_cdataSection hx (between.inside o space) hchars hend hne
        (Assembly.attach_inside a o space _) _).trans hothers

/-- A CDATA section is read as the sections of its normal form. -/
theorem reads_cdata (hx : x.IsPlain) {a : Assembly} {scope : Option String}
    (between : a.IsBetween scope) (o : OpenElement) (space : Option String) {value : String}
    (hchars : isCharText value) (hsound : value ≠ "") (rest : List Char) :
  x.Reads expand (Writing.compact space (.cdata value) ++ rest) rest (a.inside o space)
    (a.inside { o with
      children := (Node.normal space (Node.unified (.cdata value))).foldl pushNode o.children }
      space)
  := by
  have hvalue := Medium.isXmlChar_of_isCharText hchars
  have hne : value.toList ≠ [] := by simpa using hsound
  obtain ⟨first, others, hcut, _, hfirst, hothers⟩ := Node.cutSections_spec value.toList
  have hends : ∀ p ∈ Node.cutSections value.toList, Writing.HoldsNoEnd p :=
    hcut ▸ List.forall_mem_cons.mpr ⟨hfirst, hothers⟩
  have hchars : ∀ p ∈ Node.cutSections value.toList, ∀ c ∈ p, isXmlChar c := by
    intro p hp c hc
    apply hvalue
    rw [← Node.flatten_cutSections value.toList]
    exact List.mem_flatten_of_mem hp hc
  rw [Writing.compact, Writing.cdataSections_eq, Node.unified, Node.normal,
    Node.unifiedText_toList, Node.cutSections_unifyLines]
  exact reads_sections hx between o space _ (fun p hp =>
    ⟨hchars p hp, hends p hp, (Node.cutSections_ne value.toList).1 hne p hp⟩) rest

/-- The markup of an element, a CDATA section or a comment begins with an opening bracket. -/
theorem compact_head (scope : Option String) {n : Node} (hdoctype : ∀ d, n ≠ .doctype d)
    (h : ∀ s, n ≠ .text s) :
  ∃ more, Writing.compact scope n = '<' :: more
  := by
  cases n with
  | element name attributes children =>
      cases children with
      | nil => exact ⟨_, rfl⟩
      | cons c cs => exact ⟨_, rfl⟩
  | text value => exact absurd rfl (h value)
  | cdata value =>
      unfold Writing.compact Writing.cdataSections
      exact ⟨_, rfl⟩
  | comment value =>
      unfold Writing.compact
      exact ⟨_, rfl⟩
  | doctype d => exact absurd rfl (hdoctype d)

mutual

/-- The markup of an element is read to the end of it, and what its events put together is its
normal form with unified ends of lines. -/
theorem passes_element (hx : x.IsPlain) {a b : Assembly} {scope : Option String}
    (between : a.IsBetween scope) (n : Node) {e : Node} (hn : n.isElement)
    (h : n.IsWritable x.medium.alphabet x.declarations scope)
    (he : Node.normal scope (Node.unified n) = [e])
    (ha : a.attach e = .ok b) (rest : List Char) (f : Flow) (hyields : Yields f.events a) :
  ∃ es, x.Passes expand (Writing.compact scope n ++ rest) f rest { f with events := es }
    ∧ Yields es b
  := by
  cases n with
  | element name attributes children =>
      obtain ⟨htag, hchildren⟩ := h
      rw [Node.unified, Node.normal, List.cons.injEq] at he
      obtain ⟨rfl, -⟩ := he
      cases children with
      | nil =>
          obtain ⟨defaulted, hstep⟩ := step_startTag expand hx htag true rest f
          have hstart :=
            hyields.emit (Assembly.step_start between htag.own htag.nodup htag.space defaulted)
          rw [compact_append_empty]
          refine ⟨_, .of_step (length_le_tag _ _ _ _) hstep, hstart.emit ?_⟩
          rw [Node.unifiedList, Node.normalList, Node.joinTexts] at ha
          exact ha
      | cons c cs =>
          rw [← Assembly.foldl_pushNode] at ha
          rw [compact_append_children _ htag.own _ (List.cons_ne_nil c cs)]
          exact passes_tags hx between htag (reads_children hx between
            (openedElement scope name attributes) (Writing.innerScope scope name) (c :: cs) hchildren
            [] (by simp) ('/' :: (name.localPart.toList ++ '>' :: rest))) ha f hyields
  | _ => cases hn

/-- The children of an element are read up to the end of it, behind a text that was not read
yet. -/
theorem reads_children (hx : x.IsPlain) {a : Assembly} {scope : Option String}
    (between : a.IsBetween scope)
    (o : OpenElement) (space : Option String) (ns : List Node)
    (h : Node.AreWritable x.medium.alphabet x.declarations space ns) (cs : List Char)
    (hcs : ∀ c ∈ cs, isXmlChar c)
    (more : List Char) :
  x.Reads expand (Writing.escapeText cs ++ (Writing.compactList space ns ++ '<' :: more))
    ('<' :: more) (a.inside o space)
    (a.inside { o with
      children := (Node.normalList space (Node.unifiedList ns)).foldl pushNode
        (pushText o.children cs) } space)
  := by
  cases ns with
  | nil => exact reads_escapeText hx between o space cs more hcs
  | cons n ns =>
      obtain ⟨hn, hns⟩ := h
      -- what was not read yet goes before the node, and nothing is left for what follows it
      have hgo (hhead : ∃ rest, Writing.compact space n = '<' :: rest)
          (hnode : ∀ o rest, x.Reads expand (Writing.compact space n ++ rest) rest
            (a.inside o space)
            (a.inside { o with
              children := (Node.normal space (Node.unified n)).foldl pushNode o.children } space)) :
          x.Reads expand
            (Writing.escapeText cs ++ (Writing.compactList space (n :: ns) ++ '<' :: more))
            ('<' :: more) (a.inside o space)
            (a.inside { o with
              children := (Node.normalList space (Node.unifiedList (n :: ns))).foldl pushNode
                (pushText o.children cs) } space) := by
        obtain ⟨rest, hhead⟩ := hhead
        have htext : x.Reads expand _ _ _ _ := reads_escapeText hx between o space cs
          (rest ++ (Writing.compactList space ns ++ '<' :: more)) hcs
        rw [← List.cons_append, ← hhead] at htext
        have hothers := reads_children hx between { o with
            children := (Node.normal space (Node.unified n)).foldl pushNode
              (pushText o.children cs) } space ns hns [] (by simp) more
        rw [Writing.compactList, List.append_assoc, Node.unifiedList, Node.normalList,
          List.foldl_append]
        exact htext.trans ((hnode _ _).trans hothers)
      cases n with
      | element name attributes children =>
          apply hgo (compact_head space (fun _ => Node.noConfusion) (fun _ => Node.noConfusion))
          intro o rest f _ hyields
          exact passes_element hx (between.inside o space) (.element name attributes children) rfl
            hn rfl (Assembly.attach_inside a o space _) rest f hyields
      | text value =>
          have hvalue := Medium.isXmlChar_of_isCharText hn.1
          have hothers := reads_children hx between o space ns hns (cs ++ value.toList)
            (List.forall_mem_append.mpr ⟨hcs, hvalue⟩) more
          rw [Writing.escapeText_append, List.append_assoc, ← Assembly.pushText_append,
            Assembly.pushText_toList _ hn.2] at hothers
          rw [Writing.compactList, Writing.compact, List.append_assoc]
          exact hothers
      | cdata value =>
          apply hgo (compact_head space (fun _ => Node.noConfusion) (fun _ => Node.noConfusion))
          exact fun o => reads_cdata hx between o space hn.1 hn.2
      | comment value =>
          obtain ⟨value, member⟩ := value
          obtain ⟨⟨hchars, hbreaks⟩, rfl⟩ := hn
          apply hgo (compact_head space (fun _ => Node.noConfusion) (fun _ => Node.noConfusion))
          intro o rest
          exact reads_comment (between.inside o space) hchars hbreaks
            (Assembly.attach_inside a o space _) rest
      | doctype d => exact hn.elim

end

end Surroundings

end Reading

end XmlDraft
