import XmlDraft.Proofs.Documents

/-!
# Reading what was indented

Indentation puts line breaks between the nodes of an element as long as no character data stands in
it, and between the nodes at the top level.  A reader takes the former for texts and passes over
the latter.  Main statement: what is read of the indented markup of a document is the normal form of
the document with these texts put in, with unified ends of lines.
-/

namespace XmlDraft

/-! ### Laid out documents -/

/-- A layout that breaks lines by an end of one that a reader takes for a line feed, and indents by
blanks. -/
structure Layout.IsBlank (layout : Layout) : Prop where
  newline : layout.newline = "\r\n" ∨ layout.newline = "\n" ∨ layout.newline = "\r"
  indent : ∀ c ∈ layout.indent.toList, c = ' ' ∨ c = '\t'

namespace Layout

/-- The indentation of a level. -/
def indentation (layout : Layout) (level : Nat) : List Char :=
  (List.replicate level layout.indent.toList).flatten

variable {layout : Layout}

theorem lineBreak_eq (layout : Layout) (level : Nat) :
  Writing.lineBreak layout level = layout.newline.toList ++ layout.indentation level
  := rfl

theorem lineBreak_top (layout : Layout) :
  Writing.lineBreak layout 0 = layout.newline.toList
  := List.append_nil _

variable (h : layout.IsBlank)

include h

theorem IsBlank.indentation (level : Nat) :
  ∀ c ∈ layout.indentation level, c = ' ' ∨ c = '\t'
  := by
  intro c hc
  obtain ⟨cs, hcs, hc⟩ := List.mem_flatten.mp hc
  rw [List.eq_of_mem_replicate hcs] at hc
  exact h.indent c hc

theorem IsBlank.newline_cases :
  layout.newline.toList = ['\r', '\n'] ∨ layout.newline.toList = ['\n']
    ∨ layout.newline.toList = ['\r']
  := by
  rcases h.newline with h | h | h
  · exact .inl (by rw [h]; decide)
  · exact .inr (.inl (by rw [h]; decide))
  · exact .inr (.inr (by rw [h]; decide))

/-- The end of a line is a run of blanks. -/
theorem IsBlank.exists_newline :
  ∃ c run, layout.newline.toList = c :: run ∧ Reading.isBlank c ∧ ∀ d ∈ run, Reading.isBlank d
  := by
  rcases h.newline_cases with h | h | h
  · exact ⟨_, _, h, by decide, List.all_iff_forall_prop.mp (by decide)⟩
  · exact ⟨_, _, h, by decide, List.forall_mem_nil _⟩
  · exact ⟨_, _, h, by decide, List.forall_mem_nil _⟩

end Layout

namespace Node

/-- The text that a line break leaves: a line feed and the indentation of a level. -/
def lineText (layout : Layout) (level : Nat) : Node :=
  .text (String.ofList ('\n' :: layout.indentation level))

mutual

/-- The node with the texts that the line breaks of its markup leave in it, at a level. -/
def laidOut (layout : Layout) (level : Nat) : Node → Node
  | .element name attributes (c :: cs) =>
    .element name attributes (laidOutList layout level (c :: cs))
  | .element name attributes [] => .element name attributes []
  | .text value => .text value
  | .cdata value => .cdata value
  | .comment value => .comment value
  | .doctype d => .doctype d

/-- The children of an element at a level with the texts that line breaks leave between them and at
the end; none does behind character data. -/
def laidOutList (layout : Layout) (level : Nat) : List Node → List Node
  | [] => [lineText layout level]
  | n :: ns =>
    if n.isCharacterData then n :: ns
    else lineText layout (level + 1) :: laidOut layout (level + 1) n :: laidOutList layout level ns

end

end Node

@[simp]
theorem Node.isElement_laidOut (layout : Layout) (level : Nat) (n : Node) :
  (n.laidOut layout level).isElement = n.isElement
  := by
  cases n with
  | element name attributes children => cases children <;> simp [laidOut, isElement]
  | _ => simp [laidOut, isElement]

/-- The document with the texts that the line breaks of its markup leave in its root. -/
def Document.laidOut (layout : Layout) (d : Document) : Document :=
  { d with children := d.children.map (Node.laidOut layout 0) }

namespace Writing

/-- The markup of the children of an element at a level, up to its end tag. -/
def contentText (layout : Layout) (level : Nat) (scope : Option String) (ns : List Node) :
    List Char :=
  nodesText (some layout) false true (level + 1) scope ns
    ++ breakLine (some layout) (ns.any Node.isCharacterData) true level

/-- From character data on nothing is broken. -/
theorem contentText_data (layout : Layout) (level : Nat) (scope : Option String) {n : Node}
    (hn : n.isCharacterData) (ns : List Node) :
  contentText layout level scope (n :: ns) = compactList scope (n :: ns)
  := by
  have hfirst : nodeText (some layout) false true (level + 1) scope n = compact scope n := by
    cases n with
    | text value => rfl
    | cdata value => rfl
    | _ => cases hn
  rw [contentText, nodesText, hfirst, nodesText_compact (.inr (by rw [hn, Bool.or_true])),
    breakLine_eq_nil (.inr (by rw [List.any_cons, hn, Bool.true_or])), List.append_nil, compactList]

/-- A node that is no character data begins a line where something was written before. -/
theorem nodeText_started (layout : Layout) (level : Nat) (scope : Option String) {n : Node}
    (hn : n.isCharacterData = false) :
  nodeText (some layout) false true level scope n
    = lineBreak layout level ++ nodeText (some layout) false false level scope n
  := by
  cases n with
  | element name attributes children =>
      cases children with
      | nil => simp [nodeText, breakLine]
      | cons c cs => simp [nodeText, breakLine]
  | comment value => simp [nodeText, breakLine]
  | doctype d => simp [nodeText, breakLine]
  | _ => cases hn

theorem contentText_cons (layout : Layout) (level : Nat) (scope : Option String) {n : Node}
    (hn : n.isCharacterData = false) (ns : List Node) :
  contentText layout level scope (n :: ns)
    = lineBreak layout (level + 1)
      ++ (nodeText (some layout) false false (level + 1) scope n ++ contentText layout level scope ns)
  := by
  rw [contentText, nodesText, nodeText_started layout _ scope hn, List.any_cons, hn, contentText]
  simp only [Bool.or_self, Bool.false_or, List.append_assoc]

/-- The markup of an element or a comment begins with an opening bracket. -/
theorem nodeText_head (layout : Layout) (level : Nat) (scope : Option String) {n : Node}
    (hdoctype : ∀ d, n ≠ .doctype d) (hn : n.isCharacterData = false) :
  ∃ more, nodeText (some layout) false false level scope n = '<' :: more
  := by
  cases n with
  | element name attributes children =>
      cases children with
      | nil => exact ⟨_, rfl⟩
      | cons c cs => exact ⟨_, rfl⟩
  | comment value => exact ⟨_, rfl⟩
  | doctype d => exact absurd rfl (hdoctype d)
  | _ => cases hn

/-- Nothing is broken in the markup of an element without children. -/
theorem nodeText_empty (layout : Layout) (level : Nat) (scope : Option String) (name : QName)
    (attributes : Attributes) :
  nodeText (some layout) false false level scope (.element name attributes [])
    = compact scope (.element name attributes [])
  := by
  simp [nodeText, compact, breakLine, attributesText_tagAttributes]

/-- The markup of an element with children is its start tag, its content, and its end tag. -/
theorem nodeText_element (layout : Layout) (level : Nat) (scope : Option String) (name : QName)
    (attributes : Attributes) {children : List Node} (h : children ≠ []) (rest : List Char) :
  nodeText (some layout) false false level scope (.element name attributes children) ++ rest
    = '<' :: (name.localPart.toList ++ (attributesText (tagAttributes scope name attributes)
        ++ (Reading.Medium.tagEnd false ++ (contentText layout level (innerScope scope name) children
          ++ '<' :: '/' :: (name.printed.toList ++ '>' :: rest)))))
  := by
  have hend : "</".toList = ['<', '/'] := by decide
  cases children with
  | nil => exact absurd rfl h
  | cons c cs =>
      have hline : breakLine (some layout) false false level = [] := rfl
      simp only [nodeText, hline, List.nil_append, List.cons_append, List.append_assoc,
        attributesText_tagAttributes, declared_or, contentText, nodesText, Bool.false_or,
        Reading.Medium.tagEnd, Bool.false_eq_true, ite_false, hend]

end Writing

namespace Reading

open Assembly (Yields pushText pushNode)

/-! ### Inside elements -/

namespace Surroundings

variable {x : Surroundings} {expand : Expanding} {layout : Layout}

/-- An end of a line is read as a line feed by itself if it holds a carriage return. -/
theorem step_return (hx : x.IsPlain) {ending : List Char} (hending : ending = [] ∨ ending = ['\n'])
    {d : Char} (hd : d ≠ '\n') (more : List Char) (f : Flow) :
  x.step expand '\r' (ending ++ d :: more) f = .ok (f.emit (.characters ['\n']), d :: more)
  := by
  have hunifies : x.medium.unifies = true := hx.medium.unifies
  rcases hending with rfl | rfl
  · simp [step, hunifies, hd]
  · simp only [step, hunifies, Bool.not_true, Bool.false_eq_true, ite_false]
    rfl

/-- Character data that is read in one run goes on with what was there before. -/
theorem reads_run {a : Assembly} {scope : Option String} (between : a.IsBetween scope)
    (o : OpenElement) (space : Option String) {run : List Char} (hrun : ∀ c ∈ run, isRunChar c)
    (more : List Char) :
  x.Reads expand (run ++ '<' :: more) ('<' :: more) (a.inside o space)
    (a.inside (withText o run) space)
  := by
  cases run with
  | nil => exact .refl _ _
  | cons d run =>
      rw [List.forall_mem_cons] at hrun
      exact .of_step (List.suffix_append run _).length_le (step_runChars hrun.1 hrun.2 rfl)
        (Assembly.step_characters between o space (List.cons_ne_nil d run))

/-- A line break is read as the text that it leaves. -/
theorem reads_lineBreak (hx : x.IsPlain) (hlayout : layout.IsBlank) {a : Assembly}
    {scope : Option String} (between : a.IsBetween scope) (o : OpenElement)
    (space : Option String) (level : Nat) (more : List Char) :
  x.Reads expand (Writing.lineBreak layout level ++ '<' :: more) ('<' :: more) (a.inside o space)
    (a.inside { o with children := pushNode o.children (Node.lineText layout level) } space)
  := by
  have hpush : pushNode o.children (Node.lineText layout level)
      = pushText o.children ('\n' :: layout.indentation level) := by
    rw [Node.lineText, pushText, if_neg (List.cons_ne_nil _ _)]
    rfl
  have hblanks : ∀ c ∈ layout.indentation level, isRunChar c := by
    intro c hc
    rcases hlayout.indentation level c hc with rfl | rfl <;> decide
  obtain ⟨d, rest, hrest, hd⟩ : ∃ d rest, layout.indentation level ++ '<' :: more = d :: rest
      ∧ d ≠ '\n' := by
    cases hindent : layout.indentation level with
    | nil => exact ⟨_, _, rfl, by decide⟩
    | cons d rest =>
        refine ⟨_, _, rfl, ?_⟩
        rcases hlayout.indentation level d (hindent ▸ List.mem_cons_self) with rfl | rfl <;> decide
  -- a carriage return is read in a step of its own, and a line feed in one run with the blanks
  have hreturn {ending : List Char} (hending : ending = [] ∨ ending = ['\n']) :
      x.Reads expand ('\r' :: (ending ++ (layout.indentation level ++ '<' :: more))) ('<' :: more)
        (a.inside o space) (a.inside (withText o ('\n' :: layout.indentation level)) space) := by
    have hfeed : x.Reads expand ('\r' :: (ending ++ (layout.indentation level ++ '<' :: more)))
        (layout.indentation level ++ '<' :: more) (a.inside o space)
        (a.inside (withText o ['\n']) space) := by
      rw [hrest]
      exact .of_step (List.suffix_append ending _).length_le (step_return hx hending hd rest)
        (Assembly.step_characters between o space (by simp))
    have hrun := hfeed.trans (reads_run between (withText o ['\n']) space hblanks more)
    rwa [withText_withText] at hrun
  rw [Layout.lineBreak_eq, hpush, List.append_assoc]
  rcases hlayout.newline_cases with hline | hline | hline
  · rw [hline]
    exact hreturn (.inr rfl)
  · rw [hline]
    exact reads_run between o space (List.forall_mem_cons.mpr ⟨by decide, hblanks⟩) more
  · rw [hline]
    exact hreturn (.inl rfl)

mutual

/-- The indented markup of an element is read to its end. -/
theorem passes_laidOut (hx : x.IsPlain) (hlayout : layout.IsBlank) {a b : Assembly}
    {scope : Option String} (between : a.IsBetween scope) (level : Nat) (n : Node) {e : Node}
    (hn : n.isElement) (h : n.IsWritable x.medium.alphabet x.declarations scope)
    (he : Node.normal scope (Node.unified (n.laidOut layout level)) = [e])
    (ha : a.attach e = .ok b) (rest : List Char) (f : Flow) (hyields : Yields f.events a) :
  ∃ es, x.Passes expand
      (Writing.nodeText (some layout) false false level scope n ++ rest) f rest
      { f with events := es }
    ∧ Yields es b
  := by
  cases n with
  | element name attributes children =>
      cases children with
      | nil =>
          rw [Writing.nodeText_empty]
          exact passes_element hx between _ rfl h he ha rest f hyields
      | cons c cs =>
          obtain ⟨htag, hchildren⟩ := h
          rw [Node.laidOut, Node.unified, Node.normal, List.cons.injEq] at he
          obtain ⟨rfl, -⟩ := he
          rw [← Assembly.foldl_pushNode] at ha
          rw [Writing.nodeText_element _ _ _ _ _ (List.cons_ne_nil c cs),
            QName.printed_eq htag.own]
          exact passes_tags hx between htag (reads_laidOut hx hlayout between
            (openedElement scope name attributes) (Writing.innerScope scope name) level (c :: cs)
            hchildren ('/' :: (name.localPart.toList ++ '>' :: rest))) ha f hyields
  | _ => cases hn

/-- The indented markup of the children of an element is read up to the end tag. -/
theorem reads_laidOut (hx : x.IsPlain) (hlayout : layout.IsBlank) {a : Assembly}
    {scope : Option String} (between : a.IsBetween scope) (o : OpenElement)
    (space : Option String) (level : Nat) (ns : List Node)
    (h : Node.AreWritable x.medium.alphabet x.declarations space ns) (more : List Char) :
  x.Reads expand (Writing.contentText layout level space ns ++ '<' :: more) ('<' :: more)
    (a.inside o space)
    (a.inside { o with
      children := (Node.normalList space (Node.unifiedList (Node.laidOutList layout level ns))).foldl
        pushNode o.children } space)
  := by
  cases ns with
  | nil => exact reads_lineBreak hx hlayout between o space level more
  | cons n ns =>
      cases hdata : n.isCharacterData with
      | true =>
          rw [Writing.contentText_data _ _ _ hdata, Node.laidOutList, if_pos hdata]
          exact reads_children hx between o space (n :: ns) h [] (by simp) more
      | false =>
          obtain ⟨hn, hns⟩ := h
          -- the line break goes before the node, and what follows the node is content again
          have hgo (hhead : ∃ rest,
                Writing.nodeText (some layout) false false (level + 1) space n = '<' :: rest)
              (hnode : ∀ o rest, x.Reads expand
                (Writing.nodeText (some layout) false false (level + 1) space n ++ rest) rest
                (a.inside o space)
                (a.inside { o with
                  children := (Node.normal space (Node.unified (n.laidOut layout (level + 1)))).foldl
                    pushNode o.children } space)) :
              x.Reads expand (Writing.contentText layout level space (n :: ns) ++ '<' :: more)
                ('<' :: more) (a.inside o space)
                (a.inside { o with
                  children := (Node.normalList space (Node.unifiedList
                    (Node.laidOutList layout level (n :: ns)))).foldl pushNode o.children }
                  space) := by
            obtain ⟨rest, hhead⟩ := hhead
            have hbreak : x.Reads expand _ _ _ _ := reads_lineBreak hx hlayout between o space
              (level + 1) (rest ++ (Writing.contentText layout level space ns ++ '<' :: more))
            rw [← List.cons_append, ← hhead] at hbreak
            have hothers := reads_laidOut hx hlayout between { o with
                children := (Node.normal space (Node.unified (n.laidOut layout (level + 1)))).foldl
                  pushNode (pushNode o.children (Node.lineText layout (level + 1))) }
              space level ns hns more
            rw [Writing.contentText_cons _ _ _ hdata, Node.laidOutList, if_neg (by simp [hdata]),
              Node.unifiedList, Node.unifiedList, Node.normalList, Node.normalList,
              List.foldl_append, List.foldl_append, List.append_assoc, List.append_assoc]
            exact hbreak.trans ((hnode _ _).trans hothers)
          cases n with
          | element name attributes children =>
              apply hgo (Writing.nodeText_head _ _ _ (fun _ => Node.noConfusion) hdata)
              intro o rest f _ hyields
              have hpass {e : Node} (he : Node.normal space (Node.unified
                  ((Node.element name attributes children).laidOut layout (level + 1))) = [e]) :=
                passes_laidOut hx hlayout (between.inside o space) (level + 1)
                  (.element name attributes children) rfl hn he
                  (Assembly.attach_inside a o space _) rest f hyields
              cases children with
              | nil => exact hpass rfl
              | cons c cs => exact hpass rfl
          | comment value =>
              obtain ⟨value, member⟩ := value
              obtain ⟨⟨hchars, hbreaks⟩, rfl⟩ := hn
              apply hgo (Writing.nodeText_head _ _ _ (fun _ => Node.noConfusion) hdata)
              intro o rest
              exact reads_comment (between.inside o space) hchars hbreaks
                (Assembly.attach_inside a o space _) rest
          | doctype d => exact hn.elim
          | _ => cases hdata

end

end Surroundings

/-! ### Around the root -/

variable {layout : Layout} {m : Medium}

/-- A line break leads over itself where it is not the first thing, outside the internal subset. -/
theorem leads_lineBreak {account : Account} (hm : m.IsIntact) (hlayout : layout.IsBlank) {p : Prolog}
    (hstage : p.stage ≠ .beginning) (hp : p.inSubset = false) (more : List Char) :
  Leads m account (layout.newline.toList ++ '<' :: more) p ('<' :: more) p
  := by
  obtain ⟨c, run, hline, hc, hrun⟩ := hlayout.exists_newline
  rw [hline]
  refine Leads.of_spells (w := c :: run) hm.ending (.blank hc hrun (by decide)) rfl more ?_
  have hleave : p.leaveBeginning = p := if_neg hstage
  rw [Prolog.step, hleave, Prolog.keepText, hp]
  rfl

/-- The markup of a comment begins a line where something was written before. -/
theorem nodesText_comment (layout : Layout) (started : Bool) (value : String) (ns : List Node)
    (rest : List Char) :
  Writing.nodesText (some layout) false started 0 none (.comment value :: ns) ++ rest
    = (if started then layout.newline.toList else []) ++ (commentMarkup value.toList
      ++ (Writing.nodesText (some layout) false true 0 none ns ++ rest))
  := by
  have hline : Writing.breakLine (some layout) false started 0
      = if started then layout.newline.toList else [] := by
    cases started with
    | false => rfl
    | true => exact layout.lineBreak_top
  have hdata : (Node.comment value).isCharacterData = false := rfl
  rw [Writing.nodesText, Writing.nodeText, hline, hdata]
  simp [commentMarkup, Wording.printed]

/-- The comments where a root may begin are read with the line breaks between them, up to what
follows them on a line of its own. -/
theorem leads_indented (account : Account) (hm : m.IsIntact) (hlayout : layout.IsBlank)
    {ns : List Node}
    (h : AreComments ns) (started : Bool) (more : List Char) (p : Prolog)
    (hroot : p.stage.allowsRoot) (hp : p.inSubset = false)
    (hstarted : started → p.stage ≠ .beginning) {declaration : Option Declaration}
    {children : List Node} (hyields : Yields p.events (Assembly.atTop declaration children)) :
  ∃ es stage, Leads m account (Writing.nodesText (some layout) false started 0 none ns
        ++ (Writing.breakLine (some layout) false (started || !ns.isEmpty) 0 ++ '<' :: more)) p
      ('<' :: more) { p with events := es, stage := stage }
    ∧ stage.allowsRoot
    ∧ Yields es
      (Assembly.atTop declaration (children ++ Node.normalList none (Node.unifiedList ns)))
  := by
  induction ns generalizing started p children with
  | nil =>
      refine ⟨p.events, p.stage, ?_, hroot,
        by simpa [Node.unifiedList, Node.normalList] using hyields⟩
      cases started with
      | false => exact .refl _ _ _ _
      | true =>
          have hline : Writing.breakLine (some layout) false true 0 = layout.newline.toList :=
            layout.lineBreak_top
          simp only [Writing.nodesText, List.isEmpty_nil, Bool.not_true, Bool.or_false, hline]
          exact leads_lineBreak hm hlayout (hstarted rfl) hp more
  | cons n ns ih =>
      obtain ⟨⟨value, rfl, hchars, hbreaks⟩, hothers⟩ := List.forall_mem_cons.mp h
      have hbreak : (started || !(Node.comment value :: ns).isEmpty) = (true || !ns.isEmpty) := by
        rw [List.isEmpty_cons, Bool.not_false, Bool.or_true, Bool.true_or]
      rw [hbreak, nodesText_comment]
      obtain ⟨d, rest, hrest⟩ : ∃ d rest, Writing.nodesText (some layout) false true 0 none ns
          ++ (Writing.breakLine (some layout) false (true || !ns.isEmpty) 0 ++ '<' :: more)
          = d :: rest := List.exists_cons_of_ne_nil (by simp)
      obtain ⟨es, next, hfirst, hnext, hleft, _, hes⟩ :=
        leads_comment hm hchars hbreaks rest d hroot hyields
      rw [← hrest] at hfirst
      obtain ⟨es', stage, hleads, hlast, hes'⟩ := ih hothers true
        { p with events := es, stage := next } hnext hp (fun _ => hleft) hes
      refine ⟨es', stage, ?_, hlast, ?_⟩
      · cases started with
        | false => exact hfirst.trans hleads
        | true => exact (leads_lineBreak hm hlayout (hstarted rfl) hp _).trans (hfirst.trans hleads)
      · rw [normalList_comment]
        simpa using hes'

/-- The comments behind the root are read with the line breaks before them to the end. -/
theorem afterRoot_indented (hm : m.IsIntact) (hlayout : layout.IsBlank) {ns : List Node}
    (h : AreComments ns) (fuel : Nat) (hfuel : 2 * ns.length < fuel) (es : List Event)
    {declaration : Option Declaration} {children : List Node}
    (hyields : Yields es (Assembly.atTop declaration children)) :
  ∃ last, afterRoot m fuel (Writing.nodesText (some layout) false true 0 none ns) es = .ok last
    ∧ Yields last
      (Assembly.atTop declaration (children ++ Node.normalList none (Node.unifiedList ns)))
  := by
  induction ns generalizing fuel es children with
  | nil =>
      obtain ⟨fuel, rfl⟩ := Nat.exists_eq_succ_of_ne_zero (Nat.ne_of_gt hfuel)
      exact ⟨es, by simp [Writing.nodesText, afterRoot, hm.ending],
        by simpa [Node.unifiedList, Node.normalList] using hyields⟩
  | cons n ns ih =>
      obtain ⟨⟨value, rfl, hchars, hbreaks⟩, hothers⟩ := List.forall_mem_cons.mp h
      rw [List.length_cons] at hfuel
      obtain ⟨fuel, rfl⟩ := Nat.exists_eq_add_of_le' (by omega : 2 ≤ fuel)
      obtain ⟨last, hrest, hlast⟩ := ih hothers fuel (by omega) (commentEvent value.toList :: es)
        (hyields.emit (Assembly.step_note declaration children value.toList))
      have hmarkup := nodesText_comment layout true value ns []
      rw [List.append_nil, List.append_nil] at hmarkup
      obtain ⟨c, run, hline, hc, hrun⟩ := hlayout.exists_newline
      have hblank : m.token c (run ++ (commentMarkup value.toList
          ++ Writing.nodesText (some layout) false true 0 none ns))
          = .ok (.blank, commentMarkup value.toList
            ++ Writing.nodesText (some layout) false true 0 none ns) := by
        rw [Medium.token_blank hc, List.dropWhile_append_of_pos hrun]
        rfl
      refine ⟨last, ?_, ?_⟩
      · rw [hmarkup, if_pos rfl, hline, List.cons_append, afterRoot, hblank]
        simp only [commentMarkup, List.cons_append, List.append_assoc, reduceCtorEq, decide_false,
          Bool.false_and, Bool.false_eq_true, ite_false]
        rw [afterRoot, Medium.token_comment hchars hbreaks]
        exact hrest
      · rw [normalList_comment]
        simpa [Node.unifiedText] using hlast

theorem length_le_indented (layout : Layout) {ns : List Node} (h : AreComments ns) :
  2 * ns.length ≤ (Writing.nodesText (some layout) false true 0 none ns).length
  := by
  induction ns with
  | nil => exact Nat.le_refl 0
  | cons n ns ih =>
      obtain ⟨⟨value, rfl, _⟩, hothers⟩ := List.forall_mem_cons.mp h
      have hmarkup := nodesText_comment layout true value ns []
      have hrest := ih hothers
      rw [List.append_nil, List.append_nil] at hmarkup
      rw [hmarkup, commentMarkup]
      simp only [List.length_cons, List.length_append]
      omega

/-- Comments stand before other nodes line by line. -/
theorem nodesText_append {ns : List Node} (h : AreComments ns) (started : Bool)
    (others : List Node) :
  Writing.nodesText (some layout) false started 0 none (ns ++ others)
    = Writing.nodesText (some layout) false started 0 none ns
      ++ Writing.nodesText (some layout) false (started || !ns.isEmpty) 0 none others
  := by
  induction ns generalizing started with
  | nil => simp [Writing.nodesText]
  | cons n ns ih =>
      obtain ⟨⟨value, rfl, _⟩, hothers⟩ := List.forall_mem_cons.mp h
      have hdata : (Node.comment value).isCharacterData = false := rfl
      rw [List.cons_append, Writing.nodesText, Writing.nodesText, hdata, Bool.or_false,
        ih hothers true, Bool.true_or, List.isEmpty_cons, Bool.not_false, Bool.or_true,
        List.append_assoc]

/-- The markup of an element at the top level is that of the element behind a line break, if
something was written before. -/
theorem nodesText_root {root : Node} (hroot : root.isElement) (started : Bool) (ns : List Node) :
  Writing.nodesText (some layout) false started 0 none (root :: ns)
    = Writing.breakLine (some layout) false started 0
      ++ (Writing.nodeText (some layout) false false 0 none root
        ++ Writing.nodesText (some layout) false true 0 none ns)
  := by
  have hdata : root.isCharacterData = false := by
    cases root with
    | element name attributes children => rfl
    | _ => cases hroot
  rw [Writing.nodesText, hdata, Bool.or_false]
  cases started with
  | false => rfl
  | true =>
      rw [Writing.nodeText_started layout 0 none hdata, List.append_assoc]
      rfl

/-- The indented markup of an element begins with its name behind an opening bracket. -/
theorem exists_name_indented (scope : Option String) {n : Node} (hn : n.isElement) {a : Alphabet}
    {d : Declarations} (h : n.IsWritable a d scope) (rest : List Char) :
  ∃ name more, IsPlainName a name
    ∧ Writing.nodeText (some layout) false false 0 scope n ++ rest = '<' :: (name ++ more)
  := by
  cases n with
  | element name attributes children =>
      cases children with
      | nil =>
          rw [Writing.nodeText_empty]
          exact exists_name scope rfl h rest
      | cons c cs =>
          exact ⟨name.localPart.toList, _, h.1.plain,
            Writing.nodeText_element layout 0 scope name attributes (List.cons_ne_nil c cs) rest⟩
  | _ => cases hn

/-- Indented markup begins with the first of its comments, or with its root. -/
theorem beginsNode_indented (layout : Layout) {before : List Node}
    {root : Node} (hbefore : AreComments before) (hroot : root.isElement) {d : Declarations}
    (hwritable : root.IsWritable m.alphabet d none) (after : List Node) :
  BeginsNode (Writing.nodesText (some layout) false false 0 none (before ++ root :: after))
  := by
  cases before with
  | nil =>
      obtain ⟨name, more, hname, hmarkup⟩ := exists_name_indented none hroot hwritable
        (Writing.nodesText (some layout) false true 0 none after)
      rw [List.nil_append, nodesText_root hroot, hmarkup]
      exact beginsNode_name hname more
  | cons n ns =>
      obtain ⟨⟨value, rfl, _⟩, _⟩ := List.forall_mem_cons.mp hbefore
      have hmarkup := nodesText_comment layout false value (ns ++ root :: after) []
      rw [List.append_nil] at hmarkup
      rw [List.cons_append, hmarkup]
      exact ⟨'!', _, rfl, by decide, by decide⟩

/-- Comments are laid out as they are. -/
theorem map_laidOut_comments {ns : List Node} (h : AreComments ns) :
  ns.map (Node.laidOut layout 0) = ns
  := by
  induction ns with
  | nil => rfl
  | cons n ns ih =>
      obtain ⟨⟨value, rfl, _⟩, hothers⟩ := List.forall_mem_cons.mp h
      rw [List.map_cons, ih hothers]
      rfl

/-- Indented markup is read to its end. -/
theorem wholeMarkup_indented (hm : m.IsIntact) (hlayout : layout.IsBlank)
    {before after : List Node} {root : Node} (hbefore : AreComments before)
    (hroot : root.isElement) {standalone : Bool}
    (hwritable : root.IsWritable m.alphabet { standalone := standalone } none)
    (hafter : AreComments after) (account : Account) {es : List Event} {stage : Stage}
    (hstage : stage = .beginning ∨ stage = .beforeDoctype) {started : Bool}
    (hstarted : started → stage ≠ .beginning) {declaration : Option Declaration}
    (hyields : Yields es (Assembly.atTop declaration [])) :
  ∃ last, wholeMarkup m {} account (Prolog.headed standalone es [] none none stage)
      (Writing.nodesText (some layout) false started 0 none (before ++ root :: after)) = .ok last
    ∧ ({} : Assembly).run last = .ok (Assembly.atTop declaration (Node.normalList none
        (Node.unifiedList ((before ++ root :: after).map (Node.laidOut layout 0)))))
  := by
  obtain ⟨name, more, hname, hmarkup⟩ := exists_name_indented none hroot hwritable
    (Writing.nodesText (some layout) false true 0 none after)
  obtain ⟨e, he, helement⟩ : ∃ e, Node.normal none (root.laidOut layout 0).unified = [e]
      ∧ e.isElement := Node.exists_normal none (by simpa using hroot)
  have hallows : (Prolog.headed standalone es [] none none stage).stage.allowsRoot := by
    rcases hstage with rfl | rfl <;> rfl
  obtain ⟨es', stage', hleads, hallows', hq⟩ := leads_indented account hm hlayout hbefore started
    (name ++ more) (Prolog.headed standalone es [] none none stage) hallows rfl hstarted hyields
  rw [List.nil_append] at hq
  have hprolog := hleads.beforeRoot hm.opens hname hallows'
  have hx : (aroundRoot m { standalone := standalone } account).IsPlain := ⟨hm, rfl, rfl⟩
  obtain ⟨last, hpass, hlast⟩ := Surroundings.passes_laidOut hx hlayout
    (Assembly.isBetween_atTop _ _) 0 root hroot hwritable he
    (Assembly.attach_root declaration (isElement_normalList hbefore) helement)
    (Writing.nodesText (some layout) false true 0 none after) { events := es' } hq
  rw [hmarkup] at hpass
  have hparts := wholeMarkup_parts hprolog ⟨last, hpass, hlast⟩
    fun {es} => afterRoot_indented hm hlayout hafter _
      (Nat.lt_succ_of_le (length_le_indented layout hafter)) es
  rw [nodesText_append hbefore, nodesText_root hroot, hmarkup, List.map_append, List.map_cons,
    map_laidOut_comments hbefore, map_laidOut_comments hafter, normalList_append, Node.unifiedList,
    Node.normalList, he]
  simpa using hparts

end Reading

namespace Document

open Reading (Medium)

/-- A source that has begun with the declaration of a document without a document type, and goes on
with its indented markup, is read as the normal form of the laid out document with unified ends of
lines. -/
theorem IsBare.read_indented {d : Document} {m : Medium} {before after : List Node} {root : Node}
    (h : d.IsBare m before root after) {layout : Layout} (hlayout : layout.IsBlank)
    (hm : m.IsIntact) {source : Source} {b : Reading.Begun}
    (hb : Reading.beginSource {} source = .ok b)
    (hbegun : Reading.HasBegun b m (d.declaration.map Declaration.filled)
      (Writing.nodesText (some layout) false d.declaration.isSome 0 none d.children)) :
  readDocument source = .ok (d.laidOut layout).unified.normal
  := by
  have hstarted : d.declaration.isSome
      → Reading.firstStage (d.declaration.map Declaration.filled) ≠ .beginning := by
    cases d.declaration <;> simp [Reading.firstStage]
  have hfound : ∃ n ∈ (d.laidOut layout).unified.normal.children, n.isElement := by
    obtain ⟨e, he, helement⟩ : ∃ e, Node.normal none (root.laidOut layout 0).unified = [e]
        ∧ e.isElement := Node.exists_normal none (by simpa using h.isElement)
    refine ⟨e, ?_, helement⟩
    simp [normal, unified, laidOut, h.children, Reading.normalList_append, Node.unifiedList,
      Node.normalList, he]
  refine Reading.readDocument_begun hb hbegun ?_ hfound
  intro es hyields
  have hstands : (d.declaration.map Declaration.filled).any Declaration.standsAlone
      = d.declaration.any Declaration.standsAlone := Declaration.standsAlone_filled _
  rw [laidOut, unified, h.children]
  exact Reading.wholeMarkup_indented hm hlayout h.before h.isElement (hstands ▸ h.writable) h.after
    (m.account source.bytes.length) (Reading.firstStage_cases _) hstarted hyields

end Document

end XmlDraft
