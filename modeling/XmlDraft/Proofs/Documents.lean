import XmlDraft.Proofs.Accounts
import XmlDraft.Proofs.Elements
import XmlDraft.Proofs.Front
import XmlDraft.Proofs.Headings

/-!
# Reading documents that were written

A reader takes the declaration at the head of a document, the comments and the document type
before its root, the root, and the comments after it.  Main statement: what it reads from the
markup of a document that can be written is the normal form of the document with unified ends of
lines.
-/

namespace XmlDraft

namespace Reading

open Assembly (Yields)

/-! ### The top level -/

namespace Assembly

/-- An element is attached at the top level where there is none yet. -/
theorem attach_root (declaration : Option Declaration) {children : List Node}
    (h : ∀ n ∈ children, n.isElement = false) {e : Node} (he : e.isElement) :
  (atTop declaration children).attach e = .ok (atTop declaration (children ++ [e]))
  := by
  have hroot : (⟨declaration, children⟩ : Document).root? = none := by
    rw [Document.root?, List.find?_eq_none]
    simpa using h
  cases e with
  | element name attributes inner =>
      simp [attach, atTop, Document.append, Document.misplacement?, hroot, Except.map,
        Except.mapError]
  | _ => cases he

end Assembly

/-! ### Whole documents -/

/-- The markup of an element begins with its name behind an opening bracket. -/
theorem exists_name (scope : Option String) {n : Node} (hn : n.isElement) {a : Alphabet}
    {d : Declarations} (h : n.IsWritable a d scope) (rest : List Char) :
  ∃ name more, IsPlainName a name ∧ Writing.compact scope n ++ rest = '<' :: (name ++ more)
  := by
  cases n with
  | element name attributes children =>
      refine ⟨name.localPart.toList, ?_⟩
      cases children with
      | nil => exact ⟨_, h.1.plain, Surroundings.compact_append_empty scope name attributes rest⟩
      | cons c cs =>
          exact ⟨_, h.1.plain, Surroundings.compact_append_children scope h.1.own attributes
            (List.cons_ne_nil c cs) rest⟩
  | _ => cases hn

/-- Characters that begin with a bracket, behind which neither a zero nor a question mark stands. -/
def BeginsNode (cs : List Char) : Prop :=
  ∃ c more, cs = '<' :: c :: more ∧ c ≠ '\x00' ∧ c ≠ '?'

theorem beginsNode_name {a : Alphabet} {name : List Char}
    (h : IsPlainName a name) (more : List Char) :
  BeginsNode ('<' :: (name ++ more))
  := by
  obtain ⟨c, cs, rfl, _, hmark⟩ := exists_start h
  simp only [nonNames, List.mem_cons, not_or] at hmark
  exact ⟨c, cs ++ more, rfl, hmark.2.2.2.1, hmark.2.1⟩

/-- A way to the root is a way to the end of what stands before it. -/
theorem Leads.beforeRoot {m : Medium} {account : Account}
    (hopens : ∀ c, m.alphabet.isStart c → m.alphabet.opensElement c) {cs name more : List Char}
    {p q : Prolog} (hname : IsPlainName m.alphabet name)
    (h : Leads m account cs p ('<' :: (name ++ more)) q) (hroot : q.stage.allowsRoot) :
  beforeRoot m account (cs.length + 1) cs p = .ok (q, '<' :: (name ++ more))
  := by
  obtain ⟨steps, hsteps, hleads⟩ := h
  obtain ⟨fuel, hfuel⟩ := Nat.exists_eq_add_of_le (Nat.le_trans (Nat.le_add_right _ _) hsteps)
  rw [hfuel, Nat.add_assoc, hleads]
  simp only [Reading.beforeRoot, Medium.token_root hopens hname, hroot, ite_true]

/-- Content up to the end of the root, in which references to entities are replaced, behind a
prolog that spent some octets on replacement texts. -/
abbrev Surroundings.PassesRoot (x : Surroundings) (spent : Nat) (cs : List Char) (es : List Event)
    (rest : List Char) (last : List Event) : Prop :=
  x.Passes (expandAt x (x.declarations.entities.length + 1) []) cs
    { events := es, spent := spent } rest { events := last, spent := spent }

/-- The root is read to its end where a reader comes through it. -/
theorem rootElement_passes {x : Surroundings} {spent : Nat} {cs rest : List Char}
    {es last : List Event} (h : x.PassesRoot spent cs es rest last) :
  x.rootElement cs { events := es, spent := spent }
    = .ok ({ events := last, spent := spent }, rest)
  := by
  obtain ⟨steps, hsteps, hpass⟩ := h
  obtain ⟨fuel, hfuel⟩ := Nat.exists_eq_add_of_le (Nat.le_trans (Nat.le_add_right _ _) hsteps)
  rw [Surroundings.rootElement, hfuel, Nat.add_assoc, hpass]
  rfl

/-- What the root is read under. -/
abbrev aroundRoot (m : Medium) (d : Declarations) (account : Account) : Surroundings :=
  ⟨m, d, {}, account, 0, []⟩

/-- Markup is read part by part in any manner: what stands before the root, the root, and what
stands behind it. -/
theorem wholeMarkup_events {m : Medium} {manner : Manner}
    {account : Account} {p q : Prolog} {cs body rest : List Char} {es last : List Event}
    (hprolog : Reading.beforeRoot m account (cs.length + 1) cs p = .ok (q, body))
    (hroot : (⟨m, q.declarations, manner, account, 0, []⟩ : Surroundings).PassesRoot q.spent
      body q.events rest es)
    (hafter : afterRoot m (rest.length + 1) rest es = .ok last) :
  wholeMarkup m manner account p cs = .ok last.reverse
  := by
  simp only [Reading.wholeMarkup, hprolog, bind, Except.bind]
  rw [rootElement_passes hroot]
  simp only [hafter]

/-- Markup is read part by part: what stands before the root, the root, and what stands behind
it. -/
theorem wholeMarkup_parts {m : Medium} {account : Account} {p q : Prolog}
    {cs body rest : List Char} {s t : Assembly}
    (hprolog : Reading.beforeRoot m account (cs.length + 1) cs p = .ok (q, body))
    (hroot : ∃ last, (aroundRoot m q.declarations account).PassesRoot q.spent body q.events rest last
        ∧ Yields last s)
    (hafter : ∀ {es : List Event}, Yields es s →
      ∃ last, afterRoot m (rest.length + 1) rest es = .ok last ∧ Yields last t) :
  ∃ last, wholeMarkup m {} account p cs = .ok last ∧ ({} : Assembly).run last = .ok t
  := by
  obtain ⟨last, hpass, hlast⟩ := hroot
  obtain ⟨all, hall, hyields⟩ := hafter hlast
  exact ⟨all.reverse, wholeMarkup_events hprolog hpass hall, hyields⟩

theorem AreComments.areWritable {ns : List Node} (h : AreComments ns) (a : Alphabet)
    (d : Declarations) :
  Node.AreWritable a d none ns
  := by
  induction ns with
  | nil => trivial
  | cons n ns ih =>
      obtain ⟨⟨value, rfl, hvalue⟩, hothers⟩ := List.forall_mem_cons.mp h
      exact ⟨⟨hvalue, rfl⟩, ih hothers⟩

/-- The nodes of a document whose markup is read again in a medium: what stands before the root and
the root with comments around it. -/
structure AreRewritable (m : Medium) (standalone : Bool) (d : Declarations)
    (front before : List Node) (root : Node) (after : List Node) : Prop where
  leading : IsFront m standalone front d
  unquoted : AreUnquoted front
  opening : AreComments before
  isElement : root.isElement
  writable : root.IsWritable m.alphabet d none
  closing : AreComments after

namespace AreRewritable

variable {m : Medium} {standalone : Bool} {d : Declarations} {front before after : List Node}
    {root : Node} (h : AreRewritable m standalone d front before root after)

include h

/-- The root and the comments around it can be written. -/
theorem areWritable :
  Node.AreWritable m.alphabet d none (before ++ root :: after)
  := Node.areWritable_append.mpr
    ⟨h.opening.areWritable _ _, h.writable, h.closing.areWritable _ _⟩

/-- The markup begins with a bracket, behind which neither a zero nor a question mark stands. -/
theorem head_markup :
  BeginsNode (Writing.compactList none (front ++ (before ++ root :: after)))
  := by
  have hcomments {ns : List Node} (hns : AreComments ns) (rest : List Char)
      (hrest : BeginsNode rest) : BeginsNode (Writing.compactList none ns ++ rest) := by
    cases ns with
    | nil => exact hrest
    | cons n ns =>
        obtain ⟨⟨value, rfl, _⟩, _⟩ := List.forall_mem_cons.mp hns
        rw [compactList_comment]
        exact ⟨'!', _, rfl, by decide, by decide⟩
  obtain ⟨name, more, hname, hmarkup⟩ := exists_name none h.isElement h.writable
    (Writing.compactList none after)
  have hrest := hcomments h.opening _ (beginsNode_name hname more)
  rw [Writing.compactList_append, Writing.compactList_append, Writing.compactList, hmarkup]
  cases h.leading with
  | bare hnotes => exact hcomments (.of_notes hnotes) _ hrest
  | @typed first last t _ hfirst hlast _ _ =>
      have hopening : "<!DOCTYPE ".toList = '<' :: '!' :: "DOCTYPE ".toList := by decide
      rw [Writing.compactList_append, Writing.compactList, Writing.compact, List.append_assoc,
        List.append_assoc]
      apply hcomments (.of_notes hfirst)
      unfold Writing.doctypeText
      simp only [hopening, List.cons_append]
      exact ⟨'!', _, rfl, by decide, by decide⟩

/-- What stands before the root is read under an account, where no document type has an internal
subset or replacement texts may be of any length. -/
theorem beforeRoot (hm : m.IsIntact) {account : Account}
    (haccount : account = .unlimited ∨ AreBare front) {es : List Event} {stage : Stage}
    (hstage : stage = .beginning ∨ stage = .beforeDoctype) (declaration : Option Declaration)
    (hyields : Yields es (Assembly.atTop declaration [])) :
  let markup := Writing.compactList none (front ++ (before ++ root :: after))
  ∃ q, beforeRoot m account (markup.length + 1) markup
        (Prolog.headed standalone es [] none none stage)
      = .ok (q, Writing.compact none root ++ Writing.compactList none after)
    ∧ q.declarations = d
    ∧ Yields q.events (Assembly.atTop declaration
        (front ++ Node.normalList none (Node.unifiedList before)))
  := by
  intro markup
  obtain ⟨name, more, hname, hmarkup⟩ := exists_name none h.isElement h.writable
    (Writing.compactList none after)
  obtain ⟨rest, hrest⟩ := compactList_bracket h.opening (name ++ more)
  obtain ⟨p, hfront, hallows, hdeclarations, hp⟩ :=
    h.leading.leads hm h.unquoted haccount rest hstage hyields
  obtain ⟨es', stage', hbefore, hallows', _, hq⟩ := leads_comments hm h.opening (name ++ more) p
    hallows hp
  have hwhole : markup = Writing.compactList none front ++ '<' :: rest := by
    simp only [markup, Writing.compactList_append, Writing.compactList, hmarkup, hrest]
  rw [hrest] at hbefore
  have hprolog := (hfront.trans hbefore).beforeRoot hm.opens hname hallows'
  rw [← hwhole, ← hmarkup] at hprolog
  exact ⟨_, hprolog, hdeclarations, hq⟩

/-- What stands before the root is read, or it is refused for the length of the replacement texts
that an internal subset declares. -/
theorem beforeRoot_limited (hm : m.IsIntact) (account : Account) {es : List Event} {stage : Stage}
    (hstage : stage = .beginning ∨ stage = .beforeDoctype) (declaration : Option Declaration)
    (hyields : Yields es (Assembly.atTop declaration [])) :
  let markup := Writing.compactList none (front ++ (before ++ root :: after))
  let read := Reading.beforeRoot m account (markup.length + 1) markup
    (Prolog.headed standalone es [] none none stage)
  ∃ q, (read = .ok (q, Writing.compact none root ++ Writing.compactList none after)
      ∨ ¬ AreBare front ∧ ∃ here, read = .error (.amplification, here))
    ∧ q.declarations = d
    ∧ Yields q.events (Assembly.atTop declaration
        (front ++ Node.normalList none (Node.unifiedList before)))
  := by
  intro markup read
  by_cases hbare : AreBare front
  · obtain ⟨q, hread, hq⟩ := h.beforeRoot hm (.inr hbare) hstage declaration hyields
    exact ⟨q, .inl hread, hq⟩
  · obtain ⟨q, hread, hq⟩ := h.beforeRoot hm (.inl rfl) hstage declaration hyields
    have hagrees := beforeRoot_agrees m account (markup.length + 1) markup
      (Prolog.headed standalone es [] none none stage)
    rw [hread] at hagrees
    exact ⟨q, hagrees.limited.imp_right (And.intro hbare), hq⟩

/-- The markup is read to its end, or it is refused for the length of the replacement texts that an
internal subset declares. -/
theorem wholeMarkup (hm : m.IsIntact) (account : Account) {es : List Event} {stage : Stage}
    (hstage : stage = .beginning ∨ stage = .beforeDoctype) (declaration : Option Declaration)
    (hyields : Yields es (Assembly.atTop declaration [])) :
  let read := wholeMarkup m {} account (Prolog.headed standalone es [] none none stage)
    (Writing.compactList none (front ++ (before ++ root :: after)))
  (∃ last, read = .ok last ∧ ({} : Assembly).run last
      = .ok (Assembly.atTop declaration
          (Node.normalList none (Node.unifiedList (front ++ (before ++ root :: after))))))
    ∨ ¬ AreBare front ∧ ∃ here, read = .error (.amplification, here)
  := by
  intro read
  obtain ⟨q, hprolog | ⟨hbare, here, hcut⟩, hdeclarations, hq⟩ :=
    h.beforeRoot_limited hm account hstage declaration hyields
  · refine .inl ?_
    obtain ⟨e, he, hroot⟩ :=
      Node.exists_normal none ((Node.isElement_unified root).trans h.isElement)
    have hnone : ∀ n ∈ front ++ Node.normalList none (Node.unifiedList before),
        n.isElement = false := by
      rw [List.forall_mem_append]
      exact ⟨h.leading.isElement_eq_false, isElement_normalList h.opening⟩
    have hx : (aroundRoot m q.declarations account).IsPlain := ⟨hm, rfl, rfl⟩
    obtain ⟨last, hpass, hlast⟩ := Surroundings.passes_element hx (Assembly.isBetween_atTop _ _) root
      h.isElement (hdeclarations ▸ h.writable) he (Assembly.attach_root declaration hnone hroot)
      (Writing.compactList none after) { events := q.events, spent := q.spent } hq
    have hparts := wholeMarkup_parts hprolog ⟨last, hpass, hlast⟩ fun {es} =>
      afterRoot_comments hm h.closing _ (Nat.lt_succ_of_le (length_le_compactList h.closing)) es
    rw [normalList_append, normalList_append, h.leading.normalList_eq, Node.unifiedList,
      Node.normalList, he]
    simpa using hparts
  · refine .inr ⟨hbare, here, ?_⟩
    simp only [read, Reading.wholeMarkup, hcut, bind, Except.bind]

end AreRewritable

/-! ### Heads -/

/-- The stage at which the nodes of a document begin. -/
def firstStage (declaration : Option Declaration) : Stage :=
  if declaration.isSome then .beforeDoctype else .beginning

theorem firstStage_cases (declaration : Option Declaration) :
  firstStage declaration = .beginning ∨ firstStage declaration = .beforeDoctype
  := by
  cases declaration with
  | none => exact .inl rfl
  | some d => exact .inr rfl

/-- The events of a declaration, or none. -/
def AreHeading (es : List Event) : Prop :=
  es = [] ∨ ∃ version encoding standalone, es = [.declaration version encoding standalone]

/-- How a source has begun: the medium of its characters, and where the markup of its nodes starts,
with the event of its declaration and what was put together of it. -/
structure HasBegun (b : Begun) (m : Medium) (declaration : Option Declaration)
    (body : List Char) : Prop where
  medium : b.script.medium = m
  rest : b.rest = body
  prolog : ∃ es, b.prolog = Prolog.headed (declaration.any Declaration.standsAlone) es [] none none
      (firstStage declaration)
    ∧ AreHeading es ∧ Yields es (Assembly.atTop declaration [])

/-- The events of a source that has begun are those of its markup, under the account of its
octets. -/
theorem events_begun {source : Source} {b : Begun} {m : Medium} {declaration : Option Declaration}
    {body : List Char} (hb : beginSource {} source = .ok b)
    (hbegun : HasBegun b m declaration body) :
  ∃ es, Yields es (Assembly.atTop declaration [])
    ∧ events {} source = (wholeMarkup m {} (m.account source.bytes.length)
        (Prolog.headed (declaration.any Declaration.standsAlone) es [] none none
          (firstStage declaration)) body).mapError b.script.refusal
  := by
  obtain ⟨hmedium, hrest, es, hprolog, -, hyields⟩ := hbegun
  refine ⟨es, hyields, ?_⟩
  simp only [events, hb, bind, Except.bind, hmedium, hrest, hprolog]
  rfl

/-- A source is read as the document that its events put together. -/
theorem readDocument_events {source : Source} {last : List Event} {declaration : Option Declaration}
    {children : List Node} (hevents : events {} source = .ok last)
    (hrun : ({} : Assembly).run last = .ok (Assembly.atTop declaration children))
    (hroot : ∃ n ∈ children, n.isElement) :
  readDocument source = .ok ⟨declaration, children⟩
  := by
  have hfound : (Assembly.atTop declaration children).document.root?.isSome := by
    rwa [Document.root?, List.find?_isSome]
  rw [readDocument, hevents]
  simp only [Except.mapError, bind, Except.bind, Document.ofEvents, hrun, hfound, ite_true]
  rfl

/-- A source that has begun is read as the document that the events of its markup put together. -/
theorem readDocument_begun {source : Source} {b : Begun} {m : Medium}
    {declaration : Option Declaration} {body : List Char} {children : List Node}
    (hb : beginSource {} source = .ok b) (hbegun : HasBegun b m declaration body)
    (hread : ∀ es, Yields es (Assembly.atTop declaration []) →
      ∃ last, wholeMarkup m {} (m.account source.bytes.length)
          (Prolog.headed (declaration.any Declaration.standsAlone) es [] none none
            (firstStage declaration)) body = .ok last
        ∧ ({} : Assembly).run last = .ok (Assembly.atTop declaration children))
    (hroot : ∃ n ∈ children, n.isElement) :
  readDocument source = .ok ⟨declaration, children⟩
  := by
  obtain ⟨es, hyields, hevents⟩ := events_begun hb hbegun
  obtain ⟨last, hlast, hrun⟩ := hread es hyields
  exact readDocument_events (by rw [hevents, hlast]; rfl) hrun hroot

/-- How the rest of a source is taken in the encoding that its declaration names. -/
abbrev Switching := List Char → List Char → List Char → Except Unreadable (Script × List Char)

/-- A script without a declaration begins with its nodes. -/
theorem begin_bare {s : Script} (h : BeginsNode s.chars) (switch : Switching) :
  ∃ b, begin s switch = .ok b ∧ HasBegun b s.medium none s.chars
  := by
  have hheading : headingText? s = none := by
    obtain ⟨c, more, hchars, _, hquestion⟩ := h
    rw [headingText?, hchars]
    dsimp only
    split
    · rename_i text rest heq
      exact absurd heq (Medium.token_ne_declaration hquestion more text rest)
    · rfl
  exact ⟨⟨s, s.chars, {}⟩, by rw [begin, hheading], rfl, rfl, [], rfl, .inl rfl, rfl⟩

/-- A script with a declaration begins with it, and goes on in the encoding that it names. -/
theorem begin_heading {s : Script} {version encoding : String}
    {standalone : Option String}
    (hversion : Declaration.isWord version) (hencoding : Declaration.isEncodingName encoding)
    (hne : encoding ≠ "") (hwords : ∀ word ∈ standalone, word = "yes" ∨ word = "no")
    {body : List Char} (hchars : s.chars = "<?xml".toList
      ++ Writing.headingText version encoding standalone ++ "?>".toList ++ body)
    {m : Medium} {switch : Switching} (hswitch : ∀ here, ∃ s',
      switch encoding.toList here body = .ok (s', body) ∧ s'.medium = m) :
  ∃ b, begin s switch = .ok b
    ∧ HasBegun b m (some ⟨some (.text version), some (.text encoding), standalone.map .text⟩) body
  := by
  obtain ⟨here, hheading⟩ := Heading.ofText_headingText hversion hencoding hne hwords
  have htoken := Medium.token_heading (m := s.medium) hversion hencoding hwords body
  generalize Writing.headingText version encoding standalone = text at hheading htoken hchars
  have hstart : "<?xml".toList = '<' :: '?' :: "xml".toList := by decide
  have hend : "?>".toList = ['?', '>'] := by decide
  let h : Heading := ⟨version.toList, some (encoding.toList, here), standalone.map (· = "yes")⟩
  have hmarkup : s.chars = '<' :: '?' :: ("xml".toList ++ (text ++ '?' :: '>' :: body)) := by
    simp only [hchars, hstart, hend, List.cons_append, List.append_assoc, List.nil_append]
  have htext : headingText? s = some (text, body) := by
    simp only [headingText?, hmarkup, htoken]
  have hyields : Yields (afterHeading h).events (Assembly.atTop
      (some ⟨some (.text version), some (.text encoding), standalone.map .text⟩) []) := by
    have hword : (standalone.map fun word => decide (word = "yes")).map Assembly.standaloneWord
        = standalone.map Field.text := by
      cases standalone with
      | none => rfl
      | some word =>
          rcases hwords word rfl with rfl | rfl
          · rfl
          · rfl
    refine Yields.emit Assembly.yields_nil ?_
    simp only [h, Assembly.step, hword, Option.map_some, String.ofList_toList]
    rfl
  have hprolog : afterHeading h = Prolog.headed (Option.any Declaration.standsAlone
      (some ⟨some (.text version), some (.text encoding), standalone.map .text⟩))
      (afterHeading h).events [] none none .beforeDoctype := by
    cases standalone with
    | none => rfl
    | some word =>
        rcases hwords word rfl with rfl | rfl
        · rfl
        · rfl
  obtain ⟨s', hs', hm⟩ := hswitch (s.chars.drop (5 + (text.length - here.length)))
  refine ⟨⟨s', body, afterHeading h⟩, ?_, hm, rfl, (afterHeading h).events, hprolog,
    .inr ⟨_, _, _, rfl⟩, hyields⟩
  rw [begin, htext]
  simp only [hheading, hs', bind, Except.bind]
  rfl

/-- A text that begins with an opening bracket and no zero is read as it is. -/
theorem beginSource_text (manner : Manner) (c : Char) (more : List Char) (hc : c ≠ '\x00') :
  beginSource manner (.text (String.ofList ('<' :: c :: more)))
    = begin ⟨{ alphabet := manner.alphabet }, [], '<' :: c :: more⟩
        (keepScript ⟨{ alphabet := manner.alphabet }, [], '<' :: c :: more⟩)
  := by
  have hwide : looksWide ('<' :: c :: more) = false := by
    simp [looksWide, hc]
  simp only [beginSource, String.toList_ofList, hwide, Bool.false_eq_true, ite_false]
  rfl

end Reading

/-! ### Round trips -/

namespace Writing

/-- The name of the encoding that a declaration is written with. -/
def encodingName (d : Declaration) : List Char :=
  match d.filled.encoding with
  | some (.text name) => name.toList
  | _ => []

theorem encodingName_text {version standalone : Option Field} {f : Field} {name : String}
    (hf : f.text? = some name) (h : name ≠ "") :
  encodingName ⟨version, some f, standalone⟩ = name.toList
  := by
  simp only [encodingName, Declaration.filled, Declaration.effectiveEncoding, Option.filter_some,
    if_pos ((Field.counts_iff hf).mpr h), Option.getD_some, Field.plain_of_text? hf]

/-- The head of the markup of a document: how it is written for the declaration and for the one
that fills it, and how it is read in front of nodes. -/
structure IsHead (layout : Layout) (declaration : Option Declaration) (head : List Char) :
    Prop where
  written (indented : Bool) (children : List Node) : allPrintableList children →
    documentText layout indented ⟨declaration, children⟩
      = .ok (head ++ nodesText (if indented then some layout else none) false declaration.isSome 0
          none children)
  filled (indented : Bool) (children : List Node) : allPrintableList children →
    documentText layout indented ⟨declaration.map Declaration.filled, children⟩
      = .ok (head ++ nodesText (if indented then some layout else none) false declaration.isSome 0
          none children)
  chars : ∀ c ∈ head, Reading.isXmlChar c ∧ c ≠ '\r'
  begins {body : List Char} : (declaration = none → Reading.BeginsNode body) →
    ∃ c more, head ++ body = '<' :: c :: more ∧ c ≠ '\x00'
  read {body : List Char} : (declaration = none → Reading.BeginsNode body) →
    ∀ {s : Reading.Script} {switch : Reading.Switching}, s.chars = head ++ body →
      ∀ {m : Reading.Medium}, (declaration = none → s.medium = m) →
      (∀ d ∈ declaration, ∀ here, ∃ s', switch (encodingName d) here body = .ok (s', body)
        ∧ s'.medium = m) →
      ∃ b, Reading.begin s switch = .ok b
        ∧ Reading.HasBegun b m (declaration.map Declaration.filled) body

theorem IsHead.kept {layout : Layout} {declaration : Option Declaration} {head : List Char}
    (h : IsHead layout declaration head) :
  '\r' ∉ head
  := fun hmem => (h.chars _ hmem).2 rfl

/-- The text of a document begins with its head, in whatever manner it is read. -/
theorem IsHead.beginSource {layout : Layout} {declaration : Option Declaration} {head : List Char}
    (h : IsHead layout declaration head) {body : List Char}
    (hbody : declaration = none → Reading.BeginsNode body) (manner : Reading.Manner) :
  ∃ b, Reading.beginSource manner (.text (String.ofList (head ++ body))) = .ok b
    ∧ Reading.HasBegun b { alphabet := manner.alphabet } (declaration.map Declaration.filled) body
  := by
  obtain ⟨c, more, hchars, hzero⟩ := h.begins hbody
  let s : Reading.Script := ⟨{ alphabet := manner.alphabet }, [], head ++ body⟩
  have hkeep : ∀ d ∈ declaration, ∀ here, ∃ s',
      Reading.keepScript s (encodingName d) here body = .ok (s', body) ∧ s'.medium = s.medium :=
    fun _ _ _ => ⟨s, rfl, rfl⟩
  obtain ⟨b, hb, hbegun⟩ := h.read hbody rfl (fun _ => rfl) hkeep
  refine ⟨b, ?_, hbegun⟩
  rw [hchars, Reading.beginSource_text manner c more hzero, ← hchars]
  exact hb

theorem documentText_eq (layout : Layout) {declaration : Option Declaration} {head : List Char}
    (hhead : ∀ d ∈ declaration, declarationText layout d = .ok head)
    (hnone : declaration = none → head = []) (indented : Bool) {children : List Node}
    (h : allPrintableList children) :
  documentText layout indented ⟨declaration, children⟩
    = .ok (head ++ nodesText (if indented then some layout else none) false declaration.isSome 0
        none children)
  := by
  cases declaration with
  | none => simp [documentText, h, hnone rfl, bind, Except.bind, pure, Except.pure]
  | some d => simp [documentText, h, hhead d rfl, bind, Except.bind, pure, Except.pure]

/-- A legible declaration, and none at all, has a head. -/
theorem exists_head {layout : Layout} (hlayout : IsStandard layout)
    {declaration : Option Declaration} (h : declaration.all Declaration.isLegible) :
  ∃ head, IsHead layout declaration head
  := by
  cases declaration with
  | none =>
      have hnone : ∀ d ∈ (none : Option Declaration), declarationText layout d = .ok [] := by simp
      refine ⟨[], ?_, ?_, by simp, ?_, ?_⟩
      · exact fun indented children => documentText_eq layout hnone (fun _ => rfl) indented
      · exact fun indented children => documentText_eq layout hnone (fun _ => rfl) indented
      · intro body hbody
        obtain ⟨c, more, hchars, hzero, _⟩ := hbody rfl
        exact ⟨c, more, hchars, hzero⟩
      · intro body hbody s switch hchars m hmedium _
        rw [List.nil_append] at hchars
        rw [← hmedium rfl]
        subst hchars
        exact Reading.begin_bare (hbody rfl) switch
  | some d =>
      obtain ⟨version, encoding, standalone, htext, hfilled, hversion, hversionNe, hencoding,
        hencodingNe, hwords⟩ := declarationText_legible hlayout h
      have htext' := declarationText_words layout hversionNe hencodingNe standalone
      rw [← hfilled] at htext'
      have hname : encodingName d = encoding.toList := by
        rw [encodingName, hfilled]
      refine ⟨"<?xml".toList ++ headingText version encoding standalone ++ "?>".toList,
        ?_, ?_, ?_, ?_, ?_⟩
      · exact fun indented children =>
          documentText_eq layout (by simpa using htext) (by simp) indented
      · exact fun indented children =>
          documentText_eq layout (by simpa using htext') (by simp) indented
      · have hchars := Reading.headingText_chars hversion hencoding hwords
        have hmarks : ∀ c ∈ "<?xml".toList ++ "?>".toList, Reading.isXmlChar c ∧ c ≠ '\r' :=
          List.all_iff_forall_prop.mp (by decide)
        rw [List.forall_mem_append] at hmarks
        rw [List.forall_mem_append, List.forall_mem_append]
        exact ⟨⟨hmarks.1, fun c hc => ⟨(hchars c hc).1, (hchars c hc).2.2⟩⟩, hmarks.2⟩
      · exact fun _ => ⟨'?', _, rfl, by decide⟩
      · intro body _ s switch hchars m _ hswitch
        rw [Option.map_some, hfilled]
        apply Reading.begin_heading hversion hencoding hencodingNe hwords hchars
        rw [← hname]
        exact hswitch d rfl

/-! ### Printing -/

open Node (normal normalList unified unifiedList joinTexts)

theorem allPrintableList_append (before after : List Node) :
  allPrintableList (before ++ after) = (allPrintableList before && allPrintableList after)
  := by
  induction before with
  | nil => rfl
  | cons n ns ih => simp [allPrintableList, ih, Bool.and_assoc]

theorem allPrintableList_joinTexts (ns : List Node) :
  allPrintableList (joinTexts ns) = allPrintableList ns
  := by
  induction ns using Node.joinTexts.induct with
  | case1 s t ns ih =>
      rw [joinTexts, ih]
      simp [allPrintableList, allPrintable]
  | case2 n ns hjoin ih =>
      rw [joinTexts, allPrintableList, allPrintableList, ih]
      exact hjoin
  | case3 => rw [joinTexts]

theorem allPrintableList_sections (ps : List (List Char)) :
  allPrintableList (ps.map fun cs => .cdata (String.ofList cs)) = true
  := by
  induction ps with
  | nil => rfl
  | cons p ps ih => exact ih

mutual

/-- A node without document types can be printed, and so can its normal form. -/
theorem allPrintable_sound (scope : Option String) {n : Node} (h : ∀ m ∈ n.nodes, m.IsSound) :
  allPrintable n ∧ allPrintableList (normal scope (unified n))
  := by
  cases n with
  | element name attributes children =>
      rw [Node.forall_nodes_element] at h
      have hchildren := allPrintableList_sound (innerScope scope name) h.2
      simp only [unified, normal, allPrintableList, allPrintable, allPrintableList_joinTexts,
        hchildren, Bool.and_self, and_self]
  | text value => exact ⟨rfl, rfl⟩
  | cdata value =>
      exact ⟨rfl, by rw [unified, normal, allPrintableList_sections]⟩
  | comment value => exact ⟨rfl, rfl⟩
  | doctype d => exact (h _ (Node.mem_nodes _)).elim

theorem allPrintableList_sound (scope : Option String) {ns : List Node}
    (h : ∀ m ∈ Node.nodesList ns, m.IsSound) :
  allPrintableList ns ∧ allPrintableList (normalList scope (unifiedList ns))
  := by
  cases ns with
  | nil => exact ⟨rfl, rfl⟩
  | cons n ns =>
      rw [Node.forall_nodesList_cons] at h
      have hfirst := allPrintable_sound scope h.1
      have hothers := allPrintableList_sound scope h.2
      simp only [allPrintableList, unifiedList, normalList, allPrintableList_append, hfirst,
        hothers, Bool.and_self, and_self]

end

end Writing

/-! ### Round trips -/

/-- A declaration that is filled stands alone just if it did before. -/
theorem Declaration.standsAlone_filled (declaration : Option Declaration) :
  (declaration.map filled).any standsAlone = declaration.any standsAlone
  := by
  cases declaration with
  | none => rfl
  | some d =>
      simp only [Option.map_some, Option.any_some, standsAlone, filled]
      cases d.standalone with
      | none => rfl
      | some f => simp only [Option.map_some, Option.bind_some, Field.text?_plain]

namespace Document

open Reading (Medium)

/-- A document that can be written and read again in a medium: its declaration is legible if there
is one, and before its root stand comments, and a document type that is read again if there is
one. -/
structure IsRewritable (m : Medium) (d : Document) : Prop where
  declaration : d.declaration.all Declaration.isLegible
  nodes : ∃ declarations front before root after, d.children = front ++ (before ++ root :: after)
    ∧ Reading.AreRewritable m (d.declaration.any Declaration.standsAlone) declarations front before
        root after

open Writing (compactList)

section Rewritable

variable {m : Medium} {d : Document} (h : d.IsRewritable m)

include h

/-- The normal form of a document has a root. -/
theorem IsRewritable.exists_root :
  ∃ n ∈ d.unified.normal.children, n.isElement
  := by
  obtain ⟨declarations, front, before, root, after, hchildren, hnodes⟩ := h.nodes
  obtain ⟨e, he, helement⟩ :=
    Node.exists_normal none ((Node.isElement_unified root).trans hnodes.isElement)
  refine ⟨e, ?_, helement⟩
  simp [Document.normal, Document.unified, hchildren, Reading.normalList_append, Node.unifiedList,
    Node.normalList, he]

/-- The markup of a document begins with a node. -/
theorem IsRewritable.beginsNode :
  Reading.BeginsNode (compactList none d.children)
  := by
  obtain ⟨_, _, _, _, _, hchildren, hnodes⟩ := h.nodes
  rw [hchildren]
  exact hnodes.head_markup

/-- A source that has begun with the declaration of a document and goes on with its markup is read
as the normal form of the document with unified ends of lines, or it is refused for the length of
the replacement texts that an internal subset declares. -/
theorem IsRewritable.read_begun (hm : m.IsIntact) {source : Source} {b : Reading.Begun}
    (hb : Reading.beginSource {} source = .ok b)
    (hbegun : Reading.HasBegun b m (d.declaration.map Declaration.filled)
      (compactList none d.children)) :
  readDocument source = .ok d.unified.normal ∨ ¬ Reading.AreBare d.children
    ∧ ∃ place, readDocument source = .error (.unreadable (.malformed .amplification place))
  := by
  obtain ⟨declarations, front, before, root, after, hchildren, hnodes⟩ := h.nodes
  obtain ⟨es, hyields, hevents⟩ := Reading.events_begun hb hbegun
  have hwhole := hnodes.wholeMarkup hm (m.account source.bytes.length)
    (Reading.firstStage_cases (d.declaration.map Declaration.filled)) _ hyields
  rw [Declaration.standsAlone_filled, hchildren] at hevents
  rcases hwhole with ⟨last, hlast, hrun⟩ | ⟨hbare, here, hcut⟩
  · rw [← hchildren] at hrun
    exact .inl (Reading.readDocument_events (by rw [hevents, hlast]; rfl) hrun h.exists_root)
  · refine .inr ⟨fun hall => hbare fun t ht => hall t (by simp [hchildren, ht]), ?_⟩
    rw [readDocument, hevents, hcut]
    exact ⟨_, rfl⟩

/-- Without an internal subset it is read under every account. -/
theorem IsRewritable.read_begun_bare (hbare : Reading.AreBare d.children) (hm : m.IsIntact)
    {source : Source} {b : Reading.Begun} (hb : Reading.beginSource {} source = .ok b)
    (hbegun : Reading.HasBegun b m (d.declaration.map Declaration.filled)
      (compactList none d.children)) :
  readDocument source = .ok d.unified.normal
  := (h.read_begun hm hb hbegun).resolve_right fun hcut => hcut.1 hbare

theorem IsRewritable.allPrintable :
  Writing.allPrintableList d.children
    ∧ Writing.allPrintableList (Node.normalList none (Node.unifiedList d.children))
  := by
  obtain ⟨declarations, front, before, root, after, hchildren, hnodes⟩ := h.nodes
  have hsound : ∀ m ∈ Node.nodesList (before ++ root :: after), m.IsSound := by
    intro m hm
    obtain ⟨_, hwritable⟩ := hnodes.areWritable.nodes m hm
    exact hwritable.isSound
  have hothers := Writing.allPrintableList_sound none hsound
  rw [hchildren, Reading.normalList_append, hnodes.leading.normalList_eq,
    Writing.allPrintableList_append, Writing.allPrintableList_append front,
    hnodes.leading.allPrintable]
  exact hothers

/-- A document is written behind its head, and so is what is read of it. -/
theorem IsRewritable.rewrite {layout : Layout} {head : List Char}
    (hhead : Writing.IsHead layout d.declaration head) :
  d.render layout false = .ok (String.ofList (head ++ compactList none d.children))
    ∧ d.unified.normal.render layout false
      = .ok (String.ofList (head ++ compactList none (Node.unifiedList d.children)))
  := by
  obtain ⟨hprint, hprint'⟩ := h.allPrintable
  constructor
  · rw [render, show d = ⟨d.declaration, d.children⟩ from rfl, hhead.written false _ hprint]
    exact congrArg _ (congrArg _ (congrArg _ (Writing.nodesText_none _ _ _ _ _)))
  · rw [render, Document.normal, Document.unified, hhead.filled false _ hprint',
      ← Writing.compactList_normalList]
    exact congrArg _ (congrArg _ (congrArg _ (Writing.nodesText_none _ _ _ _ _)))

end Rewritable

/-- Unifying the ends of lines changes the markup of a document just if a comment or a CDATA
section holds a carriage return. -/
theorem IsRewritable.keepsLines_iff {d : Document} (h : d.IsRewritable {}) :
  compactList none (Node.unifiedList d.children) = compactList none d.children ↔ d.keepsLines
  := by
  obtain ⟨declarations, front, before, root, after, hchildren, hnodes⟩ := h.nodes
  have hothers (n : Node) (hn : n ∈ Node.nodesList (before ++ root :: after)) :
      n.NamesKeepLines ∧ ¬ n.isDoctype := by
    obtain ⟨_, hwritable⟩ := hnodes.areWritable.nodes n hn
    exact ⟨hwritable.namesKeepLines, hwritable.not_doctype⟩
  have hunify := Writing.unifyLines_compactList none (before ++ root :: after) []
    (fun n hn => (hothers n hn).1) (fun n hn => (hothers n hn).2)
  rw [List.append_nil, Text.unifyLines, List.append_nil] at hunify
  -- what stands before the root is as it was, so that only the nodes behind it count
  have hfront : compactList none (Node.unifiedList d.children)
      = compactList none front ++ compactList none (Node.unifiedList (before ++ root :: after)) := by
    rw [← Writing.compactList_normalList, hchildren, Reading.normalList_append,
      hnodes.leading.normalList_eq, Writing.compactList_append, Writing.compactList_normalList]
  rw [hfront, hchildren, Writing.compactList_append, List.append_cancel_left_eq, ← hunify,
    Text.unifyLines_eq_self_iff, keepsLines, Document.nodes, hchildren, Node.nodesList_append,
    List.all_append, hnodes.leading.keepsLines, Bool.true_and, List.all_eq_true]
  constructor
  · exact Writing.keepsLines_of_compactList
  · intro hkeeps
    rw [← Text.unifyLines_eq_self_iff, hunify, Node.unifiedList_eq hkeeps]

/-- The markup of a document, behind any head that its declaration has, is read as the normal form
of the document with unified ends of lines, or it is refused for the length of the replacement
texts that an internal subset declares. -/
theorem IsRewritable.read {d : Document} (h : d.IsRewritable {}) {layout : Layout}
    {head : List Char} (hhead : Writing.IsHead layout d.declaration head) :
  let read := readDocument (.text (String.ofList (head ++ compactList none d.children)))
  read = .ok d.unified.normal ∨ ¬ Reading.AreBare d.children
    ∧ ∃ place, read = .error (.unreadable (.malformed .amplification place))
  := by
  have hbegins := h.beginsNode
  obtain ⟨b, hb, hbegun⟩ := hhead.beginSource (fun _ => hbegins) {}
  exact h.read_begun Medium.isIntact_plain hb hbegun

/-- Without an internal subset it is read. -/
theorem IsRewritable.read_bare {d : Document} (h : d.IsRewritable {})
    (hbare : Reading.AreBare d.children) {layout : Layout} {head : List Char}
    (hhead : Writing.IsHead layout d.declaration head) :
  readDocument (.text (String.ofList (head ++ compactList none d.children)))
    = .ok d.unified.normal
  := (h.read hhead).resolve_right fun hcut => hcut.1 hbare

/-- A document that can be read from its markup: a root with comments around it, all of them of
readable nodes, under a legible declaration if there is one. -/
structure IsReadable (d : Document) : Prop where
  declaration : d.declaration.all Declaration.isLegible
  nodes : ∀ m ∈ d.nodes, m.IsReadable
  root : ∃ before root after, d.children = before ++ root :: after ∧ root.isElement
    ∧ ∀ n ∈ before ++ after, ∃ value, n = .comment value

/-- A document without a document type that can be written in a medium: comments around a root. -/
structure IsBare (m : Medium) (d : Document) (before : List Node) (root : Node) (after : List Node) :
    Prop where
  children : d.children = before ++ root :: after
  before : Reading.AreComments before
  isElement : root.isElement
  writable : root.IsWritable m.alphabet
    { standalone := d.declaration.any Declaration.standsAlone } none
  after : Reading.AreComments after

variable {d : Document} (h : d.IsReadable)

include h

/-- The nodes of a readable document are comments around a root that can be written in any medium
that does not divide their names. -/
theorem IsReadable.exists_parts {m : Medium}
    (hnames : m.alphabet.divides → ∀ n ∈ d.nodes, n.isUnprefixed) :
  ∃ before root after, d.IsBare m before root after
  := by
  obtain ⟨before, root, after, hchildren, hroot, hcomments⟩ := h.root
  have hnodes := h.nodes
  rw [Document.nodes, hchildren, Node.nodesList_append, List.forall_mem_append,
    Node.forall_nodesList_cons] at hnodes
  obtain ⟨hbefore, hinner, hafter⟩ := hnodes
  have hroots (hdivides : m.alphabet.divides) : ∀ n ∈ root.nodes, n.isUnprefixed := by
    intro n hn
    refine hnames hdivides n (Node.mem_nodesList.mpr ⟨root, ?_, hn⟩)
    rw [hchildren]
    exact List.mem_append_right _ List.mem_cons_self
  have hreadable {ns : List Node} (hns : ∀ m ∈ Node.nodesList ns, m.IsReadable)
      (hall : ∀ n ∈ ns, ∃ value, n = .comment value) : Reading.AreComments ns := by
    intro n hn
    have hcomment := hns n (Node.mem_nodesList.mpr ⟨n, hn, Node.mem_nodes n⟩)
    obtain ⟨⟨value, member⟩, rfl⟩ := hall n hn
    obtain ⟨⟨hchars, hplain⟩, hbreaks⟩ := hcomment
    obtain rfl : member = none := by simpa [Node.isPlain] using hplain
    exact ⟨value, rfl, hchars, hbreaks⟩
  rw [List.forall_mem_append] at hcomments
  exact ⟨before, root, after, hchildren, hreadable hbefore hcomments.1, hroot,
    Node.isWritable_of_readable rfl none hroots hinner, hreadable hafter hcomments.2⟩

theorem IsReadable.areWritable {m : Medium} (hm : m.IsUsual) :
  Node.AreWritable m.alphabet { standalone := d.declaration.any Declaration.standsAlone } none
    d.children
  := by
  obtain ⟨before, root, after, hchildren, hbefore, _, hroot, hafter⟩ :=
    h.exists_parts (m := m) (by simp [hm.divides])
  rw [hchildren]
  exact Node.areWritable_append.mpr
    ⟨hbefore.areWritable _ _, hroot, hafter.areWritable _ _⟩

/-- There is no document type in a readable document, and so no internal subset. -/
theorem IsReadable.areBare :
  Reading.AreBare d.children
  := fun t ht =>
    absurd (h.nodes _ (Node.mem_nodesList.mpr ⟨_, ht, Node.mem_nodes _⟩)).2 (by simp [Node.IsSound])

theorem IsReadable.isRewritable {m : Medium} (hm : m.IsUsual) :
  d.IsRewritable m
  := by
  obtain ⟨before, root, after, hchildren, hbefore, hroot, hwritable, hafter⟩ :=
    h.exists_parts (m := m) (by simp [hm.divides])
  exact ⟨h.declaration, _, [], before, root, after, hchildren,
    .bare (by simp), by simp [Reading.AreUnquoted], hbefore, hroot, hwritable, hafter⟩

/-- The markup of a readable document, behind any head that its declaration has, is read as the
normal form of the document with unified ends of lines. -/
theorem IsReadable.read {layout : Layout} {head : List Char}
    (hhead : Writing.IsHead layout d.declaration head) :
  readDocument (.text (String.ofList (head ++ compactList none d.children)))
    = .ok d.unified.normal
  := (h.isRewritable Medium.isIntact_plain.toIsUsual).read_bare h.areBare hhead

theorem IsReadable.unifyLines_compactList :
  Text.unifyLines (compactList none d.children) = compactList none (Node.unifiedList d.children)
  := by
  have hnames : ∀ m ∈ Node.nodesList d.children, m.NamesKeepLines :=
    fun m hm => Node.namesKeepLines_of_legible (h.nodes m hm).1.1 (h.nodes m hm).1.2
  have hdoctype : ∀ m ∈ Node.nodesList d.children, ¬ m.isDoctype := by
    intro m hm hd
    cases m with
    | doctype t => exact (h.nodes _ hm).2
    | _ => cases hd
  have hunify := Writing.unifyLines_compactList none d.children [] hnames hdoctype
  rwa [List.append_nil, Text.unifyLines, List.append_nil] at hunify

/-- The markup of a readable document holds a carriage return just if a comment or a CDATA
section of it does. -/
theorem IsReadable.keepsLines_iff :
  d.keepsLines ↔ '\r' ∉ compactList none d.children
  := by
  rw [← Text.unifyLines_eq_self_iff, h.unifyLines_compactList]
  exact (h.isRewritable Medium.isIntact_plain.toIsUsual).keepsLines_iff.symm

/-- Writing what was read of a readable document gives its markup with unified ends of lines. -/
theorem IsReadable.rewrite {layout : Layout} {head : List Char}
    (hhead : Writing.IsHead layout d.declaration head) :
  d.render layout false = .ok (String.ofList (head ++ compactList none d.children))
    ∧ d.unified.normal.render layout false
      = .ok (String.ofList (Text.unifyLines (head ++ compactList none d.children)))
  := by
  rw [Text.unifyLines_append hhead.kept, h.unifyLines_compactList]
  exact (h.isRewritable Medium.isIntact_plain.toIsUsual).rewrite hhead

end Document

end XmlDraft
