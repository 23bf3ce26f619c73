import XmlDraft.Proofs.Doctypes
import XmlDraft.Reading.Markup

/-!
# What was written around the root

Comments stand before and behind the root, and a document type may stand before it.  A reader
comes through them one by one.  Main statement: what stands before the root is read again over its
markup, with the same declarations, and the comments behind the root are read to the end.
-/

namespace XmlDraft

namespace Reading

open Assembly (Yields)

/-! ### Tokens -/

namespace Medium

variable {m : Medium}

/-- A comment outside of the root is found. -/
theorem token_comment {value : String} (hchars : isCharText value)
    (hbreaks : breaksComment value.toList = false) (rest : List Char) :
  m.token '<' ('!' :: '-' :: '-' :: (value.toList ++ '-' :: '-' :: '>' :: rest))
    = .ok (.comment value.toList, rest)
  := by
  have hbody := commentBody_append (m := m) (isXmlChar_of_isCharText hchars) hbreaks rest
  have hblank : isBlank '<' = false := by decide
  unfold token
  simp only [hblank, Bool.false_eq_true, ite_false, markupToken, declarationToken, comment, hbody]
  rfl

/-- A name behind an opening bracket begins the root. -/
theorem token_root (hopens : ∀ c, m.alphabet.isStart c → m.alphabet.opensElement c)
    {name : List Char} (hname : IsPlainName m.alphabet name) (more : List Char) :
  m.token '<' (name ++ more) = .ok (.root, '<' :: (name ++ more))
  := by
  obtain ⟨c, cs, rfl, hstart, hmark⟩ := exists_start hname
  simp only [nonNames, List.mem_cons, not_or] at hmark
  have hblank : isBlank '<' = false := by decide
  unfold token
  simp only [hblank, Bool.false_eq_true, ite_false]
  rw [List.cons_append, markupToken, if_pos (hopens c hstart)]
  · exact hmark.1
  · exact hmark.2.1

theorem IsUsual.opens (hm : m.IsUsual) :
  ∀ c, m.alphabet.isStart c → m.alphabet.opensElement c
  := fun _ => Alphabet.opensElement_of_isStart hm.divides hm.isFifth

/-- Only a question mark behind an opening bracket begins a declaration. -/
theorem token_ne_declaration {c : Char} (hc : c ≠ '?') (more text rest : List Char) :
  m.token '<' (c :: more) ≠ .ok (.declaration text, rest)
  := by
  intro h
  have hmarkup : m.markupToken (c :: more) = .ok (.declaration text, rest) := h
  unfold markupToken at hmarkup
  split at hmarkup
  · split at hmarkup <;> cases hmarkup
  · unfold declarationToken at hmarkup
    split at hmarkup
    · cases hmarkup
    · obtain ⟨_, _, heq⟩ := map_ok hmarkup
      cases heq
    · cases hmarkup
    · split_ifs at hmarkup
      obtain ⟨_, _, heq⟩ := map_ok hmarkup
      cases heq
  · rename_i heq
    exact hc (List.head_eq_of_cons_eq heq)
  · split_ifs at hmarkup
    cases hmarkup

end Medium

/-! ### Comments around the root -/

/-- Comments that can be written. -/
def AreComments (ns : List Node) : Prop :=
  ∀ n ∈ ns, ∃ value : String, n = .comment value ∧ isCharText value
    ∧ breaksComment value.toList = false

theorem compactList_comment (value : String) (ns : List Node) (rest : List Char) :
  Writing.compactList none (.comment value :: ns) ++ rest
    = commentMarkup value.toList ++ (Writing.compactList none ns ++ rest)
  := by
  simp [Writing.compactList, Writing.compact, commentMarkup, Wording.printed]

/-- The normal form of comments is taken one by one. -/
theorem normalList_comment (value : String) (ns : List Node) :
  Node.normalList none (Node.unifiedList (.comment value :: ns))
    = .comment (Node.unifiedText value) :: Node.normalList none (Node.unifiedList ns)
  := by
  simp [Node.unifiedList, Node.unified, Node.normalList, Node.normal, Node.unifiedWording]

theorem normalList_append (scope : Option String) (before after : List Node) :
  Node.normalList scope (Node.unifiedList (before ++ after))
    = Node.normalList scope (Node.unifiedList before)
      ++ Node.normalList scope (Node.unifiedList after)
  := by
  rw [Node.unifiedList_append, Node.normalList_append]

theorem isElement_normalList {ns : List Node} (h : AreComments ns) :
  ∀ n ∈ Node.normalList none (Node.unifiedList ns), n.isElement = false
  := by
  induction ns with
  | nil => simp [Node.unifiedList, Node.normalList]
  | cons n ns ih =>
      obtain ⟨⟨value, rfl, _⟩, hothers⟩ := List.forall_mem_cons.mp h
      rw [normalList_comment]
      exact List.forall_mem_cons.mpr ⟨rfl, ih hothers⟩

/-- Comments in front of a bracket of markup begin with one themselves. -/
theorem compactList_bracket {ns : List Node} (h : AreComments ns) (more : List Char) :
  ∃ rest, Writing.compactList none ns ++ '<' :: more = '<' :: rest
  := by
  cases ns with
  | nil => exact ⟨more, rfl⟩
  | cons n ns =>
      obtain ⟨⟨value, rfl, _⟩, _⟩ := List.forall_mem_cons.mp h
      rw [compactList_comment]
      exact ⟨_, rfl⟩

/-- Where a root may begin a comment may stand, and the state stays the same apart from its stage,
at which a root may begin and a document type if it could before. -/
theorem leaveBeginning_asides {p : Prolog} (h : p.stage.allowsRoot) :
  Prolog.allowsAsides p.stage ∧ ∃ stage : Stage, p.leaveBeginning = { p with stage := stage }
    ∧ stage.allowsRoot ∧ stage ≠ .beginning
    ∧ (p.stage = .beginning ∨ p.stage = .beforeDoctype → stage = .beginning ∨ stage = .beforeDoctype)
  := by
  unfold Prolog.leaveBeginning
  cases hs : p.stage with
  | beginning => exact ⟨rfl, .beforeDoctype, if_pos rfl, rfl, nofun, fun _ => .inr rfl⟩
  | beforeDoctype => exact ⟨rfl, .beforeDoctype, by rw [if_neg (by simp), ← hs], rfl, nofun, id⟩
  | afterDoctype => exact ⟨rfl, .afterDoctype, by rw [if_neg (by simp), ← hs], rfl, nofun, id⟩
  | _ =>
      rw [hs] at h
      cases h

/-- The events of comments. -/
def noteEvents : List Node → List Event :=
  List.filterMap fun n =>
    match n with
    | .comment value => some (commentEvent value.text.toList)
    | _ => none

/-- Comments at the top level are put together as their normal forms. -/
theorem yields_notes {ns : List Node} (h : AreComments ns) {es : List Event}
    {declaration : Option Declaration} {children : List Node}
    (hyields : Yields es (Assembly.atTop declaration children)) :
  Yields ((noteEvents ns).reverse ++ es)
    (Assembly.atTop declaration (children ++ Node.normalList none (Node.unifiedList ns)))
  := by
  induction ns generalizing es children with
  | nil => simpa [noteEvents, Node.unifiedList, Node.normalList] using hyields
  | cons n ns ih =>
      obtain ⟨⟨value, rfl, _⟩, hothers⟩ := List.forall_mem_cons.mp h
      have hrest := ih hothers (hyields.emit (Assembly.step_note declaration children value.toList))
      rw [normalList_comment]
      simpa [noteEvents, Node.unifiedText] using hrest

/-- A comment where a root may begin is read up to the character behind it, and the beginning is
left behind. -/
theorem leads_note {m : Medium} {account : Account} (hending : m.ending = .clean) {value : String}
    (hchars : isCharText value) (hbreaks : breaksComment value.toList = false) (rest : List Char)
    (d : Char) {p : Prolog} (hroot : p.stage.allowsRoot) :
  ∃ stage : Stage, Leads m account (commentMarkup value.toList ++ d :: rest) p (d :: rest)
      { p with events := commentEvent value.toList :: p.events, stage := stage }
    ∧ stage.allowsRoot ∧ stage ≠ .beginning
    ∧ (p.stage = .beginning ∨ p.stage = .beforeDoctype → stage = .beginning ∨ stage = .beforeDoctype)
  := by
  obtain ⟨hasides, next, hleave, hnext, hleft, hearly⟩ := leaveBeginning_asides hroot
  have hstep (raw cs : List Char) : p.step m account (.comment value.toList) raw cs
      = .ok { p with stage := next, events := commentEvent value.toList :: p.events } := by
    rw [Prolog.step, if_pos hasides, hleave]
    rfl
  exact ⟨next, Leads.of_spells (w := commentMarkup value.toList) hending
    (.comment (Medium.isXmlChar_of_isCharText hchars) hbreaks) rfl rest (hstep _ _), hnext, hleft,
    hearly⟩

/-- A comment where a root may begin is put together as its normal form. -/
theorem leads_comment {m : Medium} {account : Account} (hm : m.IsIntact) {value : String}
    (hchars : isCharText value)
    (hbreaks : breaksComment value.toList = false) (rest : List Char) (d : Char) {p : Prolog}
    (hroot : p.stage.allowsRoot) {declaration : Option Declaration} {children : List Node}
    (hyields : Yields p.events (Assembly.atTop declaration children)) :
  ∃ es stage, Leads m account (commentMarkup value.toList ++ d :: rest) p (d :: rest)
      { p with events := es, stage := stage }
    ∧ stage.allowsRoot ∧ stage ≠ .beginning
    ∧ (p.stage = .beginning ∨ p.stage = .beforeDoctype → stage = .beginning ∨ stage = .beforeDoctype)
    ∧ Yields es
      (Assembly.atTop declaration (children ++ [.comment (Node.unifiedText value)]))
  := by
  obtain ⟨stage, hleads, hallows, hleft, hearly⟩ := leads_note hm.ending hchars hbreaks rest d hroot
  exact ⟨_, stage, hleads, hallows, hleft, hearly,
    hyields.emit (Assembly.step_note declaration children value.toList)⟩

/-- The comments where a root may begin are read up to what follows them. -/
theorem leads_notes {m : Medium} {account : Account} (hending : m.ending = .clean)
    {ns : List Node}
    (h : AreComments ns) (more : List Char) (p : Prolog) (hroot : p.stage.allowsRoot) :
  ∃ stage : Stage, Leads m account (Writing.compactList none ns ++ '<' :: more) p ('<' :: more)
      { p with events := (noteEvents ns).reverse ++ p.events, stage := stage }
    ∧ stage.allowsRoot
    ∧ (p.stage = .beginning ∨ p.stage = .beforeDoctype → stage = .beginning ∨ stage = .beforeDoctype)
  := by
  induction ns generalizing p with
  | nil => exact ⟨p.stage, .refl _ _ _ _, hroot, id⟩
  | cons n ns ih =>
      obtain ⟨⟨value, rfl, hchars, hbreaks⟩, hothers⟩ := List.forall_mem_cons.mp h
      obtain ⟨rest, hrest⟩ := compactList_bracket hothers more
      obtain ⟨next, hfirst, hnext, _, hearly⟩ :=
        leads_note hending hchars hbreaks rest '<' hroot
      obtain ⟨stage, hothers, hlast, hearly'⟩ := ih hothers
        { p with events := commentEvent value.toList :: p.events, stage := next } hnext
      refine ⟨stage, ?_, hlast, hearly' ∘ hearly⟩
      rw [compactList_comment]
      rw [← hrest] at hfirst
      simpa [noteEvents] using hfirst.trans hothers

/-- The comments where a root may begin are put together as their normal forms. -/
theorem leads_comments {m : Medium} {account : Account} (hm : m.IsIntact) {ns : List Node}
    (h : AreComments ns)
    (more : List Char) (p : Prolog)
    (hroot : p.stage.allowsRoot) {declaration : Option Declaration} {children : List Node}
    (hyields : Yields p.events (Assembly.atTop declaration children)) :
  ∃ es stage, Leads m account (Writing.compactList none ns ++ '<' :: more) p ('<' :: more)
      { p with events := es, stage := stage }
    ∧ stage.allowsRoot
    ∧ (p.stage = .beginning ∨ p.stage = .beforeDoctype → stage = .beginning ∨ stage = .beforeDoctype)
    ∧ Yields es
      (Assembly.atTop declaration (children ++ Node.normalList none (Node.unifiedList ns)))
  := by
  obtain ⟨stage, hleads, hallows, hearly⟩ := leads_notes hm.ending h more p hroot
  exact ⟨_, stage, hleads, hallows, hearly, yields_notes h hyields⟩

/-- The comments after the root are read to the end. -/
theorem afterRoot_notes {m : Medium} (hending : m.ending = .clean) {ns : List Node}
    (h : AreComments ns) (fuel : Nat) (hfuel : ns.length < fuel) (es : List Event) :
  afterRoot m fuel (Writing.compactList none ns) es = .ok ((noteEvents ns).reverse ++ es)
  := by
  induction ns generalizing fuel es with
  | nil =>
      obtain ⟨fuel, rfl⟩ := Nat.exists_eq_succ_of_ne_zero (Nat.ne_of_gt hfuel)
      simp [Writing.compactList, afterRoot, hending, noteEvents]
  | cons n ns ih =>
      obtain ⟨⟨value, rfl, hchars, hbreaks⟩, hothers⟩ := List.forall_mem_cons.mp h
      obtain ⟨fuel, rfl⟩ := Nat.exists_eq_succ_of_ne_zero (Nat.ne_of_gt (Nat.zero_lt_of_lt hfuel))
      have hrest := ih hothers fuel (Nat.lt_of_succ_lt_succ hfuel) (commentEvent value.toList :: es)
      have hmarkup : Writing.compactList none (.comment value :: ns)
          = '<' :: '!' :: '-' :: '-' :: (value.toList
            ++ '-' :: '-' :: '>' :: Writing.compactList none ns) := by
        simp [Writing.compactList, Writing.compact, Wording.printed]
      rw [hmarkup, afterRoot, Medium.token_comment hchars hbreaks]
      simpa [noteEvents] using hrest

/-- The comments after the root are put together as their normal forms. -/
theorem afterRoot_comments {m : Medium} (hm : m.IsIntact) {ns : List Node} (h : AreComments ns)
    (fuel : Nat)
    (hfuel : ns.length < fuel) (es : List Event) {declaration : Option Declaration}
    {children : List Node} (hyields : Yields es (Assembly.atTop declaration children)) :
  ∃ last, afterRoot m fuel (Writing.compactList none ns) es = .ok last
    ∧ Yields last
      (Assembly.atTop declaration (children ++ Node.normalList none (Node.unifiedList ns)))
  := ⟨_, afterRoot_notes hm.ending h fuel hfuel es, yields_notes h hyields⟩

theorem length_le_compactList {ns : List Node} (h : AreComments ns) :
  ns.length ≤ (Writing.compactList none ns).length
  := by
  induction ns with
  | nil => exact Nat.le_refl 0
  | cons n ns ih =>
      obtain ⟨⟨value, rfl, _⟩, hothers⟩ := List.forall_mem_cons.mp h
      have hmarkup := compactList_comment value ns []
      have hrest := ih hothers
      rw [List.append_nil, List.append_nil] at hmarkup
      rw [hmarkup, commentMarkup]
      simp only [List.length_cons, List.length_append]
      omega

/-! ### What stands before the root -/

theorem AreComments.of_notes {ns : List Node} (h : ∀ n ∈ ns, n.IsNote) :
  AreComments ns
  := by
  intro n hn
  have hnote := h n hn
  obtain ⟨value, rfl⟩ := hnote.exists_comment
  exact ⟨value, rfl, hnote.1, hnote.2.1⟩

/-- Notes are their own normal form. -/
theorem normalList_notes {ns : List Node} (h : ∀ n ∈ ns, n.IsNote) :
  Node.normalList none (Node.unifiedList ns) = ns
  := by
  induction ns with
  | nil => rfl
  | cons n ns ih =>
      obtain ⟨hnote, hothers⟩ := List.forall_mem_cons.mp h
      obtain ⟨value, rfl⟩ := hnote.exists_comment
      rw [normalList_comment, Node.unifiedText_eq hnote.2.2, ih hothers]

/-- No document type that is written holds a double quote in its system identifier. -/
def AreUnquoted (ns : List Node) : Prop :=
  ∀ t s, .doctype t ∈ ns → t.systemId = some (.text s) → '"' ∉ s.toList

/-- No document type among nodes has an internal subset. -/
def AreBare (ns : List Node) : Prop :=
  ∀ t, .doctype t ∈ ns → t.subset = none

namespace IsFront

variable {standalone : Bool} {front : List Node} {d : Declarations}

/-- What stands before a root is its own normal form. -/
theorem normalList_eq {m : Medium} (h : IsFront m standalone front d) :
  Node.normalList none (Node.unifiedList front) = front
  := by
  cases h with
  | bare hnotes => exact normalList_notes hnotes
  | typed hbefore hafter _ _ =>
      rw [normalList_append, normalList_notes hbefore, Node.unifiedList, Node.normalList,
        normalList_notes hafter]
      rfl

/-- What stands before a root can be printed. -/
theorem allPrintable {m : Medium} (h : IsFront m standalone front d) :
  Writing.allPrintableList front
  := by
  have hprint {ns : List Node} (hns : ∀ n ∈ ns, n.IsNote) (rest : List Node) :
      Writing.allPrintableList (ns ++ rest) = Writing.allPrintableList rest := by
    induction ns with
    | nil => rfl
    | cons n ns ih =>
        obtain ⟨hnote, hothers⟩ := List.forall_mem_cons.mp hns
        obtain ⟨value, rfl⟩ := hnote.exists_comment
        exact ih hothers
  cases h with
  | bare hnotes =>
      have hall := hprint hnotes []
      rwa [List.append_nil] at hall
  | typed hbefore hafter _ hretold =>
      have hlast := hprint hafter []
      rw [List.append_nil] at hlast
      rw [hprint hbefore, Writing.allPrintableList, hretold.printable, hlast]
      rfl

/-- What stands before a root holds no carriage return where it would be read as a line feed. -/
theorem keepsLines {m : Medium} (h : IsFront m standalone front d) :
  (Node.nodesList front).all Node.keepsLines
  := by
  have hkeeps {ns : List Node} (hns : ∀ n ∈ ns, n.IsNote) :
      (Node.nodesList ns).all Node.keepsLines := by
    induction ns with
    | nil => rfl
    | cons n ns ih =>
        obtain ⟨hnote, hothers⟩ := List.forall_mem_cons.mp hns
        obtain ⟨value, rfl⟩ := hnote.exists_comment
        rw [Node.nodesList, List.all_append, ih hothers]
        have hkept : '\r' ∉ (value : Wording).printed.toList := hnote.2.2
        simpa [Node.nodes, Node.keepsLines] using hkept
  cases h with
  | bare hnotes => exact hkeeps hnotes
  | typed hbefore hafter _ _ =>
      rw [Node.nodesList_append, List.all_append, hkeeps hbefore, Node.nodesList, List.all_append,
        hkeeps hafter]
      rfl

/-- What stands before a root is read again over its markup, under an account where no document
type has an internal subset. -/
theorem leads {m : Medium} {account : Account} (hm : m.IsIntact) (h : IsFront m standalone front d)
    (hquotes : AreUnquoted front) (haccount : account = .unlimited ∨ AreBare front)
    (more : List Char) {es : List Event} {stage : Stage}
    (hstage : stage = .beginning ∨ stage = .beforeDoctype)
    {declaration : Option Declaration} (hyields : Yields es (Assembly.atTop declaration [])) :
  ∃ q, Leads m account (Writing.compactList none front ++ '<' :: more)
      (Prolog.headed standalone es [] none none stage) ('<' :: more) q
    ∧ q.stage.allowsRoot ∧ q.declarations = d
    ∧ Yields q.events (Assembly.atTop declaration front)
  := by
  have hroot : (Prolog.headed standalone es [] none none stage).stage.allowsRoot := by
    rcases hstage with rfl | rfl <;> rfl
  cases h with
  | bare hnotes =>
      obtain ⟨es', stage', hleads, hlast, _, hes'⟩ := leads_comments hm (.of_notes hnotes) more
        (Prolog.headed standalone es [] none none stage) hroot hyields
      rw [normalList_notes hnotes] at hes'
      exact ⟨_, hleads, hlast, rfl, hes'⟩
  | @typed before after t _ hbefore hafter _ hretold =>
      -- the comments before the document type, the document type, and the comments behind it
      obtain ⟨rest, hrest⟩ := compactList_bracket (.of_notes hafter) more
      obtain ⟨first, hfirst⟩ : ∃ first, Writing.doctypeText t ++ '<' :: rest = '<' :: first := by
        have hopening : "<!DOCTYPE ".toList = '<' :: "!DOCTYPE ".toList := by decide
        unfold Writing.doctypeText
        simp only [hopening, List.cons_append]
        exact ⟨_, rfl⟩
      obtain ⟨es', stage', hleads, _, hearly, hes'⟩ := leads_comments hm (.of_notes hbefore) first
        (Prolog.headed standalone es [] none none stage) hroot hyields
      rw [normalList_notes hbefore, List.nil_append] at hes'
      obtain ⟨q, hdoctype, hq, hdeclarations, hyields'⟩ := hretold.leads
        (fun s => hquotes t s (by simp)) account
        (haccount.symm.imp_left fun hbare => hbare t (by simp)) declaration before es' stage' '<' rest
        (hearly hstage) hbefore hes'
      obtain ⟨last, stage'', hlast, hallows, _, hes''⟩ := leads_comments hm (.of_notes hafter) more q
        (by rw [hq]; rfl) hyields'
      rw [normalList_notes hafter, List.append_assoc, List.singleton_append] at hes''
      rw [hm.enclosed_eq] at hdoctype
      refine ⟨{ q with events := last, stage := stage'' }, ?_, hallows, hdeclarations, hes''⟩
      have hmarkup : Writing.compactList none (before ++ .doctype t :: after) ++ '<' :: more
          = Writing.compactList none before ++ '<' :: first := by
        rw [Writing.compactList_append, Writing.compactList, Writing.compact, List.append_assoc,
          List.append_assoc, hrest, hfirst]
      rw [hmarkup]
      rw [hfirst] at hdoctype
      rw [hrest] at hlast
      exact hleads.trans (hdoctype.trans hlast)

end IsFront

end Reading

end XmlDraft
