import XmlDraft.Proofs.Documents
import XmlDraft.Proofs.Levels
import XmlDraft.Proofs.Octets
import XmlDraft.Proofs.Undivided

/-!
# How markup that was written begins

The markup of a document begins with its declaration and its document type, if it has them in front,
and then with a comment or with the root.  A reader may refuse what is written there.  Main
statement: in whatever manner markup is read, if it is read at all, the events of its declaration
and of its document type come first, and then that of its first comment, or that of the start tag of
its root as the root was written.
-/

namespace XmlDraft

/-- A declaration whose texts may stand in a document. -/
def Declaration.isCharText (d : Declaration) : Bool :=
  [d.version, d.encoding, d.standalone].all fun f => f.all fun f => f.text?.all XmlDraft.isCharText

/-- A document type without an internal subset whose name and identifiers may stand in a document:
the name is one of ASCII, and no identifier holds what would end it. -/
def Doctype.isLegible (t : Doctype) : Bool :=
  isAsciiName t.name
    && (t.publicId.all fun f => (Writing.printed f).toList.all Reading.isPublicChar)
    && (t.systemId.all fun f => (Writing.printed f).toList.all fun c => isChar c && c ≠ '"')
    && t.subset.isNone

namespace Writing

open Reading (isXmlChar)

/-! ### Declarations of any text -/

theorem greater_notMem_escapeValue (cs : List Char) :
  '>' ∉ escapeValue cs
  := by
  intro h
  obtain ⟨c, _, hc⟩ := List.mem_flatMap.mp h
  revert hc
  unfold valueEscape textEscape
  split_ifs with _ _ _ _ _ hgreater
  any_goals decide
  rw [List.mem_singleton]
  exact Ne.symm hgreater

/-- A part of a declaration holds characters of documents, and none that ends markup. -/
theorem attributeText_marks {name : List Char} (hname : ∀ c ∈ name, isXmlChar c ∧ c ≠ '>')
    {value : String} (hvalue : isCharText value) :
  ∀ c ∈ attributeText name value, isXmlChar c ∧ c ≠ '>'
  := by
  have hvalue' := escapeValue_chars (Reading.Medium.isXmlChar_of_isCharText hvalue)
  have hmarks : ∀ c ∈ [' ', '=', '"'], isXmlChar c ∧ c ≠ '>' :=
    List.all_iff_forall_prop.mp (by decide)
  have hescaped : ∀ c ∈ escapeValue value.toList, isXmlChar c ∧ c ≠ '>' := fun c hc =>
    ⟨hvalue' c hc, fun heq => greater_notMem_escapeValue _ (heq ▸ hc)⟩
  simp only [attributeText, List.cons_append, List.forall_mem_cons,
    List.forall_mem_append] at hmarks ⊢
  exact ⟨hmarks.1, ⟨hname, hmarks.2.1, hmarks.2.2.1, hescaped⟩, hmarks.2.2.1, by simp⟩

/-- A field is written as a text that may stand in a document. -/
theorem fieldOr_chars {field : Option Field} (h : field.all fun f => f.text?.all isCharText)
    {word s : String} (hword : isCharText word) (hs : fieldOr field (.str word) = .ok s) :
  isCharText s
  := by
  cases field with
  | none =>
      cases hs
      exact hword
  | some f =>
      unfold fieldOr at hs
      dsimp only at hs
      split_ifs at hs
      · cases htext : f.text? with
        | none =>
            rw [htext] at hs
            cases hs
        | some value =>
            rw [Option.all_some, htext] at h
            rw [htext] at hs
            cases hs
            exact h
      · cases hs
        exact hword

/-- The head of a document: nothing, or a declaration that holds characters of documents, and none
that ends markup before its end. -/
inductive IsOpening : List Char → Prop
  | none : IsOpening []
  | declared {text : List Char} (hhead : text.head? = some ' ')
      (hchars : ∀ c ∈ text, isXmlChar c ∧ c ≠ '>') :
      IsOpening ('<' :: '?' :: (['x', 'm', 'l'] ++ (text ++ ['?', '>'])))

/-- A declaration is written as the head of a document. -/
theorem isOpening_declarationText {layout : Layout} (hlayout : IsStandard layout) {d : Declaration}
    (h : d.isCharText) {head : List Char} (htext : declarationText layout d = .ok head) :
  IsOpening head
  := by
  simp only [Declaration.isCharText, List.all_cons, List.all_nil, Bool.and_true,
    Bool.and_eq_true] at h
  obtain ⟨version, hversion, htext⟩ := Reading.bind_ok htext
  obtain ⟨encoding, hencoding, htext⟩ := Reading.bind_ok htext
  rw [hlayout.version] at hversion
  rw [hlayout.encoding] at hencoding
  have hversion' := fieldOr_chars h.1 (by decide) hversion
  have hencoding' := fieldOr_chars h.2.1 (by decide) hencoding
  have hopening : "<?xml".toList = '<' :: '?' :: ['x', 'm', 'l'] := by decide
  have hend : "?>".toList = ['?', '>'] := by decide
  have hname (name : String) (hname : name.toList.all fun c => isXmlChar c && c ≠ '>') :
      ∀ c ∈ name.toList, isXmlChar c ∧ c ≠ '>' := by
    simpa using hname
  have hwritten (standalone : Option String) (hstandalone : standalone.all isCharText) :
      IsOpening ("<?xml".toList ++ headingText version encoding standalone ++ "?>".toList) := by
    have hchars : ∀ c ∈ headingText version encoding standalone, isXmlChar c ∧ c ≠ '>' := by
      simp only [headingText, List.forall_mem_append]
      refine ⟨attributeText_marks (hname _ (by decide)) hversion',
        attributeText_marks (hname _ (by decide)) hencoding', ?_⟩
      cases standalone with
      | none => simp
      | some word => exact attributeText_marks (hname _ (by decide)) hstandalone
    have hblank : (headingText version encoding standalone).head? = some ' ' := rfl
    have hopens := IsOpening.declared hblank hchars
    generalize headingText version encoding standalone = text at hopens
    simpa only [hopening, hend, List.cons_append, List.append_assoc, List.nil_append] using hopens
  cases hstandalone : d.standalone with
  | none =>
      rw [hstandalone] at htext
      cases htext
      simpa [headingText] using hwritten none rfl
  | some f =>
      rw [hstandalone] at htext h
      dsimp only at htext
      cases hword : f.text? with
      | none =>
          rw [hword] at htext
          cases htext
      | some word =>
          rw [Option.all_some, hword] at h
          rw [hword] at htext
          cases htext
          simpa [headingText] using hwritten (some word) h.2.2

end Writing

namespace Reading

/-- A source that has begun with a head that was written goes on with the markup of nodes. -/
theorem beginSource_opening {manner : Manner} {head body : List Char}
    (hhead : Writing.IsOpening head) (hbody : BeginsNode body) {b : Begun}
    (hb : beginSource manner (.text (String.ofList (head ++ body))) = .ok b) :
  b.script.medium = { alphabet := manner.alphabet } ∧ b.rest = body
    ∧ ∃ standalone es stage, b.prolog = Prolog.headed standalone es [] none none stage
      ∧ AreHeading es ∧ (stage = .beginning ∨ stage = .beforeDoctype)
  := by
  cases hhead with
  | none =>
      obtain ⟨c, more, rfl, hzero, hquestion⟩ := hbody
      rw [List.nil_append, beginSource_text manner c more hzero] at hb
      obtain ⟨b', hb', hmedium, hrest, es, hprolog, hheading, -⟩ :=
        begin_bare (s := ⟨{ alphabet := manner.alphabet }, [], '<' :: c :: more⟩)
          ⟨c, more, rfl, hzero, hquestion⟩ _
      cases hb'.symm.trans hb
      exact ⟨hmedium, hrest, _, es, .beginning, hprolog, hheading, .inl rfl⟩
  | @declared text hstart hchars =>
      obtain ⟨d, more, rfl, -, -⟩ := hbody
      let m : Medium := { alphabet := manner.alphabet }
      have hspells : Spells m.alphabet (.declaration text)
          ('<' :: '?' :: (['x', 'm', 'l'] ++ (text ++ ['?', '>']))) (some '<') :=
        .declaration (by simp [hstart, isBlank]) (fun c hc => (hchars c hc).1)
          fun hend => (hchars '>' (hend.subset (by simp))).2 rfl
      obtain ⟨c, cs, hcs, htoken⟩ := Medium.token_spelled hspells rfl (d :: more)
      rw [List.cons_append, List.cons_append, beginSource_text manner '?' _ (by decide),
        ← List.cons_append, ← List.cons_append, hcs] at hb
      have htext : headingText? ⟨m, [], c :: cs ++ '<' :: d :: more⟩
          = some (text, '<' :: d :: more) := by
        simp only [headingText?, List.cons_append, htoken]
      rw [begin, htext] at hb
      dsimp only at hb
      cases hheading : Heading.ofText text with
      | error cs =>
          rw [hheading] at hb
          cases hb
      | ok h =>
          rw [hheading] at hb
          dsimp only at hb
          refine ⟨?_, ?_, h.standalone = some true, (afterHeading h).events, .beforeDoctype, ?_,
            .inr ⟨_, _, _, rfl⟩, .inr rfl⟩
          all_goals
            split at hb
            · cases hb
              rfl
            · cases hb
              rfl

/-! ### What stands before the root in markup -/

/-- The markup of a document type without an internal subset. -/
def doctypeMarkup (name : List Char) (publicId systemId : Option (List Char)) : List Char :=
  "<!DOCTYPE ".toList ++ (name ++ (identifiersMarkup publicId systemId ++ ['>']))

/-- Nothing, or the markup of a document type without an internal subset: its name is one of ASCII,
and no identifier holds what would end it. -/
inductive IsTypeMarkup : List Char → Prop
  | none : IsTypeMarkup []
  | typed {name : String} (hname : isAsciiName name) {publicId systemId : Option (List Char)}
      (hpublic : ∀ v ∈ publicId, ∀ c ∈ v, isPublicChar c)
      (hsystem : ∀ s ∈ systemId, '"' ∉ s ∧ ∀ c ∈ s, isXmlChar c) :
      IsTypeMarkup (doctypeMarkup name.toList publicId systemId)

/-- What stands before a root in markup: a head, and comments in front of a document type and behind
it. -/
structure Foreword where
  /-- The declaration. -/
  head : List Char := []
  /-- The comments in front of the document type. -/
  before : List String := []
  /-- The document type. -/
  doctype : List Char := []
  /-- The comments behind it. -/
  after : List String := []

namespace Foreword

/-- All comments, in order. -/
def comments (w : Foreword) : List String :=
  w.before ++ w.after

/-- The markup of comments, one behind another. -/
def notesMarkup (values : List String) : List Char :=
  values.flatMap fun value => commentMarkup value.toList

/-- The markup. -/
def markup (w : Foreword) : List Char :=
  w.head ++ (notesMarkup w.before ++ (w.doctype ++ notesMarkup w.after))

/-- A comment that can stand in markup. -/
def IsNoteText (value : String) : Prop :=
  isCharText value ∧ breaksComment value.toList = false

/-- A foreword whose parts can stand in markup. -/
structure IsLegible (w : Foreword) : Prop where
  head : Writing.IsOpening w.head
  comments : ∀ value ∈ w.comments, IsNoteText value
  doctype : IsTypeMarkup w.doctype

theorem notesMarkup_cons (value : String) (values : List String) (rest : List Char) :
  notesMarkup (value :: values) ++ rest
    = commentMarkup value.toList ++ (notesMarkup values ++ rest)
  := by
  simp [notesMarkup]

/-- Comments in front of a node begin with one themselves. -/
theorem beginsNode_notes (values : List String) {rest : List Char} (h : BeginsNode rest) :
  BeginsNode (notesMarkup values ++ rest)
  := by
  cases values with
  | nil => exact h
  | cons value values => exact ⟨'!', _, rfl, by decide, by decide⟩

theorem beginsNode_doctype {doctype : List Char} (hdoctype : IsTypeMarkup doctype)
    {rest : List Char} (h : BeginsNode rest) :
  BeginsNode (doctype ++ rest)
  := by
  cases hdoctype with
  | none => exact h
  | typed hname hpublic hsystem => exact ⟨'!', _, rfl, by decide, by decide⟩

end Foreword

/-- A document type that is legible is written as markup that can be read. -/
theorem isTypeMarkup_doctypeText {t : Doctype} (h : t.isLegible) :
  IsTypeMarkup (Writing.doctypeText t)
  := by
  simp only [Doctype.isLegible, Bool.and_eq_true, Option.all_eq_true, List.all_eq_true,
    decide_eq_true_eq, Option.isNone_iff_eq_none] at h
  obtain ⟨⟨⟨hname, hpublic⟩, hsystem⟩, hsubset⟩ := h
  have hsystem' (f : Field) (hf : f ∈ t.systemId) : '"' ∉ (Writing.printed f).toList
      ∧ ∀ c ∈ (Writing.printed f).toList, isXmlChar c :=
    ⟨fun hmem => (hsystem f hf _ hmem).2 rfl,
      fun c hc => (isXmlChar_eq_isChar c).trans (hsystem f hf c hc).1⟩
  have hopening : " SYSTEM \"".toList = keywordMarkup "SYSTEM" ++ ['"'] := by decide
  have hopening' : " PUBLIC \"".toList = keywordMarkup "PUBLIC" ++ ['"'] := by decide
  have hbetween : "\" \"".toList = ['"', ' ', '"'] := by decide
  obtain ⟨publicId, systemId, hidentifiers, hpublic', hsystem''⟩ :
      ∃ publicId systemId, Writing.identifiers t = identifiersMarkup publicId systemId
        ∧ (∀ v ∈ publicId, ∀ c ∈ v, isPublicChar c)
        ∧ ∀ s ∈ systemId, '"' ∉ s ∧ ∀ c ∈ s, isXmlChar c := by
    unfold Writing.identifiers
    cases hp : t.publicId with
    | none =>
        cases hs : t.systemId with
        | none => exact ⟨none, none, rfl, by simp, by simp⟩
        | some f =>
            refine ⟨none, some (Writing.printed f).toList, ?_, by simp, ?_⟩
            · simp [identifiersMarkup, quoted, hopening]
            · simpa using hsystem' f hs
    | some i =>
        have hwritten (s : String) :
            " PUBLIC \"".toList ++ (Writing.printed i).toList ++ "\" \"".toList ++ s.toList ++ ['"']
              = identifiersMarkup (some (Writing.printed i).toList) (some s.toList) := by
          simp [identifiersMarkup, quoted, hopening', hbetween]
        refine ⟨some (Writing.printed i).toList, some _, hwritten _, by simpa using hpublic i hp, ?_⟩
        -- the system identifier is written as an empty one where there is none
        rintro _ ⟨⟩
        split
        · rename_i f hs
          split_ifs
          · exact hsystem' f hs
          · simp
        · simp
  have hmarkup : Writing.doctypeText t = doctypeMarkup t.name.toList publicId systemId := by
    unfold Writing.doctypeText doctypeMarkup
    rw [hsubset, hidentifiers]
    simp
  exact hmarkup ▸ .typed hname hpublic' hsystem''

/-! ### Before the root -/

variable {m : Medium} {account : Account} {p q r : Prolog} {fuel : Nat} {cs rest rest' : List Char}

/-- A reader goes on behind a token that it finds, if it goes on at all. -/
theorem beforeRoot_token (hending : m.ending = .clean) {t : Token} {c : Char} {more : List Char}
    (htoken : m.token c more = .ok (t, rest)) (hroot : t ≠ .root)
    (h : beforeRoot m account fuel (c :: more) p = .ok (r, rest')) :
  ∃ q raw fuel', fuel = fuel' + 1 ∧ p.step m account t raw (c :: more) = .ok q
    ∧ beforeRoot m account fuel' rest q = .ok (r, rest')
  := by
  cases fuel with
  | zero => cases h
  | succ fuel =>
      rw [beforeRoot, htoken] at h
      · simp only [hending, reduceCtorEq, decide_false, Bool.false_and, Bool.and_false,
          Bool.false_eq_true, ite_false] at h
        obtain ⟨q, hstep, h⟩ := bind_ok h
        exact ⟨q, _, fuel, rfl, hstep, h⟩

/-- A reader that comes over characters goes on behind them, with steps to spare. -/
theorem beforeRoot_leads (hleads : Leads m account cs p rest q) (hfuel : cs.length < fuel)
    (h : beforeRoot m account fuel cs p = .ok (r, rest')) :
  ∃ fuel', rest.length < fuel' ∧ beforeRoot m account fuel' rest q = .ok (r, rest')
  := by
  obtain ⟨steps, hsteps, hpass⟩ := hleads
  refine ⟨fuel - steps, by omega, ?_⟩
  rw [← hpass, Nat.add_sub_cancel' (by omega), h]

/-- A state that passed over a part of a foreword: its events were added in order, a root may begin
there, and no attributes were declared. -/
structure Prolog.Passed (p q : Prolog) (es : List Event) : Prop where
  events : q.events = es.reverse ++ p.events
  root : q.stage.allowsRoot
  attributes : q.declarations.attributes = p.declarations.attributes
  inSubset : q.inSubset = p.inSubset

theorem Prolog.Passed.trans {es es' : List Event} (h : p.Passed q es) (h' : q.Passed r es') :
  p.Passed r (es ++ es')
  := by
  refine ⟨?_, h'.root, h'.attributes.trans h.attributes, h'.inSubset.trans h.inSubset⟩
  rw [h'.events, h.events, List.reverse_append, List.append_assoc]

/-- A state in which a document type may come. -/
def Prolog.IsEarly (p : Prolog) : Prop :=
  p.stage = .beginning ∨ p.stage = .beforeDoctype

/-- The name of a document type is read behind its opening, if reading goes on at all. -/
theorem beforeRoot_doctypeName (hending : m.ending = .clean) (hknown : 0x80 ≤ m.alphabet.known)
    (hstage : p.IsEarly) (hp : p.inSubset = false) {name : String} (hname : isAsciiName name)
    {d : Char} (hd : endsName d) {more : List Char}
    (hfuel : ("<!DOCTYPE ".toList ++ (name.toList ++ d :: more)).length < fuel)
    (h : beforeRoot m account fuel ("<!DOCTYPE ".toList ++ (name.toList ++ d :: more)) p
      = .ok (r, rest')) :
  ∃ fuel', (d :: more).length < fuel'
    ∧ beforeRoot m account fuel' (d :: more) { p with stage := .doctypeNamed, name := name.toList }
      = .ok (r, rest')
  := by
  have hchars := Medium.isNameChar_of_asciiName (a := m.alphabet) hname
  cases hes : name.toList with
  | nil =>
      rw [isAsciiName, Bool.and_eq_true, Name.isName, hes] at hname
      exact absurd hname.1 (by simp)
  | cons e es =>
      rw [hes] at hchars h hfuel
      have hblank : isBlank e = false := by
        rcases hchars e List.mem_cons_self with hinner | ⟨rfl, -⟩
        · rw [Bool.eq_false_iff]
          exact fun he => notMark_of_isInner hinner (mem_marks_of_isBlank he)
        · decide
      obtain ⟨fuel₁, hfuel₁, h⟩ := beforeRoot_leads
        (Leads.doctypeOpening hending hknown hstage hp hblank (es ++ d :: more)) hfuel h
      -- a name that more than one colon divides is found as one, and refused
      obtain ⟨form, htoken⟩ := Medium.token_colons hchars hd more
      obtain ⟨named, raw, fuel₂, rfl, hstep, h⟩ :=
        beforeRoot_token hending htoken (by cases form <;> simp [Medium.formed]) h
      have hnamed : named = { p with stage := .doctypeNamed, name := e :: es } := by
        rw [Prolog.step_part (by cases form <;> rfl)] at hstep
        cases form with
        | token => cases hstep
        | _ =>
            obtain ⟨next, hnext, rfl⟩ := map_ok hstep
            cases hnext
            simp [hp]
      refine ⟨fuel₂, ?_, hnamed ▸ h⟩
      simp only [List.length_cons, List.length_append] at hfuel₁ ⊢
      omega

/-- The events of a document type without an internal subset, or none. -/
def AreTyped (es : List Event) : Prop :=
  es = [] ∨ ∃ name systemId publicId, es = [.doctypeStart name systemId publicId false, .doctypeEnd]

/-- A document type is read to its end, if reading goes on at all. -/
theorem beforeRoot_doctype (hending : m.ending = .clean) (hknown : 0x80 ≤ m.alphabet.known)
    (hstage : p.IsEarly) (hp : p.inSubset = false) {name : String} (hname : isAsciiName name)
    {publicId systemId : Option (List Char)} (hpublic : ∀ v ∈ publicId, ∀ c ∈ v, isPublicChar c)
    (hsystem : ∀ s ∈ systemId, '"' ∉ s ∧ ∀ c ∈ s, isXmlChar c) {d : Char} {more : List Char}
    (hfuel : (doctypeMarkup name.toList publicId systemId ++ d :: more).length < fuel)
    (h : beforeRoot m account fuel (doctypeMarkup name.toList publicId systemId ++ d :: more) p
      = .ok (r, rest')) :
  ∃ q es fuel', (d :: more).length < fuel' ∧ beforeRoot m account fuel' (d :: more) q = .ok (r, rest')
    ∧ p.Passed q es ∧ AreTyped es
  := by
  obtain ⟨e, es, hfollows, he⟩ :=
    exists_endsName publicId systemId (by decide : endsName '>') (d :: more)
  have hmarkup : doctypeMarkup name.toList publicId systemId ++ d :: more
      = "<!DOCTYPE ".toList ++ (name.toList ++ e :: es) := by
    unfold doctypeMarkup
    generalize "<!DOCTYPE ".toList = opening
    rw [← hfollows]
    simp
  rw [hmarkup] at h hfuel
  obtain ⟨fuel₁, hfuel₁, h⟩ := beforeRoot_doctypeName hending hknown hstage hp hname he hfuel h
  rw [← hfollows] at h hfuel₁
  let named : Prolog := { p with stage := .doctypeNamed, name := name.toList }
  obtain ⟨fuel₂, hfuel₂, h⟩ := beforeRoot_leads
    (Leads.identifiers hending (p := named) rfl hp hpublic hsystem (by decide : endsLiteral '>')
      (d :: more)) hfuel₁ h
  obtain ⟨hinside, hevents, hattributes, hstage'⟩ :=
    Prolog.identified_cases (p := named) rfl publicId systemId
  generalize named.identified publicId systemId = q at h hinside hevents hattributes hstage'
  have hstep : Prolog.partStep m account q .closing (['>'] ++ d :: more)
      = .ok { (q.emit (q.doctypeEvent false)).emit .doctypeEnd with stage := .afterDoctype } := by
    rcases hstage' with hs | hs
    · simp [Prolog.partStep, hs, Prolog.doctypeStep, Prolog.closeDoctype]
    · simp [Prolog.partStep, hs, Prolog.doctypeStep, Prolog.closeDoctype]
  obtain ⟨fuel₃, hfuel₃, h⟩ := beforeRoot_leads
    (Leads.of_part hending rfl .closing rfl (hinside.trans hp) more hstep) hfuel₂ h
  have hadded : (q.emit (q.doctypeEvent false)).events = q.doctypeEvent false :: p.events :=
    congrArg (_ :: ·) hevents
  exact ⟨_, [q.doctypeEvent false, .doctypeEnd], fuel₃, hfuel₃, h,
    ⟨congrArg (_ :: ·) hadded, rfl, hattributes, hinside⟩, .inr ⟨_, _, _, rfl⟩⟩

/-- A reader that goes on at a name behind an opening bracket stops before the root. -/
theorem beforeRoot_name {c : Char} {more : List Char} (hc : c ∉ nonNames)
    (h : beforeRoot m account fuel ('<' :: c :: more) p = .ok (r, rest')) :
  r = p ∧ rest' = '<' :: c :: more
  := by
  simp only [nonNames, List.mem_cons, not_or] at hc
  have htoken : m.token '<' (c :: more)
      = if m.alphabet.opensElement c then .ok (.root, '<' :: c :: more)
        else .error (.invalid (c :: more)) := by
    have hblank : isBlank '<' = false := by decide
    unfold Medium.token
    simp only [hblank, Bool.false_eq_true, ite_false]
    rw [Medium.markupToken]
    · exact hc.1
    · exact hc.2.1
  cases fuel with
  | zero => cases h
  | succ fuel =>
      rw [beforeRoot] at h
      split_ifs at htoken with hopens
      · rw [htoken] at h
        dsimp only at h
        split_ifs at h
        cases h
        exact ⟨rfl, rfl⟩
      · rw [htoken] at h
        cases h

/-! ### The root -/

namespace Surroundings

/-- A root begins with the event of its start tag, and ends where no element is open any more. -/
theorem rootElement_startTag {x : Surroundings} (hbase : x.base = 0) {c : Char} {more : List Char}
    (hc : c ∉ nonNames) {es : List Event} {spent : Nat} (hlevel : level es = 0) {g : Flow}
    (h : x.rootElement ('<' :: c :: more) { events := es, spent := spent } = .ok (g, rest)) :
  ∃ raw rest' tag scope spent', x.medium.startTag (c :: more) = .ok (raw, rest')
    ∧ resolveTag x.medium x.declarations x.replacing x.manner.separator (x.account rest')
        ('<' :: c :: more) Scope.initial spent raw = .ok (tag, scope, spent')
    ∧ .start tag :: es <:+ g.events ∧ level g.events = 0
  := by
  have hlast := (rootElement_goesOn hbase hlevel h).2
  have hhead : ∀ d ∈ (c :: more).head?, d ≠ '!' ∧ d ≠ '?' ∧ d ≠ '/' := by
    simp only [nonNames, List.mem_cons, not_or] at hc
    rintro d ⟨⟩
    exact ⟨hc.1, hc.2.1, hc.2.2.1⟩
  obtain ⟨⟨next, rest'⟩, hstep, h⟩ := bind_ok h
  have hgoes : next.events <:+ g.events := by
    dsimp only at h
    split_ifs at h
    · cases h
      exact List.suffix_rfl
    · exact (content_goesOn (expandAt_goesOn x _ []) h).1.events
  cases (step_moves hstep).begins hhead with
  | opens found resolved => exact ⟨_, _, _, _, _, found, resolved, hgoes, hlast⟩
  | whole found resolved =>
      exact ⟨_, _, _, _, _, found, resolved, (List.suffix_cons _ _).trans hgoes, hlast⟩

/-- The markup of an element begins with its tag. -/
theorem compact_append_tag (scope : Option String) (name : QName) (attributes : Attributes)
    (children : List Node) (rest : List Char) :
  ∃ isEmpty tail, Writing.compact scope (.element name attributes children) ++ rest
    = '<' :: (name.localPart.toList
        ++ (Writing.attributesText (Writing.tagAttributes scope name attributes)
          ++ (Medium.tagEnd isEmpty ++ tail)))
  := by
  cases children with
  | nil => exact ⟨true, rest, compact_append_empty scope name attributes rest⟩
  | cons c cs =>
      refine ⟨false, Writing.compactList (Writing.innerScope scope name) (c :: cs)
        ++ (Writing.endTag name ++ rest), ?_⟩
      rw [Writing.compact_element _ _ _ (List.cons_ne_nil c cs)]
      simp [Writing.tagOpening, Medium.tagEnd]

end Surroundings

/-- A tag that was written is found with its name and its attributes, if it is found at all, whether
colons divide names or not. -/
theorem Medium.startTag_written {name : String} (hname : isAsciiName name) {attributes : Attributes}
    (hattributes : m.undivided.AreReadable attributes) {isEmpty : Bool} {raw : RawTag}
    (h : m.startTag (name.toList ++ (Writing.attributesText attributes ++ (tagEnd isEmpty ++ rest)))
      = .ok (raw, rest')) :
  raw.name = name.toList
    ∧ raw.attributes.map (fun a => (a.name, a.value)) = rawParts attributes
  := by
  have hplain : IsPlainName m.undivided.alphabet name.toList := isPlainName_of_asciiName nofun hname
  obtain ⟨found, hfound, hparts⟩ := startTag_append hplain hattributes isEmpty rest
  cases (startTag_undivided h).symm.trans hfound
  exact ⟨rfl, hparts⟩

theorem Medium.startTag_qualified {raw : RawTag} (h : m.startTag cs = .ok (raw, rest)) :
  IsQualifiedName m.alphabet raw.name
  := by
  obtain ⟨⟨name, rest'⟩, hname, h⟩ := bind_ok h
  obtain ⟨_, _, h⟩ := bind_ok h
  cases h
  exact (qualifiedName_cases hname).2.1

/-! ### All events -/

/-- The events of comments, in order. -/
def commentEvents (values : List String) : List Event :=
  values.map fun value => commentEvent value.toList

/-- The events in front of a root: those of a head, and those of comments around a document type. -/
def AreLeading (comments : List String) (es : List Event) : Prop :=
  ∃ heading before typed after, AreHeading heading ∧ AreTyped typed ∧ comments = before ++ after
    ∧ es = heading ++ (commentEvents before ++ (typed ++ commentEvents after))

theorem level_append_comments (values : List String) (es : List Event) :
  level ((commentEvents values).reverse ++ es) = level es
  := by
  induction values generalizing es with
  | nil => rfl
  | cons value values ih =>
      rw [commentEvents, List.map_cons, List.reverse_cons, List.append_assoc]
      exact ih _

theorem AreLeading.level_eq {comments : List String} {es : List Event} (h : AreLeading comments es) :
  level es.reverse = 0
  := by
  obtain ⟨heading, before, typed, after, hheading, htyped, -, rfl⟩ := h
  simp only [List.reverse_append, List.append_assoc, level_append_comments]
  rcases hheading with rfl | ⟨_, _, _, rfl⟩ <;> rcases htyped with rfl | ⟨_, _, _, rfl⟩ <;>
    exact level_append_comments before _

/-- An element that begins behind the first events is closed behind the last one. -/
theorem AreLeading.closed {comments : List String} {lead more : List Event}
    (h : AreLeading comments lead) {tag : Tag}
    (hlevel : level (lead ++ .start tag :: more).reverse = 0) :
  more.foldl (fun n e => e.level n) 1 = 0
  := by
  have hlead := h.level_eq
  rw [level, List.foldr_reverse] at hlead hlevel
  rwa [List.foldl_append, hlead] at hlevel

/-- The first events where no comments stand are those of a head and of a document type. -/
theorem AreLeading.exists_bare {es : List Event} (h : AreLeading [] es) :
  ∃ heading typed, AreHeading heading ∧ AreTyped typed ∧ es = heading ++ typed
  := by
  obtain ⟨heading, before, typed, after, hheading, htyped, hnone, rfl⟩ := h
  obtain ⟨rfl, rfl⟩ := List.append_eq_nil_iff.mp hnone.symm
  exact ⟨heading, typed, hheading, htyped, by simp [commentEvents]⟩

/-- What is left to read of markup whose events are given ones in the end: what stands before the
root, the root, and what stands behind it. -/
inductive Remains (manner : Manner) (p : Prolog) (cs : List Char) (es : List Event) : Prop
  | parts {account : Account} {fuel : Nat} {r : Prolog} {rest rest' : List Char} {f : Flow}
      (hfuel : cs.length < fuel)
      (hfront : beforeRoot { alphabet := manner.alphabet } account fuel cs p = .ok (r, rest))
      (hroot : (⟨{ alphabet := manner.alphabet }, r.declarations, manner, account, 0, []⟩ :
        Surroundings).rootElement rest { events := r.events, spent := r.spent } = .ok (f, rest'))
      (hafter : afterRoot { alphabet := manner.alphabet } (rest'.length + 1) rest' f.events
        = .ok es.reverse)

/-- The start tag of a root that was written with a name and with attributes is resolved to a tag in
a manner of reading, where no attributes are declared. -/
def ResolvesTo (manner : Manner) (name : String) (attributes : Attributes) (tag : Tag) : Prop :=
  ∃ (m : Medium) (d : Declarations) (raw : RawTag) (direct : Option Nat) (start : List Char)
      (scope : Scope) (spent spent' : Nat),
    m.alphabet = manner.alphabet ∧ d.attributes = [] ∧ IsQualifiedName m.alphabet name.toList
      ∧ raw.name = name.toList
      ∧ raw.attributes.map (fun a => (a.name, a.value)) = Medium.rawParts attributes
      ∧ resolveTag m d [] manner.separator direct start Scope.initial spent raw
        = .ok (tag, scope, spent')

/-- Events that come behind others, in order. -/
theorem exists_append {es before : List Event} {e : Event} (h : e :: before <:+ es.reverse) :
  ∃ more, es = before.reverse ++ e :: more
  := by
  obtain ⟨later, hlater⟩ := h
  refine ⟨later.reverse, ?_⟩
  rw [← List.reverse_reverse es, ← hlater]
  simp

namespace Remains

variable {manner : Manner} {es : List Event}

/-- The events so far come before all others. -/
theorem exists_more (h : Remains manner p cs es) :
  ∃ more, es = p.events.reverse ++ more
  := by
  cases h with
  | parts hfuel hfront hread hafter =>
      have hroot :=
        (Surroundings.content_goesOn (Surroundings.expandAt_goesOn _ _ []) hread).1.events
      obtain ⟨later, hlater⟩ :=
        (beforeRoot_suffix hfront).trans (hroot.trans (afterRoot_goesOn hafter).1)
      exact ⟨later.reverse, by rw [← List.reverse_append, hlater, List.reverse_reverse]⟩

/-- Where a comment is left to read, reading goes on behind it with its event. -/
theorem comment {value : String} (h : Remains manner p (commentMarkup value.toList ++ cs) es)
    (hvalue : Foreword.IsNoteText value) (hroot : p.stage.allowsRoot) :
  ∃ q, Remains manner q cs es ∧ p.Passed q [commentEvent value.toList] ∧ (p.IsEarly → q.IsEarly)
  := by
  have hmarkup : commentMarkup value.toList ++ cs
      = '<' :: '!' :: '-' :: '-' :: (value.toList ++ '-' :: '-' :: '>' :: cs) := by
    simp [commentMarkup]
  obtain ⟨hasides, stage, hleave, hallows, -, hearly⟩ := leaveBeginning_asides hroot
  rw [hmarkup] at h
  cases h with
  | parts hfuel hfront hread hafter =>
      obtain ⟨q, raw, fuel, rfl, hstep, hfront⟩ :=
        beforeRoot_token rfl (Medium.token_comment hvalue.1 hvalue.2 cs) (by simp) hfront
      rw [Prolog.step, if_pos hasides, hleave] at hstep
      cases hstep
      refine ⟨_, .parts ?_ hfront hread hafter, ⟨rfl, hallows, rfl, rfl⟩, hearly⟩
      simp only [List.length_cons, List.length_append] at hfuel
      omega

/-- Where comments are left to read, reading goes on behind them with their events. -/
theorem comments {values : List String} (h : Remains manner p (Foreword.notesMarkup values ++ cs) es)
    (hvalues : ∀ value ∈ values, Foreword.IsNoteText value) (hroot : p.stage.allowsRoot) :
  ∃ q, Remains manner q cs es ∧ p.Passed q (commentEvents values) ∧ (p.IsEarly → q.IsEarly)
  := by
  induction values generalizing p with
  | nil => exact ⟨p, h, ⟨rfl, hroot, rfl, rfl⟩, id⟩
  | cons value values ih =>
      obtain ⟨hvalue, hothers⟩ := List.forall_mem_cons.mp hvalues
      rw [Foreword.notesMarkup_cons] at h
      obtain ⟨next, h, hfirst, hearly⟩ := h.comment hvalue hroot
      obtain ⟨q, h, hrest, hearly'⟩ := ih h hothers hfirst.root
      exact ⟨q, h, hfirst.trans hrest, hearly' ∘ hearly⟩

/-- Where a document type is left to read, reading goes on behind it with its events. -/
theorem doctype {doctype : List Char} (hdoctype : IsTypeMarkup doctype) (hcs : BeginsNode cs)
    (h : Remains manner p (doctype ++ cs) es) (hroot : p.stage.allowsRoot) (hearly : p.IsEarly)
    (hp : p.inSubset = false) :
  ∃ q typed, Remains manner q cs es ∧ p.Passed q typed ∧ AreTyped typed
  := by
  cases hdoctype with
  | none => exact ⟨p, [], h, ⟨rfl, hroot, rfl, rfl⟩, .inl rfl⟩
  | typed hname hpublic hsystem =>
      obtain ⟨d, more, rfl, -⟩ := hcs
      cases h with
      | parts hfuel hfront hread hafter =>
          obtain ⟨q, typed, fuel, hfuel, hfront, hpassed, htyped⟩ := beforeRoot_doctype rfl
            (Nat.le_refl _) hearly hp hname hpublic hsystem hfuel hfront
          exact ⟨q, typed, .parts hfuel hfront hread hafter, hpassed, htyped⟩

/-- Where a root is left to read, the event of its start tag comes next, and behind the last event
no element is open. -/
theorem root {c : Char} {more : List Char} (h : Remains manner p ('<' :: c :: more) es)
    (hc : c ∉ nonNames) (hdeclared : p.declarations.attributes = []) (hlevel : level p.events = 0) :
  ∃ (account : Account) (raw : RawTag) (rest : List Char) (tag : Tag) (scope : Scope) (spent : Nat)
      (later : List Event),
    ({ alphabet := manner.alphabet } : Medium).startTag (c :: more) = .ok (raw, rest)
      ∧ resolveTag { alphabet := manner.alphabet } p.declarations [] manner.separator
          (account rest) ('<' :: c :: more) Scope.initial p.spent raw = .ok (tag, scope, spent)
      ∧ es = p.events.reverse ++ .start tag :: later ∧ level es.reverse = 0
  := by
  cases h with
  | parts hfuel hfront hread hafter =>
      obtain ⟨rfl, rfl⟩ := beforeRoot_name hc hfront
      obtain ⟨raw, rest, tag, scope, spent, hstart, htag, hsuffix, hlast⟩ :=
        Surroundings.rootElement_startTag rfl hc hlevel hread
      obtain ⟨hgoes, hafter⟩ := afterRoot_goesOn hafter
      obtain ⟨later, hes⟩ := exists_append (hsuffix.trans hgoes)
      exact ⟨_, raw, rest, tag, scope, spent, later, hstart, htag, hes, hafter.trans hlast⟩

/-- Where a root that was written is left to read, its tag is resolved. -/
theorem element {name : String} {attributes : Attributes} {isEmpty : Bool}
    (h : Remains manner p ('<' :: (name.toList ++ (Writing.attributesText attributes
      ++ (Medium.tagEnd isEmpty ++ cs)))) es)
    (hname : isAsciiName name) (hattributes : ∀ a ∈ attributes, isAsciiName a.1 ∧ isCharText a.2)
    (hdeclared : p.declarations.attributes = []) (hlevel : level p.events = 0) :
  ∃ tag later, es = p.events.reverse ++ .start tag :: later ∧ level es.reverse = 0
    ∧ ResolvesTo manner name attributes tag
  := by
  let m : Medium := { alphabet := manner.alphabet }
  have hplain {s : String} (hs : isAsciiName s) : IsPlainName m.undivided.alphabet s.toList :=
    isPlainName_of_asciiName nofun hs
  have hreadable : m.undivided.AreReadable attributes :=
    fun a ha => ⟨hplain (hattributes a ha).1, Medium.isXmlChar_of_isCharText (hattributes a ha).2⟩
  obtain ⟨c, more, hc, -, hmark⟩ := exists_start (hplain hname)
  rw [hc, List.cons_append] at h
  obtain ⟨account, raw, rest, tag, scope, spent, later, hstart, htag, hes, hlast⟩ :=
    h.root hmark hdeclared hlevel
  rw [← List.cons_append, ← hc] at hstart
  obtain ⟨hsame, hparts⟩ := Medium.startTag_written hname hreadable hstart
  exact ⟨tag, later, hes, hlast, m, p.declarations, raw, account rest, _, scope, p.spent, spent,
    rfl, hdeclared, hsame ▸ Medium.startTag_qualified hstart, hsame, hparts, htag⟩

end Remains

/-- Reading comes behind a foreword, and its first events are those of the foreword. -/
theorem events_foreword {manner : Manner} {w : Foreword} (hw : w.IsLegible) {body : List Char}
    (hbody : BeginsNode body) {es : List Event}
    (h : events manner (.text (String.ofList (w.markup ++ body))) = .ok es) :
  ∃ p, Remains manner p body es ∧ p.stage.allowsRoot ∧ p.declarations.attributes = []
    ∧ AreLeading w.comments p.events.reverse
  := by
  have hafter := Foreword.beginsNode_notes w.after hbody
  have hbegins := Foreword.beginsNode_notes w.before (Foreword.beginsNode_doctype hw.doctype hafter)
  simp only [Foreword.markup, List.append_assoc] at h
  obtain ⟨b, hb, h⟩ := bind_ok h
  obtain ⟨hmedium, hrest, standalone, heading, stage, hprolog, hheading, hstage⟩ :=
    beginSource_opening hw.head hbegins hb
  have hwhole := mapError_ok h
  rw [hmedium, hrest, hprolog] at hwhole
  obtain ⟨⟨r, rest⟩, hfront, hwhole⟩ := bind_ok hwhole
  obtain ⟨⟨f, rest'⟩, hroot, hwhole⟩ := bind_ok hwhole
  obtain ⟨last, hlast, hwhole⟩ := bind_ok hwhole
  cases hwhole
  rw [← List.reverse_reverse last] at hlast
  have hremains := Remains.parts (Nat.lt_succ_self _) hfront hroot hlast
  have hcomments := List.forall_mem_append.mp hw.comments
  have hallows : stage.allowsRoot := by
    rcases hstage with rfl | rfl <;> rfl
  -- the comments in front of the document type, the document type, and the comments behind it
  obtain ⟨q, hremains, hbefore, hearly⟩ := hremains.comments hcomments.1 hallows
  obtain ⟨q', typed, hremains, htyped, hkind⟩ := hremains.doctype hw.doctype hafter hbefore.root
    (hearly hstage) hbefore.inSubset
  obtain ⟨p, hremains, hbehind, -⟩ := hremains.comments hcomments.2 htyped.root
  have hpassed := hbefore.trans (htyped.trans hbehind)
  have hheading' : heading.reverse = heading := by
    rcases hheading with rfl | ⟨_, _, _, rfl⟩ <;> rfl
  refine ⟨p, hremains, hpassed.root, hpassed.attributes, heading, w.before, typed, w.after, hheading,
    hkind, rfl, ?_⟩
  rw [hpassed.events]
  simp [Prolog.headed, hheading']

/-- Where a comment comes behind a foreword, its event comes behind those of the foreword. -/
theorem events_comment {manner : Manner} {w : Foreword} (hw : w.IsLegible) {value : String}
    (hvalue : Foreword.IsNoteText value) {rest : List Char} {es : List Event}
    (h : events manner (.text (String.ofList (w.markup ++ (commentMarkup value.toList ++ rest))))
      = .ok es) :
  ∃ lead more, AreLeading w.comments lead ∧ es = lead ++ commentEvent value.toList :: more
  := by
  have hbegins : BeginsNode (commentMarkup value.toList ++ rest) :=
    ⟨'!', _, rfl, by decide, by decide⟩
  obtain ⟨p, hremains, hroot, -, hleading⟩ := events_foreword hw hbegins h
  obtain ⟨q, hremains, hpassed, -⟩ := hremains.comment hvalue hroot
  obtain ⟨more, hes⟩ := hremains.exists_more
  exact ⟨_, more, hleading, by rw [hes, hpassed.events]; simp⟩

/-- Where a root comes behind a foreword, the event of its start tag comes behind those of the
foreword, and behind the last event no element is open. -/
theorem events_root {manner : Manner} {w : Foreword} (hw : w.IsLegible) {name : String}
    (hname : isAsciiName name) {rest : List Char} {es : List Event}
    (h : events manner (.text (String.ofList (w.markup ++ '<' :: (name.toList ++ rest)))) = .ok es) :
  ∃ lead tag more, AreLeading w.comments lead ∧ es = lead ++ .start tag :: more
    ∧ level es.reverse = 0
  := by
  have hplain : IsPlainName ({ alphabet := manner.alphabet } : Medium).undivided.alphabet
      name.toList := isPlainName_of_asciiName nofun hname
  obtain ⟨p, hremains, -, hdeclared, hleading⟩ :=
    events_foreword hw (beginsNode_name hplain rest) h
  have hlevel := hleading.level_eq
  rw [List.reverse_reverse] at hlevel
  obtain ⟨c, more, hc, -, hmark⟩ := exists_start hplain
  rw [hc, List.cons_append] at hremains
  obtain ⟨_, _, _, tag, _, _, later, -, -, hes, hclosed⟩ := hremains.root hmark hdeclared hlevel
  exact ⟨_, tag, later, hleading, hes, hclosed⟩

/-- Where a root that was written comes behind a foreword, its tag is resolved. -/
theorem events_element {manner : Manner} {w : Foreword} (hw : w.IsLegible) {name : String}
    (hname : isAsciiName name) {attributes : Attributes}
    (hattributes : ∀ a ∈ attributes, isAsciiName a.1 ∧ isCharText a.2) {isEmpty : Bool}
    {rest : List Char} {es : List Event}
    (h : events manner (.text (String.ofList (w.markup ++ '<' :: (name.toList
      ++ (Writing.attributesText attributes ++ (Medium.tagEnd isEmpty ++ rest)))))) = .ok es) :
  ∃ lead tag more, AreLeading w.comments lead ∧ es = lead ++ .start tag :: more
    ∧ level es.reverse = 0 ∧ ResolvesTo manner name attributes tag
  := by
  have hplain : IsPlainName ({ alphabet := manner.alphabet } : Medium).undivided.alphabet
      name.toList := isPlainName_of_asciiName nofun hname
  obtain ⟨p, hremains, -, hdeclared, hleading⟩ :=
    events_foreword hw (beginsNode_name hplain _) h
  have hlevel := hleading.level_eq
  rw [List.reverse_reverse] at hlevel
  obtain ⟨tag, later, hes, hclosed, hresolves⟩ :=
    hremains.element hname hattributes hdeclared hlevel
  exact ⟨_, tag, later, hleading, hes, hclosed, hresolves⟩

end Reading

end XmlDraft
