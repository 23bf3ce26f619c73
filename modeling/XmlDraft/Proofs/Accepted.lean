import XmlDraft.Proofs.BeforeRoot

/-!
# Documents that are accepted

What a reader puts together from a source that it accepts: a declaration that is legible, the
comments and the document type before the root, and behind them only nodes that can be written.
Main statement: so it is for every source, in whatever encoding it is.
-/

namespace XmlDraft

namespace Reading

open Assembly (Yields)

/-! ### Before the root -/

namespace IsFront

variable {m : Medium} {standalone : Bool} {front : List Node} {d : Declarations}

theorem areChars (h : IsFront m standalone front d) :
  d.AreChars
  := by
  cases h with
  | bare hnotes => exact Progress.areChars_of_none rfl
  | typed hbefore hafter hchars hretold => exact hchars

/-- What stands before the root stands in the order of documents. -/
theorem isOrdered (h : IsFront m standalone front d) (declaration : Option Declaration) :
  Document.IsOrdered ⟨declaration, front⟩
  := by
  have helement := h.isElement_eq_false
  have hnotes {ns : List Node} (hns : ∀ n ∈ ns, n.IsNote) : ns.filter Node.isDoctype = []
      ∧ ∀ n ∈ ns, n.isDoctype ∨ n.isElement ∨ ∃ value, n = .comment value := by
    refine ⟨List.filter_eq_nil_iff.mpr fun n hn => ?_, fun n hn => ?_⟩
    · obtain ⟨value, rfl⟩ := (hns n hn).exists_comment
      exact Bool.false_ne_true
    · obtain ⟨value, rfl⟩ := (hns n hn).exists_comment
      exact .inr (.inr ⟨value, rfl⟩)
  have hshape : (front.filter Node.isDoctype).length ≤ 1
      ∧ ∀ n ∈ front, n.isDoctype ∨ n.isElement ∨ ∃ value, n = .comment value := by
    cases h with
    | bare hns => exact ⟨by simp [(hnotes hns).1], (hnotes hns).2⟩
    | typed hbefore hafter _ _ =>
        refine ⟨?_, ?_⟩
        · rw [List.filter_append, (hnotes hbefore).1, List.filter_cons_of_pos rfl,
            (hnotes hafter).1]
          exact Nat.le_refl 1
        · rw [List.forall_mem_append, List.forall_mem_cons]
          exact ⟨(hnotes hbefore).2, .inl rfl, (hnotes hafter).2⟩
  have hroot : front.filter Node.isElement = [] := by
    simpa [List.filter_eq_nil_iff] using helement
  refine ⟨hshape.1, by simp [hroot], ?_, hshape.2⟩
  rintro before t after rfl n hn
  exact helement n (List.mem_append_left _ hn)

end IsFront

/-- Where a root may begin, comments have been read, or comments around a document type. -/
theorem Progress.at_root {m : Medium} {standalone : Bool} {declaration : Option Declaration}
    {p : Prolog} {next : Option Char} (h : Progress m standalone declaration p next)
    (hroot : p.stage.allowsRoot) :
  ∃ front, IsFront m standalone front p.declarations
    ∧ Yields p.events (Assembly.atTop declaration front)
  := by
  cases h with
  | before hnotes hyields hstage => exact ⟨_, .bare hnotes, hyields⟩
  | head hnotes hyields hhead => cases hhead <;> cases hroot
  | inside hnotes hparts hinside hchars hyields hretells =>
      have hinner := hinside.inner
      cases hstage : p.stage <;> rw [hstage] at hroot hinner <;> first
        | exact absurd hroot (by decide)
        | exact absurd hinner (by decide)
  | tail hnotes hchars hstage hinside hyields hretold =>
      rw [hstage] at hroot
      cases hroot
  | after hbefore hafter hchars hstage hinside hyields hretold =>
      exact ⟨_, .typed hbefore hafter hchars hretold, hyields⟩

/-! ### Behind the root -/

/-- Behind the root only comments and instructions are added. -/
theorem afterRoot_ok {m : Medium} (hm : m.alphabet.divides = false) (a : Alphabet)
    (d : Declarations) {fuel : Nat} {cs : List Char} {es last : List Event}
    (h : afterRoot m fuel cs es = .ok last) :
  ∃ added, last = added.reverse ++ es ∧ KeepSound a d added
  := by
  induction fuel generalizing cs es with
  | zero =>
      cases h
      exact ⟨[], rfl, keepSound_nil⟩
  | succ fuel ih =>
      -- what follows one more event is behind it
      have hnext {e : Event} {rest : List Char} (he : KeepSound a d [e])
          (h : afterRoot m fuel rest (e :: es) = .ok last) :
          ∃ added, last = added.reverse ++ es ∧ KeepSound a d added := by
        obtain ⟨added, hadded, hkeeps⟩ := ih h
        exact ⟨e :: added, by simpa using hadded, by simpa using he.append hkeeps⟩
      cases cs with
      | nil =>
          unfold afterRoot at h
          split_ifs at h
          cases h
          exact ⟨[], rfl, keepSound_nil⟩
      | cons c more =>
          unfold afterRoot at h
          split at h
          · cases h
          · split_ifs at h
            · cases h
              exact ⟨[], rfl, keepSound_nil⟩
            · exact ih h
          · rename_i text rest htoken
            obtain ⟨raw, _, hspells⟩ := (Medium.token_ok hm htoken).resolve_left Token.noConfusion
            cases hspells with
            | comment hchars hbreaks => exact hnext (keepSound_comment hchars hbreaks) h
          · exact hnext (keepSound_instruction _ _ _) h
          · cases h

/-! ### Whole markup -/

theorem isPlainName_replaced {m : Medium} {name : List Char}
    (h : IsPlainName m.replaced.alphabet name) :
  IsPlainName m.alphabet name
  := by
  have hstart (c : Char) (hc : m.replaced.alphabet.isStart c) : m.alphabet.isStart c := by
    simp only [Alphabet.isStart, Medium.replaced, Bool.and_false, Bool.false_and,
      Bool.false_eq_true, ite_false] at hc ⊢
    split_ifs at hc ⊢ <;> simp_all
  have hinner (c : Char) (hc : m.replaced.alphabet.isInner c) : m.alphabet.isInner c := by
    simp only [Alphabet.isInner, Bool.or_eq_true] at hc ⊢
    rcases hc with (((hc | hc) | hc) | hc) | hc
    · exact .inl (.inl (.inl (.inl (hstart c hc))))
    · exact .inl (.inl (.inl (.inr hc)))
    · exact .inl (.inl (.inr hc))
    · exact .inl (.inr hc)
    · exact .inr hc
  refine ⟨?_, fun c hc => hinner c (h.inner c hc)⟩
  cases name with
  | nil => cases h.start
  | cons c cs => simpa using hstart c (by simpa using h.start)

theorem Assembly.isSound_atTop {a : Alphabet} {d : Declarations}
    {declaration : Option Declaration} {front : List Node}
    (h : Document.IsOrdered ⟨declaration, front⟩) :
  (Assembly.atTop declaration front).IsSound a d ⟨declaration, front⟩
  where
    opened := trivial
    spaces := rfl
    closed := rfl
    document := Document.extends_refl h

/-- What the events of markup put together goes on from what stands before its root. -/
theorem wholeMarkup_ok {m : Medium} (hm : m.alphabet.divides = false)
    (hknown : 0x80 ≤ m.alphabet.known) (hunifies : m.unifies) {standalone : Bool}
    {declaration : Option Declaration} {account : Account} {p : Prolog} {cs : List Char}
    (hp : Progress m standalone declaration p cs.head?) {es : List Event}
    (h : wholeMarkup m {} account p cs = .ok es) {s : Assembly}
    (hrun : ({} : Assembly).run es = .ok s) :
  ∃ front d, IsFront m standalone front d
    ∧ Document.Extends m.alphabet d ⟨declaration, front⟩ s.document
  := by
  obtain ⟨⟨q, rest⟩, hbefore, h⟩ := bind_ok h
  obtain ⟨⟨f, rest'⟩, hroot, h⟩ := bind_ok h
  obtain ⟨last, hafter, h⟩ := bind_ok h
  cases h
  obtain ⟨hprogress, hstage⟩ := beforeRoot_ok hm hknown hp hbefore
  obtain ⟨front, hfront, hyields⟩ := hprogress.at_root hstage
  have hx : Surroundings.IsWhole m.alphabet ⟨m, q.declarations, {}, account, 0, []⟩ :=
    ⟨hm, fun _ h => h, fun _ h => isPlainName_replaced h, rfl, hfront.areChars, .inl hunifies⟩
  obtain ⟨inner, hinner, hkeeps⟩ := Surroundings.rootElement_grows hx hroot
  obtain ⟨outer, houter, hkeeps'⟩ := afterRoot_ok hm m.alphabet q.declarations hafter
  have hevents : last.reverse = q.events.reverse ++ (inner ++ outer) := by
    simp [houter, hinner]
  rw [hevents, Assembly.run_append, hyields] at hrun
  refine ⟨front, q.declarations, hfront, ?_⟩
  exact (hkeeps.append hkeeps' _ _ _ (Assembly.isSound_atTop (hfront.isOrdered declaration))
    hrun).document

/-! ### Declarations -/

theorem HeadingPart.read_ok {cs rest : List Char} {p : HeadingPart}
    (h : HeadingPart.read cs = .ok (some (p, rest))) :
  ∀ c ∈ p.value, isValueChar c
  := by
  unfold HeadingPart.read at h
  split at h
  · cases h
  · split_ifs at h
    split at h
    · cases h
    · dsimp only at h
      split at h
      · split_ifs at h
        obtain ⟨⟨p', rest'⟩, hvalue, heq⟩ := map_ok h
        cases heq
        unfold HeadingPart.readValue at hvalue
        split at hvalue
        · cases hvalue
        · split_ifs at hvalue
          dsimp only at hvalue
          split at hvalue
          · split_ifs at hvalue
            cases hvalue
            exact fun c hc => List.mem_takeWhile_imp hc
          · cases hvalue
      · cases h

namespace Heading

/-- A declaration whose version is a word and whose encoding has the name of one. -/
structure IsSpelled (h : Heading) : Prop where
  version : ∀ c ∈ h.version, HeadingPart.isValueChar c
  encoding : ∀ e ∈ h.encoding,
    (∀ c ∈ e.1, HeadingPart.isValueChar c) ∧ e.1.head?.any isAsciiLetter

variable {h h' : Heading} {cs : List Char}

theorem IsSpelled.closeStandalone (hs : h.IsSpelled) {p : HeadingPart} {rest : List Char}
    (hclose : h.closeStandalone p rest = .ok h') :
  h'.IsSpelled
  := by
  unfold Heading.closeStandalone at hclose
  split_ifs at hclose
  split at hclose
  · cases hclose
    exact ⟨hs.version, hs.encoding⟩
  · cases hclose

theorem IsSpelled.afterEncoding (hs : h.IsSpelled) {rest : List Char}
    (hafter : h.afterEncoding rest = .ok h') :
  h'.IsSpelled
  := by
  obtain ⟨found, _, hafter⟩ := bind_ok hafter
  cases found with
  | none =>
      cases hafter
      exact hs
  | some found => exact hs.closeStandalone hafter

theorem IsSpelled.afterVersion (hs : h.IsSpelled) {rest : List Char}
    (hafter : h.afterVersion rest = .ok h') :
  h'.IsSpelled
  := by
  obtain ⟨found, hfound, hafter⟩ := bind_ok hafter
  cases found with
  | none =>
      cases hafter
      exact hs
  | some found =>
      obtain ⟨p, rest'⟩ := found
      dsimp only at hafter
      split_ifs at hafter with hname hletter
      · have hnext : IsSpelled { h with encoding := some (p.value, p.inside) } := by
          refine ⟨hs.version, ?_⟩
          rintro e he
          cases he
          exact ⟨HeadingPart.read_ok hfound, hletter⟩
        exact hnext.afterEncoding hafter
      · exact hs.closeStandalone hafter

/-- A declaration that is read is spelled as declarations are. -/
theorem ofText_ok (hread : ofText cs = .ok h) :
  h.IsSpelled
  := by
  obtain ⟨found, hfound, hread⟩ := bind_ok hread
  cases found with
  | none => cases hread
  | some found =>
      obtain ⟨p, rest⟩ := found
      dsimp only at hread
      split_ifs at hread
      exact IsSpelled.afterVersion ⟨HeadingPart.read_ok hfound, by simp⟩ hread

/-- The declaration of a document as its heading gives it. -/
def declaration (h : Heading) : Declaration where
  version := some (.text (String.ofList h.version))
  encoding := (h.encoding.map fun e => String.ofList e.1).map Field.text
  standalone := h.standalone.map Assembly.standaloneWord

theorem IsSpelled.isLegible (hs : h.IsSpelled) :
  h.declaration.isLegible
  := by
  have hword (cs : List Char) (hcs : ∀ c ∈ cs, HeadingPart.isValueChar c) :
      Declaration.isWord (String.ofList cs) := by
    simpa [Declaration.isWord] using hcs
  have hencoding : h.declaration.encoding.all fun f => f.text?.any Declaration.isEncodingName := by
    cases he : h.encoding with
    | none => simp [declaration, he]
    | some e =>
        obtain ⟨hchars, hletter⟩ := hs.encoding e he
        have hhead : e.1.head?.all isAsciiLetter := by
          cases hcs : e.1 with
          | nil => rfl
          | cons c cs => simpa [hcs] using hletter
        simp [declaration, he, Field.text?, Declaration.isEncodingName, hword e.1 hchars, hhead]
  have hstandalone : h.declaration.standalone.all fun f =>
      f.text?.any fun s => s = "yes" || s = "no" := by
    cases hb : h.standalone with
    | none => simp [declaration, hb]
    | some b => cases b <;> simp [declaration, hb, Assembly.standaloneWord, Field.text?]
  simp only [Declaration.isLegible, hencoding, hstandalone, Bool.and_true]
  simp [declaration, Field.text?, hword h.version hs.version]

theorem standsAlone_declaration (h : Heading) :
  h.declaration.standsAlone = decide (h.standalone = some true)
  := by
  cases hb : h.standalone with
  | none => simp [Declaration.standsAlone, declaration, hb]
  | some b =>
      cases b <;> simp [Declaration.standsAlone, declaration, hb, Assembly.standaloneWord, Field.text?]

end Heading

/-! ### Heads -/

section Begun

variable {s : Script} {b : Begun}
  {switch : List Char → List Char → List Char → Except Unreadable (Script × List Char)}

/-- A source begins with its script as it is, or behind a declaration, which may switch to another
script. -/
theorem begin_cases (h : begin s switch = .ok b) :
  (b.script = s ∧ b.prolog = {})
    ∨ s.chars ≠ [] ∧ ∃ text heading, Heading.ofText text = .ok heading
      ∧ b.prolog = afterHeading heading
      ∧ (heading.encoding = none ∧ b.script = s
        ∨ ∃ name here place rest, heading.encoding = some (name, here)
          ∧ switch name place rest = .ok (b.script, b.rest))
  := by
  unfold begin at h
  split at h
  · cases h
    exact .inl ⟨rfl, rfl⟩
  · rename_i text rest htext
    have hchars : s.chars ≠ [] := by
      intro hnil
      rw [headingText?, hnil] at htext
      cases htext
    dsimp only at h
    split at h
    · cases h
    · rename_i heading hread
      split at h
      · rename_i hencoding
        cases h
        exact .inr ⟨hchars, text, heading, hread, rfl, .inl ⟨hencoding, rfl⟩⟩
      · rename_i name here hencoding
        obtain ⟨⟨script, rest'⟩, hswitch, h⟩ := bind_ok h
        cases h
        refine .inr ⟨hchars, text, heading, hread, rfl, .inr ?_⟩
        exact ⟨name, here, _, rest, hencoding, hswitch⟩

/-- A source that has begun is before its root, with a legible declaration if it has one; its
characters are those of the script if the declaration names no encoding, or those that it switched
to. -/
theorem begin_ok (h : begin s switch = .ok b) :
  ∃ declaration : Option Declaration, declaration.all Declaration.isLegible
    ∧ (∀ m next, Progress m (declaration.any Declaration.standsAlone) declaration
        { b.prolog with types := none } next)
    ∧ (b.script = s ∧ (∀ d ∈ declaration, d.encoding = none)
      ∨ s.chars ≠ [] ∧ ∃ d name here rest, declaration = some d
        ∧ d.encoding = some (.text (String.ofList name))
        ∧ switch name here rest = .ok (b.script, b.rest))
  := by
  rcases begin_cases h with ⟨hscript, hprolog⟩ | ⟨hchars, text, heading, hread, hprolog, hswitch⟩
  · refine ⟨none, rfl, fun m next => ?_, .inl ⟨hscript, by simp⟩⟩
    rw [hprolog]
    exact show Progress m false none (Prolog.headed false [] [] none none .beginning) next from
      .before (show ∀ n ∈ ([] : List Node), n.IsNote by simp) rfl (.inl rfl)
  · refine ⟨some heading.declaration, (Heading.ofText_ok hread).isLegible, fun m next => ?_, ?_⟩
    · rw [hprolog, Option.any_some, heading.standsAlone_declaration]
      exact .before (show ∀ n ∈ ([] : List Node), n.IsNote by simp) rfl
        (.inr (rfl : Stage.beforeDoctype = .beforeDoctype))
    · rcases hswitch with ⟨hnone, hscript⟩ | ⟨name, here, place, rest, hsome, hswitch⟩
      · exact .inl ⟨hscript, by simp [Heading.declaration, hnone]⟩
      · exact .inr ⟨hchars, _, name, _, _, rfl, by simp [Heading.declaration, hsome], hswitch⟩

end Begun

/-- The medium of a source that has begun is that of its script, or of the script that the
declaration switched to. -/
theorem begin_medium {P : Medium → Prop} {s : Script}
    {switch : List Char → List Char → List Char → Except Unreadable (Script × List Char)}
    (hs : P s.medium) (hswitch : ∀ name here rest s' rest',
      switch name here rest = .ok (s', rest') → P s'.medium)
    {b : Begun} (h : begin s switch = .ok b) :
  P b.script.medium
  := by
  obtain ⟨_, _, _, ⟨hscript, _⟩ | ⟨_, _, _, _, _, _, _, hscript⟩⟩ := begin_ok h
  · rw [hscript]
    exact hs
  · exact hswitch _ _ _ _ _ hscript

theorem keepScript_medium {P : Medium → Prop} {s : Script} (hs : P s.medium)
    (name here rest : List Char) (s' : Script) (rest' : List Char)
    (h : keepScript s name here rest = .ok (s', rest')) :
  P s'.medium
  := by
  cases h
  exact hs

theorem isUsual_medium (e : InputEncoding) (d : Decoded) :
  (e.medium d ({} : Manner).alphabet).IsUsual
  where
    divides := rfl
    isFifth := rfl
    known := by cases e <;> exact Nat.le_of_ble_eq_true rfl
    unifies := rfl

/-- The medium of a source is that of the encoding that its declaration names, if it names one. -/
def Medium.IsNamed (m : Medium) (declaration : Option Declaration) : Prop :=
  ∀ d ∈ declaration, ∀ name, d.encoding.bind Field.text? = some name → ∃ e s here new decoded,
    InputEncoding.declared e s name.toList here = .ok new
      ∧ m = new.medium decoded ({} : Manner).alphabet

/-- Octets begin in a usual medium, with a legible declaration if they have one. -/
theorem beginOctets_ok {os : List UInt8} (isText : Bool) {b : Begun} (h : (match detect? os with
      | none => begin ⟨{ ending := .ragged }, [], []⟩ (keepScript ⟨{}, [], []⟩)
      | some (e, lead) =>
        let s := e.script ({} : Manner).alphabet os lead
        begin s (if isText then keepScript s else switchScript e ({} : Manner).alphabet os lead s))
        = .ok b) :
  b.script.medium.IsUsual ∧ ∃ declaration : Option Declaration,
    declaration.all Declaration.isLegible
      ∧ (∀ m next, Progress m (declaration.any Declaration.standsAlone) declaration
          { b.prolog with types := none } next)
      ∧ (isText = false → b.script.medium.IsNamed declaration)
  := by
  have hplain : ({} : Medium).IsUsual := ⟨rfl, rfl, by decide, rfl⟩
  split at h
  · obtain ⟨declaration, hlegible, hprogress, hgoes⟩ := begin_ok h
    have husual := begin_medium (P := Medium.IsUsual) ⟨rfl, rfl, by decide, rfl⟩
      (keepScript_medium hplain) h
    refine ⟨husual, declaration, hlegible, hprogress, ?_⟩
    rintro _ d hd name hname
    rcases hgoes with ⟨_, hnone⟩ | ⟨hchars, _⟩
    · rw [hnone d hd] at hname
      cases hname
    · exact absurd rfl hchars
  · rename_i e lead _
    obtain ⟨declaration, hlegible, hprogress, hgoes⟩ := begin_ok h
    have hswitched {name here rest : List Char} {s' : Script} {rest' : List Char}
        (hswitch : switchScript e ({} : Manner).alphabet os lead
          (e.script ({} : Manner).alphabet os lead) name here rest = .ok (s', rest')) :
        ∃ s here new decoded, InputEncoding.declared e s name here = .ok new
          ∧ s'.medium = new.medium decoded ({} : Manner).alphabet := by
      obtain ⟨new, hnew, hswitch⟩ := bind_ok hswitch
      cases hswitch
      exact ⟨_, _, new, _, hnew, rfl⟩
    refine ⟨begin_medium (P := Medium.IsUsual) (isUsual_medium e _) ?_ h, declaration, hlegible,
      hprogress, ?_⟩
    · split_ifs
      · exact keepScript_medium (isUsual_medium e _)
      · intro name here rest s' rest' hswitch
        obtain ⟨_, _, new, _, _, hmedium⟩ := hswitched hswitch
        rw [hmedium]
        exact isUsual_medium new _
    · rintro rfl d hd name hname
      rcases hgoes with ⟨_, hnone⟩ | ⟨_, d', name', here, rest, rfl, hname', hswitch⟩
      · rw [hnone d hd] at hname
        cases hname
      · cases hd
        obtain rfl : String.ofList name' = name := by
          rw [hname'] at hname
          exact Option.some.inj hname
        obtain ⟨s, here, new, decoded, hnew, hmedium⟩ := hswitched hswitch
        rw [String.toList_ofList]
        exact ⟨e, s, here, new, decoded, hnew, hmedium⟩

/-- A source begins in a usual medium; a text that does not look like octets keeps its own, and
octets are in the encoding that their declaration names. -/
theorem beginSource_ok {source : Source} {b : Begun} (h : beginSource {} source = .ok b) :
  b.script.medium.IsUsual
    ∧ (∀ t, source = .text t → looksWide t.toList = false → b.script.medium = {})
    ∧ ∃ declaration : Option Declaration, declaration.all Declaration.isLegible
      ∧ (∀ m next, Progress m (declaration.any Declaration.standsAlone) declaration
          { b.prolog with types := none } next)
      ∧ (∀ os, source = .octets os → b.script.medium.IsNamed declaration)
  := by
  cases source with
  | octets os =>
      obtain ⟨husual, declaration, hlegible, hprogress, hnamed⟩ := beginOctets_ok false h
      exact ⟨husual, nofun, declaration, hlegible, hprogress, fun _ _ => hnamed rfl⟩
  | text t =>
      simp only [beginSource] at h
      split at h
      · rename_i hwide
        obtain ⟨husual, declaration, hlegible, hprogress, _⟩ := beginOctets_ok true h
        refine ⟨husual, ?_, declaration, hlegible, hprogress, nofun⟩
        rintro t ⟨⟩ hnot
        rw [hwide] at hnot
        cases hnot
      · have hmedium : (textScript ({} : Manner).alphabet t.toList).medium = {} := by
          unfold textScript
          dsimp only
          split <;> rfl
        have heq : b.script.medium = {} :=
          begin_medium (P := (· = {})) hmedium (keepScript_medium (P := (· = {})) hmedium) h
        obtain ⟨declaration, hlegible, hprogress, _⟩ := begin_ok h
        have hplain : ({} : Medium).IsUsual := ⟨rfl, rfl, by decide, rfl⟩
        exact ⟨heq ▸ hplain, fun _ _ _ => heq, declaration, hlegible, hprogress, nofun⟩

end Reading

/-! ### Documents -/

open Reading (Medium Declarations IsFront)

/-- A document that a reader accepts: its declaration is legible, and behind what stands before
the root come nodes that can be written, the root among them. -/
structure Document.IsAccepted (m : Medium) (declarations : Declarations) (front others : List Node)
    (d : Document) : Prop where
  usual : m.IsUsual
  declaration : d.declaration.all Declaration.isLegible
  children : d.children = front ++ others
  front : IsFront m (d.declaration.any Declaration.standsAlone) front declarations
  others : Node.AreSound m.alphabet declarations none others
  ordered : d.IsOrdered
  root : d.root?.isSome

/-- What is read from a source is accepted. -/
theorem readDocument_ok {source : Source} {d : Document} (h : readDocument source = .ok d) :
  ∃ m declarations front others, d.IsAccepted m declarations front others
    ∧ (∀ t, source = .text t → Reading.looksWide t.toList = false → m = {})
    ∧ (∀ os, source = .octets os → m.IsNamed d.declaration)
  := by
  obtain ⟨es, hevents, hread⟩ := Reading.bind_ok h
  obtain ⟨s, hrun, hread⟩ := Reading.bind_ok hread
  obtain ⟨b, hbegun, hmarkup⟩ := Reading.bind_ok (Reading.mapError_ok hevents)
  have hdocument : s.document = d ∧ s.document.root?.isSome := by
    split_ifs at hread with hroot
    exact ⟨Except.ok.inj hread, hroot⟩
  obtain ⟨rfl, hroot⟩ := hdocument
  obtain ⟨husual, hplain, declaration, hlegible, hprogress, hnamed⟩ := Reading.beginSource_ok hbegun
  obtain ⟨front, declarations, hfront, hextends⟩ := Reading.wholeMarkup_ok husual.divides
    husual.known husual.unifies (hprogress b.script.medium b.rest.head?)
    (Reading.mapError_ok hmarkup) hrun
  obtain ⟨others, hchildren, hothers⟩ := hextends.children
  obtain rfl : s.document.declaration = declaration := hextends.declaration
  exact ⟨b.script.medium, declarations, front, others,
    ⟨husual, hlegible, hchildren, hfront, hothers, hextends.ordered, hroot⟩, hplain, hnamed⟩

end XmlDraft
