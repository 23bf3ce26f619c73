import XmlDraft.Proofs.Accepted
import XmlDraft.Proofs.Content
import XmlDraft.Proofs.Handling

/-!
# Reading reports

Every step of a reader delivers events that can be handled where they come, in the sections and
the replacement texts that it reads as well, and also if it fails further on.  Main statement: a
text is read as a document with a root, or what is malformed is reported with its place, and in
both cases every event that was delivered could be handled.
-/

namespace XmlDraft

namespace Reading

open Assembly (Handles IsInside IsInSection IsDone IsBeforeRoot LeadsBy)

/-! ### Outcomes -/

/-- Events, the latest first, that are handled one after another up to an assembly of some kind. -/
def Comes (es : List Event) (P : Assembly → Prop) : Prop :=
  ∃ a, Handles {} es.reverse a ∧ P a

/-- An outcome that is of some kind, or a failure before which all events were handled. -/
def Tells {α : Type} (r : Except Halt α) (P : α → Prop) : Prop :=
  match r with
  | .ok x => P x
  | .error (_, es) => Comes es fun _ => True

section Outcomes

variable {α β : Type} {es : List Event} {e : Event} {P Q : Assembly → Prop}

theorem Comes.imp (h : Comes es P) (himp : ∀ a, P a → Q a) :
  Comes es Q
  := by
  obtain ⟨a, ha, hp⟩ := h
  exact ⟨a, ha, himp a hp⟩

theorem Comes.handled (h : Comes es P) :
  Comes es fun _ => True
  := h.imp fun _ _ => trivial

/-- One more event is handled if it is taken wherever those before it lead to. -/
theorem Comes.emit (h : Comes es P) (htakes : ∀ a, P a → a.LeadsBy e Q) :
  Comes (e :: es) Q
  := by
  obtain ⟨a, ha, hp⟩ := h
  obtain ⟨hallows, b, hstep, hq⟩ := htakes a hp
  refine ⟨b, ?_, hq⟩
  rw [List.reverse_cons]
  exact ha.append (.cons ⟨hallows, b, hstep⟩ hstep (.nil b))

theorem Tells.imp {r : Except Halt α} {P Q : α → Prop} (h : Tells r P) (himp : ∀ x, P x → Q x) :
  Tells r Q
  := by
  cases r with
  | ok x => exact himp x h
  | error halt => exact h

theorem Tells.bind {r : Except Halt α} {f : α → Except Halt β} {P : α → Prop} {Q : β → Prop}
    (h : Tells r P) (hf : ∀ x, P x → Tells (f x) Q) :
  Tells (r.bind f) Q
  := by
  cases r with
  | ok x => exact hf x h
  | error halt => exact h

theorem Tells.map {r : Except Halt α} {f : α → β} {P : α → Prop} {Q : β → Prop} (h : Tells r P)
    (hf : ∀ x, P x → Q (f x)) :
  Tells (r.map f) Q
  := by
  cases r with
  | ok x => exact hf x h
  | error halt => exact h

theorem tells_undelivered {r : Except Failure α} {P : α → Prop} {Q : Assembly → Prop}
    (hes : Comes es Q) (h : ∀ x, r = .ok x → P x) :
  Tells (undelivered es r) P
  := by
  cases r with
  | ok x => exact h x rfl
  | error e => exact hes.handled

end Outcomes

namespace Surroundings

variable {x : Surroundings} {f g : Flow} {cs rest more : List Char} {expand : Expanding}
  {tell : Telling}

/-! ### Sections -/

/-- A section that begins inside the root ends there. -/
theorem tells_section {n : Nat} {fuel : Nat}
    (h : Comes f.events fun a => a.IsInSection (n + 1)) :
  Tells (x.sectionTold fuel cs f) fun (g, _) =>
    g.opened = f.opened ∧ Comes g.events fun a => a.IsInside (n + 1)
  := by
  induction fuel generalizing cs f with
  | zero => exact h.handled
  | succ fuel ih =>
      rw [sectionTold]
      refine (tells_undelivered (P := fun _ => True) h fun _ _ => trivial).bind ?_
      rintro ⟨_ | piece, rest⟩ _
      · exact ⟨rfl, h.emit fun a ha => ha.finish⟩
      · exact ih (f := f.emit (.characters piece)) (h.emit fun a ha => ha.characters piece)

/-! ### Steps through content -/

/-- A state inside the root, with as many elements open as the content needs around it. -/
structure IsWithin (x : Surroundings) (f : Flow) : Prop where
  base : x.base ≤ f.opened.length
  comes : Comes f.events fun a => a.IsInside f.opened.length

/-- What a step leads to: a state inside the root again, or the end of the root. -/
def Leaves (x : Surroundings) (g : Flow) : Prop :=
  if g.opened = [] then x.base = 0 ∧ Comes g.events IsDone else x.IsWithin g

theorem leaves_of_ne (hne : g.opened ≠ []) (hg : x.IsWithin g) :
  x.Leaves g
  := by
  rw [Leaves, if_neg hne]
  exact hg

theorem leaves_cases (h : x.Leaves g) :
  (g.opened.isEmpty = true ∧ x.base = 0 ∧ Comes g.events IsDone)
    ∨ (g.opened.isEmpty = false ∧ g.opened ≠ [] ∧ x.IsWithin g)
  := by
  unfold Leaves at h
  split_ifs at h with hempty
  · exact .inl ⟨List.isEmpty_iff.mpr hempty, h.1, h.2⟩
  · exact .inr ⟨List.isEmpty_eq_false_iff.mpr hempty, hempty, h⟩

/-- An end tag leads to the end of the root, or further out inside it. -/
theorem leaves_of_finish (hbase : x.base ≤ g.opened.length)
    (h : Comes g.events fun a =>
      if g.opened.length = 0 then a.IsDone else a.IsInside g.opened.length) :
  x.Leaves g
  := by
  unfold Leaves
  split_ifs with hempty
  · have hzero : g.opened.length = 0 := List.length_eq_zero_iff.mpr hempty
    exact ⟨Nat.eq_zero_of_le_zero (hzero ▸ hbase), h.imp fun a ha => by rwa [if_pos hzero] at ha⟩
  · have hlong : g.opened.length ≠ 0 := mt List.length_eq_zero_iff.mp hempty
    exact ⟨hbase, h.imp fun a ha => by rwa [if_neg hlong] at ha⟩

/-- Surroundings in which names are kept whole. -/
structure IsUndivided (x : Surroundings) : Prop where
  divides : x.medium.alphabet.divides = false
  separator : x.manner.separator = none

/-- The name of a tag that was resolved is the name as written. -/
theorem resolveTag_name {m : Medium} {d : Declarations} {opened : List (List Char)}
    {direct : Option Nat} {spent spent' : Nat} {start : List Char} {scope scope' : Scope}
    {t : RawTag} {tag : Tag}
    (h : resolveTag m d opened none direct start scope spent t = .ok (tag, scope', spent')) :
  tag.name = wholeLabel t.name
  := by
  obtain ⟨held, _, h⟩ := bind_ok h
  obtain ⟨all, _, h⟩ := bind_ok h
  obtain ⟨tag', htag, h⟩ := bind_ok h
  cases h
  cases htag
  rfl

/-- The tag that a start tag is resolved to has a name. -/
theorem startTag_named (hx : x.IsUndivided) {start : List Char} {t : RawTag} {scope scope' : Scope}
    {spent spent' : Nat} {tag : Tag} (ht : x.medium.startTag cs = .ok (t, rest))
    (h : resolveTag x.medium x.declarations x.replacing x.manner.separator (x.account rest) start
      scope spent t = .ok (tag, scope', spent')) :
  tag.name.raw ≠ ""
  := by
  obtain ⟨hname, _⟩ := Medium.startTag_ok hx.divides ht
  rw [hx.separator] at h
  rw [resolveTag_name h, wholeLabel]
  intro hempty
  have hstart := hname.start
  rw [String.ofList_eq_empty_iff.mp hempty] at hstart
  cases hstart

theorem IsWithin.emit {e : Event} (hf : x.IsWithin f)
    (he : ∀ a : Assembly, a.IsInside f.opened.length → a.LeadsBy e (·.IsInside f.opened.length)) :
  x.IsWithin (f.emit e)
  := ⟨hf.base, hf.comes.emit he⟩

theorem Begins.leaves (hx : x.IsUndivided) (hf : x.IsWithin f) {start : List Char}
    (h : x.Begins start cs f g rest) :
  x.Leaves g
  := by
  have hstarted {tag : Tag} (htag : tag.name.raw ≠ "") :
      Comes (.start tag :: f.events) fun a => a.IsInside (f.opened.length + 1) :=
    hf.comes.emit fun a ha => ha.start htag
  cases h with
  | opens found resolved =>
      refine leaves_of_ne (List.cons_ne_nil _ _) ⟨Nat.le_succ_of_le hf.base, ?_⟩
      exact hstarted (startTag_named hx found resolved)
  | whole found resolved =>
      have hcomes := hstarted (startTag_named hx found resolved)
      exact leaves_of_finish hf.base (hcomes.emit fun a ha => ha.finish)

theorem endTag_leaves (hf : x.IsWithin f) {o : Opened} {others : List Opened} {scope : Scope}
    (hopened : f.opened = o :: others) (hbase : f.opened.length ≠ x.base) :
  x.Leaves { f.emit .finish with opened := others, scope := scope }
  := by
  have hlength : f.opened.length = others.length + 1 := by rw [hopened, List.length_cons]
  have hcomes := hf.comes
  rw [hlength] at hcomes hbase
  have hle : x.base ≤ others.length := by
    have := hf.base
    omega
  exact leaves_of_finish hle (hcomes.emit fun a ha => ha.finish)

theorem emit_leaves {e : Event} (hne : f.opened ≠ []) (hf : x.IsWithin f)
    (he : ∀ a : Assembly, a.IsInside f.opened.length → a.LeadsBy e (·.IsInside f.opened.length)) :
  x.Leaves (f.emit e)
  := leaves_of_ne hne (hf.emit he)

theorem comment_takes {text : List Char} (htext : breaksComment text = false) :
  breaksComment (String.ofList (Text.unifyLines text)).toList = false
  := by
  rw [String.toList_ofList]
  exact breaksComment_unifyLines htext

/-- A step through content that is neither a section nor the replacement of an entity stays inside
the root, or ends it. -/
theorem step_leaves (hx : x.IsUndivided) (hne : f.opened ≠ []) (hf : x.IsWithin f) {c : Char}
    (hsection : c = '<' → ∀ cs, more ≠ '!' :: '[' :: cs)
    (hreplaced : c = '&' → x.replaced? more = none)
    (h : x.step expand c more f = .ok (g, rest)) :
  x.Leaves g
  := by
  cases step_moves h with
  | startTag begins => exact begins.leaves hx hf
  | endTag _ opened hbase => exact endTag_leaves hf opened hbase
  | comment found =>
      obtain ⟨_, _, hbreaks⟩ := Medium.comment_ok found
      exact emit_leaves hne hf fun a ha => ha.comment (comment_takes hbreaks)
  | cdata => exact absurd rfl (hsection rfl _)
  | instruction =>
      exact emit_leaves hne hf fun a ha =>
        Assembly.leadsBy_of_step rfl trivial (ha.addToSubset _)
  | characters => exact emit_leaves hne hf fun a ha => ha.characters _
  | kept => exact emit_leaves hne hf fun a ha => Assembly.leadsBy_of_step rfl trivial ha
  | replaced found =>
      rw [hreplaced rfl] at found
      cases found

/-! ### Content -/

/-- How the replacement of an entity is told inside the root: as many elements are open behind it as
before it. -/
def TellsInside (tell : Telling) : Prop :=
  ∀ name start f, f.opened ≠ [] → (Comes f.events fun a => a.IsInside f.opened.length) →
    Tells (tell name start f) fun g => g.opened.length = f.opened.length
      ∧ Comes g.events fun a => a.IsInside g.opened.length

/-- Content that is not markup of another kind goes on by a step. -/
theorem tells_step (hx : x.IsUndivided) (htell : TellsInside tell) (hne : f.opened ≠ [])
    (hf : x.IsWithin f) (c : Char) :
  Tells (x.stepTold expand tell c more f) fun (g, _) => x.Leaves g
  := by
  unfold stepTold
  split
  · obtain ⟨n, hn⟩ := Nat.exists_eq_succ_of_ne_zero (mt List.length_eq_zero_iff.mp hne)
    have hcomes := hf.comes
    rw [hn] at hcomes
    refine (tells_undelivered (P := fun _ => True) hf.comes fun _ _ => trivial).bind ?_
    rintro ⟨_, rest⟩ _
    refine (tells_section (hcomes.emit fun a ha => ha.sectionStart)).imp ?_
    rintro ⟨g, rest⟩ ⟨hopened, hended⟩
    have hg : g.opened = f.opened := hopened
    refine leaves_of_ne (hg ▸ hne) ⟨hg ▸ hf.base, ?_⟩
    rw [hg, hn]
    exact hended
  · split
    · rename_i name rest _
      refine (htell name _ f hne hf.comes).map ?_
      rintro g ⟨hlength, hcomes⟩
      refine leaves_of_ne ?_ ⟨hlength ▸ hf.base, hcomes⟩
      exact fun h => hne (List.length_eq_zero_iff.mp (hlength ▸ List.length_eq_zero_iff.mpr h))
    · rename_i hreplaced
      refine tells_undelivered hf.comes ?_
      rintro ⟨g, rest⟩ h
      exact step_leaves hx hne hf (fun h => absurd h (by decide)) (fun _ => hreplaced) h
  · rename_i hreference hsection
    refine tells_undelivered hf.comes ?_
    rintro ⟨g, rest⟩ h
    exact step_leaves hx hne hf (fun hc cs hmore => hsection cs hc hmore)
      (fun hc => absurd hc hreference) h

/-- What content leads to: the end of the root, or of a replacement text with the elements open that
were open around it. -/
def Ends (x : Surroundings) (g : Flow) : Prop :=
  if x.base = 0 then Comes g.events IsDone
  else g.opened.length = x.base ∧ Comes g.events fun a => a.IsInside g.opened.length

theorem finish_ends {here : List Char} (hf : x.IsWithin f)
    (h : x.finish f here = .ok (g, rest)) :
  x.Ends g
  := by
  obtain ⟨rfl, hbase, hlength⟩ := finish_ok h
  rw [Ends, if_neg hbase]
  exact ⟨hlength, hf.comes⟩

/-- Content inside the root is handled up to its end, or up to a failure. -/
theorem tells_content (hx : x.IsUndivided) (htell : TellsInside tell) {fuel : Nat}
    (hne : f.opened ≠ []) (hf : x.IsWithin f) :
  Tells (x.contentTold expand tell fuel cs f) fun (g, _) => x.Ends g
  := by
  induction fuel generalizing cs f with
  | zero => exact hf.comes.handled
  | succ fuel ih =>
      cases cs with
      | nil =>
          rw [contentTold]
          · refine tells_undelivered hf.comes ?_
            rintro ⟨g, rest⟩ h
            exact finish_ends hf h
          · simp
      | cons c more =>
          rw [contentTold]
          refine (tells_step hx htell hne hf c).bind ?_
          rintro ⟨g, rest⟩ hg
          rcases leaves_cases hg with ⟨hempty, hbase, hdone⟩ | ⟨hopen, hne, hg⟩
          · simpa only [hempty, if_true, Tells, Ends, if_pos hbase] using hdone
          · simpa only [hopen, Bool.false_eq_true, if_false] using ih hne hg

end Surroundings

/-! ### Replacement texts and the root -/

open Surroundings (IsUndivided IsWithin Leaves Ends TellsInside)

/-- Replacement texts are handled inside the root. -/
theorem tellsInside_expandTold {x : Surroundings} (hx : x.IsUndivided) (level : Nat)
    (opened : List (List Char)) :
  TellsInside (expandTold x level opened)
  := by
  induction level generalizing opened with
  | zero => exact fun name start f _ hf => hf.handled
  | succ level ih =>
      intro name start f hne hf
      rcases hentity : x.declarations.entity? name with _ | (text | _ | _)
      · simp only [expandTold, hentity]
        exact hf.handled
      · simp only [expandTold, hentity]
        split_ifs
        · exact hf.handled
        · exact hf.handled
        · let inner := x.within (x.account (start.drop (name.length + 2))) (name :: opened)
            f.opened.length
          have hinner : inner.IsUndivided := ⟨hx.divides, hx.separator⟩
          let begun : Flow := { f with spent := f.spent + octetCount text }
          have hwithin : inner.IsWithin begun := ⟨Nat.le_refl _, hf⟩
          have hbase : inner.base ≠ 0 := mt List.length_eq_zero_iff.mp hne
          have hcontent : Tells (inner.contentTold (expandAt x level (name :: opened))
              (expandTold x level (name :: opened)) (text.length + 1) text begun)
              fun (g, _) => inner.Ends g :=
            Surroundings.tells_content hinner (ih (name :: opened)) hne hwithin
          revert hcontent
          cases inner.contentTold (expandAt x level (name :: opened))
              (expandTold x level (name :: opened)) (text.length + 1) text begun with
          | error halt => exact id
          | ok found =>
              intro hends
              have hinside : inner.Ends found.1 := hends
              rw [Ends, if_neg hbase] at hinside
              exact hinside
      · simp only [expandTold, hentity]
        exact hf.handled
      · simp only [expandTold, hentity]
        exact hf.handled

/-- Where the root begins stands an opening bracket, and no other markup behind it. -/
theorem token_root_ok {m : Medium} (hm : m.alphabet.divides = false)
    (hknown : 0x80 ≤ m.alphabet.known) {c : Char} {more rest : List Char}
    (h : m.token c more = .ok (.root, rest)) :
  c = '<' ∧ ∀ d ∈ more.head?, d ≠ '!' ∧ d ≠ '?' ∧ d ≠ '/'
  := by
  have hspells {rest : List Char} (h : Medium.Begins m.alphabet .root (c :: more) rest) : False := by
    obtain ⟨raw, _, hspells⟩ := h
    cases hspells
  unfold Medium.token at h
  split at h
  · cases h
  split at h
  · refine ⟨rfl, ?_⟩
    unfold Medium.markupToken at h
    split at h
    · simp
    · obtain ⟨raw, _, hspells⟩ := Medium.declarationToken_ok h
      cases hspells
    · obtain ⟨⟨⟨target, text⟩, rest'⟩, _, h⟩ := map_ok h
      dsimp only at h
      split_ifs at h <;> cases h
    · rename_i d _ hexclamation hquestion
      split_ifs at h with hopens
      simp only [List.head?_cons, Option.mem_def, Option.some.injEq, forall_eq']
      refine ⟨hexclamation, hquestion, ?_⟩
      rintro rfl
      have hslash : '/'.toNat < m.alphabet.known := Nat.lt_of_lt_of_le (by decide) hknown
      rw [Alphabet.opensElement, if_pos hslash] at hopens
      cases hopens
  · exact (hspells (Medium.literal_ok (.inl rfl) h)).elim
  · exact (hspells (Medium.literal_ok (.inr rfl) h)).elim
  · exact (hspells (Medium.percentToken_ok h)).elim
  · cases h
  · cases h
  · exact (hspells (Medium.bracketEnd_ok h)).elim
  · cases h
  · exact (hspells (Medium.groupEnd_ok h)).elim
  · cases h
  · cases h
  · exact (hspells (Medium.keywordToken_ok h)).elim
  · split_ifs at h
    · obtain ⟨ds, _, ⟨_, _, hform⟩ | ⟨_, _, _, _, hform⟩⟩ := Medium.nameLike_ok hm h <;> cases hform
    · obtain ⟨ds, _, ⟨_, _, hform⟩ | ⟨_, _, _, _, hform⟩⟩ := Medium.nameLike_ok hm h <;> cases hform

/-- The root element is handled up to its end, or up to a failure. -/
theorem tells_root {x : Surroundings} (hx : x.IsUndivided) (hbase : x.base = 0)
    (hknown : 0x80 ≤ x.medium.alphabet.known) {c : Char} {more cs : List Char}
    (hroot : x.medium.token c more = .ok (.root, cs)) {f : Flow} (hopened : f.opened = [])
    (hf : Comes f.events fun a => a.IsInside 0) (level : Nat) :
  Tells (x.contentTold (expandAt x level []) (expandTold x level []) ((c :: more).length + 1)
      (c :: more) f) fun (g, _) => Comes g.events IsDone
  := by
  obtain ⟨rfl, hhead⟩ := token_root_ok hx.divides hknown hroot
  have hwithin : x.IsWithin f := ⟨hbase ▸ Nat.zero_le _, by rw [hopened]; exact hf⟩
  have hstep : x.stepTold (expandAt x level []) (expandTold x level []) '<' more f
      = undelivered f.events (x.markup ('<' :: more) more f) := by
    unfold Surroundings.stepTold
    split
    · exact absurd rfl (hhead '!' rfl).1
    · rename_i heq
      cases heq
    · rfl
  have hstart {g : Flow} {rest : List Char}
      (h : x.markup ('<' :: more) more f = .ok (g, rest)) : x.Leaves g := by
    have hmoves : x.Moves (expandAt x level []) f ('<' :: more) g rest :=
      Surroundings.markup_moves h
    exact (hmoves.begins hhead).leaves hx hwithin
  rw [Surroundings.contentTold, hstep]
  refine (tells_undelivered (P := fun found => x.Leaves found.1) hf ?_).bind ?_
  · rintro ⟨g, rest⟩ h
    exact hstart h
  · rintro ⟨g, rest⟩ hg
    rcases Surroundings.leaves_cases hg with ⟨hempty, _, hdone⟩ | ⟨hopen, hne, hg⟩
    · simpa only [hempty, if_true, Tells] using hdone
    · simp only [hopen, Bool.false_eq_true, if_false]
      refine (Surroundings.tells_content hx (tellsInside_expandTold hx level []) hne hg).imp ?_
      rintro ⟨g, rest⟩ hends
      simpa only [Ends, if_pos hbase] using hends

/-! ### Before the root -/

/-- A state before the root: a document type may still have its end, unless it has been read. -/
def Prolog.IsHandled (p : Prolog) : Prop :=
  Comes p.events fun a => a.IsBeforeRoot (p.stage ≠ .afterDoctype)

namespace Prolog

variable {m : Medium} {account : Account} {p q : Prolog} {t : Token} {raw cs : List Char}

/-- What the parts of a document type add: no event, or those at its start and at its end. -/
def Adds (p q : Prolog) : Prop :=
  q.events = p.events ∨ q.events = p.doctypeEvent true :: p.events
    ∨ (q.stage = .afterDoctype ∧ (q.events = .doctypeEnd :: p.events
      ∨ q.events = .doctypeEnd :: p.doctypeEvent false :: p.events))

theorem Leads.adds (h : p.Leads q) :
  p.Adds q
  := by
  cases h with
  | begins => exact .inl rfl
  | goesOn _ _ events => exact .inl events
  | opens => exact .inr (.inl rfl)
  | ends => exact .inr (.inr ⟨rfl, .inr rfl⟩)
  | closes => exact .inr (.inr ⟨rfl, .inl rfl⟩)

/-- A part of a document type adds what its parts add, and none comes behind the document type. -/
theorem partStep_adds (ht : ∀ value, t = .literal value → ∀ c ∈ value, isXmlChar c)
    (h : partStep m account p t cs = .ok q) :
  p.stage ≠ .afterDoctype ∧ p.Adds q
  := by
  cases hinner : p.stage.isInner with
  | true =>
      have hstage : p.stage ≠ .afterDoctype := by
        intro hafter
        rw [hafter] at hinner
        cases hinner
      rcases partStep_inner hinner ht h with ⟨_, _, rfl⟩ | hdeclares
      · exact ⟨hstage, .inl rfl⟩
      · exact ⟨hstage, .inl hdeclares.events⟩
  | false =>
      have hleads := partStep_leads hinner h
      exact ⟨hleads.stage_ne, hleads.adds⟩

theorem IsHandled.leaveBeginning (h : p.IsHandled) :
  p.leaveBeginning.IsHandled
  := by
  unfold Prolog.leaveBeginning
  split_ifs with hstage
  · exact Comes.imp h fun a ha => ⟨ha.toIsInside, fun _ => ha.doctype (by simp [hstage])⟩
  · exact h

theorem IsHandled.keepText (h : p.IsHandled) (raw : List Char) :
  (p.keepText raw).IsHandled
  := by
  unfold Prolog.keepText
  split_ifs
  · exact Comes.emit h fun a ha => Assembly.leadsBy_of_step rfl trivial (ha.addToSubset _)
  · exact h

theorem IsHandled.adds (h : p.IsHandled) (hstage : p.stage ≠ .afterDoctype) (hadds : p.Adds q) :
  q.IsHandled
  := by
  have hbefore : Comes p.events fun a => a.IsBeforeRoot True :=
    Comes.imp h fun a ha => ⟨ha.toIsInside, fun _ => ha.doctype hstage⟩
  have hstarted (hasSubset : Bool) :
      Comes (p.doctypeEvent hasSubset :: p.events) fun a => a.IsBeforeRoot True :=
    hbefore.emit fun a ha => ha.doctypeStart _ _ _ _
  rcases hadds with hevents | hevents | ⟨hafter, hevents | hevents⟩
  · rw [IsHandled, hevents]
    exact hbefore.imp fun a ha => ⟨ha.toIsInside, fun _ => ha.doctype trivial⟩
  · rw [IsHandled, hevents]
    exact (hstarted true).imp fun a ha => ⟨ha.toIsInside, fun _ => ha.doctype trivial⟩
  · rw [IsHandled, hevents]
    refine (hbefore.emit fun a ha => ha.doctypeEnd).imp fun a ha => ?_
    exact ⟨ha.toIsInside, fun h => absurd hafter h⟩
  · rw [IsHandled, hevents]
    refine ((hstarted false).emit fun a ha => ha.doctypeEnd).imp fun a ha => ?_
    exact ⟨ha.toIsInside, fun h => absurd hafter h⟩

/-- A token before the root is handled. -/
theorem IsHandled.step (h : p.IsHandled)
    (hcomment : ∀ text, t = .comment text → breaksComment text = false)
    (ht : ∀ value, t = .literal value → ∀ c ∈ value, isXmlChar c)
    (hstep : p.step m account t raw cs = .ok q) :
  q.IsHandled
  := by
  rcases step_ok hstep with ⟨_, rfl⟩ | ⟨text, htext, _, rfl⟩ | ⟨target, text, _, _, rfl⟩
    | ⟨next, _, hnext, rfl⟩
  · exact h.leaveBeginning.keepText raw
  · exact Comes.emit h.leaveBeginning fun a ha =>
      ha.comment (Surroundings.comment_takes (hcomment text htext))
  · exact Comes.emit h.leaveBeginning fun a ha =>
      Assembly.leadsBy_of_step rfl trivial (ha.addToSubset _)
  · obtain ⟨hstage, hadds⟩ := partStep_adds ht hnext
    split_ifs
    · exact (h.adds hstage hadds).keepText raw
    · exact h.adds hstage hadds

end Prolog

/-- Comments and literals take no half unit along. -/
theorem Token.eq_of_halved {t u : Token}
    (hu : (∃ text, u = .comment text) ∨ ∃ value, u = .literal value) (h : t.halved = u) :
  t = u
  := by
  rcases hu with ⟨text, rfl⟩ | ⟨value, rfl⟩
  · cases t <;> first | exact h | cases h
  · cases t <;> first | exact h | cases h

/-- A comment that is spelled breaks nothing. -/
theorem breaksComment_of_spells {a : Alphabet} {t : Token} {raw : List Char} {next : Option Char}
    (h : Spells a t raw next) (text : List Char) (ht : t = .comment text) :
  breaksComment text = false
  := by
  subst ht
  cases h with
  | comment _ hbreaks => exact hbreaks

/-- A literal that is spelled consists of characters of documents. -/
theorem isXmlChar_of_spells {a : Alphabet} {t : Token} {raw : List Char} {next : Option Char}
    (h : Spells a t raw next) (value : List Char) (ht : t = .literal value) :
  ∀ c ∈ value, isXmlChar c
  := by
  subst ht
  cases h with
  | literal => assumption

/-- What stands before the root is handled up to the root, or up to a failure. -/
theorem tells_beforeRoot {m : Medium} (hm : m.alphabet.divides = false) {account : Account}
    {fuel : Nat} {cs : List Char} {p : Prolog} (hp : p.IsHandled) :
  Tells (beforeRootTold m account fuel cs p) fun (q, rest) =>
    q.IsHandled ∧ ∃ c more cs, rest = c :: more ∧ m.token c more = .ok (.root, cs)
  := by
  induction fuel generalizing m cs p with
  | zero => exact Comes.handled hp
  | succ fuel ih =>
      cases cs with
      | nil =>
          rw [beforeRootTold]
          · exact Comes.handled hp
          · simp
      | cons c more =>
          unfold beforeRootTold
          split
          · exact Comes.handled hp
          · rename_i rest htoken
            split_ifs
            · exact ⟨hp, c, more, rest, rfl, htoken⟩
            · exact Comes.handled hp
          · rename_i t rest hroot htoken
            obtain ⟨raw, _, hspells⟩ := (Medium.token_ok hm htoken).resolve_left hroot
            dsimp only
            refine (tells_undelivered (P := Prolog.IsHandled) hp ?_).bind ?_
            · intro q hq
              refine hp.step (fun text h => breaksComment_of_spells hspells text ?_)
                (fun value h => isXmlChar_of_spells hspells value ?_) hq
              · split_ifs at h
                · exact Token.eq_of_halved (.inl ⟨text, rfl⟩) h
                · exact h
              · split_ifs at h
                · exact Token.eq_of_halved (.inr ⟨value, rfl⟩) h
                · exact h
            · intro q hq
              split_ifs with hhalved
              · simp only [Bool.and_eq_true, decide_eq_true_eq] at hhalved
                rw [hhalved.1.1]
                cases fuel <;> exact Comes.handled hq
              · exact ih hm hq

/-! ### Behind the root, and whole markup -/

/-- What stands behind the root is handled up to the end, or up to a failure. -/
theorem tells_afterRoot {m : Medium} (hm : m.alphabet.divides = false) {fuel : Nat}
    {cs : List Char} {es : List Event} (hes : Comes es IsDone) :
  Tells (afterRootTold m fuel cs es) fun es => Comes es IsDone
  := by
  induction fuel generalizing cs es with
  | zero => exact hes
  | succ fuel ih =>
      cases cs with
      | nil =>
          unfold afterRootTold
          split_ifs
          · exact hes
          · exact hes.handled
      | cons c more =>
          unfold afterRootTold
          split
          · exact hes.handled
          · split_ifs
            · exact hes
            · exact ih hes
          · rename_i text rest htoken
            obtain ⟨raw, _, hspells⟩ := (Medium.token_ok hm htoken).resolve_left Token.noConfusion
            have hbreaks := breaksComment_of_spells hspells text rfl
            exact ih (hes.emit fun a ha => ha.comment (Surroundings.comment_takes hbreaks))
          · exact ih (hes.emit fun a ha =>
              Assembly.leadsBy_of_step rfl trivial (ha.addToSubset _))
          · exact hes.handled

/-- All events of markup are handled up to its end, where the root has been read, or up to a
failure. -/
theorem tells_whole {m : Medium} (hm : m.IsUsual) (account : Account) {p : Prolog}
    (hp : p.IsHandled) (cs : List Char) :
  Tells (wholeTold m {} account p cs) fun es => Comes es IsDone
  := by
  refine (tells_beforeRoot hm.divides hp).bind ?_
  rintro ⟨q, _⟩ ⟨hq, c, more, rest, rfl, htoken⟩
  let x : Surroundings := ⟨m, q.declarations, {}, account, 0, []⟩
  have hx : x.IsUndivided := ⟨hm.divides, rfl⟩
  refine (tells_root hx rfl hm.known htoken rfl (hq.imp fun a ha => ha.toIsInside) _).bind ?_
  rintro ⟨f, rest⟩ hf
  exact tells_afterRoot hm.divides hf

/-! ### Texts -/

theorem Position.line_le_after (p : Position) (cs : List Char) :
  p.line ≤ (p.after cs).line
  := by
  fun_induction Position.after p cs <;> simp_all <;> omega

/-- A failure is found in the first line or behind it. -/
theorem Script.refusal_located (s : Script) (f : Failure) :
  ∃ cause p, s.refusal f = .malformed cause p ∧ 1 ≤ p.line
  := ⟨f.1, s.position f.2, rfl, Position.line_le_after Position.start _⟩

/-- The state before the root is handled when a source has begun. -/
theorem begin_isHandled {s : Script}
    {switch : List Char → List Char → List Char → Except Unreadable (Script × List Char)}
    {b : Begun} (h : begin s switch = .ok b) :
  ({ b.prolog with types := none } : Prolog).IsHandled
  := by
  have hbare : ({} : Prolog).IsHandled := ⟨{}, .nil {}, Assembly.isInside_empty, fun _ => rfl⟩
  have hheading (h : Heading) : (afterHeading h).IsHandled :=
    have hnil : Comes [] _ := hbare
    hnil.emit fun a ha => Assembly.leadsBy_of_step rfl trivial
      ⟨⟨ha.opened, ha.spaces, ha.closed, ha.root⟩, fun _ => ha.doctype (by simp)⟩
  rcases begin_cases h with ⟨_, hprolog⟩ | ⟨_, _, heading, _, hprolog, _⟩
  · rw [hprolog]
    exact hbare
  · rw [hprolog]
    exact hheading heading

/-- A script that is kept can only be refused at a place in it. -/
theorem begin_keepScript_error {s s' : Script} {u : Unreadable}
    (h : begin s (keepScript s') = .error u) :
  ∃ f, u = s.refusal f
  := by
  unfold begin at h
  split at h
  · cases h
  · dsimp only at h
    split at h
    · cases h
      exact ⟨_, rfl⟩
    · split at h <;> cases h

/-- A text is a script that is kept, whatever encoding it declares. -/
theorem beginSource_eq_begin (t : String) :
  ∃ s s', beginSource {} (.text t) = begin s (keepScript s')
  := by
  simp only [beginSource]
  split
  · split
    · exact ⟨_, _, rfl⟩
    · exact ⟨_, _, rfl⟩
  · exact ⟨_, _, rfl⟩

end Reading

open Reading in
/-- Reading a text either gives a document with a root, or it reports what is malformed and where,
in the first line or behind it; nothing else can come out.  In both cases each event that was
delivered could be handled where it came. -/
theorem text_document_or_malformed (t : String) :
  ((∃ d, readDocument (.text t) = .ok d ∧ d.root?.isSome)
      ∨ ∃ cause p, readDocument (.text t) = .error (.unreadable (.malformed cause p))
          ∧ 1 ≤ p.line)
    ∧ (∀ es, events {} (.text t) = .ok es → delivered t = es)
    ∧ ∀ before e after, delivered t = before ++ e :: after →
        ∃ a, ({} : Assembly).run before = .ok a ∧ a.Takes e
  := by
  obtain ⟨s, s', hbegin⟩ := beginSource_eq_begin t
  cases hbegun : beginSource {} (.text t) with
  | error u =>
      obtain ⟨f, rfl⟩ := begin_keepScript_error (hbegin.symm.trans hbegun)
      obtain ⟨cause, p, hrefusal, hline⟩ := s.refusal_located f
      have hevents : events {} (.text t) = .error (s.refusal f) := by
        simp only [events, hbegun, bind, Except.bind]
      refine ⟨.inr ⟨cause, p, ?_, hline⟩, fun es h => delivered_of_events h, ?_⟩
      · simp only [readDocument, hevents, hrefusal, bind, Except.bind, Except.mapError]
      · intro before e after h
        simp [delivered, hbegun] at h
  | ok b =>
      have htold := tells_whole (beginSource_ok hbegun).1
        (b.script.medium.account (Source.text t).bytes.length)
        (begin_isHandled (hbegin.symm.trans hbegun)) b.rest
      have hevents : events {} (.text t) = ((forgetting (wholeTold b.script.medium {}
          (b.script.medium.account (Source.text t).bytes.length)
          { b.prolog with types := none } b.rest)).map List.reverse).mapError b.script.refusal := by
        rw [forgetting_wholeTold]
        simp only [events, hbegun, bind, Except.bind, Bool.false_eq_true, ite_false]
      -- what was handled up to some assembly was taken event by event
      have htakes {es : List Event} {P : Assembly → Prop} (hes : Comes es P)
          (hdelivered : delivered t = es.reverse) (before : List Event) (e : Event)
          (after : List Event) (h : delivered t = before ++ e :: after) :
          ∃ a, ({} : Assembly).run before = .ok a ∧ a.Takes e := by
        obtain ⟨a, ha, _⟩ := hes
        rw [← hdelivered, h] at ha
        exact ha.takes
      cases hwhole : wholeTold b.script.medium {}
          (b.script.medium.account (Source.text t).bytes.length) { b.prolog with types := none }
          b.rest with
      | error halt =>
          obtain ⟨f, es⟩ := halt
          rw [hwhole] at htold hevents
          obtain ⟨cause, p, hrefusal, hline⟩ := b.script.refusal_located f
          refine ⟨.inr ⟨cause, p, ?_, hline⟩, fun es h => delivered_of_events h, htakes htold ?_⟩
          · simp only [readDocument, hevents, hrefusal, forgetting_error, Except.map, bind,
              Except.bind, Except.mapError]
          · simp only [delivered, hbegun, hwhole]
      | ok es =>
          rw [hwhole] at htold hevents
          refine ⟨.inl ?_, fun es h => delivered_of_events h, htakes htold ?_⟩
          · obtain ⟨a, ha, hdone⟩ := htold
            refine ⟨a.document, ?_, hdone.root⟩
            simp only [readDocument, Document.ofEvents, hevents, forgetting_ok, Except.map, bind,
              Except.bind, Except.mapError, ha.run, hdone.root, ite_true]
          · simp only [delivered, hbegun, hwhole]

open Reading in
/-- A text that ends in a section inside an element, whose events up to there could be handled. -/
theorem text_of_open_section :
  readDocument (.text "<a b='1'><!--c-->&lt;<![CDATA[d")
      = .error (.unreadable (.malformed .unclosedCData ⟨1, 31⟩))
    ∧ (delivered "<a b='1'><!--c-->&lt;<![CDATA[d").length = 5
    ∧ ∀ before e after, delivered "<a b='1'><!--c-->&lt;<![CDATA[d" = before ++ e :: after →
        ∃ a, ({} : Assembly).run before = .ok a ∧ a.Takes e
  := ⟨rfl, rfl, (text_document_or_malformed _).2.2⟩

end XmlDraft
