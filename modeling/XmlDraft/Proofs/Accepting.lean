import XmlDraft.Proofs.Content
import XmlDraft.Proofs.Passing
import XmlDraft.Proofs.Writable
import XmlDraft.Reading.Content
import Mathlib.Data.List.TakeWhile

/-!
# Content that is accepted

Whatever stands inside the root of a source that a reader accepts, what its events put together
can be written: tags that were resolved, characters of documents, and comments and CDATA sections
that end where they should.  The same holds in replacement texts.  Main statement: content that
is read to its end adds only events that keep an assembly in the state in which everything in it
can be written.
-/

namespace XmlDraft

/-! ### Unified lines -/

namespace Text

theorem mem_of_mem_unifyLines {c : Char} {cs : List Char} (h : c ∈ unifyLines cs) :
  c ∈ cs ∨ c = '\n'
  := by
  induction cs using unifyLines.induct with
  | case1 cs ih =>
      rw [unifyLines, List.mem_cons] at h
      rcases h with rfl | h
      · exact .inr rfl
      · exact (ih h).imp_left fun h => List.mem_cons_of_mem _ (List.mem_cons_of_mem _ h)
  | case2 cs hnext ih =>
      rw [unifyLines_return hnext, List.mem_cons] at h
      rcases h with rfl | h
      · exact .inr rfl
      · exact (ih h).imp_left (List.mem_cons_of_mem _)
  | case3 d cs _ hreturn ih =>
      rw [unifyLines_cons hreturn, List.mem_cons] at h
      rcases h with rfl | h
      · exact .inl List.mem_cons_self
      · exact (ih h).imp_left (List.mem_cons_of_mem _)
  | case4 => cases h

end Text

/-! ### Comments and sections -/

theorem breaksComment_cons_eq_false {c : Char} {cs : List Char} :
  breaksComment (c :: cs) = false
    ↔ (c = '-' → ∃ d ds, cs = d :: ds ∧ d ≠ '-') ∧ breaksComment cs = false
  := by
  constructor
  · intro h
    have hnext : c = '-' → ∃ d ds, cs = d :: ds ∧ d ≠ '-' := by
      rintro rfl
      cases cs with
      | nil => cases h
      | cons d ds =>
          refine ⟨d, ds, rfl, ?_⟩
          rintro rfl
          cases h
    exact ⟨hnext, (Reading.Medium.breaksComment_cons hnext).symm.trans h⟩
  · rintro ⟨hnext, hcs⟩
    exact (Reading.Medium.breaksComment_cons hnext).trans hcs

/-- Unified ends of lines break no comment. -/
theorem breaksComment_unifyLines {cs : List Char} (h : breaksComment cs = false) :
  breaksComment (Text.unifyLines cs) = false
  := by
  induction cs using Text.unifyLines.induct with
  | case1 cs ih =>
      rw [breaksComment_cons_eq_false, breaksComment_cons_eq_false] at h
      rw [Text.unifyLines, breaksComment_cons_eq_false]
      exact ⟨fun h => absurd h (by decide), ih h.2.2⟩
  | case2 cs hnext ih =>
      rw [breaksComment_cons_eq_false] at h
      rw [Text.unifyLines_return hnext, breaksComment_cons_eq_false]
      exact ⟨fun h => absurd h (by decide), ih h.2⟩
  | case3 c cs _ hreturn ih =>
      rw [breaksComment_cons_eq_false] at h
      rw [Text.unifyLines_cons hreturn, breaksComment_cons_eq_false]
      refine ⟨fun hc => ?_, ih h.2⟩
      obtain ⟨d, ds, rfl, hd⟩ := h.1 hc
      cases hu : Text.unifyLines (d :: ds) with
      | nil => exact absurd hu (Text.unifyLines_ne (List.cons_ne_nil d ds))
      | cons e es =>
          refine ⟨e, es, rfl, ?_⟩
          rintro rfl
          obtain ⟨rest, heq, _⟩ := Text.cons_of_unifyLines hu (by decide)
          exact hd (List.head_eq_of_cons_eq heq)
  | case4 => exact h

namespace Writing

theorem cutSections_of_holdsNoEnd {cs : List Char} (h : HoldsNoEnd cs) :
  Node.cutSections cs = [cs]
  := by
  induction cs using Node.cutSections.induct with
  | case1 cs ih => exact absurd (List.prefix_append [']', ']', '>'] cs).isInfix h
  | case2 c cs hends ih =>
      rw [Node.cutSections, ih (holdsNoEnd_cons.mp h).2, List.modifyHead_cons]
      exact hends
  | case3 => rfl

/-- Unified ends of lines bring no end of a section into a text. -/
theorem holdsNoEnd_unifyLines {cs : List Char} (h : HoldsNoEnd cs) :
  HoldsNoEnd (Text.unifyLines cs)
  := by
  obtain ⟨first, others, hcut, _, hfirst, _⟩ := Node.cutSections_spec (Text.unifyLines cs)
  rw [Node.cutSections_unifyLines, cutSections_of_holdsNoEnd h, List.map_singleton,
    List.cons.injEq] at hcut
  exact hcut.1 ▸ hfirst

theorem holdsNoEnd_append (run : List Char) {cs : List Char} (hrun : ∀ c ∈ run, c ≠ ']')
    (h : HoldsNoEnd cs) :
  HoldsNoEnd (run ++ cs)
  := by
  induction run with
  | nil => exact h
  | cons c run ih =>
      rw [List.forall_mem_cons] at hrun
      rw [List.cons_append, holdsNoEnd_cons]
      refine ⟨?_, ih hrun.2⟩
      intro hprefix
      exact hrun.1 (List.cons_prefix_cons.mp hprefix).1.symm

end Writing

namespace Reading

/-! ### Events -/

/-- Events that keep an assembly in the state in which everything in it can be written. -/
def KeepSound (a : Alphabet) (d : Declarations) (es : List Event) : Prop :=
  ∀ (start : Document) (s s' : Assembly), s.IsSound a d start → s.run es = .ok s' →
    s'.IsSound a d start

/-- A reader went from one state to another one and added only events that keep assemblies
sound. -/
def Flow.Grows (a : Alphabet) (d : Declarations) (f g : Flow) : Prop :=
  ∃ es, g.events = es.reverse ++ f.events ∧ KeepSound a d es

section Growth

variable {a : Alphabet} {d : Declarations} {f g h : Flow} {e : Event}

theorem keepSound_nil :
  KeepSound a d []
  := by
  intro start s s' hs hrun
  cases hrun
  exact hs

theorem KeepSound.append {before after : List Event} (hbefore : KeepSound a d before)
    (hafter : KeepSound a d after) :
  KeepSound a d (before ++ after)
  := by
  intro start s s' hs hrun
  rw [Assembly.run_append] at hrun
  obtain ⟨mid, hmid, hrest⟩ := bind_ok hrun
  exact hafter start mid s' (hbefore start s mid hs hmid) hrest

theorem keepSound_single
    (h : ∀ (start : Document) (s s' : Assembly), s.IsSound a d start → s.step e = .ok s' →
      s'.IsSound a d start) :
  KeepSound a d [e]
  := by
  intro start s s' hs hrun
  obtain ⟨mid, hmid, hrest⟩ := bind_ok hrun
  cases hrest
  exact h start s s' hs hmid

theorem Flow.Grows.refl (hevents : g.events = f.events) :
  f.Grows a d g
  := ⟨[], hevents, keepSound_nil⟩

theorem Flow.Grows.trans (hfirst : f.Grows a d g) (hnext : g.Grows a d h) :
  f.Grows a d h
  := by
  obtain ⟨before, hbefore, hkeeps⟩ := hfirst
  obtain ⟨after, hafter, hkeeps'⟩ := hnext
  exact ⟨before ++ after, by simp [hbefore, hafter], hkeeps.append hkeeps'⟩

theorem Flow.Grows.of_event (hevents : g.events = e :: f.events) (h : KeepSound a d [e]) :
  f.Grows a d g
  := ⟨[e], hevents, h⟩

/-- Characters of documents can be added anywhere. -/
theorem keepSound_characters {cs : List Char} (hne : cs ≠ []) (hcs : ∀ c ∈ cs, isXmlChar c) :
  KeepSound a d [.characters cs]
  := by
  refine keepSound_single fun start s s' hs hstep => ?_
  cases hstep
  have htext : isCharText (String.ofList cs) := by
    rw [isCharText, String.toList_ofList, List.all_eq_true]
    exact fun c hc => isXmlChar_eq_isChar c ▸ hcs c hc
  exact hs.addCharacters htext (mt String.ofList_eq_empty_iff.mp hne)

theorem keepSound_comment {text : List Char} (hchars : ∀ c ∈ text, isXmlChar c)
    (hbreaks : breaksComment text = false) :
  KeepSound a d [commentEvent text]
  := by
  refine keepSound_single fun start s s' hs hstep => ?_
  have htext : isCharText (String.ofList (Text.unifyLines text)) := by
    rw [isCharText, String.toList_ofList, List.all_eq_true]
    intro c hc
    rw [← isXmlChar_eq_isChar]
    rcases Text.mem_of_mem_unifyLines hc with hc | rfl
    · exact hchars c hc
    · decide
  refine hs.addComment htext ?_ ?_ hstep
  · rw [String.toList_ofList]
    exact breaksComment_unifyLines hbreaks
  · rw [String.toList_ofList]
    exact Text.return_notMem_unifyLines text

theorem keepSound_instruction (raw target text : List Char) :
  KeepSound a d [instructionEvent raw target text]
  := by
  refine keepSound_single fun start s s' hs hstep => ?_
  cases hstep
  exact ⟨hs.opened, hs.spaces, hs.closed, hs.document⟩

theorem keepSound_unresolved (name : String) :
  KeepSound a d [.unresolved name]
  := by
  refine keepSound_single fun start s s' hs hstep => ?_
  cases hstep
  exact hs

theorem keepSound_finish :
  KeepSound a d [.finish]
  := keepSound_single fun _ _ _ hs hstep => hs.closeTag hstep

/-! ### Sections -/

/-- A whole section becomes a node, unless it is empty. -/
theorem keepSound_section {pieces : List (List Char)} (hchars : ∀ c ∈ pieces.flatten, isXmlChar c)
    (hend : Writing.HoldsNoEnd pieces.flatten)
    (hreturn : '\r' ∈ pieces.flatten → d.entities ≠ []) :
  KeepSound a d (.cdataStart :: (pieces.map .characters ++ [.cdataEnd]))
  := by
  intro start s s' hs hrun
  have hstart : s.step .cdataStart = .ok (Surroundings.inSection s []) := rfl
  have hsame : { Surroundings.inSection s pieces.flatten with openSection := none } = s := by
    rw [← hs.closed]
  rw [Assembly.run, hstart] at hrun
  simp only [bind, Except.bind] at hrun
  rw [Assembly.run_append, Surroundings.run_pieces] at hrun
  simp only [Except.bind, List.nil_append, Assembly.run, bind, Assembly.step,
    Assembly.closeSection] at hrun
  rw [hsame] at hrun
  obtain ⟨next, hnext, hdone⟩ := bind_ok hrun
  cases hdone
  split_ifs at hnext with hempty
  · cases hnext
    exact hs
  · have htext : isCharText (String.ofList pieces.flatten) := by
      rw [isCharText, String.toList_ofList, List.all_eq_true]
      exact fun c hc => isXmlChar_eq_isChar c ▸ hchars c hc
    refine hs.attach (n := .cdata (String.ofList pieces.flatten)) ⟨htext, hempty⟩ ?_ rfl hnext
    simpa [Node.nodes, Node.IsAsRead] using And.intro hend hreturn

end Growth

namespace Surroundings

/-! ### Surroundings -/

/-- Surroundings in which everything that is found can be written: their names are those of an
alphabet, in replacement texts as well, and what was declared consists of characters of
documents. -/
structure IsWhole (a : Alphabet) (x : Surroundings) : Prop where
  divides : x.medium.alphabet.divides = false
  names : ∀ name, IsPlainName x.medium.alphabet name → IsPlainName a name
  replaced : ∀ name, IsPlainName x.medium.replaced.alphabet name → IsPlainName a name
  separator : x.manner.separator = none
  chars : x.declarations.AreChars
  lines : x.medium.unifies ∨ x.declarations.entities ≠ []

variable {x : Surroundings} {a : Alphabet} {cs rest : List Char} {f g : Flow}

/-- The text of a section as its pieces give it. -/
def sectionLines (x : Surroundings) (raw : List Char) : List Char :=
  if x.medium.unifies then Text.unifyLines raw else raw

/-- A piece of a section takes characters whose lines are the piece, and adds no end to what stands
between it and the end. -/
theorem sectionPiece_ok {piece : List Char} (h : x.sectionPiece cs = .ok (some piece, rest)) :
  ∃ raw, cs = raw ++ rest ∧ (∀ c ∈ raw, isXmlChar c)
    ∧ ∀ others after, rest = others ++ ']' :: ']' :: '>' :: after →
        x.sectionLines (raw ++ others) = piece ++ x.sectionLines others
          ∧ (Writing.HoldsNoEnd others → Writing.HoldsNoEnd (raw ++ others))
  := by
  unfold sectionPiece at h
  split at h
  · split at h <;> cases h
  · cases h
  · next more hend =>
      split_ifs at h
      cases h
      refine ⟨[']'], rfl, List.forall_mem_singleton.mpr (by decide),
        fun others after hafter => ⟨?_, ?_⟩⟩
      · rw [List.singleton_append, sectionLines, sectionLines, Text.unifyLines_cons (by decide)]
        split_ifs <;> rfl
      · intro hholds
        rw [List.singleton_append, Writing.holdsNoEnd_cons]
        refine ⟨?_, hholds⟩
        rintro ⟨more, hmore⟩
        rw [List.cons_append, List.cons_append, List.cons_append, List.nil_append,
          List.cons.injEq] at hmore
        refine hend (more ++ ']' :: ']' :: '>' :: after) ?_
        rw [hafter, ← hmore.2]
        rfl
  · next more _ =>
      have hreturn : ∀ c ∈ ['\r'], isXmlChar c := List.forall_mem_singleton.mpr (by decide)
      have hfeed : ∀ c ∈ ['\n'], isXmlChar c := List.forall_mem_singleton.mpr (by decide)
      have hkept {others : List Char} (hholds : Writing.HoldsNoEnd others) :
          Writing.HoldsNoEnd (['\r'] ++ others) := Writing.holdsNoEnd_append _ (by simp) hholds
      split_ifs at h with hunifies
      · cases h
        refine ⟨['\r'], rfl, hreturn, fun others _ _ => ⟨?_, hkept⟩⟩
        rw [Bool.not_eq_true'] at hunifies
        simp [sectionLines, hunifies]
      · rw [Bool.not_eq_true', Bool.not_eq_false] at hunifies
        split at h
        · cases h
          refine ⟨['\r', '\n'], rfl, List.forall_mem_cons.mpr ⟨by decide, hfeed⟩,
            fun others _ _ => ⟨?_, ?_⟩⟩
          · simp [sectionLines, hunifies, Text.unifyLines_pair]
          · exact Writing.holdsNoEnd_append _ (by simp)
        · next hnone =>
            split_ifs at h
            cases h
            refine ⟨['\r'], rfl, hreturn, fun others after hafter => ⟨?_, hkept⟩⟩
            have hnext : ∀ more, others ≠ '\n' :: more := by
              rintro more rfl
              exact hnone _ hafter
            simp [sectionLines, hunifies, Text.unifyLines_return hnext]
  · next c more _ _ _ =>
      split_ifs at h with hc
      cases h
      have hrun : ∀ d ∈ c :: more.takeWhile isSectionChar, isXmlChar d ∧ d ≠ ']' ∧ d ≠ '\r' := by
        intro d hd
        have hkind : isSectionChar d := by
          rcases List.mem_cons.mp hd with rfl | hd
          · exact hc
          · exact List.mem_takeWhile_imp hd
        simp only [isSectionChar, Bool.and_eq_true, decide_eq_true_eq] at hkind
        exact ⟨hkind.1.1, hkind.1.2, hkind.2⟩
      refine ⟨c :: more.takeWhile isSectionChar, ?_, fun d hd => (hrun d hd).1,
        fun others _ _ => ⟨?_, Writing.holdsNoEnd_append _ fun d hd => (hrun d hd).2.1⟩⟩
      · rw [List.cons_append, List.takeWhile_append_dropWhile]
      · have hkept : '\r' ∉ c :: more.takeWhile isSectionChar := fun hd => (hrun _ hd).2.2 rfl
        rw [sectionLines, sectionLines, Text.unifyLines_append hkept]
        split_ifs <;> rfl

theorem sectionPiece_end (h : x.sectionPiece cs = .ok (none, rest)) :
  cs = ']' :: ']' :: '>' :: rest
  := by
  unfold sectionPiece at h
  split at h
  · split at h <;> cases h
  · cases h
    rfl
  · split_ifs at h
    cases h
  · split_ifs at h
    · cases h
    · split at h
      · cases h
      · split_ifs at h
        cases h
  · split_ifs at h
    cases h

/-- A section ends at the first end of one. -/
theorem sectionBody_ok {fuel : Nat} (h : x.sectionBody fuel cs f = .ok (g, rest)) :
  ∃ (raw : List Char) (pieces : List (List Char)), cs = raw ++ ']' :: ']' :: '>' :: rest
    ∧ g.events = .cdataEnd :: ((pieces.map .characters).reverse ++ f.events)
    ∧ pieces.flatten = x.sectionLines raw ∧ Writing.HoldsNoEnd raw ∧ ∀ c ∈ raw, isXmlChar c
  := by
  induction fuel generalizing cs f with
  | zero => cases h
  | succ fuel ih =>
      rw [sectionBody_succ] at h
      obtain ⟨⟨piece?, more⟩, hpiece, h⟩ := bind_ok h
      cases piece? with
      | none =>
          cases h
          refine ⟨[], [], sectionPiece_end hpiece, rfl, ?_, ?_, by simp⟩
          · simp [sectionLines, Text.unifyLines]
          · simp [Writing.HoldsNoEnd]
      | some piece =>
          obtain ⟨taken, hcs, htaken, hjoins⟩ := sectionPiece_ok hpiece
          obtain ⟨raw, pieces, hmore, hevents, hlines, hholds, hchars⟩ := ih h
          obtain ⟨hjoined, hheld⟩ := hjoins raw rest hmore
          refine ⟨taken ++ raw, piece :: pieces, ?_, by simpa [Flow.emit] using hevents, ?_,
            hheld hholds, List.forall_mem_append.mpr ⟨htaken, hchars⟩⟩
          · rw [hcs, hmore, List.append_assoc]
          · rw [List.flatten_cons, hlines, hjoined]

/-! ### Markup in content -/

theorem IsWhole.read (hx : x.IsWhole a) {element : List Char} {p : List Char × List Char}
    (h : IsRead x.medium.alphabet x.declarations element p) :
  IsRead a x.declarations element p
  := ⟨hx.names p.1 h.name, h.value, h.typed⟩

/-- The lines of a section are characters of documents, without carriage returns unless entities
were declared. -/
theorem IsWhole.sectionLines (hx : x.IsWhole a) {raw : List Char}
    (hchars : ∀ c ∈ raw, isXmlChar c) (hholds : Writing.HoldsNoEnd raw) :
  (∀ c ∈ x.sectionLines raw, isXmlChar c) ∧ Writing.HoldsNoEnd (x.sectionLines raw)
    ∧ ('\r' ∈ x.sectionLines raw → x.declarations.entities ≠ [])
  := by
  unfold Surroundings.sectionLines
  split_ifs with hunifies
  · refine ⟨?_, Writing.holdsNoEnd_unifyLines hholds,
      fun h => absurd h (Text.return_notMem_unifyLines raw)⟩
    intro c hc
    rcases Text.mem_of_mem_unifyLines hc with hc | rfl
    · exact hchars c hc
    · decide
  · exact ⟨hchars, hholds, fun _ => hx.lines.resolve_left hunifies⟩

theorem Begins.grows (hx : x.IsWhole a) {start : List Char} (h : x.Begins start cs f g rest) :
  f.Grows a x.declarations g
  := by
  have hstart {raw : RawTag} {tag : Tag} {scope : Scope} {spent : Nat} {rest : List Char}
      (found : x.medium.startTag cs = .ok (raw, rest))
      (resolved : resolveTag x.medium x.declarations x.replacing x.manner.separator
        (x.account rest) start f.scope f.spent raw = .ok (tag, scope, spent)) :
      KeepSound a x.declarations [.start tag] := by
    obtain ⟨hname, hattributes⟩ := Medium.startTag_ok hx.divides found
    rw [hx.separator] at resolved
    obtain ⟨parts, hlabel, hgiven, hnodup, hread⟩ := resolveTag_ok hx.chars hattributes resolved
    exact keepSound_single fun start s s' hs hstep =>
      hs.openTag hlabel hgiven (hx.names _ hname) hnodup (fun p hp => hx.read (hread p hp)) hstep
  cases h with
  | opens found resolved => exact .of_event rfl (hstart found resolved)
  | whole found resolved =>
      exact ⟨_, rfl, (hstart found resolved).append keepSound_finish⟩

/-- A way to expand references that adds only what can be written. -/
def ExpandsSoundly (x : Surroundings) (a : Alphabet) (expand : Expanding) : Prop :=
  ∀ name start f g, expand name start f = .ok g → f.Grows a x.declarations g

variable {expand : Expanding}

/-- A step through content adds only what can be written. -/
theorem Moves.grows (hx : x.IsWhole a) (hexpand : x.ExpandsSoundly a expand)
    (h : x.Moves expand f cs g rest) :
  f.Grows a x.declarations g
  := by
  cases h with
  | startTag begins => exact begins.grows hx
  | endTag => exact .of_event rfl keepSound_finish
  | comment found =>
      obtain ⟨_, hchars, hbreaks⟩ := Medium.comment_ok found
      exact .of_event rfl (keepSound_comment hchars hbreaks)
  | cdata body =>
      obtain ⟨raw, pieces, _, hevents, hlines, hholds, hchars⟩ := sectionBody_ok body
      obtain ⟨hchars', hholds', hreturn⟩ := hx.sectionLines hchars hholds
      rw [← hlines] at hchars' hholds' hreturn
      exact ⟨_, by simpa [Flow.emit] using hevents, keepSound_section hchars' hholds' hreturn⟩
  | instruction raw => exact .of_event rfl (keepSound_instruction raw _ _)
  | characters _ _ hds => exact .of_event rfl (keepSound_characters (List.cons_ne_nil _ _) hds)
  | kept name => exact .of_event rfl (keepSound_unresolved _)
  | replaced _ expands => exact hexpand _ _ _ _ expands

/-- Content that is read to its end adds only what can be written. -/
theorem content_grows (hx : x.IsWhole a) (hexpand : x.ExpandsSoundly a expand) {fuel : Nat}
    (h : x.content expand fuel cs f = .ok (g, rest)) :
  f.Grows a x.declarations g
  := by
  have hends := content_leads (P := f.Grows a x.declarations) (Q := f.Grows a x.declarations)
    (fun hf hmoves => hf.trans (hmoves.grows hx hexpand)) (fun hg _ => hg) (.refl rfl) h
  exact hends.elim And.left And.left

/-! ### Replacement texts -/

/-- Replacement texts are read in surroundings of the same kind. -/
theorem IsWhole.within (hx : x.IsWhole a) (hentities : x.declarations.entities ≠ [])
    (direct : Option Nat) (opened : List (List Char)) (base : Nat) :
  (x.within direct opened base).IsWhole a
  where
    divides := hx.divides
    names := hx.replaced
    replaced := hx.replaced
    separator := hx.separator
    chars := hx.chars
    lines := .inr hentities

theorem expandAt_grows (hx : x.IsWhole a) (level : Nat) (opened : List (List Char)) :
  x.ExpandsSoundly a (expandAt x level opened)
  := by
  induction level generalizing opened with
  | zero =>
      intro name start f g h
      cases h
  | succ level ih =>
      intro name start f g h
      obtain ⟨text, direct, rest, htext, hcontent⟩ := expandAt_ok h
      have hentities : x.declarations.entities ≠ [] := by
        intro hnil
        rw [Declarations.entity?, hnil] at htext
        cases htext
      have hinner := hx.within hentities direct (name :: opened) f.opened.length
      have hgrows := content_grows hinner (ih (name :: opened)) hcontent
      exact .trans (.refl rfl) hgrows

/-- The root element adds only what can be written. -/
theorem rootElement_grows (hx : x.IsWhole a) (h : x.rootElement cs f = .ok (g, rest)) :
  f.Grows a x.declarations g
  := content_grows hx (expandAt_grows hx _ []) h

end Surroundings

end Reading

end XmlDraft
