import XmlDraft.Proofs.Assembling
import XmlDraft.Proofs.LineEnds
import XmlDraft.Reading.Content

/-!
# Passing through content

A reader comes through content step by step, and the events of each step take what was put
together so far a little further.  Character data is read in runs and with its references, a
CDATA section piece by piece.  Main statement: escaped text, a CDATA section and a comment are
each read to their end, whatever follows and whatever names are made of, and their ends of lines
are unified.
-/

namespace XmlDraft

namespace Reading

open Assembly (Yields pushText pushNode)

namespace Surroundings

/-- Surroundings in which nothing is being replaced, as they are when a source is read that was
written. -/
structure IsPlain (x : Surroundings) : Prop where
  medium : x.medium.IsIntact
  separator : x.manner.separator = none
  base : x.base = 0

/-! ### Passing through content -/

/-- A reader comes from one state through content to another one; it stops there if no element
is open any more. -/
def Passes (x : Surroundings) (expand : Expanding) (cs : List Char) (f : Flow)
    (rest : List Char) (g : Flow) : Prop :=
  ∃ steps, steps + rest.length ≤ cs.length ∧ ∀ fuel,
    x.content expand (steps + fuel) cs f
      = if g.opened.isEmpty then .ok (g, rest) else x.content expand fuel rest g

variable {x : Surroundings} {expand : Expanding} {f g h : Flow} {cs mid rest : List Char}

theorem Passes.refl (hf : f.opened ≠ []) :
  x.Passes expand cs f cs f
  := by
  refine ⟨0, by simp, ?_⟩
  intro fuel
  simp [hf]

theorem Passes.trans (hfirst : x.Passes expand cs f mid g) (hg : g.opened ≠ [])
    (hnext : x.Passes expand mid g rest h) :
  x.Passes expand cs f rest h
  := by
  obtain ⟨before, hbefore, hpass⟩ := hfirst
  obtain ⟨after, hafter, hpass'⟩ := hnext
  refine ⟨before + after, by omega, ?_⟩
  intro fuel
  rw [Nat.add_assoc, hpass, if_neg (by simpa using hg), hpass']

theorem Passes.of_step {c : Char} {more : List Char} (hrest : rest.length ≤ more.length)
    (hstep : x.step expand c more f = .ok (g, rest)) :
  x.Passes expand (c :: more) f rest g
  := by
  refine ⟨1, by rw [List.length_cons]; omega, ?_⟩
  intro fuel
  rw [Nat.add_comm, content, hstep]
  rfl

/-- Inside an element, where there is a default namespace or none, content is read up to some place,
and gives events. -/
def Emits (x : Surroundings) (expand : Expanding) (space : Option String) (cs rest : List Char)
    (es : List Event) : Prop :=
  ∀ f : Flow, f.opened ≠ [] → f.scope.HasDefault space →
    x.Passes expand cs f rest { f with events := es.reverse ++ f.events }

variable {space : Option String} {es es' : List Event}

theorem Emits.nil (cs : List Char) :
  x.Emits expand space cs cs []
  := fun _ hf _ => .refl hf

theorem Emits.append (hfirst : x.Emits expand space cs mid es)
    (hnext : x.Emits expand space mid rest es') :
  x.Emits expand space cs rest (es ++ es')
  := by
  intro f hf hspace
  have hthen := hnext { f with events := es.reverse ++ f.events } hf hspace
  rw [← List.append_assoc, ← List.reverse_append] at hthen
  exact (hfirst f hf hspace).trans hf hthen

theorem Emits.of_step {d : Char} {more : List Char} {e : Event} (hrest : rest.length ≤ more.length)
    (hstep : ∀ f, x.step expand d more f = .ok (f.emit e, rest)) :
  x.Emits expand space (d :: more) rest [e]
  := fun f _ _ => .of_step hrest (hstep f)

/-- Inside an element, content is read up to some place, and its events take one assembly to
another one. -/
def Reads (x : Surroundings) (expand : Expanding) (cs rest : List Char) (a b : Assembly) : Prop :=
  ∀ f : Flow, f.opened ≠ [] → Yields f.events a →
    ∃ es, x.Passes expand cs f rest { f with events := es } ∧ Yields es b

variable {a b c : Assembly}

theorem Reads.refl (cs : List Char) (a : Assembly) :
  x.Reads expand cs cs a a
  := fun f hf hyields => ⟨f.events, .refl hf, hyields⟩

theorem Reads.trans (hfirst : x.Reads expand cs mid a b) (hnext : x.Reads expand mid rest b c) :
  x.Reads expand cs rest a c
  := by
  intro f hf hyields
  obtain ⟨es, hpass, hes⟩ := hfirst f hf hyields
  obtain ⟨es', hpass', hes'⟩ := hnext { f with events := es } hf hes
  exact ⟨es', hpass.trans hf hpass', hes'⟩

/-- A step that gives one event is read as far as the event can be taken. -/
theorem Reads.of_step {d : Char} {more : List Char} {e : Event}
    (hrest : rest.length ≤ more.length)
    (hstep : ∀ f, x.step expand d more f = .ok (f.emit e, rest)) (he : a.step e = .ok b) :
  x.Reads expand (d :: more) rest a b
  := fun f _ hyields => ⟨e :: f.events, .of_step hrest (hstep f), hyields.emit he⟩

/-- Content is read as far as the events that it gives can be taken, whatever namespace is around
it. -/
theorem Reads.of_emits
    (h : ∀ space, ∃ es, x.Emits expand space cs rest es ∧ a.run es = .ok b) :
  x.Reads expand cs rest a b
  := by
  intro f hf hyields
  obtain ⟨space, hspace⟩ := f.scope.exists_hasDefault
  obtain ⟨es, hemits, hrun⟩ := h space
  exact ⟨es.reverse ++ f.events, hemits f hf hspace, hyields.append hrun⟩

/-! ### Character data -/

/-- The characters that are written as they are and read in runs. -/
def isRunChar (c : Char) : Bool :=
  isDataChar c && c ≠ '>'

theorem textEscape_runChar {c : Char} (h : isRunChar c) :
  Writing.textEscape c = [c]
  := by
  simp only [isRunChar, isDataChar, Bool.and_eq_true, decide_eq_true_eq] at h
  obtain ⟨⟨⟨⟨⟨_, hless⟩, hamp⟩, hreturn⟩, _⟩, hgreater⟩ := h
  simp [Writing.textEscape, hless, hamp, hreturn, hgreater]

/-- A character that is not read in runs is a bracket, or it is written as a reference. -/
theorem textEscape_otherChar {c : Char} (hchar : isXmlChar c) (h : isRunChar c = false) :
  c = ']' ∨ ∃ body, Writing.textEscape c = '&' :: body ∧ IsReferenceTo c body
  := by
  rcases textEscape_cases c with ⟨_, hamp, hless, hgreater, hreturn⟩ | href
  · left
    simpa [isRunChar, isDataChar, hchar, hamp, hless, hgreater, hreturn] using h
  · exact .inr href

theorem escapeText_runChars {cs : List Char} (h : ∀ c ∈ cs, isRunChar c) :
  Writing.escapeText cs = cs
  := by
  induction cs with
  | nil => rfl
  | cons c cs ih =>
      rw [List.forall_mem_cons] at h
      have hrest := ih h.2
      simp only [Writing.escapeText, List.flatMap_cons] at hrest ⊢
      rw [hrest, textEscape_runChar h.1]
      rfl

/-- Escaped text before a bracket of markup begins with no angle that ends one. -/
theorem escapeText_ne_greater (cs more : List Char) :
  ∀ rest, Writing.escapeText cs ++ '<' :: more ≠ '>' :: rest
  := by
  intro rest
  cases cs with
  | nil => simp [Writing.escapeText]
  | cons c cs =>
      simp only [Writing.escapeText, List.flatMap_cons]
      rcases textEscape_cases c with ⟨heq, _, _, hgreater, _⟩ | ⟨body, heq, _⟩
      · simp [heq, hgreater]
      · simp [heq]

/-- Escaped text holds no end of a CDATA section. -/
theorem escapeText_ne_end (cs more : List Char) :
  ∀ rest, Writing.escapeText cs ++ '<' :: more ≠ ']' :: '>' :: rest
  := by
  intro rest
  cases cs with
  | nil => simp [Writing.escapeText]
  | cons c cs =>
      have hnext := escapeText_ne_greater cs more rest
      simp only [Writing.escapeText, List.flatMap_cons] at hnext ⊢
      rcases textEscape_cases c with ⟨heq, _⟩ | ⟨body, heq, _⟩
      · rw [heq, List.singleton_append, List.cons_append]
        exact fun h => hnext (List.tail_eq_of_cons_eq h)
      · simp [heq]

/-- A run of character data is read at once. -/
theorem step_runChars {d : Char} {run : List Char} (hd : isRunChar d)
    (hrun : ∀ c ∈ run, isRunChar c) (hstop : rest.head?.all fun c => !isDataChar c) (f : Flow) :
  x.step expand d (run ++ rest) f = .ok (f.emit (.characters (d :: run)), rest)
  := by
  have hdata (c : Char) (hc : isRunChar c) : isDataChar c := by
    rw [isRunChar, Bool.and_eq_true] at hc
    exact hc.1
  obtain ⟨htake, hdrop⟩ := run_append (fun c hc => hdata c (hrun c hc)) hstop
  have hother := hdata d hd
  simp only [isDataChar, Bool.and_eq_true, decide_eq_true_eq] at hother
  obtain ⟨⟨⟨⟨_, hless⟩, hamp⟩, hreturn⟩, hbracket⟩ := hother
  unfold step
  split
  · exact absurd rfl hless
  · exact absurd rfl hamp
  · exact absurd rfl hreturn
  · exact absurd rfl hbracket
  · rw [if_pos (hdata d hd), htake, hdrop]

theorem step_bracket (hm : x.medium.IsSettled) {more : List Char}
    (hmore : ∀ rest, more ≠ ']' :: '>' :: rest) (f : Flow) :
  x.step expand ']' more f = .ok (f.emit (.characters [']']), more)
  := by
  have hend : x.medium.ending = .clean := hm.ending
  have hragged : (x.medium.ending = .ragged && (more = [] || more = [']'])) = false := by
    rw [hend]
    rfl
  unfold step
  split
  case h_4 =>
    split
    · exact absurd rfl (hmore _)
    · rw [hragged]
      rfl
  all_goals contradiction

/-- A reference to a character is read as the character. -/
theorem step_reference {c : Char} {body : List Char} (h : IsReferenceTo c body)
    (rest : List Char) (f : Flow) :
  x.step expand '&' (body ++ rest) f = .ok (f.emit (.characters [c]), rest)
  := by
  obtain ⟨r, hr, hstands⟩ := h.found x.medium rest
  simp only [step, reference, hr, scanned, Except.mapError, bind, Except.bind]
  rcases hstands with rfl | ⟨name, rfl, hname⟩
  · rfl
  · simp only [named, hname]

/-- A run of character data ends where the escaped text goes on with another character, or with
markup. -/
theorem escapeText_stop {cs : List Char} (hcs : ∀ c ∈ cs, isXmlChar c)
    (hstop : cs.head?.all fun c => !isRunChar c) (more : List Char) :
  (Writing.escapeText cs ++ '<' :: more).head?.all fun c => !isDataChar c
  := by
  cases cs with
  | nil => exact (by decide : (!isDataChar '<') = true)
  | cons c cs =>
      rw [List.forall_mem_cons] at hcs
      simp only [Writing.escapeText, List.flatMap_cons]
      rcases textEscape_otherChar hcs.1 (by simpa using hstop) with rfl | ⟨body, hbody, _⟩
      · exact (by decide : (!isDataChar ']') = true)
      · rw [hbody]
        exact (by decide : (!isDataChar '&') = true)

/-- An element that is open, with character data behind its children. -/
abbrev withText (o : OpenElement) (cs : List Char) : OpenElement :=
  { o with children := pushText o.children cs }

theorem withText_withText (o : OpenElement) (before after : List Char) :
  withText (withText o before) after = withText o (before ++ after)
  := by
  simp only [withText, Assembly.pushText_append]

/-- Escaped text is read up to the markup behind it in pieces that are not empty. -/
theorem emits_escapeText (expand : Expanding) (hm : x.medium.IsSettled) (space : Option String)
    (cs more : List Char) (hcs : ∀ c ∈ cs, isXmlChar c) :
  ∃ pieces : List (List Char),
    x.Emits expand space (Writing.escapeText cs ++ '<' :: more) ('<' :: more)
        (pieces.map .characters)
      ∧ pieces.flatten = cs ∧ ∀ p ∈ pieces, p ≠ []
  := by
  match cs with
  | [] => exact ⟨[], .nil _, rfl, by simp⟩
  | c :: cs =>
      rw [List.forall_mem_cons] at hcs
      cases hc : isRunChar c with
      | true =>
          obtain ⟨run, others, hsplit, hrun, hstop⟩ := exists_run isRunChar cs
          subst hsplit
          rw [List.forall_mem_append] at hcs
          obtain ⟨pieces, hnext, hflatten, hne⟩ := emits_escapeText expand hm space others more hcs.2.2
          have hmarkup : Writing.escapeText (c :: (run ++ others)) ++ '<' :: more
              = c :: (run ++ (Writing.escapeText others ++ '<' :: more)) := by
            have hall : ∀ d ∈ c :: run, isRunChar d := List.forall_mem_cons.mpr ⟨hc, hrun⟩
            rw [← List.cons_append, Writing.escapeText_append, escapeText_runChars hall]
            simp
          refine ⟨(c :: run) :: pieces, ?_, by simp [hflatten],
            List.forall_mem_cons.mpr ⟨List.cons_ne_nil c run, hne⟩⟩
          rw [hmarkup]
          refine Emits.append (.of_step ?_ (step_runChars hc hrun ?_)) hnext
          · exact (List.suffix_append run _).length_le
          · exact escapeText_stop hcs.2.2 hstop more
      | false =>
          obtain ⟨pieces, hnext, hflatten, hne⟩ := emits_escapeText expand hm space cs more hcs.2
          have hmarkup : Writing.escapeText (c :: cs) ++ '<' :: more
              = Writing.textEscape c ++ (Writing.escapeText cs ++ '<' :: more) := by
            simp [Writing.escapeText]
          refine ⟨[c] :: pieces, ?_, by simp [hflatten],
            List.forall_mem_cons.mpr ⟨List.cons_ne_nil c [], hne⟩⟩
          rw [hmarkup]
          rcases textEscape_otherChar hcs.1 hc with rfl | ⟨body, hbody, href⟩
          · refine Emits.append (.of_step ?_ (step_bracket hm ?_)) hnext
            · exact Nat.le_refl _
            · exact escapeText_ne_end cs more
          · rw [hbody, List.cons_append]
            refine Emits.append (.of_step ?_ (step_reference href _)) hnext
            exact (List.suffix_append body _).length_le
termination_by cs.length

/-- Pieces of character data are joined to the text before them. -/
theorem run_characters {scope : Option String} (between : a.IsBetween scope) (o : OpenElement)
    (space : Option String) {pieces : List (List Char)} (hne : ∀ p ∈ pieces, p ≠ []) :
  (a.inside o space).run (pieces.map .characters)
    = .ok (a.inside (withText o pieces.flatten) space)
  := by
  induction pieces generalizing o with
  | nil => rfl
  | cons p ps ih =>
      obtain ⟨hp, hps⟩ := List.forall_mem_cons.mp hne
      rw [List.map_cons, Assembly.run, Assembly.step_characters between o space hp]
      simpa [bind, Except.bind, withText_withText] using ih (withText o p) hps

/-- Escaped text is read up to the markup behind it, and joined to the text before it. -/
theorem reads_escapeText (hx : x.IsPlain) {scope : Option String} (between : a.IsBetween scope)
    (o : OpenElement) (space : Option String) (cs more : List Char)
    (hcs : ∀ c ∈ cs, isXmlChar c) :
  x.Reads expand (Writing.escapeText cs ++ '<' :: more) ('<' :: more)
    (a.inside o space) (a.inside (withText o cs) space)
  := by
  refine .of_emits fun around => ?_
  obtain ⟨pieces, hemits, rfl, hne⟩ :=
    emits_escapeText expand hx.medium.isSettled around cs more hcs
  exact ⟨_, hemits, run_characters between o space hne⟩

/-! ### CDATA sections and comments -/

theorem section_ne_end {c : Char} {cs : List Char} (h : Writing.HoldsNoEnd (c :: cs))
    (more : List Char) :
  ∀ rest, c :: (cs ++ ']' :: ']' :: '>' :: more) ≠ ']' :: ']' :: '>' :: rest
  := by
  intro rest heq
  apply (Writing.holdsNoEnd_cons.mp h).1
  match cs with
  | [] => simp at heq
  | [d] => simp at heq
  | d :: e :: ds =>
      simp only [List.cons_append, List.cons.injEq] at heq
      obtain ⟨rfl, rfl, rfl, _⟩ := heq
      exact ⟨ds, rfl⟩

theorem holdsNoEnd_of_append {before after : List Char}
    (h : Writing.HoldsNoEnd (before ++ after)) :
  Writing.HoldsNoEnd after
  := fun hend => h (hend.trans (List.suffix_append before after).isInfix)

theorem sectionBody_bracket (fuel : Nat) {more : List Char}
    (hend : ∀ rest, ']' :: more ≠ ']' :: ']' :: '>' :: rest) (hlong : 1 < more.length) (f : Flow) :
  x.sectionBody (fuel + 1) (']' :: more) f
    = x.sectionBody fuel more (f.emit (.characters [']']))
  := by
  have hmore : more ≠ [] ∧ more ≠ [']'] := by
    constructor <;> rintro rfl <;> simp at hlong
  rw [sectionBody]
  · simp [hmore]
  · exact fun rest h => hend rest (congrArg _ h)

theorem sectionBody_returnFeed (hm : x.medium.IsSettled) (fuel : Nat) (more : List Char) (f : Flow) :
  x.sectionBody (fuel + 1) ('\r' :: '\n' :: more) f
    = x.sectionBody fuel more (f.emit (.characters ['\n']))
  := by
  have hunifies : x.medium.unifies = true := hm.unifies
  simp [sectionBody, hunifies]

theorem sectionBody_return (hm : x.medium.IsSettled) (fuel : Nat) {more : List Char}
    (hfeed : ∀ rest, more ≠ '\n' :: rest) (hmore : more ≠ []) (f : Flow) :
  x.sectionBody (fuel + 1) ('\r' :: more) f
    = x.sectionBody fuel more (f.emit (.characters ['\n']))
  := by
  have hunifies : x.medium.unifies = true := hm.unifies
  rw [sectionBody, hunifies]
  · simp [hmore]
  · exact hfeed

theorem sectionBody_run {c : Char} {run : List Char} (hc : isSectionChar c)
    (hrun : ∀ d ∈ run, isSectionChar d) (hstop : rest.head?.all fun d => !isSectionChar d)
    (fuel : Nat) (f : Flow) :
  x.sectionBody (fuel + 1) (c :: (run ++ rest)) f
    = x.sectionBody fuel rest (f.emit (.characters (c :: run)))
  := by
  obtain ⟨htake, hdrop⟩ := run_append hrun hstop
  have hother := hc
  simp only [isSectionChar, Bool.and_eq_true, decide_eq_true_eq] at hother
  rw [sectionBody]
  · rw [if_pos hc, htake, hdrop]
  · exact fun _ h => absurd h hother.1.2
  · exact hother.1.2
  · exact hother.2

/-- A CDATA section that holds no end of one is read to its end in pieces, with unified ends of
lines. -/
theorem sectionBody_append (hm : x.medium.IsSettled) (cs more : List Char)
    (hcs : ∀ c ∈ cs, isXmlChar c) (hend : Writing.HoldsNoEnd cs) (fuel : Nat)
    (hfuel : cs.length < fuel) :
  ∃ pieces : List (List Char), pieces.flatten = Text.unifyLines cs ∧ ∀ f : Flow,
    x.sectionBody fuel (cs ++ ']' :: ']' :: '>' :: more) f
      = .ok ({ f with events := .cdataEnd :: ((pieces.map .characters).reverse ++ f.events) }, more)
  := by
  induction fuel generalizing cs with
  | zero => exact absurd hfuel (Nat.not_lt_zero _)
  | succ fuel ih =>
      cases cs with
      | nil => exact ⟨[], by rw [Text.unifyLines]; rfl, fun f => by simp [sectionBody, Flow.emit]⟩
      | cons c cs =>
          rw [List.length_cons, Nat.add_lt_add_iff_right] at hfuel
          have hend' := (Writing.holdsNoEnd_cons.mp hend).2
          rw [List.forall_mem_cons] at hcs
          -- what is left once some characters have been read as others
          have hrest (run taken others : List Char) (hsplit : cs = taken ++ others)
              (hunify : Text.unifyLines (c :: cs) = run ++ Text.unifyLines others)
              (hread : ∀ f, x.sectionBody (fuel + 1) (c :: cs ++ ']' :: ']' :: '>' :: more) f
                = x.sectionBody fuel (others ++ ']' :: ']' :: '>' :: more)
                    (f.emit (.characters run))) :
              ∃ pieces : List (List Char), pieces.flatten = Text.unifyLines (c :: cs)
                ∧ ∀ f : Flow, x.sectionBody (fuel + 1) (c :: cs ++ ']' :: ']' :: '>' :: more) f
                  = .ok ({ f with
                      events := .cdataEnd :: ((pieces.map .characters).reverse ++ f.events) },
                    more) := by
            rw [hsplit, List.length_append] at hfuel
            rw [hsplit, List.forall_mem_append] at hcs
            rw [hsplit] at hend'
            obtain ⟨pieces, hflatten, hpieces⟩ := ih others hcs.2.2 (holdsNoEnd_of_append hend')
              (by omega)
            refine ⟨run :: pieces, by rw [List.flatten_cons, hflatten, hunify], fun f => ?_⟩
            rw [hread, hpieces]
            simp [Flow.emit]
          by_cases hbracket : c = ']'
          · subst hbracket
            have hlong : 1 < (cs ++ ']' :: ']' :: '>' :: more).length := by
              simp only [List.length_append, List.length_cons]
              omega
            refine hrest [']'] [] cs rfl (Text.unifyLines_cons (by decide) cs) fun f => ?_
            rw [List.cons_append, sectionBody_bracket _ (section_ne_end hend more) hlong]
          · by_cases hreturn : c = '\r'
            · subst hreturn
              by_cases hfeed : ∃ others, cs = '\n' :: others
              · obtain ⟨others, rfl⟩ := hfeed
                refine hrest ['\n'] ['\n'] others rfl (by rw [Text.unifyLines]; rfl) fun f => ?_
                rw [List.cons_append, List.cons_append, sectionBody_returnFeed hm]
              · have hnext : ∀ rest, cs ++ ']' :: ']' :: '>' :: more ≠ '\n' :: rest := by
                  intro rest heq
                  cases cs with
                  | nil => exact absurd (List.head_eq_of_cons_eq heq) (by decide)
                  | cons d ds => exact hfeed ⟨ds, by rw [List.head_eq_of_cons_eq heq]⟩
                refine hrest ['\n'] [] cs rfl
                  (Text.unifyLines_return fun others heq => hfeed ⟨others, heq⟩) fun f => ?_
                rw [List.cons_append, sectionBody_return hm _ hnext (by simp)]
            · obtain ⟨run, others, hsplit, hrun, hstop⟩ := exists_run isSectionChar cs
              have hc : isSectionChar c := by simp [isSectionChar, hcs.1, hbracket, hreturn]
              have hall : ∀ d ∈ c :: run, isSectionChar d := List.forall_mem_cons.mpr ⟨hc, hrun⟩
              have hkept : '\r' ∉ c :: run := fun hmem => absurd (hall _ hmem) (by decide)
              have hstop' : (others ++ ']' :: ']' :: '>' :: more).head?.all
                  fun d => !isSectionChar d := by
                cases others with
                | nil => exact (by decide : (!isSectionChar ']') = true)
                | cons d ds => exact hstop
              have hmarkup : c :: cs ++ ']' :: ']' :: '>' :: more
                  = c :: (run ++ (others ++ ']' :: ']' :: '>' :: more)) := by
                rw [hsplit, List.cons_append, List.append_assoc]
              refine hrest (c :: run) run others hsplit ?_ fun f => ?_
              · rw [hsplit, ← List.cons_append, Text.unifyLines_append hkept]
              · rw [hmarkup, sectionBody_run hc hrun hstop']

theorem cdataSection_append (cs rest : List Char) :
  Writing.cdataSection cs ++ rest
    = '<' :: '!' :: '[' :: ("CDATA[".toList ++ (cs ++ ']' :: ']' :: '>' :: rest))
  := by
  have hstart : "<![CDATA[".toList = '<' :: '!' :: '[' :: "CDATA[".toList := by decide
  have hend : "]]>".toList = [']', ']', '>'] := by decide
  unfold Writing.cdataSection
  rw [hstart, hend]
  simp only [List.cons_append, List.append_assoc, List.nil_append]

theorem step_cdataOpening (hm : x.medium.IsSettled) (more : List Char) (f : Flow) :
  x.step expand '<' ('!' :: '[' :: ("CDATA[".toList ++ more)) f
    = x.sectionBody (more.length + 1) more (f.emit .cdataStart)
  := by
  have hopening := Medium.cdataOpening_append hm more
  simp only [step, markup, declared]
  rw [hopening]
  rfl

/-- A section is read in pieces from its opening to its end. -/
theorem emits_cdataSection (expand : Expanding) (hm : x.medium.IsSettled)
    (space : Option String) {cs : List Char} (hcs : ∀ c ∈ cs, isXmlChar c)
    (hend : Writing.HoldsNoEnd cs) (rest : List Char) :
  ∃ pieces : List (List Char),
    x.Emits expand space (Writing.cdataSection cs ++ rest) rest
        (.cdataStart :: (pieces.map .characters ++ [.cdataEnd]))
      ∧ pieces.flatten = Text.unifyLines cs
  := by
  obtain ⟨pieces, hflatten, hbody⟩ := sectionBody_append hm cs rest hcs hend
    ((cs ++ ']' :: ']' :: '>' :: rest).length + 1) (by rw [List.length_append]; omega)
  refine ⟨pieces, ?_, hflatten⟩
  intro f _ _
  rw [cdataSection_append]
  apply Passes.of_step
  · simp only [List.length_cons, List.length_append]
    omega
  · rw [step_cdataOpening hm, hbody]
    simp [Flow.emit]

/-- The state of an assembly in the middle of a CDATA section. -/
abbrev inSection (a : Assembly) (cs : List Char) : Assembly :=
  { a with openSection := some (String.ofList cs) }

theorem step_inSection (a : Assembly) (before cs : List Char) :
  (inSection a before).step (.characters cs) = .ok (inSection a (before ++ cs))
  := by
  simp [Assembly.step, Assembly.addCharacters, String.ofList_append]

/-- The pieces of a section go on with the text of it. -/
theorem run_pieces (a : Assembly) (before : List Char) (pieces : List (List Char)) :
  (inSection a before).run (pieces.map .characters)
    = .ok (inSection a (before ++ pieces.flatten))
  := by
  induction pieces generalizing before with
  | nil => simp [Assembly.run]
  | cons p ps ih =>
      rw [List.map_cons, Assembly.run, step_inSection]
      simpa [bind, Except.bind] using ih (before ++ p)

/-- The end of a section that is not empty attaches it. -/
theorem step_cdataEnd {scope : Option String} (between : a.IsBetween scope) {cs : List Char}
    (hne : cs ≠ []) :
  (inSection a cs).step .cdataEnd = a.attach (.cdata (String.ofList cs))
  := by
  have hsame : { inSection a cs with openSection := none } = a := by
    rw [← between.closed]
  have hs : String.ofList cs ≠ "" := mt String.ofList_eq_empty_iff.mp hne
  simp only [Assembly.step, Assembly.closeSection, hs, ite_false]
  exact congrArg (Assembly.attach · _) hsame

/-- The events of a section become a node, unless it is empty. -/
theorem run_section {scope : Option String} (between : a.IsBetween scope)
    (pieces : List (List Char)) :
  a.run (.cdataStart :: (pieces.map .characters ++ [.cdataEnd]))
    = if pieces.flatten = [] then .ok a else a.attach (.cdata (String.ofList pieces.flatten))
  := by
  have hstart : a.step .cdataStart = .ok (inSection a []) := rfl
  rw [Assembly.run, hstart]
  simp only [bind, Except.bind]
  rw [Assembly.run_append, run_pieces, List.nil_append]
  simp only [Except.bind, Assembly.run]
  split_ifs with hempty
  · rw [hempty]
    simp only [Assembly.step, Assembly.closeSection, String.ofList_nil, ite_true, bind,
      Except.bind, ← between.closed]
  · rw [step_cdataEnd between hempty]
    exact bind_pure _

/-- A section that is not empty is read as a node of its own. -/
theorem reads_cdataSection (hx : x.IsPlain) {scope : Option String} (between : a.IsBetween scope)
    {cs : List Char} (hcs : ∀ c ∈ cs, isXmlChar c) (hend : Writing.HoldsNoEnd cs) (hne : cs ≠ [])
    (ha : a.attach (.cdata (String.ofList (Text.unifyLines cs))) = .ok b) (rest : List Char) :
  x.Reads expand (Writing.cdataSection cs ++ rest) rest a b
  := by
  refine .of_emits fun around => ?_
  obtain ⟨pieces, hemits, hflatten⟩ :=
    emits_cdataSection expand hx.medium.isSettled around hcs hend rest
  refine ⟨_, hemits, ?_⟩
  rw [run_section between, hflatten, if_neg (Text.unifyLines_ne hne)]
  exact ha

/-- A comment is read with unified ends of lines. -/
theorem emits_comment (scope space : Option String) {value : String} (hchars : isCharText value)
    (hbreaks : breaksComment value.toList = false) (rest : List Char) :
  x.Emits expand space (Writing.compact scope (.comment value) ++ rest) rest
    [commentEvent value.toList]
  := by
  have hbody := Medium.commentBody_append (m := x.medium)
    (Medium.isXmlChar_of_isCharText hchars) hbreaks rest
  have hmarkup : Writing.compact scope (.comment value) ++ rest
      = '<' :: '!' :: '-' :: '-' :: (value.toList ++ '-' :: '-' :: '>' :: rest) := by
    simp [Writing.compact, Wording.printed]
  rw [hmarkup]
  refine .of_step ?_ fun f => ?_
  · simp only [List.length_cons, List.length_append]
    omega
  · simp only [step, markup, declared, Medium.comment, hbody]
    rfl

/-- A comment is read as a node with unified ends of lines. -/
theorem reads_comment {scope : Option String} (between : a.IsBetween scope)
    {value : String} (hchars : isCharText value) (hbreaks : breaksComment value.toList = false)
    (ha : a.attach (.comment (Node.unifiedText value)) = .ok b) (rest : List Char) :
  x.Reads expand (Writing.compact scope (.comment value) ++ rest) rest a b
  := by
  have hstep : a.step (commentEvent value.toList) = .ok b := (Assembly.step_comment between _).trans ha
  refine .of_emits fun around => ⟨_, emits_comment scope around hchars hbreaks rest, ?_⟩
  rw [Assembly.run, hstep]
  rfl

end Surroundings

end Reading

end XmlDraft
