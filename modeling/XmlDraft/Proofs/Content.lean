import XmlDraft.Proofs.Delivering
import Mathlib.Data.List.TakeWhile

/-!
# Steps through content

A step through content reads one thing: a tag, a comment, a section, an instruction, a reference or
a run of characters.  Main statements: what a step does is one of these, with the state that it
leads to; and content leads to what its steps lead to, up to its end or the end of the root.
-/

namespace XmlDraft

namespace Reading

namespace Surroundings

variable {x : Surroundings} {expand : Expanding} {start cs rest : List Char} {f g : Flow}

/-! ### Steps -/

/-- What a start tag does, whose opening has been read: it opens an element, or is the whole of
one. -/
inductive Begins (x : Surroundings) (start cs : List Char) (f : Flow) : Flow → List Char → Prop
  | opens {raw : RawTag} {tag : Tag} {scope : Scope} {spent : Nat} {rest : List Char}
      (found : x.medium.startTag cs = .ok (raw, rest))
      (resolved : resolveTag x.medium x.declarations x.replacing x.manner.separator
        (x.account rest) start f.scope f.spent raw = .ok (tag, scope, spent)) :
      Begins x start cs f { ({ f with spent := spent }.emit (.start tag)) with
        opened := ⟨raw.name, f.scope⟩ :: f.opened, scope := scope } rest
  | whole {raw : RawTag} {tag : Tag} {scope : Scope} {spent : Nat} {rest : List Char}
      (found : x.medium.startTag cs = .ok (raw, rest))
      (resolved : resolveTag x.medium x.declarations x.replacing x.manner.separator
        (x.account rest) start f.scope f.spent raw = .ok (tag, scope, spent)) :
      Begins x start cs f (({ f with spent := spent }.emit (.start tag)).emit .finish) rest

/-- What a step through content does. -/
inductive Moves (x : Surroundings) (expand : Expanding) (f : Flow) :
    List Char → Flow → List Char → Prop
  | startTag {cs rest : List Char} {g : Flow} (begins : x.Begins ('<' :: cs) cs f g rest) :
      Moves x expand f ('<' :: cs) g rest
  | endTag {cs name rest : List Char} {o : Opened} {others : List Opened}
      (found : x.medium.endTag cs = .ok (name, rest)) (opened : f.opened = o :: others)
      (hbase : f.opened.length ≠ x.base) (hname : o.name = name) :
      Moves x expand f ('<' :: '/' :: cs)
        { f.emit .finish with opened := others, scope := o.outside } rest
  | comment {cs text rest : List Char} (found : x.medium.comment cs = .ok (text, rest)) :
      Moves x expand f ('<' :: '!' :: '-' :: cs) (f.emit (commentEvent text)) rest
  | cdata {cs inside rest : List Char} {g : Flow}
      (body : x.sectionBody (inside.length + 1) inside (f.emit .cdataStart) = .ok (g, rest)) :
      Moves x expand f ('<' :: '!' :: '[' :: cs) g rest
  | instruction {cs target text rest : List Char} (raw : List Char)
      (found : x.medium.instruction cs = .ok ((target, text), rest)) :
      Moves x expand f ('<' :: '?' :: cs) (f.emit (instructionEvent raw target text)) rest
  | characters {c d : Char} {cs ds : List Char} (rest : List Char) (hc : c ≠ '<')
      (hds : ∀ e ∈ d :: ds, isXmlChar e) :
      Moves x expand f (c :: cs) (f.emit (.characters (d :: ds))) rest
  | kept {cs : List Char} (name rest : List Char) :
      Moves x expand f ('&' :: cs) (f.emit (.unresolved (String.ofList name))) rest
  | replaced {cs name rest : List Char} {g : Flow} (found : x.replaced? cs = some (name, rest))
      (expands : expand name ('&' :: cs) f = .ok g) :
      Moves x expand f ('&' :: cs) g rest

theorem startTag_begins (h : x.startTag start cs f = .ok (g, rest)) :
  x.Begins start cs f g rest
  := by
  obtain ⟨⟨raw, rest'⟩, hraw, h⟩ := bind_ok h
  obtain ⟨⟨tag, scope, spent⟩, htag, h⟩ := bind_ok h
  dsimp only at h
  split_ifs at h
  · cases h
    exact .whole (mapError_ok hraw) htag
  · cases h
    exact .opens (mapError_ok hraw) htag

theorem markup_moves (h : x.markup ('<' :: cs) cs f = .ok (g, rest)) :
  x.Moves expand f ('<' :: cs) g rest
  := by
  unfold markup at h
  split at h
  · cases h
  · unfold declared at h
    split at h
    · obtain ⟨⟨text, rest'⟩, htext, h⟩ := bind_ok h
      cases h
      exact .comment (mapError_ok htext)
    · obtain ⟨⟨_, inside⟩, _, h⟩ := bind_ok h
      exact .cdata h
    · cases h
    · cases h
  · obtain ⟨⟨⟨target, text⟩, rest'⟩, hfound, h⟩ := bind_ok h
    dsimp only at h
    split_ifs at h
    cases h
    exact .instruction _ (mapError_ok hfound)
  · obtain ⟨⟨name, rest'⟩, hname, h⟩ := bind_ok h
    dsimp only at h
    split at h
    · cases h
    · rename_i o others hopened
      split_ifs at h with hbase hsame
      cases h
      exact .endTag (mapError_ok hname) hopened hbase (not_not.mp hsame)
  · exact .startTag (startTag_begins h)

theorem reference_moves (h : x.reference expand ('&' :: cs) cs f = .ok (g, rest)) :
  x.Moves expand f ('&' :: cs) g rest
  := by
  have hkept {name start rest : List Char} {g : Flow} (h : x.keep name start f = .ok g) :
      x.Moves expand f ('&' :: cs) g rest := by
    unfold keep at h
    split_ifs at h
    cases h
    exact .kept name rest
  have hone {c : Char} (hc : isXmlChar c) :
      x.Moves expand f ('&' :: cs) (f.emit (.characters [c])) rest :=
    .characters rest (by decide) (by simpa using hc)
  obtain ⟨⟨r, rest'⟩, hr, h⟩ := bind_ok h
  dsimp only at h
  split at h
  · cases h
  · cases h
    exact hone (Medium.reference_numbered (mapError_ok hr))
  · rename_i name
    obtain ⟨next, hnext, h⟩ := bind_ok h
    cases h
    unfold named at hnext
    split at hnext
    · rename_i c hpredefined
      cases hnext
      exact hone (Medium.predefined?_ok hpredefined).1
    · rename_i hpredefined
      split at hnext
      · split_ifs at hnext
        exact hkept hnext
      · cases hnext
      · exact hkept hnext
      · rename_i text hentity
        split_ifs at hnext with hmanner
        · exact hkept hnext
        · refine .replaced ?_ hnext
          simp only [replaced?, mapError_ok hr, hpredefined, hentity, hmanner, ite_false]

theorem step_moves {c : Char} {more : List Char} (h : x.step expand c more f = .ok (g, rest)) :
  x.Moves expand f (c :: more) g rest
  := by
  have hone {c d : Char} {more rest : List Char} (hc : c ≠ '<') (hd : isXmlChar d) :
      x.Moves expand f (c :: more) (f.emit (.characters [d])) rest :=
    .characters rest hc (by simpa using hd)
  unfold step at h
  split at h
  · exact markup_moves h
  · exact reference_moves h
  · split at h
    · cases h
      exact hone (by decide) (by decide)
    · split at h
      · cases h
        exact hone (by decide) (by decide)
      · split_ifs at h
        cases h
        exact hone (by decide) (by decide)
      · cases h
        exact hone (by decide) (by decide)
  · split at h
    · cases h
    · split_ifs at h
      cases h
      exact hone (by decide) (by decide)
  · rename_i hopening _ _ _
    split_ifs at h with hdata
    cases h
    have hchar (d : Char) (hd : isDataChar d) : isXmlChar d := by
      simp only [isDataChar, Bool.and_eq_true] at hd
      exact hd.1.1.1.1
    refine .characters _ hopening (List.forall_mem_cons.mpr ⟨hchar c hdata, fun d hd => ?_⟩)
    exact hchar d (List.mem_takeWhile_imp hd)

/-- Where no other markup begins at an opening bracket, a start tag does. -/
theorem Moves.begins {more : List Char} (h : x.Moves expand f ('<' :: more) g rest)
    (hhead : ∀ d ∈ more.head?, d ≠ '!' ∧ d ≠ '?' ∧ d ≠ '/') :
  x.Begins ('<' :: more) more f g rest
  := by
  cases h with
  | startTag begins => exact begins
  | endTag => exact absurd rfl (hhead '/' rfl).2.2
  | comment => exact absurd rfl (hhead '!' rfl).1
  | cdata => exact absurd rfl (hhead '!' rfl).1
  | instruction => exact absurd rfl (hhead '?' rfl).2.1
  | characters _ hc => exact absurd rfl hc

/-! ### Content -/

/-- Content ends with its characters only where as many elements are open as around it, and some
are. -/
theorem finish_ok {here : List Char} (h : x.finish f here = .ok (g, rest)) :
  g = f ∧ x.base ≠ 0 ∧ f.opened.length = x.base
  := by
  unfold finish at h
  split at h
  · split_ifs at h with hbase hlength
    cases h
    exact ⟨rfl, hbase, hlength⟩
  · cases h
  · cases h
  · cases h
  · cases h

/-- Content leads to what its steps lead to.  It ends with its characters where elements are open
around it, or behind the step that closes the root. -/
theorem content_leads {P Q : Flow → Prop}
    (hstep : ∀ {f g : Flow} {cs rest : List Char}, P f → x.Moves expand f cs g rest → Q g)
    (hnext : ∀ {g : Flow}, Q g → g.opened ≠ [] → P g) {fuel : Nat} (hf : P f)
    (h : x.content expand fuel cs f = .ok (g, rest)) :
  (P g ∧ x.base ≠ 0) ∨ (Q g ∧ g.opened = [])
  := by
  induction fuel generalizing cs f with
  | zero => cases h
  | succ fuel ih =>
      cases cs with
      | nil =>
          rw [content] at h
          · obtain ⟨rfl, hbase, _⟩ := finish_ok h
            exact .inl ⟨hf, hbase⟩
          · simp
      | cons c more =>
          obtain ⟨⟨next, rest'⟩, hmoved, h⟩ := bind_ok h
          have hq := hstep hf (step_moves hmoved)
          dsimp only at h
          split_ifs at h with hopened
          · cases h
            exact .inr ⟨hq, List.isEmpty_iff.mp hopened⟩
          · exact ih (hnext hq (mt List.isEmpty_iff.mpr hopened)) h

/-- The replacement of an entity reads the content of its text. -/
theorem expandAt_ok {level : Nat} {opened : List (List Char)} {name : List Char}
    (h : expandAt x (level + 1) opened name start f = .ok g) :
  ∃ text direct rest, x.declarations.entity? name = some (.internal text)
    ∧ (x.within direct (name :: opened) f.opened.length).content
      (expandAt x level (name :: opened)) (text.length + 1) text
        { f with spent := f.spent + octetCount text } = .ok (g, rest)
  := by
  unfold expandAt at h
  split at h
  · rename_i text hentity
    dsimp only at h
    split_ifs at h
    split at h
    · rename_i next rest hcontent
      cases h
      exact ⟨text, _, rest, hentity, hcontent⟩
    · cases h
  · cases h

end Surroundings

end Reading

end XmlDraft
