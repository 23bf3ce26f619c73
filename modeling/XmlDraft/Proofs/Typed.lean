import XmlDraft.Proofs.Found
import XmlDraft.Proofs.Tags

/-!
# Tags that are read

A value that is not of the plain type is read without a blank at its start, at its end, or behind
another one; apart from that any characters of documents may be in it, as long as they are in the
replacement texts that were declared.  Main statement: a tag is resolved to the names that stand
in it, each of them once, with values of the types that were declared for them.
-/

namespace XmlDraft

namespace Reading

namespace Declarations

/-- Declarations whose replacement texts consist of characters of documents. -/
def AreChars (d : Declarations) : Prop :=
  ∀ name text, d.entity? name = some (.internal text) → ∀ c ∈ text, isXmlChar c

end Declarations

/-! ### Values -/

namespace Gathered

/-- A value that is being read, without blanks that do not count; one may stand at its end. -/
structure IsSound (isPlain : Bool) (g : Gathered) : Prop where
  chars : ∀ c ∈ g.reversed, isXmlChar c
  blanks : isPlain = true ∨ (g.reversed.getLast? ≠ some ' ' ∧ ¬ [' ', ' '] <:+: g.reversed)

variable {isPlain : Bool} {g : Gathered} (sound : g.IsSound isPlain)

include sound

theorem IsSound.add {c : Char} (hchar : isXmlChar c) (hc : c ≠ ' ') :
  (g.add c).IsSound isPlain
  where
    chars := List.forall_mem_cons.mpr ⟨hchar, sound.chars⟩
    blanks := by
      refine sound.blanks.imp_right ?_
      rintro ⟨hlast, hpair⟩
      refine ⟨?_, ?_⟩
      · cases hr : g.reversed with
        | nil => simpa [Gathered.add, hr] using hc
        | cons d ds => simpa [Gathered.add, hr] using hlast
      · rw [Gathered.add, List.infix_cons_iff]
        rintro (hstart | hinfix)
        · exact hc (List.cons_prefix_cons.mp hstart).1.symm
        · exact hpair hinfix

theorem IsSound.addBlank :
  (g.addBlank isPlain).IsSound isPlain
  := by
  unfold Gathered.addBlank
  split_ifs with hskip
  · exact sound
  · refine ⟨List.forall_mem_cons.mpr ⟨by decide, sound.chars⟩, ?_⟩
    cases isPlain with
    | true => exact .inl rfl
    | false =>
        obtain ⟨hlast, hpair⟩ := sound.blanks.resolve_left Bool.false_ne_true
        cases hr : g.reversed with
        | nil => simp [hr] at hskip
        | cons d ds =>
            have hd : d ≠ ' ' := by simpa [hr] using hskip
            rw [hr] at hlast hpair
            refine .inr ⟨by simpa [Gathered.add, hr] using hlast, ?_⟩
            rw [Gathered.add, hr, List.infix_cons_iff]
            rintro (hstart | hinfix)
            · rw [List.cons_prefix_cons, List.cons_prefix_cons] at hstart
              exact hd hstart.2.1.symm
            · exact hpair hinfix

/-- A value that was read is of its type. -/
theorem IsSound.value :
  (∀ c ∈ g.value isPlain, isXmlChar c) ∧ IsTyped isPlain (g.value isPlain)
  := by
  cases isPlain with
  | true =>
      rw [value_plain]
      exact ⟨fun c hc => sound.chars c (List.mem_reverse.mp hc), .inl rfl⟩
  | false =>
      obtain ⟨hlast, hpair⟩ := sound.blanks.resolve_left Bool.false_ne_true
      -- a blank at the end does not count, and what is left does not end with another one
      have hkept (cs : List Char) (hcs : cs <:+ g.reversed) (hhead : cs.head? ≠ some ' ') :
          (∀ c ∈ cs.reverse, isXmlChar c) ∧ IsTyped false cs.reverse := by
        refine ⟨fun c hc => sound.chars c (hcs.subset (List.mem_reverse.mp hc)), .inr ⟨?_, ?_, ?_⟩⟩
        · rw [List.head?_reverse]
          intro hc
          obtain ⟨before, hbefore⟩ := hcs
          rw [← hbefore, List.getLast?_append, hc] at hlast
          exact hlast rfl
        · rwa [List.getLast?_reverse]
        · intro hinfix
          have hreversed : [' ', ' '].reverse <:+: cs.reverse := hinfix
          exact hpair ((List.reverse_infix.mp hreversed).trans hcs.isInfix)
      unfold Gathered.value
      split
      · rename_i rest hr
        apply hkept rest (hr ▸ List.suffix_cons ' ' rest)
        intro hhead
        cases rest with
        | nil => cases hhead
        | cons d ds =>
            rw [Option.some.inj hhead] at hr
            exact hpair (hr ▸ (List.prefix_append [' ', ' '] ds).isInfix)
      · rename_i hne
        apply hkept g.reversed List.suffix_rfl
        intro hhead
        cases hr : g.reversed with
        | nil => rw [hr] at hhead; cases hhead
        | cons d ds =>
            rw [hr] at hhead
            exact hne ds (by rw [hr, Option.some.inj hhead])

end Gathered

/-- A way to replace references that keeps values sound. -/
def KeepsSound (isPlain : Bool) (replace : Replacing) : Prop :=
  ∀ name g g', replace name g = .ok g' → g.IsSound isPlain → g'.IsSound isPlain

/-- What is gathered from characters of documents is sound. -/
theorem gather_sound {m : Medium} {isPlain : Bool} {replace : Replacing}
    (hreplace : KeepsSound isPlain replace) (fuel : Nat) {cs : List Char}
    (hcs : ∀ c ∈ cs, isXmlChar c) {g g' : Gathered} (hg : g.IsSound isPlain)
    (h : gather m isPlain replace fuel cs g = .ok g') :
  g'.IsSound isPlain
  := by
  induction fuel generalizing cs g with
  | zero =>
      cases h
      exact hg
  | succ fuel ih =>
      cases cs with
      | nil =>
          cases h
          exact hg
      | cons c cs =>
          rw [List.forall_mem_cons] at hcs
          -- what follows some more characters is gathered into a sound value
          have hrest (rest : List Char) (next : Gathered) (hsuffix : rest <:+ cs)
              (hnext : next.IsSound isPlain)
              (h : gather m isPlain replace fuel rest next = .ok g') : g'.IsSound isPlain :=
            ih (fun d hd => hcs.2 d (hsuffix.subset hd)) hnext h
          unfold gather at h
          split at h
          · -- a reference
            split at h
            · cases h
            · cases h
            · rename_i x rest hr
              apply hrest rest _ (Medium.reference_suffix hr) _ h
              split_ifs with hx
              · exact hg.addBlank
              · exact hg.add (Medium.reference_numbered hr) hx
            · rename_i name rest hr
              have hsuffix := Medium.reference_suffix hr
              split at h
              · rename_i x hx
                obtain ⟨hchar, hblank⟩ := Medium.predefined?_ok hx
                refine hrest rest _ hsuffix (hg.add hchar ?_) h
                rintro rfl
                cases hblank
              · split at h
                · rename_i next hnext
                  exact hrest rest next hsuffix (hreplace name g next hnext hg) h
                · cases h
          · cases h
          · -- the end of a line
            split at h
            · exact hrest _ _ (List.suffix_cons _ _) hg.addBlank h
            · exact hrest _ _ List.suffix_rfl hg.addBlank h
          · refine hrest cs _ List.suffix_rfl ?_ h
            split_ifs with hblank
            · exact hg.addBlank
            · refine hg.add hcs.1 ?_
              rintro rfl
              exact hblank rfl

theorem keepsSound_replaceAt (m : Medium) {d : Declarations} (hd : d.AreChars) (isPlain : Bool)
    (direct : Option Nat) (level : Nat) (opened : List (List Char)) :
  KeepsSound isPlain (replaceAt m d isPlain direct level opened)
  := by
  induction level generalizing opened with
  | zero =>
      intro name g g' h
      cases h
  | succ level ih =>
      intro name g g' h hg
      unfold replaceAt at h
      split at h
      · split_ifs at h
        cases h
        exact hg
      · rename_i e he
        split_ifs at h
        split at h
        · cases h
        · cases h
        · rename_i text
          dsimp only at h
          split_ifs at h
          have hspent : ({ g with spent := g.spent + octetCount text } : Gathered).IsSound isPlain :=
            ⟨hg.chars, hg.blanks⟩
          exact gather_sound (ih (name :: opened)) _ (hd name text he) hspent (mapError_ok h)

/-- The value of an attribute consists of characters of documents and is of its type. -/
theorem attributeValue_ok {m : Medium} {d : Declarations} (hd : d.AreChars)
    {opened : List (List Char)} {isPlain : Bool} {direct : Option Nat} {spent spent' : Nat}
    {raw value : List Char} (hraw : ∀ c ∈ raw, isXmlChar c)
    (h : attributeValue m d opened isPlain direct spent raw = .ok (value, spent')) :
  (∀ c ∈ value, isXmlChar c) ∧ IsTyped isPlain value
  := by
  obtain ⟨g, hg, hvalue⟩ := map_ok h
  cases hvalue
  have hempty : (⟨[], spent⟩ : Gathered).IsSound isPlain := ⟨by simp, by simp⟩
  exact (gather_sound (keepsSound_replaceAt m hd isPlain direct _ opened) _ hraw hempty hg).value

/-! ### Tags -/

/-- An attribute of an element as it is read. -/
structure IsRead (a : Alphabet) (d : Declarations) (element : List Char)
    (p : List Char × List Char) : Prop where
  name : IsPlainName a p.1
  value : ∀ c ∈ p.2, isXmlChar c
  typed : IsTyped (d.isPlainAt element p.1) p.2

/-- What is held of the attributes of a tag that have been read: each of them once. -/
structure Held.IsSound (a : Alphabet) (d : Declarations) (element : List Char) (h : Held) :
    Prop where
  names : h.names = h.given.map Prod.fst
  nodup : h.names.Nodup
  read : ∀ p ∈ h.given, IsRead a d element p

namespace Held

variable {m : Medium} {d : Declarations} (hd : d.AreChars) {opened : List (List Char)}
    {direct : Option Nat} {element start : List Char}

include hd

theorem read_ok {h h' : Held} (sound : h.IsSound m.alphabet d element) {raw : RawAttribute}
    (hraw : Medium.IsRawAttribute m.alphabet raw)
    (hread : h.read m d opened none direct element start raw = .ok h') :
  h'.IsSound m.alphabet d element
  := by
  unfold read at hread
  split_ifs at hread with hmem
  dsimp only at hread
  split at hread
  · cases hread
  · rename_i value spent hvalue
    obtain ⟨hchars, htyped⟩ := attributeValue_ok hd hraw.value hvalue
    cases hread
    refine ⟨congrArg (raw.name :: ·) sound.names, List.nodup_cons.mpr ⟨hmem, sound.nodup⟩, ?_⟩
    exact List.forall_mem_cons.mpr ⟨⟨hraw.name, hchars, htyped⟩, sound.read⟩

theorem readAll_ok {h h' : Held} (sound : h.IsSound m.alphabet d element)
    {raws : List RawAttribute} (hraws : ∀ raw ∈ raws, Medium.IsRawAttribute m.alphabet raw)
    (hread : h.readAll m d opened none direct element start raws = .ok h') :
  h'.IsSound m.alphabet d element
  := by
  induction raws generalizing h with
  | nil =>
      cases hread
      exact sound
  | cons raw raws ih =>
      rw [List.forall_mem_cons] at hraws
      obtain ⟨next, hnext, hrest⟩ := bind_ok hread
      exact ih (read_ok hd sound hraws.1 hnext) hraws.2 hrest

omit hd

/-- Default values come behind what is given. -/
theorem addDefaults_ok {h h' : Held} {bs : List AttributeDeclaration}
    (hread : h.addDefaults none start bs = .ok h') :
  ∃ others, h'.given = others ++ h.given
  := by
  induction bs generalizing h with
  | nil =>
      cases hread
      exact ⟨[], rfl⟩
  | cons b bs ih =>
      unfold addDefaults at hread
      split at hread
      · split_ifs at hread
        · exact ih hread
        · obtain ⟨next, hnext, hrest⟩ := bind_ok hread
          cases hnext
          obtain ⟨others, hothers⟩ := ih hrest
          exact ⟨others ++ [(b.name, _)], by rw [hothers, List.append_assoc]; rfl⟩
      · exact ih hread

end Held

/-- The attributes that a tag gives, as they were read, with their names and their values. -/
def givenOf (parts : List (List Char × List Char)) : List (Label × String) :=
  parts.map fun p => (wholeLabel p.1, String.ofList p.2)

/-- A tag is resolved to its name and to the attributes that stand in it. -/
theorem resolveTag_ok {m : Medium} {d : Declarations} (hd : d.AreChars)
    {opened : List (List Char)} {direct : Option Nat} {spent spent' : Nat} {start : List Char}
    {scope scope' : Scope} {t : RawTag} {tag : Tag}
    (ht : ∀ raw ∈ t.attributes, Medium.IsRawAttribute m.alphabet raw)
    (h : resolveTag m d opened none direct start scope spent t = .ok (tag, scope', spent')) :
  ∃ parts, tag.name = wholeLabel t.name ∧ tag.given = givenOf parts
    ∧ (parts.map Prod.fst).Nodup ∧ ∀ p ∈ parts, IsRead m.alphabet d t.name p
  := by
  obtain ⟨held, hheld, h⟩ := bind_ok h
  obtain ⟨all, hall, h⟩ := bind_ok h
  obtain ⟨tag', htag, h⟩ := bind_ok h
  cases h
  have hempty : (⟨[], [], scope, [], spent⟩ : Held).IsSound m.alphabet d t.name :=
    ⟨rfl, List.nodup_nil, by simp⟩
  have sound := Held.readAll_ok hd hempty ht hheld
  obtain ⟨others, hothers⟩ := Held.addDefaults_ok hall
  cases htag
  refine ⟨held.given.reverse, rfl, ?_, ?_, ?_⟩
  · simp [givenOf, hothers]
  · rw [List.map_reverse, List.Nodup, List.pairwise_reverse, ← sound.names]
    exact sound.nodup.imp Ne.symm
  · exact fun p hp => sound.read p (List.mem_reverse.mp hp)

end Reading

end XmlDraft
