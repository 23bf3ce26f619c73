import XmlDraft.Proofs.Found
import XmlDraft.Proofs.Spelling
import Mathlib.Data.List.TakeWhile

/-!
# Names that colons divide

Where colons divide names, a name is plain or consists of a prefix, a colon and a local part, each
of which is plain.  Where colons are characters of names like others, it is a plain name.  Main
statement: a start tag that is read where colons divide names is read as the same tag where they do
not.
-/

namespace XmlDraft

namespace Reading

/-- The alphabet in which colons are characters of names like others. -/
def Alphabet.undivided (a : Alphabet) : Alphabet :=
  { a with divides := false }

/-- The medium in which colons are characters of names like others. -/
def Medium.undivided (m : Medium) : Medium :=
  { m with alphabet := m.alphabet.undivided }

namespace Alphabet

variable {a : Alphabet} {c : Char}

theorem isStart_undivided (hc : c ≠ ':') :
  a.undivided.isStart c = a.isStart c
  := by
  simp [isStart, undivided, hc]

theorem isInner_undivided (hc : c ≠ ':') :
  a.undivided.isInner c = a.isInner c
  := by
  rw [isInner, isInner, isStart_undivided hc]
  rfl

theorem isInner_undivided_colon :
  a.undivided.isInner ':' = true
  := by
  rw [isInner_ascii rfl (by decide)]
  decide

theorem isInner_undivided_of (h : a.isInner c) :
  a.undivided.isInner c
  := by
  by_cases hc : c = ':'
  · rw [hc, isInner_undivided_colon]
  · rwa [isInner_undivided hc]

theorem isStart_undivided_of (h : a.isStart c) :
  a.undivided.isStart c
  := by
  by_cases hc : c = ':'
  · subst hc
    rw [isStart_ascii rfl (by decide)]
    decide
  · rwa [isStart_undivided hc]

end Alphabet

/-- A plain name is one where colons are characters of names. -/
theorem IsPlainName.undivided {a : Alphabet} {name : List Char} (h : IsPlainName a name) :
  IsPlainName a.undivided name
  where
    start := by
      cases name with
      | nil => cases h.start
      | cons c cs => exact Alphabet.isStart_undivided_of h.start
    inner c hc := Alphabet.isInner_undivided_of (h.inner c hc)

/-- A name that is plain, or that a colon divides into two plain names. -/
inductive IsQualifiedName (a : Alphabet) : List Char → Prop
  | plain {name : List Char} (h : IsPlainName a name) : IsQualifiedName a name
  | divided {space localPart : List Char} (hspace : IsPlainName a space)
      (hlocal : IsPlainName a localPart) : IsQualifiedName a (space ++ ':' :: localPart)

theorem IsQualifiedName.undivided {a : Alphabet} {name : List Char} (h : IsQualifiedName a name) :
  IsPlainName a.undivided name
  := by
  cases h with
  | plain h => exact h.undivided
  | @divided space localPart hspace hlocal =>
      refine ⟨?_, ?_⟩
      · cases space with
        | nil => cases hspace.start
        | cons c cs => exact hspace.undivided.start
      · rw [List.forall_mem_append, List.forall_mem_cons]
        exact ⟨hspace.undivided.inner, Alphabet.isInner_undivided_colon, hlocal.undivided.inner⟩

namespace Medium

variable {m : Medium} {cs rest : List Char}

theorem qualifiedName_cases {name : List Char} (h : m.qualifiedName cs = .ok (name, rest)) :
  cs = name ++ rest ∧ IsQualifiedName m.alphabet name
    ∧ ∃ d more, rest = d :: more ∧ m.alphabet.isInner d = false ∧ d ≠ ':'
  := by
  obtain ⟨⟨first, rest'⟩, hfirst, h⟩ := bind_ok h
  obtain ⟨hcs, hplain, d, more, hrest, hd⟩ := plainName_ok hfirst
  dsimp only at h
  split at h
  · rename_i behind
    obtain ⟨⟨last, rest''⟩, hlast, h⟩ := bind_ok h
    obtain ⟨hbehind, hplain', d', more', hrest', hd'⟩ := plainName_ok hlast
    dsimp only at h
    split at h
    · cases h
    · rename_i hcolon
      cases h
      refine ⟨by rw [hcs, hbehind, List.append_assoc, List.cons_append], .divided hplain hplain',
        d', more', hrest', hd', ?_⟩
      rintro rfl
      exact hcolon _ hrest'
  · rename_i hcolon
    cases h
    refine ⟨hcs, .plain hplain, d, more, hrest, hd, ?_⟩
    rintro rfl
    exact hcolon _ hrest

theorem plainName_undivided {name more : List Char} {d : Char} (hd : d ≠ ':')
    (h : m.plainName cs = .ok (name, d :: more)) :
  m.undivided.plainName cs = .ok (name, d :: more)
  := by
  obtain ⟨rfl, hname, d', more', hrest, hinner⟩ := plainName_ok h
  cases hrest
  exact plainName_append hname.undivided ((Alphabet.isInner_undivided hd).trans hinner) more

theorem qualifiedName_undivided {name : List Char} (h : m.qualifiedName cs = .ok (name, rest)) :
  m.undivided.qualifiedName cs = .ok (name, rest)
  := by
  obtain ⟨rfl, hname, d, more, rfl, hinner, hd⟩ := qualifiedName_cases h
  exact qualifiedName_append hname.undivided ((Alphabet.isInner_undivided hd).trans hinner) hd more

theorem digitsToSemicolon_undivided (isDigit : Char → Bool) (cs : List Char) :
  m.undivided.digitsToSemicolon isDigit cs = m.digitsToSemicolon isDigit cs
  := by
  induction cs with
  | nil => rfl
  | cons c cs ih => rw [digitsToSemicolon, digitsToSemicolon, ih]

theorem reference_undivided {r : Reference} (h : m.reference cs = .ok (r, rest)) :
  m.undivided.reference cs = .ok (r, rest)
  := by
  have hnumber (base : Nat) (isDigit : Char → Bool) (cs : List Char) :
      m.undivided.referenceNumber base isDigit cs = m.referenceNumber base isDigit cs := by
    simp only [referenceNumber, digitsToSemicolon_undivided]
    rfl
  unfold reference at h
  split at h
  · rw [← h]
    exact hnumber ..
  · rename_i more hx
    rw [reference, hnumber, h]
    exact hx
  · rename_i hx hnumbered
    obtain ⟨⟨name, rest'⟩, hname, h⟩ := bind_ok h
    dsimp only at h
    split at h
    · rw [reference, plainName_undivided (by decide) hname]
      · exact h
      · exact hx
      · exact hnumbered
    · cases h

theorem valueBody_undivided {quote : Char} {value : List Char}
    (h : m.valueBody quote cs = .ok (value, rest)) :
  m.undivided.valueBody quote cs = .ok (value, rest)
  := by
  induction cs generalizing value with
  | nil => cases h
  | cons c cs ih =>
      rw [valueBody] at h ⊢
      split_ifs at h ⊢ with hquote hbad hamp
      · exact h
      · obtain ⟨r, hr, h⟩ := bind_ok h
        obtain ⟨⟨ds, rest'⟩, hfound, hds⟩ := bind_ok h
        cases hds
        simp only [reference_undivided hr, ih hfound, bind, Except.bind]
      · obtain ⟨⟨ds, rest'⟩, hfound, hds⟩ := bind_ok h
        cases hds
        simp only [ih hfound, bind, Except.bind]

theorem tagAttribute_undivided {a : RawAttribute} (h : m.tagAttribute cs = .ok (a, rest)) :
  m.undivided.tagAttribute cs = .ok (a, rest)
  := by
  obtain ⟨⟨name, rest'⟩, hname, h⟩ := bind_ok h
  obtain ⟨⟨quote, inside⟩, hquote, h⟩ := bind_ok h
  obtain ⟨⟨value, rest''⟩, hvalue, h⟩ := bind_ok h
  have hquote' : m.undivided.equalsQuote rest' = .ok (quote, inside) := hquote
  simp only [tagAttribute, qualifiedName_undivided hname, hquote', valueBody_undivided hvalue, bind,
    Except.bind]
  exact h

theorem tagRest_undivided {first : Bool} {fuel : Nat} {attributes : List RawAttribute}
    {isEmpty : Bool} (h : m.tagRest first fuel cs = .ok ((attributes, isEmpty), rest)) :
  m.undivided.tagRest first fuel cs = .ok ((attributes, isEmpty), rest)
  := by
  induction fuel generalizing first cs attributes with
  | zero => cases h
  | succ fuel ih =>
      unfold tagRest at h
      split at h
      · cases h
      · exact h
      · exact h
      · rename_i c more hclose hempty
        split_ifs at h with hblank
        rw [tagRest, if_pos hblank]
        · split at h
          · cases h
          · exact h
          · exact h
          · obtain ⟨⟨a, rest'⟩, ha, h⟩ := bind_ok h
            obtain ⟨⟨⟨others, isEmpty'⟩, rest''⟩, hothers, h⟩ := bind_ok h
            cases h
            simp only [tagAttribute_undivided ha, ih hothers, bind, Except.bind]
        · exact hclose
        · exact hempty

/-- A start tag is read as the same tag where colons are characters of names. -/
theorem startTag_undivided {t : RawTag} (h : m.startTag cs = .ok (t, rest)) :
  m.undivided.startTag cs = .ok (t, rest)
  := by
  obtain ⟨⟨name, rest'⟩, hname, h⟩ := bind_ok h
  obtain ⟨⟨⟨attributes, isEmpty⟩, rest''⟩, hrest, h⟩ := bind_ok h
  simp only [startTag, qualifiedName_undivided hname, tagRest_undivided hrest, bind, Except.bind]
  exact h

/-! ### Names in a document type -/

/-- A character of a name, with the colons that divide it. -/
def IsNameChar (a : Alphabet) (c : Char) : Prop :=
  a.isInner c ∨ (c = ':' ∧ a.divides)

theorem isNameChar_of_asciiName {a : Alphabet} {s : String} (h : isAsciiName s) :
  ∀ c ∈ s.toList, IsNameChar a c
  := by
  intro c hc
  simp only [isAsciiName, Bool.and_eq_true, List.all_eq_true, decide_eq_true_eq] at h
  by_cases hcolon : a.divides ∧ c = ':'
  · exact .inr ⟨hcolon.2, hcolon.1⟩
  · left
    rw [(Alphabet.names_ascii (not_and.mp hcolon) (h.2 c hc)).2]
    exact Name.isInner_of_mem h.1 hc

/-- The characters of a name are read up to its end, however many colons divide it. -/
theorem nameLike_colons {ds : List Char} (h : ∀ c ∈ ds, IsNameChar m.alphabet c) {d : Char}
    (hd : endsName d) (rest : List Char) {fuel : Nat} (hfuel : ds.length < fuel) (form : Form)
    (before : List Char) :
  ∃ form', m.nameLike fuel form before (ds ++ d :: rest)
    = .ok (formed form' (before ++ ds), d :: rest)
  := by
  induction fuel generalizing ds form before with
  | zero => exact absurd hfuel (Nat.not_lt_zero _)
  | succ fuel ih =>
      -- the name goes on behind the first colon, if there is one
      obtain ⟨first, others, rfl, hfirst, hothers⟩ : ∃ first others, ds = first ++ others
          ∧ (∀ c ∈ first, m.alphabet.isInner c)
          ∧ others.head?.all fun c => !m.alphabet.isInner c := by
        refine ⟨ds.takeWhile m.alphabet.isInner, ds.dropWhile m.alphabet.isInner,
          List.takeWhile_append_dropWhile.symm, fun c hc => List.mem_takeWhile_imp hc, ?_⟩
        have hnot := List.head?_dropWhile_not m.alphabet.isInner ds
        cases hhead : (ds.dropWhile m.alphabet.isInner).head? with
        | none => rfl
        | some c => simpa [hhead] using hnot
      cases others with
      | nil =>
          rw [List.append_nil]
          exact ⟨form, nameLike_append fuel form before hfirst hd rest⟩
      | cons c more =>
          have hc : m.alphabet.isInner c = false := by simpa using hothers
          obtain ⟨rfl, hdivides⟩ :=
            (h c (by simp)).resolve_left (by simp [hc])
          have hmore : ∀ c ∈ more, IsNameChar m.alphabet c := fun c hc => h c (by simp [hc])
          obtain ⟨next, hnext⟩ : ∃ next, m.afterColon form (more ++ d :: rest) = .ok next := by
            cases form with
            | name => cases more <;> exact ⟨_, rfl⟩
            | prefixed => exact ⟨_, rfl⟩
            | token => exact ⟨_, rfl⟩
          obtain ⟨form', hread⟩ := ih hmore
            (by simp only [List.length_append, List.length_cons] at hfuel; omega) next
            (before ++ first ++ [':'])
          refine ⟨form', ?_⟩
          rw [List.append_assoc, List.cons_append, nameLike, softName_append hfirst hc]
          have hcolon : (isBlank ':' || ':' = '>' || ':' = ')' || ':' = ',' || ':' = '|'
              || ':' = '[' || ':' = '%') = false := by decide
          simp only [bind, Except.bind, hcolon, Bool.false_eq_true, ite_false, hdivides,
            decide_true, Bool.and_true, ite_true, hnext, hread]
          simp

/-- A name inside a document type is found in some form, however many colons divide it. -/
theorem token_colons {c : Char} {cs : List Char} (h : ∀ b ∈ c :: cs, IsNameChar m.alphabet b)
    {d : Char} (hd : endsName d) (rest : List Char) :
  ∃ form, m.token c (cs ++ d :: rest) = .ok (formed form (c :: cs), d :: rest)
  := by
  obtain ⟨hc, hcs⟩ := List.forall_mem_cons.mp h
  have hfuel : cs.length < (cs ++ d :: rest).length + 1 := by
    rw [List.length_append]
    omega
  rcases hc with hinner | ⟨rfl, hdivides⟩
  · rw [token_inner hinner]
    exact nameLike_colons hcs hd rest hfuel _ [c]
  · have htoken : m.token ':' (cs ++ d :: rest)
        = m.nameLike ((cs ++ d :: rest).length + 1) .token [':'] (cs ++ d :: rest) := by
      have hstart : m.alphabet.isStart ':' = false := by
        rw [Alphabet.isStart_eq _ (by decide), hdivides]
        decide
      have hblank : isBlank ':' = false := by decide
      unfold token
      simp [hblank, hstart]
    rw [htoken]
    exact nameLike_colons hcs hd rest hfuel _ [':']

end Medium

end Reading

end XmlDraft
