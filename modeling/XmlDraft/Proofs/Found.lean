import XmlDraft.Proofs.Scanning

/-!
# What scanners find

What a scanner finds stands at the head of the characters that it was given and is of the form
that it looks for, and what follows does not go on with it.  Main statement: the tags that are
found have plain names, and the values in them consist of characters of documents.
-/

namespace XmlDraft

namespace Reading

/-! ### Results -/

theorem bind_ok {ε α β : Type} {x : Except ε α} {f : α → Except ε β} {b : β}
    (h : x.bind f = .ok b) :
  ∃ a, x = .ok a ∧ f a = .ok b
  := by
  cases x with
  | error e => cases h
  | ok a => exact ⟨a, rfl, h⟩

theorem map_ok {ε α β : Type} {x : Except ε α} {f : α → β} {b : β} (h : x.map f = .ok b) :
  ∃ a, x = .ok a ∧ f a = b
  := by
  cases x with
  | error e => cases h
  | ok a => exact ⟨a, rfl, Except.ok.inj h⟩

theorem mapError_ok {ε δ α : Type} {x : Except ε α} {f : ε → δ} {a : α}
    (h : x.mapError f = .ok a) :
  x = .ok a
  := by
  cases x with
  | error e => cases h
  | ok b => rw [Except.ok.inj h]

theorem exists_of_isOk {ε α : Type} {x : Except ε α} (h : x.isOk) :
  ∃ a, x = .ok a
  := by
  cases x with
  | error e => cases h
  | ok a => exact ⟨a, rfl⟩

namespace Medium

variable {m : Medium} {cs rest : List Char}

/-! ### Names -/

/-- The characters of a name are all that go on with it. -/
theorem innerName_ok {ds : List Char} (h : m.innerName cs = .ok (ds, rest)) :
  cs = ds ++ rest ∧ (∀ c ∈ ds, m.alphabet.isInner c)
    ∧ ∃ d more, rest = d :: more ∧ m.alphabet.isInner d = false
  := by
  induction cs generalizing ds with
  | nil => cases h
  | cons c cs ih =>
      rw [innerName] at h
      split_ifs at h with hc
      · obtain ⟨⟨ds', rest'⟩, hfound, hds⟩ := bind_ok h
        cases hds
        obtain ⟨rfl, hinner, hstop⟩ := ih hfound
        exact ⟨rfl, List.forall_mem_cons.mpr ⟨hc, hinner⟩, hstop⟩
      · cases h
        exact ⟨rfl, by simp, c, cs, rfl, by simpa using hc⟩

theorem plainName_ok {name : List Char} (h : m.plainName cs = .ok (name, rest)) :
  cs = name ++ rest ∧ IsPlainName m.alphabet name
    ∧ ∃ d more, rest = d :: more ∧ m.alphabet.isInner d = false
  := by
  obtain ⟨⟨c, cs'⟩, hstart, h⟩ := bind_ok h
  obtain ⟨⟨ds, rest'⟩, hinner, h⟩ := bind_ok h
  cases h
  cases cs with
  | nil => cases hstart
  | cons d more =>
      rw [nameStart] at hstart
      split_ifs at hstart with hd
      cases hstart
      obtain ⟨rfl, hall, hstop⟩ := innerName_ok hinner
      refine ⟨rfl, ⟨by simpa using hd, List.forall_mem_cons.mpr ⟨?_, hall⟩⟩, hstop⟩
      simp [Alphabet.isInner, hd]

/-- Where colons do not divide names they are characters of names. -/
theorem isInner_colon (hm : m.alphabet.divides = false) :
  m.alphabet.isInner ':' = true
  := by
  rw [Alphabet.isInner_ascii hm (by decide)]
  decide

theorem qualifiedName_ok (hm : m.alphabet.divides = false) {name : List Char}
    (h : m.qualifiedName cs = .ok (name, rest)) :
  cs = name ++ rest ∧ IsPlainName m.alphabet name
    ∧ ∃ d more, rest = d :: more ∧ m.alphabet.isInner d = false
  := by
  obtain ⟨⟨name', rest'⟩, hplain, h⟩ := bind_ok h
  obtain ⟨hcs, hname, d, more, hrest, hd⟩ := plainName_ok hplain
  dsimp only at h
  split at h
  · rw [← List.head_eq_of_cons_eq hrest, isInner_colon hm] at hd
    cases hd
  · cases h
    exact ⟨hcs, hname, d, more, hrest, hd⟩

/-! ### Values -/

/-- The body of a value holds characters of documents other than the opening bracket and the
quote that closes it. -/
theorem valueBody_ok {quote : Char} {value : List Char}
    (h : m.valueBody quote cs = .ok (value, rest)) :
  cs = value ++ quote :: rest ∧ ∀ c ∈ value, isXmlChar c
  := by
  induction cs generalizing value with
  | nil => cases h
  | cons c cs ih =>
      rw [valueBody] at h
      split_ifs at h with hquote hbad hamp
      · cases h
        exact ⟨by rw [hquote]; rfl, by simp⟩
      · obtain ⟨_, _, h⟩ := bind_ok h
        obtain ⟨⟨ds, rest'⟩, hfound, hds⟩ := bind_ok h
        cases hds
        obtain ⟨rfl, hchars⟩ := ih hfound
        have hc : isXmlChar c := by
          rw [Bool.or_eq_true, not_or] at hbad
          simpa using hbad.2
        exact ⟨rfl, List.forall_mem_cons.mpr ⟨hc, hchars⟩⟩
      · obtain ⟨⟨ds, rest'⟩, hfound, hds⟩ := bind_ok h
        cases hds
        obtain ⟨rfl, hchars⟩ := ih hfound
        have hc : isXmlChar c := by
          rw [Bool.or_eq_true, not_or] at hbad
          simpa using hbad.2
        exact ⟨rfl, List.forall_mem_cons.mpr ⟨hc, hchars⟩⟩

/-! ### Tags -/

/-- An attribute as it may stand in a tag. -/
structure IsRawAttribute (a : Alphabet) (raw : RawAttribute) : Prop where
  name : IsPlainName a raw.name
  value : ∀ c ∈ raw.value, isXmlChar c

variable (hm : m.alphabet.divides = false)

include hm

theorem tagAttribute_ok {a : RawAttribute} (h : m.tagAttribute cs = .ok (a, rest)) :
  IsRawAttribute m.alphabet a
  := by
  obtain ⟨⟨name, rest'⟩, hname, h⟩ := bind_ok h
  obtain ⟨⟨quote, inside⟩, _, h⟩ := bind_ok h
  obtain ⟨⟨value, rest''⟩, hvalue, h⟩ := bind_ok h
  cases h
  exact ⟨(qualifiedName_ok hm hname).2.1, (valueBody_ok hvalue).2⟩

theorem tagRest_ok {first : Bool} {fuel : Nat} {attributes : List RawAttribute} {isEmpty : Bool}
    (h : m.tagRest first fuel cs = .ok ((attributes, isEmpty), rest)) :
  ∀ a ∈ attributes, IsRawAttribute m.alphabet a
  := by
  induction fuel generalizing first cs attributes with
  | zero => cases h
  | succ fuel ih =>
      unfold tagRest at h
      split at h
      · cases h
      · cases h
        simp
      · split at h
        · cases h
          simp
        · cases h
        · cases h
      · split_ifs at h
        split at h
        · cases h
        · cases h
          simp
        · split at h
          · cases h
            simp
          · cases h
          · cases h
        · obtain ⟨⟨a, rest'⟩, ha, h⟩ := bind_ok h
          obtain ⟨⟨⟨others, isEmpty'⟩, rest''⟩, hothers, h⟩ := bind_ok h
          cases h
          exact List.forall_mem_cons.mpr ⟨tagAttribute_ok hm ha, ih hothers⟩

/-- A start tag has a plain name, and so have its attributes. -/
theorem startTag_ok {t : RawTag} (h : m.startTag cs = .ok (t, rest)) :
  IsPlainName m.alphabet t.name ∧ ∀ a ∈ t.attributes, IsRawAttribute m.alphabet a
  := by
  obtain ⟨⟨name, rest'⟩, hname, h⟩ := bind_ok h
  obtain ⟨⟨⟨attributes, isEmpty⟩, rest''⟩, hrest, h⟩ := bind_ok h
  cases h
  exact ⟨(qualifiedName_ok hm hname).2.1, tagRest_ok hm hrest⟩

omit hm

/-! ### References -/

theorem charOfNumber?_ok {n : Nat} {c : Char} (h : charOfNumber? n = some c) :
  isXmlChar c
  := by
  unfold charOfNumber? at h
  split at h
  · dsimp only at h
    split_ifs at h with hc
    cases h
    exact hc
  · cases h

theorem digitsToSemicolon_suffix {isDigit : Char → Bool} {ds : List Char}
    (h : m.digitsToSemicolon isDigit cs = .ok (ds, rest)) :
  rest <:+ cs
  := by
  induction cs generalizing ds with
  | nil => cases h
  | cons c cs ih =>
      rw [digitsToSemicolon] at h
      split_ifs at h
      · obtain ⟨⟨ds', rest'⟩, hfound, h⟩ := bind_ok h
        cases h
        exact (ih hfound).trans (List.suffix_cons c cs)
      · cases h
        exact List.suffix_cons c rest

/-- What a reference that is found refers to: a character of documents, unless its number is that of
none, or what has a name. -/
inductive Refers (m : Medium) (cs : List Char) : Reference → List Char → Prop
  | numbered {c? : Option Char} {rest : List Char} (hc : ∀ c ∈ c?, isXmlChar c)
      (hrest : rest <:+ cs) : Refers m cs (.numbered c?) rest
  | named {name rest : List Char} (hcs : cs = name ++ ';' :: rest)
      (hname : IsPlainName m.alphabet name) : Refers m cs (.named name) rest

theorem reference_refers {r : Reference} (h : m.reference cs = .ok (r, rest)) :
  m.Refers cs r rest
  := by
  have hnumber {base : Nat} {isDigit : Char → Bool} {more : List Char} (hmore : more <:+ cs)
      (h : m.referenceNumber base isDigit more = .ok (r, rest)) : m.Refers cs r rest := by
    unfold referenceNumber at h
    split at h
    · cases h
    · split_ifs at h
      obtain ⟨⟨ds, rest'⟩, hdigits, h⟩ := bind_ok h
      cases h
      exact .numbered (fun _ hc => charOfNumber?_ok hc)
        ((digitsToSemicolon_suffix hdigits).trans hmore)
  unfold reference at h
  split at h
  · exact hnumber ((List.suffix_cons _ _).trans (List.suffix_cons _ _)) h
  · exact hnumber (List.suffix_cons _ _) h
  · obtain ⟨⟨name, rest'⟩, hname, h⟩ := bind_ok h
    obtain ⟨hcs, hplain, _⟩ := plainName_ok hname
    dsimp only at h
    split at h
    · cases h
      exact .named hcs hplain
    · cases h

/-- A reference by number to a character is one to a character of documents. -/
theorem reference_numbered {c : Char} (h : m.reference cs = .ok (.numbered (some c), rest)) :
  isXmlChar c
  := by
  cases reference_refers h with
  | numbered hc => exact hc c rfl

/-- A reference by name is the name and a semicolon. -/
theorem reference_name {name : List Char} (h : m.reference cs = .ok (.named name, rest)) :
  cs = name ++ ';' :: rest ∧ IsPlainName m.alphabet name
  := by
  cases reference_refers h with
  | named hcs hname => exact ⟨hcs, hname⟩

/-- What follows a reference is the end of what it was found in. -/
theorem reference_suffix {r : Reference} (h : m.reference cs = .ok (r, rest)) :
  rest <:+ cs
  := by
  cases reference_refers h with
  | numbered _ hrest => exact hrest
  | named hcs =>
      rw [hcs]
      exact (List.suffix_cons _ _).trans (List.suffix_append _ _)

theorem predefined?_ok {name : List Char} {c : Char} (h : predefined? name = some c) :
  isXmlChar c ∧ isBlank c = false
  := by
  unfold predefined? at h
  split_ifs at h <;> cases h <;> decide

/-! ### Comments -/

/-- A character before a text that does not break a comment breaks none either, unless hyphens
meet or the text ends with one. -/
theorem breaksComment_cons {c : Char} {cs : List Char}
    (h : c = '-' → ∃ d ds, cs = d :: ds ∧ d ≠ '-') :
  breaksComment (c :: cs) = breaksComment cs
  := by
  rw [breaksComment]
  · rintro rfl rfl
    obtain ⟨d, ds, heq, _⟩ := h rfl
    cases heq
  · rintro rest rfl rfl
    obtain ⟨d, ds, heq, hd⟩ := h rfl
    exact hd (List.head_eq_of_cons_eq heq).symm

/-- A comment ends at the first two hyphens in it. -/
theorem commentBody_ok {text : List Char} (h : m.commentBody cs = .ok (text, rest)) :
  cs = text ++ '-' :: '-' :: '>' :: rest ∧ (∀ c ∈ text, isXmlChar c)
    ∧ breaksComment text = false
  := by
  fun_induction commentBody m cs generalizing text with
  | case2 =>
      cases h
      exact ⟨rfl, by simp, rfl⟩
  | case5 cs hend hlast hpair ih =>
      obtain ⟨⟨ds, rest'⟩, hfound, h⟩ := bind_ok h
      cases h
      obtain ⟨rfl, hchars, hbreaks⟩ := ih hfound
      refine ⟨rfl, List.forall_mem_cons.mpr ⟨by decide, hchars⟩, ?_⟩
      rw [breaksComment_cons, hbreaks]
      intro _
      cases ds with
      | nil => exact (hpair _ rfl).elim
      | cons d ds =>
          refine ⟨d, ds, rfl, ?_⟩
          rintro rfl
          exact hpair _ rfl
  | case6 c cs hc hchar ih =>
      obtain ⟨⟨ds, rest'⟩, hfound, h⟩ := bind_ok h
      cases h
      obtain ⟨rfl, hchars, hbreaks⟩ := ih hfound
      refine ⟨rfl, List.forall_mem_cons.mpr ⟨hchar, hchars⟩, ?_⟩
      rw [breaksComment_cons (fun h => absurd h hc), hbreaks]
  | _ => cases h

theorem comment_ok {text : List Char} (h : m.comment cs = .ok (text, rest)) :
  cs = '-' :: (text ++ '-' :: '-' :: '>' :: rest) ∧ (∀ c ∈ text, isXmlChar c)
    ∧ breaksComment text = false
  := by
  unfold comment at h
  split at h
  · obtain ⟨rfl, hchars, hbreaks⟩ := commentBody_ok h
    exact ⟨rfl, hchars, hbreaks⟩
  · cases h
  · cases h

end Medium

end Reading

end XmlDraft
