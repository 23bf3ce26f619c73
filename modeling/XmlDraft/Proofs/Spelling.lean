import XmlDraft.Proofs.Found
import XmlDraft.Proofs.Headings

/-!
# How tokens are spelled

The tokens before the root as a grammar: which characters write each of them, and which character
may follow.  Main statements: what is found as a token is spelled as the grammar says, and what
is spelled so is found again wherever the same character follows it.
-/

namespace XmlDraft

namespace Reading

/-! ### Characters behind tokens -/

/-- A character that may follow a name. -/
def endsName (c : Char) : Bool :=
  isBlank c || c = '>' || c = ')' || c = ',' || c = '|' || c = '[' || c = '%'

/-- A character that may follow a name after a number sign. -/
def endsKeyword (c : Char) : Bool :=
  isBlank c || c = ')' || c = '>' || c = '%' || c = '|'

/-- A character that may follow a literal. -/
def endsLiteral (c : Char) : Bool :=
  isBlank c || c = '>' || c = '%' || c = '['

/-- A character that may follow a group without a mark. -/
def endsGroup (c : Char) : Bool :=
  isBlank c || c = '>' || c = ',' || c = '|' || c = ')'

/-! ### The grammar -/

/-- The characters that write a token, and the character behind it if there is one. -/
inductive Spells (a : Alphabet) : Token → List Char → Option Char → Prop
  | blank {c : Char} {run : List Char} {next : Option Char} (hc : isBlank c)
      (hrun : ∀ d ∈ run, isBlank d) (hnext : next.all fun d => !isBlank d) :
      Spells a .blank (c :: run) next
  | declaration {text : List Char} {next : Option Char} (hhead : text.head?.all isBlank)
      (hchars : ∀ c ∈ text, isXmlChar c) (hend : ¬ ['?', '>'] <:+: text) :
      Spells a (.declaration text) ('<' :: '?' :: (['x', 'm', 'l'] ++ (text ++ ['?', '>']))) next
  | instruction {target text : List Char} {next : Option Char} (htarget : IsPlainName a target)
      (hallowed : Medium.isReserved target = false) (hhead : text.head?.all isBlank)
      (hchars : ∀ c ∈ text, isXmlChar c) (hend : ¬ ['?', '>'] <:+: text) :
      Spells a (.instruction target text) ('<' :: '?' :: (target ++ (text ++ ['?', '>']))) next
  | comment {text : List Char} {next : Option Char} (hchars : ∀ c ∈ text, isXmlChar c)
      (hbreaks : breaksComment text = false) :
      Spells a (.comment text) ('<' :: '!' :: '-' :: '-' :: (text ++ ['-', '-', '>'])) next
  | opening {word : List Char} {next : Option Char} (hne : word ≠ [])
      (hword : ∀ c ∈ word, a.isKeywordLetter c) (hnext : next.any fun d => isBlank d || d = '%') :
      Spells a (.opening word) ('<' :: '!' :: word) next
  | closing {next : Option Char} : Spells a .closing ['>'] next
  | name {n : List Char} {next : Option Char} (hn : IsPlainName a n) (hnext : next.all endsName) :
      Spells a (.name n) n next
  | nameToken {n : List Char} {next : Option Char} (hhead : n.head?.any fun c => !a.isStart c)
      (hinner : ∀ c ∈ n, a.isInner c) (hnext : next.all endsName) :
      Spells a (.nameToken n) n next
  | marked {n : List Char} {mark : Char} {next : Option Char} (hn : IsPlainName a n)
      (hmark : mark = '+' ∨ mark = '*' ∨ mark = '?') :
      Spells a (.marked n) (n ++ [mark]) next
  | keyword {n : List Char} {next : Option Char} (hn : IsPlainName a n)
      (hnext : next.all endsKeyword) :
      Spells a (.keyword n) ('#' :: n) next
  | literal {quote : Char} {value : List Char} {next : Option Char}
      (hquote : quote = '"' ∨ quote = '\'') (hvalue : quote ∉ value)
      (hchars : ∀ c ∈ value, isXmlChar c) (hnext : next.all endsLiteral) :
      Spells a (.literal value) (quote :: (value ++ [quote])) next
  | percent {next : Option Char} (hnext : next.any fun d => isBlank d || d = '%') :
      Spells a .percent ['%'] next
  | parameter {n : List Char} {next : Option Char} (hn : IsPlainName a n) :
      Spells a (.parameter n) ('%' :: (n ++ [';'])) next
  | openBracket {next : Option Char} : Spells a .openBracket ['['] next
  | closeBracket {next : Option Char} : Spells a .closeBracket [']'] next
  | openGroup {next : Option Char} : Spells a .openGroup ['('] next
  | closeGroup {next : Option Char} (hnext : next.all endsGroup) :
      Spells a (.closeGroup .once) [')'] next
  | optionalGroup {next : Option Char} : Spells a (.closeGroup .optional) [')', '?'] next
  | repeatedGroup {next : Option Char} : Spells a (.closeGroup .many) [')', '*'] next
  | requiredGroup {next : Option Char} : Spells a (.closeGroup .some) [')', '+'] next
  | comma {next : Option Char} : Spells a .comma [','] next
  | bar {next : Option Char} : Spells a .bar ['|'] next
  | sectionOpening {next : Option Char} : Spells a .sectionOpening ['<', '!', '['] next
  | sectionClosing {next : Option Char} : Spells a .sectionClosing [']', ']', '>'] next

/-- Whether the end of a token shows in the second character behind it only. -/
def Token.needsMore : Token → Option Char → Bool
  | opening _, next => next = some '%'
  | closeBracket, next => next = some ']'
  | _, _ => false

/-! ### Names -/

theorem isInner_of_isKeywordLetter {a : Alphabet} {c : Char} (h : a.isKeywordLetter c) :
  a.isInner c
  := by
  rw [Alphabet.isKeywordLetter, Bool.and_eq_true] at h
  simp [Alphabet.isInner, h.2]

/-- A character of names is no mark of markup. -/
theorem notMark_of_isInner {a : Alphabet} {c : Char} (h : a.isInner c) :
  c ∉ Alphabet.marks
  := fun hc => Bool.false_ne_true ((a.isInner_mark hc).symm.trans h)

theorem mem_marks_of_isBlank {c : Char} (h : isBlank c) :
  c ∈ Alphabet.marks
  := by
  simp only [isBlank, Bool.or_eq_true, decide_eq_true_eq] at h
  rcases h with ((rfl | rfl) | rfl) | rfl
  all_goals decide

theorem isPlainName_cons {a : Alphabet} {c : Char} {cs : List Char} (hc : a.isStart c)
    (hcs : ∀ d ∈ cs, a.isInner d) :
  IsPlainName a (c :: cs)
  where
    start := by simpa using hc
    inner := List.forall_mem_cons.mpr ⟨by simp [Alphabet.isInner, hc], hcs⟩

theorem Spells.ne_nil {a : Alphabet} {t : Token} {raw : List Char} {next : Option Char}
    (h : Spells a t raw next) :
  raw ≠ []
  := by
  cases h with
  | name hn hnext =>
      rintro rfl
      cases hn.start
  | nameToken hhead hinner hnext =>
      rintro rfl
      cases hhead
  | marked hn hmark => simp
  | _ => exact List.cons_ne_nil _ _

namespace Medium

variable {m : Medium} {cs rest : List Char}

/-! ### Parts of tokens -/

theorem nameStart_ok {c : Char} (h : m.nameStart cs = .ok (c, rest)) :
  cs = c :: rest ∧ m.alphabet.isStart c
  := by
  cases cs with
  | nil => cases h
  | cons d ds =>
      rw [nameStart] at h
      split_ifs at h with hd
      cases h
      exact ⟨rfl, hd⟩

theorem softName_ok {ds : List Char} (h : m.softName cs = .ok (ds, rest)) :
  cs = ds ++ rest ∧ (∀ c ∈ ds, m.alphabet.isInner c)
    ∧ rest.head?.all fun c => !m.alphabet.isInner c
  := by
  induction cs generalizing ds with
  | nil =>
      rw [softName] at h
      split_ifs at h
      cases h
      exact ⟨rfl, by simp, rfl⟩
  | cons c cs ih =>
      rw [softName] at h
      split_ifs at h with hc
      · obtain ⟨⟨ds', rest'⟩, hfound, h⟩ := bind_ok h
        cases h
        obtain ⟨rfl, hinner, hstop⟩ := ih hfound
        exact ⟨rfl, List.forall_mem_cons.mpr ⟨hc, hinner⟩, hstop⟩
      · cases h
        exact ⟨rfl, by simp, by simpa using hc⟩

theorem softName_append {ds : List Char} (h : ∀ c ∈ ds, m.alphabet.isInner c) {d : Char}
    (hd : m.alphabet.isInner d = false) (rest : List Char) :
  m.softName (ds ++ d :: rest) = .ok (ds, d :: rest)
  := by
  induction ds with
  | nil => simp [softName, hd]
  | cons c cs ih =>
      rw [List.forall_mem_cons] at h
      rw [List.cons_append, softName, if_pos h.1, ih h.2]
      rfl

theorem literalBody_ok {quote : Char} {value : List Char}
    (h : m.literalBody quote cs = .ok (value, rest)) :
  cs = value ++ quote :: rest ∧ quote ∉ value ∧ ∀ c ∈ value, isXmlChar c
  := by
  induction cs generalizing value with
  | nil => cases h
  | cons c cs ih =>
      rw [literalBody] at h
      split_ifs at h with hquote hc
      · cases h
        exact ⟨by rw [hquote]; rfl, by simp, by simp⟩
      · obtain ⟨⟨ds, rest'⟩, hfound, h⟩ := bind_ok h
        cases h
        obtain ⟨rfl, hfree, hchars⟩ := ih hfound
        exact ⟨rfl, by simp [Ne.symm hquote, hfree], List.forall_mem_cons.mpr ⟨hc, hchars⟩⟩

theorem literalBody_append {quote : Char} {value : List Char} (hfree : quote ∉ value)
    (hchars : ∀ c ∈ value, isXmlChar c) (rest : List Char) :
  m.literalBody quote (value ++ quote :: rest) = .ok (value, rest)
  := by
  induction value with
  | nil => simp [literalBody]
  | cons c cs ih =>
      rw [List.forall_mem_cons] at hchars
      rw [List.mem_cons, not_or] at hfree
      rw [List.cons_append, literalBody, if_neg (Ne.symm hfree.1), if_pos hchars.1,
        ih hfree.2 hchars.2]
      rfl

theorem openingBody_ok {word : List Char} (h : m.openingBody cs = .ok (word, rest)) :
  cs = word ++ rest ∧ (∀ c ∈ word, m.alphabet.isKeywordLetter c)
    ∧ rest.head?.any fun d => isBlank d || d = '%'
  := by
  fun_induction openingBody m cs generalizing word with
  | case2 c cs hblank =>
      cases h
      exact ⟨rfl, by simp, by simp [hblank]⟩
  | case4 =>
      cases h
      exact ⟨rfl, by simp, by simp⟩
  | case6 =>
      cases h
      exact ⟨rfl, by simp, by simp⟩
  | case7 c cs hblank hpercent hletter ih =>
      obtain ⟨⟨ds, rest'⟩, hfound, h⟩ := bind_ok h
      cases h
      obtain ⟨rfl, hword, hstop⟩ := ih hfound
      exact ⟨rfl, List.forall_mem_cons.mpr ⟨hletter, hword⟩, hstop⟩
  | _ => cases h

theorem openingBody_append {word : List Char} (h : ∀ c ∈ word, m.alphabet.isKeywordLetter c)
    {d : Char} (hd : isBlank d)
    (rest : List Char) :
  m.openingBody (word ++ d :: rest) = .ok (word, d :: rest)
  := by
  induction word with
  | nil =>
      rw [List.nil_append, openingBody.eq_def]
      simp [hd]
  | cons c cs ih =>
      rw [List.forall_mem_cons] at h
      have hmark := notMark_of_isInner (isInner_of_isKeywordLetter h.1)
      simp only [Alphabet.marks, List.mem_cons, not_or] at hmark
      have hblank : isBlank c = false := by simp [isBlank, hmark]
      have hpercent : c ≠ '%' := by simp [hmark]
      rw [List.cons_append, openingBody.eq_def]
      simp [hblank, hpercent, h.1, ih h.2, bind, Except.bind]

theorem instructionBody_ok {text : List Char} (h : m.instructionBody cs = .ok (text, rest)) :
  cs = text ++ '?' :: '>' :: rest ∧ (∀ c ∈ text, isXmlChar c) ∧ ¬ ['?', '>'] <:+: text
  := by
  fun_induction instructionBody m cs generalizing text with
  | case2 rest =>
      cases h
      exact ⟨rfl, by simp, by simp⟩
  | case3 cs hend ih =>
      obtain ⟨⟨ds, rest'⟩, hfound, h⟩ := bind_ok h
      cases h
      obtain ⟨rfl, hchars, hinner⟩ := ih hfound
      refine ⟨rfl, List.forall_mem_cons.mpr ⟨by decide, hchars⟩, ?_⟩
      rw [List.infix_cons_iff, not_or]
      refine ⟨?_, hinner⟩
      rintro ⟨others, hothers⟩
      have hds : ds = '>' :: others := (List.tail_eq_of_cons_eq hothers).symm
      exact hend _ (by rw [hds]; rfl)
  | case4 c cs hc hchar ih =>
      obtain ⟨⟨ds, rest'⟩, hfound, h⟩ := bind_ok h
      cases h
      obtain ⟨rfl, hchars, hinner⟩ := ih hfound
      refine ⟨rfl, List.forall_mem_cons.mpr ⟨hchar, hchars⟩, ?_⟩
      rw [List.infix_cons_iff, not_or]
      refine ⟨?_, hinner⟩
      intro hprefix
      exact hc (List.cons_prefix_cons.mp hprefix).1.symm
  | _ => cases h

/-! ### What is found is spelled so -/

/-- Characters that begin with a token as the grammar spells it. -/
def Begins (a : Alphabet) (t : Token) (cs rest : List Char) : Prop :=
  ∃ raw, cs = raw ++ rest ∧ Spells a t raw rest.head?

variable {t : Token}

theorem literal_ok {quote : Char} (hquote : quote = '"' ∨ quote = '\'')
    (h : m.literal quote cs = .ok (t, rest)) :
  Begins m.alphabet t (quote :: cs) rest
  := by
  obtain ⟨⟨value, rest'⟩, hbody, h⟩ := bind_ok h
  obtain ⟨hcs, hfree, hchars⟩ := literalBody_ok hbody
  have hbegins (next : List Char) (hnext : next.head?.all endsLiteral) :
      Begins m.alphabet (.literal value) (quote :: (value ++ quote :: next)) next :=
    ⟨quote :: (value ++ [quote]), by simp, .literal hquote hfree hchars hnext⟩
  rw [hcs]
  dsimp only at h
  split at h
  · split_ifs at h
    cases h
    exact hbegins [] rfl
  · split_ifs at h with hnext
    cases h
    exact hbegins _ hnext

theorem percentToken_ok (h : m.percentToken cs = .ok (t, rest)) :
  Begins m.alphabet t ('%' :: cs) rest
  := by
  unfold percentToken at h
  split at h
  · cases h
  · split_ifs at h with hnext
    · cases h
      exact ⟨['%'], rfl, .percent (by simpa using hnext)⟩
    · obtain ⟨⟨name, rest'⟩, hname, h⟩ := bind_ok h
      obtain ⟨hcs, hplain, _⟩ := plainName_ok hname
      dsimp only at h
      split at h
      · cases h
        exact ⟨'%' :: (name ++ [';']), by rw [hcs]; simp, .parameter hplain⟩
      · cases h

theorem bracketEnd_ok (h : m.bracketEnd cs = .ok (t, rest)) :
  Begins m.alphabet t (']' :: cs) rest
  := by
  unfold bracketEnd at h
  split at h
  · cases h
    exact ⟨[']', ']', '>'], rfl, .sectionClosing⟩
  · split_ifs at h
    cases h
    exact ⟨[']'], rfl, .closeBracket⟩
  · cases h
    exact ⟨[']'], rfl, .closeBracket⟩

theorem groupEnd_ok (h : m.groupEnd cs = .ok (t, rest)) :
  Begins m.alphabet t (')' :: cs) rest
  := by
  unfold groupEnd at h
  split at h
  · split_ifs at h
    cases h
    exact ⟨[')'], rfl, .closeGroup rfl⟩
  · cases h
    exact ⟨[')', '*'], rfl, .repeatedGroup⟩
  · cases h
    exact ⟨[')', '?'], rfl, .optionalGroup⟩
  · cases h
    exact ⟨[')', '+'], rfl, .requiredGroup⟩
  · split_ifs at h with hnext
    cases h
    exact ⟨[')'], rfl, .closeGroup hnext⟩

theorem keywordToken_ok (h : m.keywordToken cs = .ok (t, rest)) :
  Begins m.alphabet t ('#' :: cs) rest
  := by
  obtain ⟨⟨c, cs'⟩, hstart, h⟩ := bind_ok h
  obtain ⟨⟨ds, rest'⟩, hsoft, h⟩ := bind_ok h
  obtain ⟨hcs, hc⟩ := nameStart_ok hstart
  obtain ⟨hcs', hinner, _⟩ := softName_ok hsoft
  have hplain := isPlainName_cons hc hinner
  rw [hcs, hcs']
  dsimp only at h
  split at h
  · cases h
    exact ⟨'#' :: c :: ds, by simp, .keyword hplain rfl⟩
  · split_ifs at h with hnext
    cases h
    exact ⟨'#' :: c :: ds, rfl, .keyword hplain hnext⟩

/-- Where colons do not divide names, a text of name characters ends at the first other
character, which is a mark or may follow it. -/
theorem nameLike_ok (hm : m.alphabet.divides = false) {fuel : Nat} {form : Form}
    {before : List Char} (h : m.nameLike (fuel + 1) form before cs = .ok (t, rest)) :
  ∃ ds, (∀ c ∈ ds, m.alphabet.isInner c)
    ∧ ((cs = ds ++ rest ∧ rest.head?.all endsName ∧ t = formed form (before ++ ds))
      ∨ ∃ mark, (mark = '+' ∨ mark = '*' ∨ mark = '?') ∧ form ≠ .token
        ∧ cs = ds ++ mark :: rest ∧ t = .marked (before ++ ds))
  := by
  rw [nameLike] at h
  obtain ⟨⟨ds, rest'⟩, hsoft, h⟩ := bind_ok h
  obtain ⟨hcs, hinner, _⟩ := softName_ok hsoft
  refine ⟨ds, hinner, ?_⟩
  rw [hcs]
  dsimp only at h
  split at h
  · cases h
    exact .inl ⟨rfl, rfl, rfl⟩
  · rename_i c more _
    rw [hm, Bool.and_false, if_neg Bool.false_ne_true] at h
    split_ifs at h with hends hmark
    · cases h
      exact .inl ⟨rfl, hends, rfl⟩
    · cases h
      rw [Bool.and_eq_true] at hmark
      obtain ⟨hmark, hform⟩ := hmark
      exact .inr ⟨c, by simpa [or_assoc] using hmark, by simpa using hform, rfl, rfl⟩

theorem instruction_ok {target text : List Char} (h : m.instruction cs = .ok ((target, text), rest)) :
  cs = target ++ (text ++ '?' :: '>' :: rest) ∧ IsPlainName m.alphabet target
    ∧ (target = ['x', 'm', 'l'] ∨ isReserved target = false) ∧ text.head?.all isBlank
    ∧ (∀ c ∈ text, isXmlChar c) ∧ ¬ ['?', '>'] <:+: text
  := by
  obtain ⟨⟨name, rest'⟩, hname, h⟩ := bind_ok h
  obtain ⟨hcs, hplain, _⟩ := plainName_ok hname
  have hname' : (!isReserved name || name = ['x', 'm', 'l'] : Bool) = true →
      name = ['x', 'm', 'l'] ∨ isReserved name = false := by
    simp [or_comm]
  rw [hcs]
  dsimp only at h
  split at h
  · split_ifs at h with hallowed
    split at h
    · cases h
      exact ⟨rfl, hplain, hname' (by rwa [Bool.not_eq_true, Bool.not_eq_false'] at hallowed), rfl,
        by simp, by simp⟩
    · cases h
    · cases h
  · split_ifs at h with hallowed
    obtain ⟨⟨text', rest''⟩, hbody, h⟩ := bind_ok h
    obtain ⟨hrest, hchars, hend⟩ := instructionBody_ok hbody
    cases h
    rw [Bool.and_eq_true] at hallowed
    refine ⟨by rw [hrest], hplain, hname' hallowed.2, ?_, hchars, hend⟩
    cases text' with
    | nil => rfl
    | cons d ds =>
        rw [List.cons_append] at hrest
        simpa [← List.head_eq_of_cons_eq hrest] using hallowed.1
  · cases h

theorem declarationToken_ok (h : m.declarationToken cs = .ok (t, rest)) :
  Begins m.alphabet t ('<' :: '!' :: cs) rest
  := by
  unfold declarationToken at h
  split at h
  · cases h
  · obtain ⟨⟨text, rest'⟩, htext, h⟩ := map_ok h
    cases h
    obtain ⟨rfl, hchars, hbreaks⟩ := comment_ok htext
    exact ⟨_, by simp, .comment hchars hbreaks⟩
  · cases h
    exact ⟨['<', '!', '['], rfl, .sectionOpening⟩
  · split_ifs at h with hletter
    obtain ⟨⟨word, rest'⟩, hword, h⟩ := map_ok h
    cases h
    obtain ⟨rfl, hletters, hnext⟩ := openingBody_ok hword
    exact ⟨_, rfl, .opening (List.cons_ne_nil _ _)
      (List.forall_mem_cons.mpr ⟨hletter, hletters⟩) hnext⟩

theorem markupToken_ok (h : m.markupToken cs = .ok (t, rest)) :
  t = .root ∨ Begins m.alphabet t ('<' :: cs) rest
  := by
  unfold markupToken at h
  split at h
  · split at h
    · cases h
      exact .inl rfl
    · cases h
      exact .inl rfl
    · cases h
  · exact .inr (declarationToken_ok h)
  · obtain ⟨⟨⟨target, text⟩, rest'⟩, hfound, h⟩ := map_ok h
    obtain ⟨hcs, hplain, hallowed, hhead, hchars, hend⟩ := instruction_ok hfound
    rw [hcs]
    right
    dsimp only at h
    split_ifs at h with hxml
    · cases h
      exact ⟨_, by simp [hxml], .declaration hhead hchars hend⟩
    · cases h
      exact ⟨_, by simp, .instruction hplain (hallowed.resolve_left hxml) hhead hchars hend⟩
  · split_ifs at h
    cases h
    exact .inl rfl

/-- What is found as a token is spelled as the grammar says, unless it begins the root. -/
theorem token_ok (hm : m.alphabet.divides = false) {c : Char}
    (h : m.token c cs = .ok (t, rest)) :
  t = .root ∨ Begins m.alphabet t (c :: cs) rest
  := by
  unfold token at h
  split at h
  · rename_i hblank
    obtain ⟨run, others, rfl, hrun, hstop⟩ := exists_run isBlank cs
    rw [(run_append hrun hstop).2] at h
    cases h
    exact .inr ⟨c :: run, rfl, .blank hblank hrun hstop⟩
  · split at h
    · exact markupToken_ok h
    · exact .inr (literal_ok (.inl rfl) h)
    · exact .inr (literal_ok (.inr rfl) h)
    · exact .inr (percentToken_ok h)
    · cases h
      exact .inr ⟨[','], rfl, .comma⟩
    · cases h
      exact .inr ⟨['['], rfl, .openBracket⟩
    · exact .inr (bracketEnd_ok h)
    · cases h
      exact .inr ⟨['('], rfl, .openGroup⟩
    · exact .inr (groupEnd_ok h)
    · cases h
      exact .inr ⟨['|'], rfl, .bar⟩
    · cases h
      exact .inr ⟨['>'], rfl, .closing⟩
    · exact .inr (keywordToken_ok h)
    · right
      split_ifs at h with hstart hinner
      · obtain ⟨ds, hds, hcases⟩ := nameLike_ok hm h
        have hplain := isPlainName_cons hstart hds
        rcases hcases with ⟨rfl, hnext, rfl⟩ | ⟨mark, hmark, -, rfl, rfl⟩
        · exact ⟨c :: ds, rfl, .name hplain hnext⟩
        · exact ⟨c :: ds ++ [mark], by simp, .marked hplain hmark⟩
      · obtain ⟨ds, hds, hcases⟩ := nameLike_ok hm h
        have hc : m.alphabet.isInner c := by
          rcases (Bool.or_eq_true _ _).mp hinner with hc | hc
          · exact hc
          · rw [decide_eq_true_eq] at hc
            exact hc ▸ isInner_colon hm
        rcases hcases with ⟨rfl, hnext, rfl⟩ | ⟨mark, hmark, hform, -⟩
        · exact ⟨c :: ds, rfl, .nameToken (by simpa using hstart)
            (List.forall_mem_cons.mpr ⟨hc, hds⟩) hnext⟩
        · exact absurd rfl hform

/-! ### What is spelled so is found -/

theorem token_blank {c : Char} (hc : isBlank c) (cs : List Char) :
  m.token c cs = .ok (.blank, cs.dropWhile isBlank)
  := by
  unfold token
  rw [if_pos hc]

/-- A character of names begins a text of such characters. -/
theorem token_inner {c : Char} (hc : m.alphabet.isInner c) (cs : List Char) :
  m.token c cs
    = m.nameLike (cs.length + 1) (if m.alphabet.isStart c then .name else .token) [c] cs
  := by
  have hmark := notMark_of_isInner hc
  simp only [Alphabet.marks, List.mem_cons, not_or] at hmark
  have hblank : isBlank c = false := by simp [isBlank, hmark]
  unfold token
  rw [if_neg (by simp [hblank])]
  split
  case h_13 => split_ifs <;> simp_all
  all_goals simp at hmark

theorem isInner_of_endsName {d : Char} (h : endsName d) :
  m.alphabet.isInner d = false
  := by
  apply m.alphabet.isInner_mark
  simp only [endsName, Bool.or_eq_true, decide_eq_true_eq] at h
  rcases h with (((((h | rfl) | rfl) | rfl) | rfl) | rfl) | rfl
  · exact mem_marks_of_isBlank h
  all_goals decide

theorem nameLike_append (fuel : Nat) (form : Form) (before : List Char) {ds : List Char}
    (h : ∀ c ∈ ds, m.alphabet.isInner c) {d : Char} (hd : endsName d) (rest : List Char) :
  m.nameLike (fuel + 1) form before (ds ++ d :: rest)
    = .ok (formed form (before ++ ds), d :: rest)
  := by
  rw [nameLike, softName_append h (isInner_of_endsName hd)]
  rw [endsName] at hd
  simp only [bind, Except.bind, hd, ite_true]

theorem nameLike_marked (fuel : Nat) (before : List Char) {ds : List Char}
    (h : ∀ c ∈ ds, m.alphabet.isInner c) {mark : Char}
    (hmark : mark = '+' ∨ mark = '*' ∨ mark = '?') (rest : List Char) :
  m.nameLike (fuel + 1) .name before (ds ++ mark :: rest) = .ok (.marked (before ++ ds), rest)
  := by
  have hinner : m.alphabet.isInner mark = false := by
    rcases hmark with rfl | rfl | rfl
    · exact m.alphabet.isInner_mark (by decide)
    · exact m.alphabet.isInner_mark (by decide)
    · exact m.alphabet.isInner_mark (by decide)
  rw [nameLike, softName_append h hinner]
  rcases hmark with rfl | rfl | rfl
  · simp [bind, Except.bind, isBlank]
  · simp [bind, Except.bind, isBlank]
  · simp [bind, Except.bind, isBlank]

theorem keywordToken_append {n : List Char} (hn : IsPlainName m.alphabet n) {d : Char}
    (hd : endsKeyword d) (rest : List Char) :
  m.keywordToken (n ++ d :: rest) = .ok (.keyword n, d :: rest)
  := by
  have hinner : m.alphabet.isInner d = false := by
    apply isInner_of_endsName
    rw [endsKeyword] at hd
    simp only [Bool.or_eq_true, decide_eq_true_eq, endsName] at hd ⊢
    rcases hd with (((hd | hd) | hd) | hd) | hd <;> simp [hd]
  cases n with
  | nil => cases hn.start
  | cons c cs =>
      have hstart : m.alphabet.isStart c := by simpa using hn.start
      rw [endsKeyword] at hd
      simp only [keywordToken, List.cons_append, nameStart, hstart, ite_true, bind, Except.bind,
        softName_append (List.forall_mem_cons.mp hn.inner).2 hinner, hd]

theorem percentToken_parameter {n : List Char} (hn : IsPlainName m.alphabet n)
    (rest : List Char) :
  m.percentToken (n ++ ';' :: rest) = .ok (.parameter n, rest)
  := by
  have hname := plainName_append hn (m.alphabet.isInner_mark (c := ';') (by decide)) rest
  cases n with
  | nil => cases hn.start
  | cons c cs =>
      have hmark := notMark_of_isInner (List.forall_mem_cons.mp hn.inner).1
      simp only [Alphabet.marks, List.mem_cons, not_or] at hmark
      rw [List.cons_append] at hname ⊢
      rw [percentToken, if_neg (by simp [isBlank, hmark]), hname]
      rfl

theorem literal_append {quote : Char} {value : List Char} (hfree : quote ∉ value)
    (hchars : ∀ c ∈ value, isXmlChar c) {d : Char} (hd : endsLiteral d) (rest : List Char) :
  m.literal quote (value ++ quote :: d :: rest) = .ok (.literal value, d :: rest)
  := by
  rw [endsLiteral] at hd
  simp only [literal, literalBody_append hfree hchars, bind, Except.bind, hd, ite_true]

theorem instruction_append {target text : List Char} (htarget : IsPlainName m.alphabet target)
    (hallowed : target = ['x', 'm', 'l'] ∨ isReserved target = false)
    (hhead : text.head?.all isBlank) (hchars : ∀ c ∈ text, isXmlChar c)
    (hend : ¬ ['?', '>'] <:+: text) (rest : List Char) :
  m.instruction (target ++ (text ++ '?' :: '>' :: rest)) = .ok ((target, text), rest)
  := by
  have hallowed' : (!isReserved target || target = ['x', 'm', 'l'] : Bool) = true := by
    simpa [or_comm] using hallowed
  cases text with
  | nil =>
      have hname := plainName_append htarget (m.alphabet.isInner_mark (c := '?') (by decide))
        ('>' :: rest)
      simp only [instruction, List.nil_append, hname, bind, Except.bind, hallowed', Bool.not_true,
        Bool.false_eq_true, ite_false]
  | cons c cs =>
      have hc : isBlank c := by simpa using hhead
      have hname := plainName_append htarget (m.alphabet.isInner_mark (mem_marks_of_isBlank hc))
        (cs ++ '?' :: '>' :: rest)
      have hbody := instructionBody_append (m := m) hchars hend rest
      have hquestion : c ≠ '?' := by
        rintro rfl
        cases hc
      rw [List.cons_append] at hbody ⊢
      simp only [instruction, hname, bind, Except.bind]
      rw [hc, hallowed', hbody]
      rfl

theorem markupToken_instruction {target text : List Char}
    (htarget : IsPlainName m.alphabet target)
    (hallowed : target = ['x', 'm', 'l'] ∨ isReserved target = false)
    (hhead : text.head?.all isBlank) (hchars : ∀ c ∈ text, isXmlChar c)
    (hend : ¬ ['?', '>'] <:+: text) (rest : List Char) :
  m.markupToken ('?' :: (target ++ (text ++ '?' :: '>' :: rest)))
    = .ok (if target = ['x', 'm', 'l'] then .declaration text else .instruction target text, rest)
  := by
  rw [markupToken, instruction_append htarget hallowed hhead hchars hend]
  rfl

theorem markupToken_comment {text : List Char} (hchars : ∀ c ∈ text, isXmlChar c)
    (hbreaks : breaksComment text = false) (rest : List Char) :
  m.markupToken ('!' :: '-' :: '-' :: (text ++ '-' :: '-' :: '>' :: rest))
    = .ok (.comment text, rest)
  := by
  rw [markupToken, declarationToken, comment, commentBody_append hchars hbreaks]
  rfl

theorem markupToken_opening {word : List Char} (hne : word ≠ [])
    (hword : ∀ c ∈ word, m.alphabet.isKeywordLetter c) {d : Char} (hd : isBlank d)
    (rest : List Char) :
  m.markupToken ('!' :: (word ++ d :: rest)) = .ok (.opening word, d :: rest)
  := by
  cases word with
  | nil => exact absurd rfl hne
  | cons c cs =>
      obtain ⟨hc, hcs⟩ := List.forall_mem_cons.mp hword
      have hother (e : Char) (he : m.alphabet.isStart e = false) : c ≠ e := by
        rintro rfl
        rw [Alphabet.isKeywordLetter, he, Bool.and_false] at hc
        cases hc
      rw [List.cons_append, markupToken, declarationToken, if_pos hc, openingBody_append hcs hd]
      · rfl
      · exact hother '-' (by simp [Alphabet.isStart_eq, isAsciiLetter])
      · exact hother '[' (by simp [Alphabet.isStart_eq, isAsciiLetter])

/-- What is spelled as the grammar says is found as the token, whatever follows, where the
character behind it shows that it ends. -/
theorem token_spelled {raw : List Char} {d : Char}
    (h : Spells m.alphabet t raw (some d)) (hmore : t.needsMore (some d) = false)
    (rest : List Char) :
  ∃ c cs, raw = c :: cs ∧ m.token c (cs ++ d :: rest) = .ok (t, d :: rest)
  := by
  have hxml : IsPlainName m.alphabet ['x', 'm', 'l'] :=
    isPlainName_letters _ (by decide) (List.all_iff_forall_prop.mp (by decide))
  -- markup, a text of name characters, and what a mark begins
  have hmarkup {body : List Char} {t : Token}
      (h : m.markupToken (body ++ d :: rest) = .ok (t, d :: rest)) :
      ∃ c cs, '<' :: body = c :: cs ∧ m.token c (cs ++ d :: rest) = .ok (t, d :: rest) :=
    ⟨'<', body, rfl, h⟩
  cases h with
  | @blank c run _ hc hrun hnext =>
      have hstop : (d :: rest).head?.all fun d => !isBlank d := hnext
      exact ⟨c, run, rfl, by rw [token_blank hc, (run_append hrun hstop).2]⟩
  | declaration hhead hchars hend =>
      apply hmarkup
      simpa using markupToken_instruction hxml (.inl rfl) hhead hchars hend (d :: rest)
  | @instruction target text _ htarget hallowed hhead hchars hend =>
      have hne : target ≠ ['x', 'm', 'l'] := by
        rintro rfl
        cases hallowed
      apply hmarkup
      simpa [hne] using markupToken_instruction htarget (.inr hallowed) hhead hchars hend (d :: rest)
  | comment hchars hbreaks =>
      apply hmarkup
      simpa using markupToken_comment (m := m) hchars hbreaks (d :: rest)
  | opening hne hword hnext =>
      have hd : isBlank d := by
        have hpercent : d ≠ '%' := by simpa [Token.needsMore] using hmore
        simpa [hpercent] using hnext
      exact hmarkup (markupToken_opening hne hword hd rest)
  | closing => exact ⟨_, _, rfl, rfl⟩
  | name hn hnext =>
      cases raw with
      | nil => cases hn.start
      | cons c cs =>
          refine ⟨c, cs, rfl, ?_⟩
          have hstart : m.alphabet.isStart c := by simpa using hn.start
          obtain ⟨hc, hcs⟩ := List.forall_mem_cons.mp hn.inner
          rw [token_inner hc, if_pos hstart, nameLike_append _ _ _ hcs hnext]
          rfl
  | nameToken hhead hinner hnext =>
      cases raw with
      | nil => cases hhead
      | cons c cs =>
          refine ⟨c, cs, rfl, ?_⟩
          have hstart : m.alphabet.isStart c = false := by simpa using hhead
          obtain ⟨hc, hcs⟩ := List.forall_mem_cons.mp hinner
          rw [token_inner hc, hstart, nameLike_append _ _ _ hcs hnext]
          rfl
  | @marked n mark _ hn hmark =>
      cases n with
      | nil => cases hn.start
      | cons c cs =>
          refine ⟨c, cs ++ [mark], rfl, ?_⟩
          have hstart : m.alphabet.isStart c := by simpa using hn.start
          obtain ⟨hc, hcs⟩ := List.forall_mem_cons.mp hn.inner
          rw [List.append_assoc, List.singleton_append, token_inner hc, if_pos hstart,
            nameLike_marked _ _ hcs hmark]
          rfl
  | keyword hn hnext => exact ⟨'#', _, rfl, keywordToken_append hn hnext rest⟩
  | literal hquote hvalue hchars hnext =>
      have hfound := literal_append (m := m) hvalue hchars hnext rest
      rcases hquote with rfl | rfl
      · exact ⟨_, _, rfl, by rw [List.append_assoc]; exact hfound⟩
      · exact ⟨_, _, rfl, by rw [List.append_assoc]; exact hfound⟩
  | percent hnext =>
      have hpercent : m.percentToken (d :: rest) = .ok (.percent, d :: rest) := by
        rw [percentToken, if_pos (by simpa using hnext)]
      exact ⟨'%', [], rfl, hpercent⟩
  | parameter hn =>
      exact ⟨'%', _, rfl, by rw [List.append_assoc]; exact percentToken_parameter hn (d :: rest)⟩
  | openBracket => exact ⟨_, _, rfl, rfl⟩
  | closeBracket =>
      have hbracket : d ≠ ']' := by simpa [Token.needsMore] using hmore
      have hfound : m.bracketEnd (d :: rest) = .ok (.closeBracket, d :: rest) := by
        unfold bracketEnd
        split
        · rename_i heq
          exact absurd (List.head_eq_of_cons_eq heq) hbracket
        · rename_i heq
          exact absurd (List.head_eq_of_cons_eq heq) hbracket
        · rfl
      exact ⟨']', [], rfl, hfound⟩
  | openGroup => exact ⟨_, _, rfl, rfl⟩
  | closeGroup hnext =>
      have hfound : m.groupEnd (d :: rest) = .ok (.closeGroup .once, d :: rest) := by
        have hnext' : endsGroup d := hnext
        unfold groupEnd
        split
        · rename_i heq
          cases heq
        · rename_i heq
          rw [List.head_eq_of_cons_eq heq] at hnext'
          cases hnext'
        · rename_i heq
          rw [List.head_eq_of_cons_eq heq] at hnext'
          cases hnext'
        · rename_i heq
          rw [List.head_eq_of_cons_eq heq] at hnext'
          cases hnext'
        · rename_i heq
          rw [List.head_eq_of_cons_eq heq, endsGroup] at hnext'
          rw [if_pos hnext']
      exact ⟨')', [], rfl, hfound⟩
  | optionalGroup => exact ⟨_, _, rfl, rfl⟩
  | repeatedGroup => exact ⟨_, _, rfl, rfl⟩
  | requiredGroup => exact ⟨_, _, rfl, rfl⟩
  | comma => exact ⟨_, _, rfl, rfl⟩
  | bar => exact ⟨_, _, rfl, rfl⟩
  | sectionOpening => exact ⟨_, _, rfl, rfl⟩
  | sectionClosing => exact ⟨_, _, rfl, rfl⟩

/-! ### Percent signs behind keywords -/

/-- A percent sign behind the keyword of a declaration begins a reference, where the keyword ends
in it. -/
theorem openingBody_percent {word : List Char} (h : ∀ c ∈ word, m.alphabet.isKeywordLetter c)
    {cs : List Char}
    (hcs : cs.head?.any fun d => isBlank d || d = '%') (found : Found (List Char)) :
  m.openingBody (word ++ '%' :: cs) ≠ .ok found
  := by
  induction word generalizing found with
  | nil =>
      cases cs with
      | nil => cases hcs
      | cons d rest =>
          have hd : (isBlank d || d = '%' : Bool) = true := hcs
          rw [List.nil_append, openingBody.eq_def]
          simp only [hd]
          simp [isBlank]
  | cons c cs' ih =>
      rw [List.forall_mem_cons] at h
      have hmark := notMark_of_isInner (isInner_of_isKeywordLetter h.1)
      simp only [Alphabet.marks, List.mem_cons, not_or] at hmark
      have hblank : isBlank c = false := by simp [isBlank, hmark]
      have hpercent : c ≠ '%' := by simp [hmark]
      intro hfound
      rw [List.cons_append, openingBody.eq_def] at hfound
      simp only [hblank, hpercent, h.1, Bool.false_eq_true, ite_false, ite_true] at hfound
      obtain ⟨found', hfound', _⟩ := bind_ok hfound
      exact ih h.2 found' hfound'

/-- A percent sign right behind the keyword of a declaration begins a reference to a parameter. -/
theorem token_behind_opening (hm : m.alphabet.divides = false) {c : Char}
    {cs word cs' rest : List Char} {t : Token} (h : m.token c cs = .ok (.opening word, '%' :: cs'))
    (hnext : m.token '%' cs' = .ok (t, rest)) :
  ∃ n, t = .parameter n
  := by
  have hbegins := (token_ok hm h).resolve_left Token.noConfusion
  obtain ⟨raw, hraw, hspells⟩ := hbegins
  cases hspells with
  | opening hne hword hend =>
      have hhead : cs'.head?.any (fun d => isBlank d || d = '%') = false := by
        rw [Bool.eq_false_iff]
        intro hblank
        rw [List.cons_append, List.cons_append, List.cons.injEq] at hraw
        obtain ⟨rfl, rfl⟩ := hraw
        cases word with
        | nil => exact hne rfl
        | cons d ds =>
            have hopening : m.declarationToken (d :: (ds ++ '%' :: cs'))
                = .ok (.opening (d :: ds), '%' :: cs') := h
            obtain ⟨hd, hds⟩ := List.forall_mem_cons.mp hword
            unfold declarationToken at hopening
            split at hopening
            · cases hopening
            · obtain ⟨_, _, hopening⟩ := map_ok hopening
              cases hopening
            · cases hopening
            · rename_i heq
              rw [List.cons.injEq] at heq
              obtain ⟨rfl, rfl⟩ := heq
              rw [if_pos hd] at hopening
              obtain ⟨found, hfound, _⟩ := map_ok hopening
              exact openingBody_percent hds hblank found hfound
      have hpercent : m.percentToken cs' = .ok (t, rest) := hnext
      unfold percentToken at hpercent
      split at hpercent
      · cases hpercent
      · rename_i d ds
        have hd : (isBlank d || d = '%' : Bool) = false := hhead
        rw [hd] at hpercent
        obtain ⟨⟨n, rest'⟩, _, hpercent⟩ := bind_ok hpercent
        dsimp only at hpercent
        split at hpercent
        · cases hpercent
          exact ⟨n, rfl⟩
        · cases hpercent

end Medium

end Reading

end XmlDraft
