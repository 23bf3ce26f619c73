import XmlDraft.Proofs.Prolog

/-!
# Document types that are written again

A document type is written back with one blank between its parts, its identifiers between quotes,
and its internal subset as it was read.  A reader comes through that markup by the same
declarations: the words of the head are the ones that it read before, and of the subset it sees
the same characters.  Main statement: a document type that was read, and that holds no quote in
its system identifier, is read again over its own markup, whatever stands before it.
-/

namespace XmlDraft

/-! ### Comments at the top level -/

/-- A comment as reading leaves it at the top level. -/
def Node.IsNote : Node → Prop
  | .comment ⟨value, none⟩ =>
    isCharText value ∧ breaksComment value.toList = false ∧ '\r' ∉ value.toList
  | _ => False

theorem Node.IsNote.exists_comment {n : Node} (h : n.IsNote) :
  ∃ value : String, n = .comment value
  := by
  cases n with
  | comment value =>
      obtain ⟨value, _ | name⟩ := value
      · exact ⟨value, rfl⟩
      · exact h.elim
  | _ => exact h.elim

/-- The comment that is read is a note. -/
theorem Node.isNote_unifyLines {text : List Char} (hchars : ∀ c ∈ text, Reading.isXmlChar c)
    (hbreaks : breaksComment text = false) :
  (Node.comment (String.ofList (Text.unifyLines text))).IsNote
  := by
  refine ⟨?_, ?_, ?_⟩
  · rw [isCharText, String.toList_ofList, List.all_eq_true]
    intro c hc
    rw [← isXmlChar_eq_isChar]
    rcases Text.mem_of_mem_unifyLines hc with hc | rfl
    · exact hchars c hc
    · decide
  · rw [String.toList_ofList]
    exact breaksComment_unifyLines hbreaks
  · rw [String.toList_ofList]
    exact Text.return_notMem_unifyLines text

namespace Reading

open Assembly (Yields)

/-! ### The text of the internal subset -/

namespace Assembly

/-- The assembly with the internal subset so far. -/
def withSubset (s : Assembly) (w : List Char) : Assembly :=
  { s with subset := some (String.ofList w) }

end Assembly

/-- An event that adds a text to the internal subset. -/
def Event.Adds (e : Event) (raw : List Char) : Prop :=
  ∀ (s : Assembly) (w : List Char), (s.withSubset w).step e = .ok (s.withSubset (w ++ raw))

theorem adds_plain (raw : List Char) :
  (Event.plain raw).Adds raw
  := by
  intro s w
  simp [Assembly.step, Assembly.addToSubset, Assembly.withSubset, String.ofList_append]

theorem adds_instruction (raw target text : List Char) :
  (instructionEvent raw target text).Adds raw
  := by
  intro s w
  simp [instructionEvent, Assembly.step, Assembly.addToSubset, Assembly.withSubset,
    String.ofList_append]

/-- The markup of a comment. -/
def commentMarkup (text : List Char) : List Char :=
  '<' :: '!' :: '-' :: '-' :: (text ++ ['-', '-', '>'])

theorem adds_comment (text : List Char) :
  (commentEvent text).Adds (commentMarkup (Text.unifyLines text))
  := by
  intro s w
  have hmarkup : "<!--" ++ String.ofList (Text.unifyLines text) ++ "-->"
      = String.ofList (commentMarkup (Text.unifyLines text)) := by
    rw [← String.toList_inj]
    simp [commentMarkup]
  simp only [commentEvent, Assembly.step, Assembly.addComment, Assembly.withSubset,
    Option.isSome_some, ite_true, hmarkup]
  simp [Assembly.addToSubset, String.ofList_append]

/-- The event of a comment is that of the comment with unified ends of lines. -/
theorem commentEvent_unifyLines (text : List Char) :
  commentEvent (Text.unifyLines text) = commentEvent text
  := by
  have hsame := (Text.unifyLines_eq_self_iff _).mpr (Text.return_notMem_unifyLines text)
  rw [commentEvent, hsame, commentEvent]

namespace Prolog

variable {m : Medium} {account : Account} {p q : Prolog} {t : Token} {raw cs : List Char}
  {next : Option Char}

/-- A state inside the internal subset. -/
structure IsInside (p : Prolog) : Prop where
  inner : p.stage.isInner
  inSubset : p.inSubset

/-- A step inside the internal subset and the text that it leaves there: the same step is taken
where that text is read without an account, whatever the events so far and the public identifier
are. -/
structure Leaves (m : Medium) (p q : Prolog) (raw : List Char) (next : Option Char) : Prop where
  inside : q.IsInside
  chars : p.declarations.AreChars → q.declarations.AreChars
  event : ∃ e t, e.Adds raw ∧ q.events = e :: p.events ∧ Spells m.alphabet t raw next
    ∧ t.needsMore next = false
    ∧ ∀ es publicId cs, (p.withEvents es publicId).step m.enclosed .unlimited t raw cs
        = .ok (q.withEvents (e :: es) publicId)

/-- A step inside the internal subset leads to its end, or leaves a text there that begins with
the same character. -/
theorem step_inside (hp : p.IsInside) (ht : Spells m.alphabet t raw next)
    (hmore : t ≠ .closeBracket → t.needsMore next = false) (h : p.step m account t raw cs = .ok q) :
  (p.stage = .subset ∧ t = .closeBracket ∧ q = { p with stage := .doctypeEnd, inSubset := false })
    ∨ ∃ kept, kept.head? = raw.head? ∧ Leaves m p q kept next
  := by
  have hstart : p.stage ≠ .beginning := by
    intro hstage
    have hinner := hp.inner
    rw [hstage] at hinner
    cases hinner
  have hleave (es : List Event) (publicId : Option (List Char)) :
      (p.withEvents es publicId).leaveBeginning = p.withEvents es publicId := if_neg hstart
  have hsame : p.leaveBeginning = p := if_neg hstart
  rcases step_ok h with ⟨rfl, rfl⟩ | ⟨text, rfl, hasides, rfl⟩ | ⟨target, text, rfl, hasides, rfl⟩
    | ⟨after, hpart, hafter, rfl⟩
  · have hkept : p.keepText raw = p.emit (.plain raw) := if_pos hp.inSubset
    rw [hsame, hkept]
    refine .inr ⟨raw, rfl, ⟨hp.inner, hp.inSubset⟩, id, .plain raw, .blank, adds_plain raw, rfl,
      ht, rfl, ?_⟩
    intro es publicId cs
    rw [step, hleave]
    exact congrArg Except.ok (if_pos hp.inSubset)
  · rw [hsame]
    cases ht with
    | comment hchars hbreaks =>
        have hspells : Spells m.alphabet (.comment (Text.unifyLines text))
            (commentMarkup (Text.unifyLines text)) next := by
          refine .comment ?_ (breaksComment_unifyLines hbreaks)
          intro c hc
          rcases Text.mem_of_mem_unifyLines hc with hc | rfl
          · exact hchars c hc
          · decide
        refine .inr ⟨commentMarkup (Text.unifyLines text), rfl, ⟨hp.inner, hp.inSubset⟩, id, _,
          .comment (Text.unifyLines text), adds_comment text, rfl, hspells, rfl, ?_⟩
        intro es publicId cs
        rw [step, hleave, commentEvent_unifyLines]
        exact if_pos hasides
  · rw [hsame]
    refine .inr ⟨raw, rfl, ⟨hp.inner, hp.inSubset⟩, id, _, .instruction target text,
      adds_instruction raw target text, rfl, ht, rfl, ?_⟩
    intro es publicId cs
    rw [step, hleave]
    exact if_pos hasides
  · have hvalue (value : List Char) (heq : t = .literal value) : ∀ c ∈ value, isXmlChar c := by
      subst heq
      cases ht with
      | literal hquote hvalue hchars hnext => exact hchars
    by_cases hclose : t = .closeBracket
    · subst hclose
      obtain ⟨hstage, rfl⟩ := partStep_closeBracket hafter
      exact .inl ⟨hstage, rfl, rfl⟩
    · have hdeclares := (partStep_inner hp.inner hvalue hafter).resolve_left fun h => hclose h.2.1
      have hinside : after.inSubset := hdeclares.inSubset.trans hp.inSubset
      have hkept : after.keepText raw = after.emit (.plain raw) := if_pos hinside
      have hevents : (after.emit (.plain raw)).events = .plain raw :: p.events :=
        congrArg _ hdeclares.events
      rw [if_pos (by rw [hinside, hp.inSubset]; rfl), hkept]
      refine .inr ⟨raw, rfl, ⟨hdeclares.inner, hinside⟩, hdeclares.chars,
        .plain raw, t, adds_plain raw, hevents, ht, hmore hclose, ?_⟩
      intro es publicId cs
      have hpin : (p.withEvents es publicId).inSubset = true := hp.inSubset
      have hqin : (after.withEvents es publicId).inSubset = true := hinside
      simp only [step_part hpart, hdeclares.again, Except.map, hpin, hqin]
      exact congrArg Except.ok (if_pos hinside)

end Prolog

/-! ### Ways through what stands before the root -/

/-- A reader comes from one state to another one in so many steps that the characters behind it
are as many at least. -/
def Leads (m : Medium) (account : Account) (cs : List Char) (p : Prolog) (rest : List Char)
    (q : Prolog) : Prop :=
  ∃ steps, steps + rest.length ≤ cs.length
    ∧ ∀ fuel, beforeRoot m account (steps + fuel) cs p = beforeRoot m account fuel rest q

namespace Leads

variable {m : Medium} {k : Account} {p q r : Prolog} {cs mid rest : List Char}

theorem refl (m : Medium) (k : Account) (cs : List Char) (p : Prolog) :
  Leads m k cs p cs p
  := ⟨0, by omega, fun fuel => by rw [Nat.zero_add]⟩

theorem trans (hfirst : Leads m k cs p mid q) (hnext : Leads m k mid q rest r) :
  Leads m k cs p rest r
  := by
  obtain ⟨before, hbefore, hpass⟩ := hfirst
  obtain ⟨after, hafter, hpass'⟩ := hnext
  refine ⟨before + after, by omega, ?_⟩
  intro fuel
  rw [Nat.add_assoc, hpass, hpass']

variable {t : Token} {w : List Char} {d : Char}

/-- A token that is found in front of a character leads over its own characters. -/
theorem of_token (hending : m.ending = .clean) {c : Char} {cs : List Char}
    (htoken : m.token c (cs ++ d :: rest) = .ok (t, d :: rest)) (hroot : t ≠ .root)
    (hstep : p.step m k t (c :: cs) (c :: cs ++ d :: rest) = .ok q) :
  Leads m k (c :: cs ++ d :: rest) p (d :: rest) q
  := by
  refine ⟨1, ?_, ?_⟩
  · simp only [List.length_append, List.length_cons]
    omega
  · intro fuel
    have hw : (c :: (cs ++ d :: rest)).take
        ((cs ++ d :: rest).length + 1 - (d :: rest).length) = c :: cs := by
      have hlength : (cs ++ d :: rest).length + 1 - (d :: rest).length = (c :: cs).length := by
        simp only [List.length_append, List.length_cons]
        omega
      rw [hlength, ← List.cons_append, List.take_left]
    rw [List.cons_append] at hstep
    rw [Nat.add_comm, List.cons_append, beforeRoot, htoken]
    simp only [hending, reduceCtorEq, decide_false, Bool.false_and, Bool.and_false,
      Bool.false_eq_true, ite_false, hw, hstep, bind, Except.bind]

/-- A token leads over the characters that spell it. -/
theorem of_spells (hending : m.ending = .clean)
    (h : Spells m.alphabet t w (some d)) (hmore : t.needsMore (some d) = false) (rest : List Char)
    (hstep : p.step m k t w (w ++ d :: rest) = .ok q) :
  Leads m k (w ++ d :: rest) p (d :: rest) q
  := by
  obtain ⟨c, cs, rfl, htoken⟩ := Medium.token_spelled h hmore rest
  refine of_token hending htoken ?_ hstep
  rintro rfl
  cases h

/-- A blank leads over itself where it is not the first thing, outside the internal subset. -/
theorem of_blank (hending : m.ending = .clean)
    (hstage : p.stage ≠ .beginning) (hp : p.inSubset = false) (hd : isBlank d = false)
    (rest : List Char) :
  Leads m k (' ' :: d :: rest) p (d :: rest) p
  := by
  refine of_spells (w := [' ']) hending (.blank (by decide) (by simp) (by simp [hd])) rfl rest ?_
  have hleave : p.leaveBeginning = p := if_neg hstage
  rw [Prolog.step, hleave, Prolog.keepText, hp]
  rfl

/-- A part of a document type outside the internal subset leads over itself. -/
theorem of_part (hending : m.ending = .clean) (ht : t.isPart)
    (h : Spells m.alphabet t w (some d)) (hmore : t.needsMore (some d) = false)
    (hp : p.inSubset = false) (rest : List Char)
    (hstep : Prolog.partStep m k p t (w ++ d :: rest) = .ok q) :
  Leads m k (w ++ d :: rest) p (d :: rest) q
  := by
  refine of_spells hending h hmore rest ?_
  rw [Prolog.step_part ht, hstep, Except.map, hp, Bool.and_false]
  rfl

end Leads

/-! ### The internal subset -/

/-- From one state to another one inside the internal subset a text was left there: a reader comes
from the first state to the second one over that text where it keeps no account, whatever it has
read before, and leaves the same text there. -/
def Retells (m : Medium) (start p : Prolog) (u : List Char) (next : Option Char) : Prop :=
  ∀ (s : Assembly) (w : List Char) (es : List Event) (publicId : Option (List Char)) (d : Char)
    (more : List Char), next = some d → Yields es (s.withSubset w) →
    ∃ es', Yields es' (s.withSubset (w ++ u))
      ∧ Leads m.enclosed .unlimited (u ++ d :: more) (start.withEvents es publicId) (d :: more)
          (p.withEvents es' publicId)

namespace Retells

variable {m : Medium} {start p q : Prolog} {u kept : List Char} {next : Option Char}

theorem refl (m : Medium) (start : Prolog) (next : Option Char) :
  Retells m start start [] next
  := by
  intro s w es publicId d more _ hyields
  exact ⟨es, by rwa [List.append_nil], .refl _ _ _ _⟩

/-- A step inside the internal subset is taken again behind the steps before it. -/
theorem step (h : Retells m start p u kept.head?)
    (hleaves : Prolog.Leaves m p q kept next) :
  Retells m start q (u ++ kept) next
  := by
  intro s w es publicId d more hnext hyields
  subst hnext
  obtain ⟨e, t, hadds, _, hspells, hmore, hagain⟩ := hleaves.event
  obtain ⟨c, cs, rfl, _⟩ := Medium.token_spelled hspells hmore more
  obtain ⟨es', hyields', hleads⟩ := h s w es publicId c (cs ++ d :: more) rfl hyields
  refine ⟨e :: es', ?_, ?_⟩
  · rw [← List.append_assoc]
    exact hyields'.emit (hadds s (w ++ u))
  · rw [List.append_assoc]
    exact hleads.trans
      (.of_spells (m := m.enclosed) (w := c :: cs) rfl hspells hmore more (hagain ..))

end Retells

/-! ### Public identifiers -/

/-- A character of public identifiers may stand between double quotes. -/
theorem isPublicChar_cases {c : Char} (h : isPublicChar c) :
  isXmlChar c ∧ c ≠ '"'
  := by
  have hascii : c.toNat < 0x80 := by
    have hcases := h
    simp only [isPublicChar, isAsciiLetter, Text.isDigit, Bool.or_eq_true, Bool.and_eq_true,
      decide_eq_true_eq, Char.le_def, UInt32.le_iff_toNat_le] at hcases
    rcases hcases with ((⟨_, hz⟩ | ⟨_, hz⟩) | ⟨_, hz⟩) | hmem
    · exact Nat.lt_of_le_of_lt hz (by decide)
    · exact Nat.lt_of_le_of_lt hz (by decide)
    · exact Nat.lt_of_le_of_lt hz (by decide)
    · have hall : ∀ d ∈ " \r\n-'()+,./:=?;!*#@$_%".toList, d.toNat < 0x80 :=
        List.all_iff_forall_prop.mp (by decide)
      exact hall c (List.contains_iff_mem.mp hmem)
  refine forall_ascii (P := fun c => isPublicChar c → isXmlChar c ∧ c ≠ '"') ?_ hascii h
  decide

/-- A character that divides the words of a public identifier. -/
def dividesWords (c : Char) : Bool :=
  c = ' ' || c = '\r' || c = '\n'

/-- Words of a public identifier: none of them is empty, and none holds a blank. -/
def AreWords (words : List (List Char)) : Prop :=
  ∀ w ∈ words, w ≠ [] ∧ ∀ c ∈ w, dividesWords c = false

theorem mem_splitOnP {p : Char → Bool} {cs w : List Char} (hw : w ∈ cs.splitOnP p) :
  ∀ c ∈ w, c ∈ cs ∧ p c = false
  := by
  induction cs generalizing w with
  | nil =>
      rw [List.splitOnP_nil, List.mem_singleton] at hw
      simp [hw]
  | cons d ds ih =>
      rw [List.splitOnP_cons_eq_if_modifyHead] at hw
      split_ifs at hw with hd
      · rcases List.mem_cons.mp hw with rfl | hw
        · simp
        · exact fun c hc => (ih hw c hc).imp_left (List.mem_cons_of_mem d)
      · cases hs : ds.splitOnP p with
        | nil => exact absurd hs (List.splitOnP_ne_nil p ds)
        | cons first others =>
            rw [hs, List.modifyHead_cons] at hw
            rcases List.mem_cons.mp hw with rfl | hw
            · rw [List.forall_mem_cons]
              refine ⟨⟨List.mem_cons_self, by simpa using hd⟩, fun c hc => ?_⟩
              exact (ih (hs ▸ List.mem_cons_self) c hc).imp_left (List.mem_cons_of_mem d)
            · exact fun c hc => (ih (hs ▸ List.mem_cons_of_mem _ hw) c hc).imp_left
                (List.mem_cons_of_mem d)

/-- A normal identifier consists of words with a blank between two of them. -/
theorem exists_words (cs : List Char) :
  ∃ words, AreWords words ∧ normalPublicId cs = [' '].intercalate words
    ∧ ∀ w ∈ words, ∀ c ∈ w, c ∈ cs
  := by
  refine ⟨(cs.splitOnP dividesWords).filter (· ≠ []), ?_, rfl, ?_⟩
  · intro w hw
    rw [List.mem_filter] at hw
    exact ⟨by simpa using hw.2, fun c hc => (mem_splitOnP hw.1 c hc).2⟩
  · exact fun w hw c hc => (mem_splitOnP (List.mem_filter.mp hw).1 c hc).1

/-- A word in front of a blank is split off. -/
theorem splitOnP_word {w : List Char} (hw : ∀ c ∈ w, dividesWords c = false) :
  w.splitOnP dividesWords = [w]
    ∧ ∀ rest, (w ++ ' ' :: rest).splitOnP dividesWords = w :: rest.splitOnP dividesWords
  := by
  induction w with
  | nil =>
      refine ⟨List.splitOnP_nil, fun rest => ?_⟩
      rw [List.nil_append, List.splitOnP_cons_eq_if_modifyHead, if_pos (by decide)]
  | cons c cs ih =>
      rw [List.forall_mem_cons] at hw
      obtain ⟨hsingle, hrest⟩ := ih hw.2
      refine ⟨?_, fun rest => ?_⟩
      · rw [List.splitOnP_cons_eq_if_modifyHead, if_neg (by simp [hw.1]), hsingle,
          List.modifyHead_cons]
      · rw [List.cons_append, List.splitOnP_cons_eq_if_modifyHead, if_neg (by simp [hw.1]), hrest,
          List.modifyHead_cons]

/-- Words with a blank between two of them are a normal identifier. -/
theorem normalPublicId_words {words : List (List Char)} (h : AreWords words) :
  normalPublicId ([' '].intercalate words) = [' '].intercalate words
  := by
  have hsplit : (([' '].intercalate words).splitOnP dividesWords).filter (· ≠ []) = words := by
    induction words with
    | nil =>
        simp [List.splitOnP_nil]
    | cons w others ih =>
        rw [AreWords, List.forall_mem_cons] at h
        obtain ⟨hsingle, hrest⟩ := splitOnP_word h.1.2
        cases others with
        | nil =>
            rw [List.intercalate_singleton, hsingle]
            simp [h.1.1]
        | cons v vs =>
            have hothers := ih h.2
            rw [List.intercalate_cons_cons, List.append_assoc, List.singleton_append, hrest,
              List.filter_cons, hothers]
            simp [h.1.1]
  exact congrArg [' '].intercalate hsplit

/-- The normal identifier of an identifier is normal, and consists of characters of public
identifiers if the identifier does. -/
theorem normalPublicId_normal (cs : List Char) :
  normalPublicId (normalPublicId cs) = normalPublicId cs
    ∧ ((∀ c ∈ cs, isPublicChar c) → ∀ c ∈ normalPublicId cs, isPublicChar c)
  := by
  obtain ⟨words, hwords, heq, hmem⟩ := exists_words cs
  rw [heq]
  refine ⟨normalPublicId_words hwords, fun h c hc => ?_⟩
  have hcases : c = ' ' ∨ ∃ w ∈ words, c ∈ w := by
    clear heq hwords hmem
    induction words with
    | nil => cases hc
    | cons w others ih =>
        cases others with
        | nil => exact .inr ⟨w, List.mem_cons_self, by simpa using hc⟩
        | cons v vs =>
            rw [List.intercalate_cons_cons, List.mem_append, List.mem_append,
              List.mem_singleton] at hc
            rcases hc with (hc | hc) | hc
            · exact .inr ⟨w, List.mem_cons_self, hc⟩
            · exact .inl hc
            · obtain h | ⟨x, hx, hc⟩ := ih hc
              · exact .inl h
              · exact .inr ⟨x, List.mem_cons_of_mem _ hx, hc⟩
  rcases hcases with rfl | ⟨w, hw, hc⟩
  · decide
  · exact h c (hmem w hw c hc)

/-! ### Heads that were written -/

/-- The document type of given parts, without an internal subset. -/
def typeOf (n : List Char) (publicId systemId : Option (List Char)) : Doctype where
  name := String.ofList n
  publicId := ((publicId.map String.ofList).map Assembly.normalIdentifier).map .text
  systemId := (systemId.map String.ofList).map .text

/-- The markup of the head of a document type. -/
def headMarkup (n : List Char) (publicId systemId : Option (List Char)) : List Char :=
  "<!DOCTYPE ".toList ++ (n ++ Writing.identifiers (typeOf n publicId systemId))

/-- A keyword in the head of a document type with a blank on each side. -/
def keywordMarkup (word : String) : List Char :=
  ' ' :: (word.toList ++ [' '])

/-- A literal between double quotes. -/
def quoted (value : List Char) : List Char :=
  '"' :: (value ++ ['"'])

/-- The markup of the identifiers of a document type. -/
def identifiersMarkup : Option (List Char) → Option (List Char) → List Char
  | none, none => []
  | none, some s => keywordMarkup "SYSTEM" ++ quoted s
  | some p, s => keywordMarkup "PUBLIC" ++ (quoted p ++ ' ' :: quoted (s.getD []))

theorem identifiers_typeOf (n : List Char) (publicId systemId : Option (List Char)) :
  Writing.identifiers (typeOf n publicId systemId)
    = identifiersMarkup (publicId.map normalPublicId) systemId
  := by
  have hsystem : " SYSTEM \"".toList = keywordMarkup "SYSTEM" ++ ['"'] := by decide
  have hpublic : " PUBLIC \"".toList = keywordMarkup "PUBLIC" ++ ['"'] := by decide
  have hbetween : "\" \"".toList = ['"', ' ', '"'] := by decide
  have hcounts (s : List Char) :
      (if (Field.text (String.ofList s)).counts then String.ofList s else "").toList = s := by
    by_cases hs : s = []
    · simp [hs]
    · have hne : String.ofList s ≠ "" := mt String.ofList_eq_empty_iff.mp hs
      simp [Field.counts, hne]
  cases publicId with
  | none =>
      cases systemId with
      | none => rfl
      | some s =>
          simp [Writing.identifiers, typeOf, Writing.printed, hsystem, quoted, identifiersMarkup]
  | some p =>
      cases systemId with
      | none =>
          simp [Writing.identifiers, typeOf, Writing.printed, hpublic, hbetween, quoted,
            identifiersMarkup, Assembly.normalIdentifier]
      | some s =>
          simp [Writing.identifiers, typeOf, Writing.printed, hpublic, hbetween, quoted,
            identifiersMarkup, Assembly.normalIdentifier, hcounts]

/-- The name of a document type ends in front of its identifiers, or of what follows it if there are
none. -/
theorem exists_endsName (publicId systemId : Option (List Char)) {d : Char} (hd : endsName d)
    (rest : List Char) :
  ∃ c more, identifiersMarkup publicId systemId ++ d :: rest = c :: more ∧ endsName c
  := by
  cases publicId with
  | none =>
      cases systemId with
      | none => exact ⟨d, rest, rfl, hd⟩
      | some s => exact ⟨' ', _, rfl, by decide⟩
  | some p => exact ⟨' ', _, rfl, by decide⟩

namespace Prolog

/-- The state behind the identifiers of a document type. -/
def identified (p : Prolog) : Option (List Char) → Option (List Char) → Prolog
  | none, none => p
  | none, some s => { p.partly with stage := .doctypeIdentified, systemId := some s }
  | some v, s =>
    { p.partly with
      stage := .doctypeIdentified
      publicId := some v
      systemId := some (s.getD []) }

/-- The identifiers of a document type are no event and no declaration of their own. -/
theorem identified_cases {p : Prolog} (hstage : p.stage = .doctypeNamed)
    (publicId systemId : Option (List Char)) :
  (p.identified publicId systemId).inSubset = p.inSubset
    ∧ (p.identified publicId systemId).events = p.events
    ∧ (p.identified publicId systemId).declarations.attributes = p.declarations.attributes
    ∧ ((p.identified publicId systemId).stage = .doctypeNamed
      ∨ (p.identified publicId systemId).stage = .doctypeIdentified)
  := by
  cases publicId with
  | none =>
      cases systemId with
      | none => exact ⟨rfl, rfl, rfl, .inl hstage⟩
      | some s => exact ⟨rfl, rfl, rfl, .inr rfl⟩
  | some v => exact ⟨rfl, rfl, rfl, .inr rfl⟩

theorem partStep_publicId {m : Medium} {account : Account} {p : Prolog}
    (hstage : p.stage = .doctypePublic)
    {value : List Char} (hvalue : ∀ c ∈ value, isPublicChar c) (cs : List Char) :
  partStep m account p (.literal value) cs
    = .ok { p.partly with stage := .doctypeSystem, publicId := some value }
  := by
  have hcheck : checkPublicId value cs = .ok () := by
    have hgood : value.takeWhile isPublicChar = value := List.takeWhile_eq_self_iff.mpr hvalue
    unfold checkPublicId
    rw [hgood]
    exact if_neg (Nat.lt_irrefl _)
  simp [partStep, hstage, doctypeStep, hcheck, bind, Except.bind]

end Prolog

namespace Leads

variable {m : Medium} {k : Account} (hending : m.ending = .clean)

include hending

/-- The opening of a document type leads on to its name. -/
theorem doctypeOpening (hknown : 0x80 ≤ m.alphabet.known) {p : Prolog}
    (hstage : p.stage = .beginning ∨ p.stage = .beforeDoctype) (hp : p.inSubset = false) {d : Char}
    (hd : isBlank d = false) (rest : List Char) :
  Leads m k ("<!DOCTYPE ".toList ++ d :: rest) p (d :: rest) { p with stage := .doctypeName }
  := by
  have hword : ∀ c ∈ "DOCTYPE".toList, m.alphabet.isKeywordLetter c := by
    intro c hc
    have hall : ∀ c ∈ "DOCTYPE".toList, c.toNat < 0x80 ∧ isAsciiLetter c :=
      List.all_iff_forall_prop.mp (by decide)
    obtain ⟨hascii, hletter⟩ := hall c hc
    simp [Alphabet.isKeywordLetter, Alphabet.isStart_eq _ hascii, hletter,
      Nat.lt_of_lt_of_le hascii hknown]
  have hmarkup : "<!DOCTYPE ".toList ++ d :: rest
      = '<' :: '!' :: "DOCTYPE".toList ++ ' ' :: d :: rest := by
    have hsplit : "<!DOCTYPE ".toList = '<' :: '!' :: "DOCTYPE".toList ++ [' '] := by decide
    rw [hsplit, List.append_assoc, List.singleton_append]
  have hopening := of_part (k := k) (p := p) (q := { p with stage := .doctypeName }) hending rfl
    (.opening (by decide) hword (by decide : (some ' ').any _)) (by decide) hp (d :: rest)
    (by rcases hstage with hs | hs <;> simp [Prolog.partStep, hs, Prolog.outerStep, Prolog.isWord,
          Prolog.goTo])
  rw [hmarkup]
  exact hopening.trans (of_blank (p := { p with stage := .doctypeName }) hending (by simp) hp hd
    rest)

/-- The name of a document type is found behind its opening. -/
theorem doctypeName (hknown : 0x80 ≤ m.alphabet.known) {p : Prolog}
    (hstage : p.stage = .beginning ∨ p.stage = .beforeDoctype) (hp : p.inSubset = false)
    {n : List Char} (hn : IsPlainName m.alphabet n) {d : Char} (hd : endsName d)
    (rest : List Char) :
  Leads m k ("<!DOCTYPE ".toList ++ (n ++ d :: rest)) p (d :: rest)
    { p with stage := .doctypeNamed, name := n }
  := by
  have hname := of_part (k := k) (p := { p with stage := .doctypeName })
    (q := { p with stage := .doctypeNamed, name := n }) hending rfl
    (.name hn (by simpa using hd)) rfl hp rest rfl
  cases n with
  | nil => cases hn.start
  | cons c cs =>
      have hmark := notMark_of_isInner (List.forall_mem_cons.mp hn.inner).1
      have hblank : isBlank c = false := by
        rw [Bool.eq_false_iff]
        exact fun hc => hmark (mem_marks_of_isBlank hc)
      exact (doctypeOpening hending hknown hstage hp hblank _).trans hname

/-- A keyword in the head of a document type leads on to a literal. -/
theorem keyword {p q : Prolog} (hstage : p.stage ≠ .beginning) (hp : p.inSubset = false)
    (hstage' : q.stage ≠ .beginning) (hq : q.inSubset = false) {w : String}
    (hne : w.toList ≠ []) (hw : ∀ c ∈ w.toList, isAsciiLetter c ∧ c.toNat < 0x80)
    (hstep : ∀ cs, Prolog.partStep m k p (.name w.toList) cs = .ok q) (rest : List Char) :
  Leads m k (keywordMarkup w ++ '"' :: rest) p ('"' :: rest) q
  := by
  have hn := isPlainName_letters m.alphabet hne hw
  have hname := of_part (k := k) (p := p) (q := q) hending rfl
    (.name hn (by decide : (some ' ').all _)) rfl hp ('"' :: rest) (hstep _)
  have hlast := of_blank (k := k) (p := q) hending hstage' hq (by decide : isBlank '"' = false) rest
  have hmarkup : keywordMarkup w ++ '"' :: rest
      = ' ' :: (w.toList ++ ' ' :: '"' :: rest) := by
    simp [keywordMarkup]
  rw [hmarkup]
  cases hs : w.toList with
  | nil =>
      rw [hs] at hn
      cases hn.start
  | cons c cs =>
      rw [hs] at hn hname
      have hmark := notMark_of_isInner (List.forall_mem_cons.mp hn.inner).1
      have hblank : isBlank c = false := by
        rw [Bool.eq_false_iff]
        exact fun hc => hmark (mem_marks_of_isBlank hc)
      exact (of_blank hending hstage hp hblank _).trans (hname.trans hlast)

/-- A literal between double quotes is found if it holds none. -/
theorem literal {p q : Prolog} (hp : p.inSubset = false) {v : List Char} (hv : '"' ∉ v)
    (hchars : ∀ c ∈ v, isXmlChar c) {d : Char} (hd : endsLiteral d)
    (hstep : ∀ cs, Prolog.partStep m k p (.literal v) cs = .ok q) (rest : List Char) :
  Leads m k (quoted v ++ d :: rest) p (d :: rest) q
  := of_part hending rfl (.literal (.inl rfl) hv hchars (by simpa using hd)) rfl hp rest
    (hstep _)

/-- A system identifier is found behind what stands before it. -/
theorem systemLiteral {p : Prolog} (hstage : p.stage = .doctypeSystem) (hp : p.inSubset = false)
    {s : List Char} (hs : '"' ∉ s) (hchars : ∀ c ∈ s, isXmlChar c) {d : Char}
    (hd : endsLiteral d) (rest : List Char) :
  Leads m k (quoted s ++ d :: rest) p (d :: rest)
    { p.partly with stage := .doctypeIdentified, systemId := some s }
  := by
  refine literal hending hp hs hchars hd ?_ rest
  intro cs
  simp [Prolog.partStep, hstage, Prolog.doctypeStep, Prolog.partly]

/-- The identifiers of a document type are found behind its name. -/
theorem identifiers {p : Prolog} (hstage : p.stage = .doctypeNamed) (hp : p.inSubset = false)
    {publicId systemId : Option (List Char)} (hpublic : ∀ v ∈ publicId, ∀ c ∈ v, isPublicChar c)
    (hsystem : ∀ s ∈ systemId, '"' ∉ s ∧ ∀ c ∈ s, isXmlChar c) {d : Char} (hd : endsLiteral d)
    (rest : List Char) :
  Leads m k (identifiersMarkup publicId systemId ++ d :: rest) p (d :: rest)
    (p.identified publicId systemId)
  := by
  have hnamed : p.stage ≠ .beginning := by simp [hstage]
  cases publicId with
  | none =>
      cases systemId with
      | none => exact .refl _ _ _ _
      | some s =>
          obtain ⟨hquote, hchars⟩ := hsystem s rfl
          have hkeyword := keyword hending (k := k) (p := p) (q := { p with stage := .doctypeSystem })
            (w := "SYSTEM") hnamed hp (by simp) hp (by decide)
            (List.all_iff_forall_prop.mp (by decide))
            (fun _ => by simp [Prolog.partStep, hstage, Prolog.doctypeStep, Prolog.isWord,
              Prolog.goTo]) (s ++ '"' :: d :: rest)
          have hliteral :=
        systemLiteral hending (k := k) (p := { p with stage := .doctypeSystem }) rfl hp
            hquote hchars hd rest
          simp only [identifiersMarkup, quoted, List.cons_append, List.append_assoc,
            List.nil_append] at hkeyword hliteral ⊢
          exact hkeyword.trans hliteral
  | some v =>
      have hv := hpublic v rfl
      have hsystem' : '"' ∉ systemId.getD [] ∧ ∀ c ∈ systemId.getD [], isXmlChar c := by
        cases systemId with
        | none => simp
        | some s => exact hsystem s rfl
      rw [identifiersMarkup, Prolog.identified]
      generalize systemId.getD [] = s at hsystem' ⊢
      have hkeyword := keyword hending (k := k) (p := p) (q := { p with stage := .doctypePublic })
        (w := "PUBLIC") hnamed hp (by simp) hp (by decide)
        (List.all_iff_forall_prop.mp (by decide))
        (fun _ => by simp [Prolog.partStep, hstage, Prolog.doctypeStep, Prolog.isWord,
          Prolog.goTo]) (v ++ '"' :: ' ' :: (quoted s ++ d :: rest))
      have hidentifier := literal hending (k := k) (p := { p with stage := .doctypePublic }) hp
        (fun h => (isPublicChar_cases (hv _ h)).2 rfl)
        (fun c hc => (isPublicChar_cases (hv c hc)).1) (by decide : endsLiteral ' ')
        (Prolog.partStep_publicId rfl hv) (quoted s ++ d :: rest)
      let q : Prolog := { p.partly with stage := .doctypeSystem, publicId := some v }
      have hblank :=
        of_blank hending (k := k) (p := q) (by simp [q]) hp (by decide : isBlank '"' = false)
        (s ++ '"' :: d :: rest)
      have hliteral := systemLiteral hending (k := k) (p := q) rfl hp hsystem'.1 hsystem'.2 hd rest
      simp only [quoted, List.cons_append, List.append_assoc, List.nil_append]
        at hkeyword hidentifier hliteral ⊢
      exact hkeyword.trans (hidentifier.trans (hblank.trans hliteral))

/-- The head of a document type is found as it was written. -/
theorem head (hknown : 0x80 ≤ m.alphabet.known) (standalone : Bool) (es : List Event)
    {stage : Stage} (hstage : stage = .beginning ∨ stage = .beforeDoctype) {n : List Char}
    {publicId systemId : Option (List Char)}
    (hparts : Prolog.AreParts m.alphabet n publicId systemId)
    (hquote : ∀ value ∈ systemId, '"' ∉ value) {d : Char} (hd : d = '[' ∨ d = '>')
    (rest : List Char) :
  ∃ stage', (stage' = .doctypeNamed ∨ stage' = .doctypeIdentified)
    ∧ Leads m k (headMarkup n publicId systemId ++ d :: rest)
        (Prolog.headed standalone es [] none none stage) (d :: rest)
        (Prolog.headed standalone es n (publicId.map normalPublicId) systemId stage')
  := by
  let named := Prolog.headed standalone es n none none .doctypeNamed
  obtain ⟨hends, hendsLiteral⟩ : endsName d ∧ endsLiteral d := by
    rcases hd with rfl | rfl <;> decide
  have hpublic : ∀ v ∈ publicId.map normalPublicId, ∀ c ∈ v, isPublicChar c := by
    intro v hv
    obtain ⟨value, hvalue, rfl⟩ := Option.map_eq_some_iff.mp hv
    exact (normalPublicId_normal value).2 (hparts.publicChars value hvalue)
  have hidentifiers := identifiers hending (k := k) (p := named) rfl rfl hpublic
    (fun s hs => ⟨hquote s hs, hparts.systemChars s hs⟩) hendsLiteral rest
  obtain ⟨c, more, hmarkup, hc⟩ :=
    exists_endsName (publicId.map normalPublicId) systemId hends rest
  have hname :=
    doctypeName hending (k := k) hknown (p := Prolog.headed standalone es [] none none stage)
    hstage rfl hparts.plain hc more
  rw [← hmarkup] at hname
  have hleads := hname.trans hidentifiers
  unfold headMarkup
  generalize "<!DOCTYPE ".toList = opening at hleads ⊢
  rw [identifiers_typeOf, List.append_assoc, List.append_assoc]
  have hstate : ∃ stage', (stage' = .doctypeNamed ∨ stage' = .doctypeIdentified)
      ∧ named.identified (publicId.map normalPublicId) systemId
        = Prolog.headed standalone es n (publicId.map normalPublicId) systemId stage' := by
    cases publicId with
    | none =>
        cases systemId with
        | none => exact ⟨.doctypeNamed, .inl rfl, rfl⟩
        | some s => exact ⟨.doctypeIdentified, .inr rfl, rfl⟩
    | some p =>
        obtain ⟨s, rfl⟩ := Option.isSome_iff_exists.mp (hparts.both rfl)
        exact ⟨.doctypeIdentified, .inr rfl, rfl⟩
  obtain ⟨stage', hstage', hstate⟩ := hstate
  rw [hstate] at hleads
  exact ⟨stage', hstage', hleads⟩

end Leads

/-! ### Document types in an assembly -/

namespace Assembly

/-- An assembly at the top level in which a document type is open. -/
def underDoctype (declaration : Option Declaration) (children : List Node) (t : Doctype) :
    Assembly :=
  { atTop declaration children with doctype := some t }

variable {declaration : Option Declaration} {children : List Node}

theorem step_note (declaration : Option Declaration) (children : List Node) (text : List Char) :
  (atTop declaration children).step (commentEvent text)
    = .ok (atTop declaration
        (children ++ [.comment (String.ofList (Text.unifyLines text))]))
  := by
  rw [step_comment (isBetween_atTop declaration children)]
  rfl

theorem step_instruction (declaration : Option Declaration) (children : List Node)
    (raw target text : List Char) :
  (atTop declaration children).step (instructionEvent raw target text)
    = .ok (atTop declaration children)
  := rfl

theorem step_doctypeStart (declaration : Option Declaration) (children : List Node)
    (n : List Char) (publicId systemId : Option (List Char)) :
  (atTop declaration children).step (Prolog.startEvent n publicId systemId false)
      = .ok (underDoctype declaration children (typeOf n publicId systemId))
    ∧ (atTop declaration children).step (Prolog.startEvent n publicId systemId true)
      = .ok ((underDoctype declaration children (typeOf n publicId systemId)).withSubset [])
  := ⟨rfl, rfl⟩

/-- Comments have neither a document type nor a root among them. -/
theorem misplacement_notes (hnotes : ∀ n ∈ children, n.IsNote) (t : Doctype) :
  (⟨declaration, children⟩ : Document).misplacement? (.doctype t) = none
  := by
  have hdoctype : (⟨declaration, children⟩ : Document).doctype? = none := by
    rw [Document.doctype?, List.findSome?_eq_none_iff]
    intro n hn
    obtain ⟨value, rfl⟩ := (hnotes n hn).exists_comment
    rfl
  have hroot : (⟨declaration, children⟩ : Document).root? = none := by
    rw [Document.root?, List.find?_eq_none]
    intro n hn
    obtain ⟨value, rfl⟩ := (hnotes n hn).exists_comment
    exact Bool.false_ne_true
  simp [Document.misplacement?, hdoctype, hroot]

/-- The end of a document type behind comments attaches it, with its internal subset if there is
one. -/
theorem step_doctypeEnd (hnotes : ∀ n ∈ children, n.IsNote) (t : Doctype) (u : List Char) :
  (underDoctype declaration children t).step .doctypeEnd
      = .ok (atTop declaration (children ++ [.doctype t]))
    ∧ ((underDoctype declaration children t).withSubset u).step .doctypeEnd
      = .ok (atTop declaration
          (children ++ [.doctype { t with subset := some (.text (String.ofList u)) }]))
  := by
  have hattach (u : Doctype) :
      (⟨declaration, children⟩ : Document).append (.doctype u)
        = .ok ⟨declaration, children ++ [.doctype u]⟩ := by
    rw [Document.append, misplacement_notes hnotes]
  constructor
  · simp [step, closeDoctype, underDoctype, attach, atTop, hattach, Except.map, Except.mapError]
  · simp [step, closeDoctype, underDoctype, withSubset, attach, atTop, hattach, Except.map,
      Except.mapError]

end Assembly

/-! ### Document types that are read again -/

/-- A document type that can be written and is read again over its markup: what stands before it
does not matter, and the same declarations are found, unless there is a double quote in its system
identifier, which is written between double quotes as it is.  An internal subset is read again
where no account is kept. -/
structure IsRetold (m : Medium) (standalone : Bool) (t : Doctype) (d : Declarations) : Prop where
  printable : Writing.allPrintable (.doctype t)
  leads : (∀ s, t.systemId = some (.text s) → '"' ∉ s.toList) →
    ∀ (account : Account), t.subset = none ∨ account = .unlimited →
    ∀ (declaration : Option Declaration) (ns : List Node) (es : List Event) (stage : Stage)
      (c : Char) (more : List Char), stage = .beginning ∨ stage = .beforeDoctype →
      (∀ n ∈ ns, n.IsNote) → Yields es (Assembly.atTop declaration ns) →
      ∃ q, Leads m.enclosed account (Writing.doctypeText t ++ c :: more)
          (Prolog.headed standalone es [] none none stage) (c :: more) q
        ∧ q.stage = .afterDoctype ∧ q.declarations = d
        ∧ Yields q.events (Assembly.atTop declaration (ns ++ [.doctype t]))

theorem allPrintable_typeOf (n : List Char) (publicId systemId : Option (List Char))
    (u : List Char) :
  Writing.allPrintable (.doctype (typeOf n publicId systemId))
    ∧ Writing.allPrintable
      (.doctype { typeOf n publicId systemId with subset := some (.text (String.ofList u)) })
  := by
  cases publicId <;> cases systemId <;> exact ⟨rfl, rfl⟩

theorem doctypeText_typeOf (n : List Char) (publicId systemId : Option (List Char))
    (u : List Char) :
  Writing.doctypeText (typeOf n publicId systemId) = headMarkup n publicId systemId ++ ['>']
    ∧ Writing.doctypeText
        { typeOf n publicId systemId with subset := some (.text (String.ofList u)) }
      = headMarkup n publicId systemId ++ '[' :: (u ++ [']', '>'])
  := by
  have hname : (typeOf n publicId systemId).name.toList = n := String.toList_ofList
  have hsame : Writing.identifiers
      { typeOf n publicId systemId with subset := some (.text (String.ofList u)) }
      = Writing.identifiers (typeOf n publicId systemId) := rfl
  have hnone : (typeOf n publicId systemId).subset = none := rfl
  unfold Writing.doctypeText headMarkup
  generalize "<!DOCTYPE ".toList = opening
  constructor
  · simp [hname, hnone]
  · simp [hname, hsame, Writing.printed]

section Retold

variable {m : Medium} (hknown : 0x80 ≤ m.alphabet.known)
  {standalone : Bool} {n : List Char} {publicId systemId : Option (List Char)}
  (hparts : Prolog.AreParts m.alphabet n publicId systemId)

/-- The normal form of a public identifier stands for it. -/
theorem startEvent_normal (n : List Char) (publicId systemId : Option (List Char))
    (hasSubset : Bool) (declaration : Option Declaration) (children : List Node) :
  (Assembly.atTop declaration children).step
      (Prolog.startEvent n (publicId.map normalPublicId) systemId hasSubset)
    = (Assembly.atTop declaration children).step (Prolog.startEvent n publicId systemId hasSubset)
  := by
  cases publicId with
  | none => rfl
  | some p =>
      simp [Prolog.startEvent, Assembly.step, Assembly.normalIdentifier,
        (normalPublicId_normal p).1]

include hknown hparts

/-- A document type without an internal subset is read again. -/
theorem isRetold_bare :
  IsRetold m standalone (typeOf n publicId systemId)
    (Prolog.closed standalone [] n publicId systemId).declarations
  := by
  refine ⟨(allPrintable_typeOf n publicId systemId []).1, ?_⟩
  intro hquote account _ declaration ns es stage c more hstage hnotes hyields
  have hquote' : ∀ value ∈ systemId, '"' ∉ value := by
    rintro value hvalue
    rw [Option.mem_def] at hvalue
    subst hvalue
    simpa using hquote (String.ofList value) rfl
  obtain ⟨stage', hstage', hhead⟩ := Leads.head (m := m.enclosed) (k := account) rfl hknown standalone
    es hstage
    hparts hquote' (.inr rfl) (c :: more)
  refine ⟨Prolog.closed standalone es n (publicId.map normalPublicId) systemId, ?_, rfl, ?_, ?_⟩
  · have hclosing := Leads.of_part (m := m.enclosed) (k := account) (t := .closing) (w := ['>'])
      (p := Prolog.headed standalone es n (publicId.map normalPublicId) systemId stage')
      (q := Prolog.closed standalone es n (publicId.map normalPublicId) systemId) rfl rfl
      .closing rfl rfl more (d := c) (by rcases hstage' with rfl | rfl <;> rfl)
    rw [(doctypeText_typeOf n publicId systemId []).1, List.append_assoc]
    exact hhead.trans hclosing
  · simp [Prolog.closed, Prolog.headed]
  · refine Yields.emit (hyields.emit ?_) (Assembly.step_doctypeEnd hnotes _ []).1
    exact (startEvent_normal n publicId systemId false declaration ns).trans
      (Assembly.step_doctypeStart declaration ns n publicId systemId).1

/-- A document type with an internal subset is read again. -/
theorem isRetold_subset {p : Prolog} {u : List Char} (hstage : p.stage = .subset)
    (hretells : Retells m (Prolog.opened standalone [] n publicId systemId) p u (some ']')) :
  IsRetold m standalone { typeOf n publicId systemId with subset := some (.text (String.ofList u)) }
    p.declarations
  := by
  refine ⟨(allPrintable_typeOf n publicId systemId u).2, ?_⟩
  intro hquote account haccount declaration ns es stage c more hbefore hnotes hyields
  obtain rfl : account = .unlimited := haccount.resolve_left (by simp)
  have hquote' : ∀ value ∈ systemId, '"' ∉ value := by
    rintro value hvalue
    rw [Option.mem_def] at hvalue
    subst hvalue
    simpa using hquote (String.ofList value) rfl
  obtain ⟨stage', hstage', hhead⟩ := Leads.head (m := m.enclosed) (k := .unlimited) rfl hknown
    standalone es hbefore
    hparts hquote' (.inl rfl) (u ++ ']' :: '>' :: c :: more)
  have hstart : (Assembly.atTop declaration ns).step
      (Prolog.startEvent n (publicId.map normalPublicId) systemId true)
      = .ok ((Assembly.underDoctype declaration ns (typeOf n publicId systemId)).withSubset []) :=
    (startEvent_normal n publicId systemId true declaration ns).trans
      (Assembly.step_doctypeStart declaration ns n publicId systemId).2
  obtain ⟨es', hyields', hinside⟩ := hretells _ [] _ (publicId.map normalPublicId) ']'
    ('>' :: c :: more) rfl (hyields.emit hstart)
  let last : Prolog := { p.withEvents es' (publicId.map normalPublicId) with
    stage := .doctypeEnd, inSubset := false }
  refine ⟨{ last.emit .doctypeEnd with stage := .afterDoctype }, ?_, rfl, rfl,
    hyields'.emit (Assembly.step_doctypeEnd hnotes _ u).2⟩
  have hopening : Leads m.enclosed .unlimited ('[' :: (u ++ ']' :: '>' :: c :: more))
      (Prolog.headed standalone es n (publicId.map normalPublicId) systemId stage')
      (u ++ ']' :: '>' :: c :: more)
      ((Prolog.opened standalone [] n publicId systemId).withEvents
        (Prolog.startEvent n (publicId.map normalPublicId) systemId true :: es)
        (publicId.map normalPublicId)) := by
    obtain ⟨d, rest, hrest⟩ : ∃ d rest, u ++ ']' :: '>' :: c :: more = d :: rest := by
      cases u with
      | nil => exact ⟨_, _, rfl⟩
      | cons d ds => exact ⟨_, _, rfl⟩
    rw [hrest]
    refine Leads.of_part (m := m.enclosed) (t := .openBracket) (w := ['[']) rfl rfl
      .openBracket rfl rfl rest ?_
    have hpartial : (publicId.map normalPublicId).isSome = publicId.isSome := Option.isSome_map
    rcases hstage' with rfl | rfl
    · simp [Prolog.opened, Prolog.headed, Prolog.withEvents, hpartial]
      rfl
    · simp [Prolog.opened, Prolog.headed, Prolog.withEvents, hpartial]
      rfl
  have hbracket : Leads m.enclosed .unlimited (']' :: '>' :: c :: more)
      (p.withEvents es' (publicId.map normalPublicId)) ('>' :: c :: more) last := by
    refine Leads.of_spells (m := m.enclosed) (t := .closeBracket) (w := [']']) rfl
      .closeBracket rfl (c :: more) ?_
    rw [Prolog.step_part rfl]
    simp [Prolog.partStep, Prolog.withEvents, hstage, Prolog.subsetStep, Except.map, last]
  have hclosing := Leads.of_part (m := m.enclosed) (k := .unlimited) (t := .closing) (w := ['>'])
    (p := last) (q := { last.emit .doctypeEnd with stage := .afterDoctype }) rfl rfl .closing rfl
    rfl more
    (d := c) rfl
  rw [(doctypeText_typeOf n publicId systemId u).2, List.append_assoc]
  simp only [List.cons_append, List.append_assoc, List.nil_append] at hhead ⊢
  exact hhead.trans (hopening.trans (hinside.trans (hbracket.trans hclosing)))

end Retold

/-! ### What stands before the root -/

/-- What stands before the root, with what is declared there: comments, or comments around a
document type that is read again over its markup. -/
inductive IsFront (m : Medium) (standalone : Bool) : List Node → Declarations → Prop
  | bare {ns : List Node} (hnotes : ∀ n ∈ ns, n.IsNote) :
      IsFront m standalone ns { standalone := standalone }
  | typed {before after : List Node} {t : Doctype} {d : Declarations}
      (hbefore : ∀ n ∈ before, n.IsNote) (hafter : ∀ n ∈ after, n.IsNote) (hchars : d.AreChars)
      (hretold : IsRetold m standalone t d) :
      IsFront m standalone (before ++ .doctype t :: after) d

/-- No element stands before the root. -/
theorem IsFront.isElement_eq_false {m : Medium} {standalone : Bool} {front : List Node}
    {d : Declarations} (h : IsFront m standalone front d) :
  ∀ n ∈ front, n.isElement = false
  := by
  have hnotes {ns : List Node} (hns : ∀ n ∈ ns, n.IsNote) : ∀ n ∈ ns, n.isElement = false := by
    intro n hn
    obtain ⟨value, rfl⟩ := (hns n hn).exists_comment
    rfl
  cases h with
  | bare hns => exact hnotes hns
  | typed hbefore hafter _ _ =>
      rw [List.forall_mem_append, List.forall_mem_cons]
      exact ⟨hnotes hbefore, rfl, hnotes hafter⟩

end Reading

end XmlDraft
