import XmlDraft.Proofs.Doctypes

/-!
# Up to the root

How far a reader has come before the root, and what is left of it: comments, a document type that
is read again over its markup, and comments behind it.  Each token goes on from one phase to the
same or the next one.  Main statement: where the root begins, what was put together is such comments
around one document type at most, and nothing is declared without a document type.
-/

namespace XmlDraft

namespace Reading

open Assembly (Yields)

/-- How far a reader has come before the root, given the character that follows. -/
inductive Progress (m : Medium) (standalone : Bool) (declaration : Option Declaration) :
    Prolog → Option Char → Prop
  /-- Nothing but comments, blanks and instructions has been read. -/
  | before {ns : List Node} {es : List Event} {stage : Stage} {next : Option Char}
      (hnotes : ∀ n ∈ ns, n.IsNote) (hyields : Yields es (Assembly.atTop declaration ns))
      (hstage : stage = .beginning ∨ stage = .beforeDoctype) :
      Progress m standalone declaration (Prolog.headed standalone es [] none none stage) next
  /-- The head of a document type is being read. -/
  | head {ns : List Node} {es : List Event} {p : Prolog} {next : Option Char}
      (hnotes : ∀ n ∈ ns, n.IsNote) (hyields : Yields es (Assembly.atTop declaration ns))
      (hhead : Prolog.IsHead m.alphabet standalone es p) : Progress m standalone declaration p next
  /-- The internal subset is being read. -/
  | inside {ns : List Node} {p : Prolog} {n : List Char} {publicId systemId : Option (List Char)}
      {u : List Char} {next : Option Char} (hnotes : ∀ n ∈ ns, n.IsNote)
      (hparts : Prolog.AreParts m.alphabet n publicId systemId) (hinside : p.IsInside)
      (hchars : p.declarations.AreChars)
      (hyields : Yields p.events
        ((Assembly.underDoctype declaration ns (typeOf n publicId systemId)).withSubset u))
      (hretells : Retells m (Prolog.opened standalone [] n publicId systemId) p u next) :
      Progress m standalone declaration p next
  /-- The internal subset has been read, and the end of the document type must follow. -/
  | tail {ns : List Node} {p : Prolog} {t : Doctype} {u : List Char} {next : Option Char}
      (hnotes : ∀ n ∈ ns, n.IsNote) (hchars : p.declarations.AreChars)
      (hstage : p.stage = .doctypeEnd) (hinside : p.inSubset = false)
      (hyields : Yields p.events ((Assembly.underDoctype declaration ns t).withSubset u))
      (hretold : IsRetold m standalone { t with subset := some (.text (String.ofList u)) }
        p.declarations) : Progress m standalone declaration p next
  /-- The document type has been read. -/
  | after {before after : List Node} {p : Prolog} {t : Doctype} {next : Option Char}
      (hbefore : ∀ n ∈ before, n.IsNote) (hafter : ∀ n ∈ after, n.IsNote)
      (hchars : p.declarations.AreChars) (hstage : p.stage = .afterDoctype)
      (hinside : p.inSubset = false)
      (hyields : Yields p.events (Assembly.atTop declaration (before ++ .doctype t :: after)))
      (hretold : IsRetold m standalone t p.declarations) :
      Progress m standalone declaration p next

namespace Progress

variable {m : Medium} {standalone : Bool} {declaration : Option Declaration} {p q : Prolog}
  {account : Account} {t : Token} {raw cs : List Char} {next : Option Char}

theorem areChars_of_none {d : Declarations} (h : d.entities = []) :
  d.AreChars
  := by
  intro name text hentity
  rw [Declarations.entity?, h] at hentity
  cases hentity

theorem forall_isNote_append {ns : List Node} (hnotes : ∀ n ∈ ns, n.IsNote) {text : List Char}
    (hchars : ∀ c ∈ text, isXmlChar c) (hbreaks : breaksComment text = false) :
  ∀ n ∈ ns ++ [.comment (String.ofList (Text.unifyLines text))], n.IsNote
  := List.forall_mem_append.mpr ⟨hnotes, by simpa using Node.isNote_unifyLines hchars hbreaks⟩

/-- A step before a document type. -/
theorem step_before {ns : List Node} {es : List Event} {stage : Stage}
    (hnotes : ∀ n ∈ ns, n.IsNote) (hyields : Yields es (Assembly.atTop declaration ns))
    (hstage : stage = .beginning ∨ stage = .beforeDoctype) (ht : Spells m.alphabet t raw next)
    (h : (Prolog.headed standalone es [] none none stage).step m account t raw cs = .ok q) :
  Progress m standalone declaration q next
  := by
  have hleave : (Prolog.headed standalone es [] none none stage).leaveBeginning
      = Prolog.headed standalone es [] none none .beforeDoctype := by
    rcases hstage with rfl | rfl <;> rfl
  rcases Prolog.step_ok h with ⟨rfl, rfl⟩ | ⟨text, rfl, _, rfl⟩ | ⟨target, text, rfl, _, rfl⟩
    | ⟨after, _, hafter, rfl⟩
  · rw [hleave]
    exact .before hnotes hyields (.inr rfl)
  · rw [hleave]
    cases ht with
    | comment hchars hbreaks =>
        exact .before (forall_isNote_append hnotes hchars hbreaks)
          (hyields.emit (Assembly.step_note declaration ns text)) (.inr rfl)
  · rw [hleave]
    exact .before hnotes
      (hyields.emit (Assembly.step_instruction declaration ns raw target text)) (.inr rfl)
  · have hdone : after = Prolog.headed standalone es [] none none .doctypeName :=
      (Prolog.partStep_leads (by rcases hstage with rfl | rfl <;> rfl) hafter).eq_begun hstage
    subst hdone
    exact .head hnotes hyields .start

/-- A step in the head of a document type. -/
theorem step_head (hknown : 0x80 ≤ m.alphabet.known)
    {ns : List Node} {es : List Event} (hnotes : ∀ n ∈ ns, n.IsNote)
    (hyields : Yields es (Assembly.atTop declaration ns))
    (hhead : Prolog.IsHead m.alphabet standalone es p) (ht : Spells m.alphabet t raw next)
    (h : p.step m account t raw cs = .ok q) :
  Progress m standalone declaration q next
  := by
  have hstage : p.stage ≠ .beginning ∧ Prolog.allowsAsides p.stage = false
      ∧ p.inSubset = false := by
    cases hhead <;> simp [Prolog.headed, Prolog.allowsAsides]
  rcases Prolog.step_ok h with ⟨rfl, rfl⟩ | ⟨_, _, hasides, _⟩ | ⟨_, _, _, hasides, _⟩
    | ⟨after, _, hafter, rfl⟩
  · have hsame : p.leaveBeginning.keepText raw = p := by
      rw [Prolog.leaveBeginning, if_neg hstage.1, Prolog.keepText, hstage.2.2]
      rfl
    rw [hsame]
    exact .head hnotes hyields hhead
  · rw [hstage.2.1] at hasides
    cases hasides
  · rw [hstage.2.1] at hasides
    cases hasides
  · rw [hstage.2.2, Bool.and_false]
    rcases Prolog.partStep_head hhead ht hafter with hhead | ⟨n, publicId, systemId, hparts, hq⟩
    · exact .head hnotes hyields hhead
    · rcases hq with rfl | rfl
      · exact .inside hnotes hparts ⟨rfl, rfl⟩ (areChars_of_none rfl)
          (hyields.emit (Assembly.step_doctypeStart declaration ns n publicId systemId).2)
          (.refl m _ next)
      · refine .after hnotes (show ∀ n ∈ ([] : List Node), n.IsNote by simp) (areChars_of_none rfl)
          rfl rfl ?_
          (isRetold_bare hknown hparts)
        exact (hyields.emit (Assembly.step_doctypeStart declaration ns n publicId systemId).1).emit
          (Assembly.step_doctypeEnd hnotes _ []).1

/-- A step behind the internal subset. -/
theorem step_tail {ns : List Node} {d : Doctype} {u : List Char} (hnotes : ∀ n ∈ ns, n.IsNote)
    (hchars : p.declarations.AreChars) (hstage : p.stage = .doctypeEnd)
    (hinside : p.inSubset = false)
    (hyields : Yields p.events ((Assembly.underDoctype declaration ns d).withSubset u))
    (hretold : IsRetold m standalone { d with subset := some (.text (String.ofList u)) }
      p.declarations) (h : p.step m account t raw cs = .ok q) :
  Progress m standalone declaration q next
  := by
  have hasides : Prolog.allowsAsides p.stage = false := by
    rw [hstage]
    rfl
  rcases Prolog.step_ok h with ⟨rfl, rfl⟩ | ⟨_, _, hallowed, _⟩ | ⟨_, _, _, hallowed, _⟩
    | ⟨after, _, hafter, rfl⟩
  · have hsame : p.leaveBeginning.keepText raw = p := by
      rw [Prolog.leaveBeginning, if_neg (by simp [hstage]), Prolog.keepText, hinside]
      rfl
    rw [hsame]
    exact .tail hnotes hchars hstage hinside hyields hretold
  · rw [hasides] at hallowed
    cases hallowed
  · rw [hasides] at hallowed
    cases hallowed
  · rw [hinside, Bool.and_false]
    have hdone : after = { p.emit .doctypeEnd with stage := .afterDoctype } :=
      (Prolog.partStep_leads (by rw [hstage]; rfl) hafter).eq_closed hstage
    subst hdone
    exact .after hnotes (show ∀ n ∈ ([] : List Node), n.IsNote by simp) hchars rfl hinside
      (hyields.emit (Assembly.step_doctypeEnd hnotes d u).2) hretold

/-- A step behind a document type. -/
theorem step_after {before after : List Node} {d : Doctype} (hbefore : ∀ n ∈ before, n.IsNote)
    (hafter : ∀ n ∈ after, n.IsNote) (hchars : p.declarations.AreChars)
    (hstage : p.stage = .afterDoctype) (hinside : p.inSubset = false)
    (hyields : Yields p.events (Assembly.atTop declaration (before ++ .doctype d :: after)))
    (hretold : IsRetold m standalone d p.declarations) (ht : Spells m.alphabet t raw next)
    (h : p.step m account t raw cs = .ok q) :
  Progress m standalone declaration q next
  := by
  have hleave : p.leaveBeginning = p := by
    rw [Prolog.leaveBeginning, if_neg (by simp [hstage])]
  rcases Prolog.step_ok h with ⟨rfl, rfl⟩ | ⟨text, rfl, _, rfl⟩ | ⟨target, text, rfl, _, rfl⟩
    | ⟨next', _, hnext, rfl⟩
  · have hsame : p.leaveBeginning.keepText raw = p := by
      rw [hleave, Prolog.keepText, hinside]
      rfl
    rw [hsame]
    exact .after hbefore hafter hchars hstage hinside hyields hretold
  · rw [hleave]
    cases ht with
    | comment hnote hbreaks =>
        have hemit := hyields.emit (Assembly.step_note declaration _ text)
        rw [List.append_assoc, List.cons_append] at hemit
        exact .after hbefore (forall_isNote_append hafter hnote hbreaks) hchars hstage hinside
          hemit hretold
  · rw [hleave]
    exact .after hbefore hafter hchars hstage hinside
      (hyields.emit (Assembly.step_instruction declaration _ raw target text)) hretold
  · exact absurd hstage (Prolog.partStep_leads (by rw [hstage]; rfl) hnext).stage_ne

/-- A token goes on from a phase to the same or the next one. -/
theorem step (hknown : 0x80 ≤ m.alphabet.known)
    (hp : Progress m standalone declaration p raw.head?) (ht : Spells m.alphabet t raw next)
    (hmore : t ≠ .closeBracket → t.needsMore next = false) (h : p.step m account t raw cs = .ok q) :
  Progress m standalone declaration q next
  := by
  cases hp with
  | before hnotes hyields hstage => exact step_before hnotes hyields hstage ht h
  | head hnotes hyields hhead => exact step_head hknown hnotes hyields hhead ht h
  | @inside ns _ n publicId systemId u _ hnotes hparts hinside hchars hyields hretells =>
      rcases Prolog.step_inside hinside ht hmore h with ⟨hstage, rfl, rfl⟩ | ⟨kept, hhead, hleaves⟩
      · cases ht with
        | closeBracket =>
            exact .tail hnotes hchars rfl rfl hyields
              (isRetold_subset (p := p) hknown hparts hstage hretells)
      · obtain ⟨e, _, hadds, hevents, _⟩ := hleaves.event
        refine .inside (u := u ++ kept) hnotes hparts hleaves.inside (hleaves.chars hchars) ?_
          (.step (hhead ▸ hretells) hleaves)
        rw [hevents]
        exact hyields.emit (hadds _ u)
  | tail hnotes hchars hstage hinside hyields hretold =>
      exact step_tail hnotes hchars hstage hinside hyields hretold h
  | after hbefore hafter hchars hstage hinside hyields hretold =>
      exact step_after hbefore hafter hchars hstage hinside hyields hretold ht h

end Progress

/-! ### All tokens -/

variable {m : Medium} {account : Account} {p q r : Prolog} {cs rest : List Char}

/-- What stands before the root does not end without it. -/
theorem beforeRoot_nil (m : Medium) (account : Account) (fuel : Nat) (p : Prolog)
    (found : Prolog × List Char) :
  beforeRoot m account fuel [] p ≠ .ok found
  := by
  cases fuel <;> exact nofun

/-- A reader stops before the root, where a root may begin, or goes on behind a token. -/
theorem beforeRoot_cons {fuel : Nat} {c : Char} {more : List Char} (hm : m.alphabet.divides = false)
    (h : beforeRoot m account (fuel + 1) (c :: more) p = .ok (r, rest)) :
  (r = p ∧ p.stage.allowsRoot ∧ rest = c :: more ∧ ∃ cs, m.token c more = .ok (.root, cs))
    ∨ ∃ t raw cs q, m.token c more = .ok (t, cs) ∧ Spells m.alphabet t raw cs.head?
      ∧ c :: more = raw ++ cs ∧ p.step m account t raw (c :: more) = .ok q
      ∧ beforeRoot m account fuel cs q = .ok (r, rest)
  := by
  unfold beforeRoot at h
  split at h
  · cases h
  · rename_i cs htoken
    split_ifs at h with hroot
    · cases h
      exact .inl ⟨rfl, hroot, rfl, cs, htoken⟩
  · rename_i t cs hne htoken
    obtain ⟨raw, hraw, hspells⟩ := (Medium.token_ok hm htoken).resolve_left hne
    have htake : (c :: more).take (more.length + 1 - cs.length) = raw := by
      have hlength : more.length + 1 - cs.length = raw.length := by
        rw [← List.length_cons, hraw, List.length_append, Nat.add_sub_cancel]
      rw [hlength, hraw, List.take_left]
    rw [htake] at h
    obtain ⟨q, hstep, h⟩ := bind_ok h
    cases cs with
    | nil => exact absurd h (beforeRoot_nil _ _ _ _ _)
    | cons d ds => exact .inr ⟨t, raw, d :: ds, q, htoken, hspells, hraw, hstep, h⟩

/-- No percent sign stands right behind the keyword of a declaration. -/
theorem head?_behind_opening (hm : m.alphabet.divides = false) {c : Char} {more word raw : List Char}
    (htoken : m.token c more = .ok (.opening word, cs))
    (hstep : p.step m account (.opening word) raw (c :: more) = .ok q) {fuel : Nat}
    (h : beforeRoot m account fuel cs q = .ok (r, rest)) :
  cs.head? ≠ some '%'
  := by
  intro hhead
  obtain ⟨ds, rfl⟩ := List.head?_eq_some_iff.mp hhead
  cases fuel with
  | zero => cases h
  | succ fuel =>
      rw [Prolog.step_part rfl] at hstep
      obtain ⟨next, hnext, hq⟩ := map_ok hstep
      have hstage : q.stage ≠ .subset := by
        have hopening := Prolog.partStep_opening hnext
        rw [← hq]
        unfold Prolog.keepText Prolog.emit
        split_ifs <;> exact hopening
      rcases beforeRoot_cons hm h with
        ⟨_, _, _, _, hroot⟩ | ⟨t, raw', cs', q', htoken', _, _, hstep', _⟩
      · obtain ⟨n, hn⟩ := Medium.token_behind_opening hm htoken hroot
        cases hn
      · obtain ⟨n, rfl⟩ := Medium.token_behind_opening hm htoken htoken'
        rw [Prolog.step_part rfl] at hstep'
        obtain ⟨next', hnext', _⟩ := map_ok hstep'
        exact hstage (Prolog.partStep_parameter hnext')

/-- Where the root begins, a reader has come before, or behind, a document type. -/
theorem beforeRoot_ok {standalone : Bool} {declaration : Option Declaration}
    (hm : m.alphabet.divides = false) (hknown : 0x80 ≤ m.alphabet.known) {fuel : Nat}
    (hp : Progress m standalone declaration p cs.head?)
    (h : beforeRoot m account fuel cs p = .ok (q, rest)) :
  Progress m standalone declaration q rest.head? ∧ q.stage.allowsRoot
  := by
  induction fuel generalizing cs p with
  | zero => cases h
  | succ fuel ih =>
      cases cs with
      | nil => exact absurd h (beforeRoot_nil _ _ _ _ _)
      | cons c more =>
          rcases beforeRoot_cons hm h with ⟨rfl, hroot, rfl, _⟩
            | ⟨t, raw, cs, next, htoken, hspells, hraw, hstep, hrest⟩
          · exact ⟨hp, hroot⟩
          · apply ih _ hrest
            have hhead : raw.head? = (c :: more).head? := by
              rw [hraw, List.head?_append_of_ne_nil _ hspells.ne_nil]
            refine Progress.step hknown (hhead ▸ hp) hspells ?_ hstep
            intro hclose
            cases t with
            | opening word =>
                simpa [Token.needsMore] using head?_behind_opening hm htoken hstep hrest
            | closeBracket => exact absurd rfl hclose
            | _ => rfl

end Reading

end XmlDraft
