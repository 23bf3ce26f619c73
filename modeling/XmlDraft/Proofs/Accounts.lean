import XmlDraft.Proofs.Found
import XmlDraft.Reading.Markup

/-!
# Accounts

A reader keeps account of the source, and refuses a document the replacement texts of which are
too large beside what has been read of it.  Main statement: what stands before the root is read
under an account as it is read where replacement texts may be of any length, unless it is refused
for their length.
-/

namespace XmlDraft

namespace Reading

/-- How something is read under an account, compared with how it is read where replacement texts
may be of any length: to the same result, or it is cut short as too large, or it fails in both. -/
inductive Agrees {α β : Type} :
    Except (Malformed × β) α → Except (Malformed × β) α → Prop
  | same (a : α) : Agrees (.ok a) (.ok a)
  | cut (here : β) (a : α) : Agrees (.error (.amplification, here)) (.ok a)
  | fails (e e' : Malformed × β) : Agrees (.error e) (.error e')

namespace Agrees

variable {α β γ δ : Type} {r r' : Except (Malformed × β) α}

theorem refl (r : Except (Malformed × β) α) :
  Agrees r r
  := by
  cases r with
  | ok a => exact .same a
  | error e => exact .fails e e

/-- What is too large is cut short wherever it can be read at all. -/
theorem refused (here : β) (r : Except (Malformed × β) α) :
  Agrees (.error (.amplification, here)) r
  := by
  cases r with
  | ok a => exact .cut here a
  | error e => exact .fails _ e

/-- What is read under an account is read without one. -/
theorem free {a : α} (h : Agrees (.ok a) r') :
  r' = .ok a
  := by
  cases h
  rfl

/-- What is read without an account is read under one, or it is cut short. -/
theorem limited {a : α} (h : Agrees r (.ok a)) :
  r = .ok a ∨ ∃ here, r = .error (.amplification, here)
  := by
  cases h with
  | same => exact .inl rfl
  | cut here => exact .inr ⟨here, rfl⟩

theorem bind (h : Agrees r r') {f f' : α → Except (Malformed × β) δ}
    (hnext : ∀ a, Agrees (f a) (f' a)) :
  Agrees (r >>= f) (r' >>= f')
  := by
  cases h with
  | same a => exact hnext a
  | cut here a => exact refused here _
  | fails e e' => exact .fails e e'

theorem map (h : Agrees r r') (f : α → δ) :
  Agrees (r.map f) (r'.map f)
  := by
  cases h with
  | same a => exact .same _
  | cut here a => exact .cut here _
  | fails e e' => exact .fails e e'

/-- A change of places leaves the causes. -/
theorem mapError (h : Agrees r r') {f : Malformed × β → Malformed × γ}
    (hf : ∀ here, (f (.amplification, here)).1 = .amplification) :
  Agrees (r.mapError f) (r'.mapError f)
  := by
  cases h with
  | same a => exact .same a
  | cut here a =>
      have heq : f (.amplification, here) = (.amplification, (f (.amplification, here)).2) :=
        Prod.ext (hf here) rfl
      rw [Except.mapError, heq]
      exact .cut _ a
  | fails e e' => exact .fails _ _

end Agrees

/-! ### Values of attributes -/

theorem gather_agrees (m : Medium) (isPlain : Bool) {replace replace' : Replacing}
    (hreplace : ∀ name g, Agrees (replace name g) (replace' name g)) (fuel : Nat)
    (cs : List Char) (g : Gathered) :
  Agrees (gather m isPlain replace fuel cs g) (gather m isPlain replace' fuel cs g)
  := by
  induction fuel generalizing cs g with
  | zero => exact .same g
  | succ fuel ih =>
      cases cs with
      | nil => exact .same g
      | cons c cs =>
          unfold gather
          split
          · split
            · exact .fails _ _
            · exact .fails _ _
            · exact ih _ _
            · rename_i name rest _
              split
              · exact ih _ _
              · -- an entity in the value
                have hname := hreplace name g
                revert hname
                generalize replace name g = r
                generalize replace' name g = r'
                intro hname
                cases hname with
                | same g => exact ih _ _
                | cut here g => exact .refused _ _
                | fails e e' => exact .fails _ _
          · exact .fails _ _
          · split
            · exact ih _ _
            · exact ih _ _
          · exact ih _ _

/-- Only the refusal depends on how much of the source has been read. -/
theorem replaceAt_agrees (m : Medium) (d : Declarations) (isPlain : Bool) (direct : Option Nat)
    (level : Nat) (opened : List (List Char)) (name : List Char) (g : Gathered) :
  Agrees (replaceAt m d isPlain direct level opened name g)
    (replaceAt m d isPlain none level opened name g)
  := by
  induction level generalizing opened name g with
  | zero => exact .fails _ _
  | succ level ih =>
      unfold replaceAt
      split
      · exact .refl _
      · split_ifs with hopened
        · exact .fails _ _
        · split
          · exact .fails _ _
          · exact .fails _ _
          · rename_i text _
            have hnever (spent : Nat) : isExcessive none spent = false := by
              rw [isExcessive, Option.any_none]
            have hinner := gather_agrees m.replaced isPlain (ih (name :: opened))
              (text.length + 1) text { g with spent := g.spent + octetCount text }
            simp only [hnever, Bool.false_eq_true, ite_false]
            split_ifs
            · exact .refused _ _
            · exact hinner.mapError (f := fun (cause, _) => (cause, none)) fun _ => rfl

theorem attributeValue_agrees (m : Medium) (d : Declarations) (opened : List (List Char))
    (isPlain : Bool) (direct : Option Nat) (spent : Nat) (raw : List Char) :
  Agrees (attributeValue m d opened isPlain direct spent raw)
    (attributeValue m d opened isPlain none spent raw)
  := (gather_agrees m.enclosed isPlain (replaceAt_agrees m d isPlain direct _ opened) _ raw _).map _

/-! ### What stands before the root -/

namespace Prolog

variable (m : Medium) (account : Account) (p : Prolog)

theorem declareDefault_agrees (value cs : List Char) :
  Agrees (declareDefault m account p value cs) (declareDefault m .unlimited p value cs)
  := by
  unfold declareDefault
  split_ifs with hreads hhalved
  · exact .fails _ _
  · have hvalue := attributeValue_agrees m p.declarations [] p.isPlain
      (account (cs.drop (value.length + 2))) p.spent value
    revert hvalue
    unfold Account.unlimited
    generalize attributeValue m p.declarations [] p.isPlain _ p.spent value = r
    generalize attributeValue m p.declarations [] p.isPlain none p.spent value = r'
    intro hvalue
    cases hvalue with
    | same found => exact .same _
    | cut here found =>
        obtain ⟨place, hplace⟩ : ∃ place, placed (.amplification, here) value (cs.drop 1) cs
            = (.amplification, place) := by
          cases here <;> exact ⟨_, rfl⟩
        dsimp only
        rw [hplace]
        exact .cut place _
    | fails e e' => exact .fails _ _
  · exact .refl _

theorem attributeStep_agrees (t : Token) (cs : List Char) :
  Agrees (attributeStep m account p t cs) (attributeStep m .unlimited p t cs)
  := by
  unfold attributeStep
  split
  case h_18 value _ => exact declareDefault_agrees m account p value cs
  case h_19 value _ => exact declareDefault_agrees m account p value cs
  all_goals exact .refl _

theorem partStep_agrees (t : Token) (cs : List Char) :
  Agrees (partStep m account p t cs) (partStep m .unlimited p t cs)
  := by
  unfold partStep
  split
  all_goals first
    | exact .refl _
    | exact attributeStep_agrees m account p t cs

theorem step_agrees (t : Token) (raw cs : List Char) :
  Agrees (p.step m account t raw cs) (p.step m .unlimited t raw cs)
  := by
  unfold step
  split
  · exact .refl _
  · exact .refl _
  · exact .refl _
  · exact (partStep_agrees m account p t cs).bind fun next => .refl _

end Prolog

/-- What stands before the root is read under an account as it is read without one, unless it is
refused as too large. -/
theorem beforeRoot_agrees (m : Medium) (account : Account) (fuel : Nat) (cs : List Char)
    (p : Prolog) :
  Agrees (beforeRoot m account fuel cs p) (beforeRoot m .unlimited fuel cs p)
  := by
  induction fuel generalizing m cs p with
  | zero => exact .fails _ _
  | succ fuel ih =>
      cases cs with
      | nil => exact .fails _ _
      | cons c more =>
          unfold beforeRoot
          split
          · exact .fails _ _
          · exact .refl _
          · exact (Prolog.step_agrees m account p _ _ _).bind fun q => ih _ _ _

end Reading

end XmlDraft
