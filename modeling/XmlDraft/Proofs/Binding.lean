import XmlDraft.Building.Callback
import XmlDraft.Proofs.Calling
import XmlDraft.Proofs.Merging

/-!
# Fragments that can be called

A value is a fragment by the number of parameters that it still needs by position, and it is called
with as many arguments.  That fits the parameters, since those with defaults stand behind those
without and what is given counts from the front.  Only positions are counted: a parameter that must
be given by name is not, and more arguments in advance than there are places leave nothing to count.
Main statement: apart from these two, a fragment that is accepted is called without a failure of the
call itself, and a tag whose element is begun ends as the body of its fragment.
-/

namespace XmlDraft

/-! ### Parameters -/

namespace Signature

/-- Parameters in an order that functions can have them in: none that must be given by position
stands behind one that can be given by position and has a default. -/
def DefaultsLast (ps : List Parameter) : Prop :=
  ps.Pairwise fun p q => p.byPosition → ¬ p.isNeeded → ¬ q.isNeeded

instance (ps : List Parameter) : Decidable (DefaultsLast ps) :=
  inferInstanceAs (Decidable (List.Pairwise _ ps))

/-- Where the needed parameters stand in front, nothing is needed behind as many of them as are
needed. -/
theorem countP_drop_countP {ps : List Parameter}
    (h : ps.Pairwise fun p q => ¬ p.isNeeded → ¬ q.isNeeded) :
  (ps.drop (ps.countP Parameter.isNeeded)).countP Parameter.isNeeded = 0
  := by
  induction ps with
  | nil => rfl
  | cons p ps ih =>
      obtain ⟨hhead, htail⟩ := List.pairwise_cons.mp h
      by_cases hp : p.isNeeded
      · rw [List.countP_cons_of_pos hp, List.drop_succ_cons]
        exact ih htail
      · have hnone : ps.countP Parameter.isNeeded = 0 :=
          List.countP_eq_zero.mpr fun q hq => hhead q hq hp
        rw [List.countP_cons_of_neg hp, hnone, List.drop_zero, List.countP_cons_of_neg hp, hnone]

/-- With what is needed given, nothing is needed any more. -/
theorem needed_add_needed {ps : List Parameter} (h : DefaultsLast ps) (given : Nat) :
  needed ps (given + needed ps given) = 0
  := by
  have hpositions : ((ps.filter Parameter.byPosition).drop given).Pairwise
      fun p q => ¬ p.isNeeded → ¬ q.isNeeded := by
    apply List.Pairwise.drop
    rw [List.pairwise_filter]
    exact h.imp fun hpq hp _ => hpq hp
  rw [needed, ← List.drop_drop]
  exact countP_drop_countP hpositions

/-- There are places for what is needed. -/
theorem hasPlaces_add_needed {ps : List Parameter} {given : Nat} (h : hasPlaces ps given) :
  hasPlaces ps (given + needed ps given)
  := by
  unfold hasPlaces at h ⊢
  rw [Bool.or_eq_true, decide_eq_true_eq] at h ⊢
  refine h.imp_left fun hle => ?_
  have hneeded : needed ps given ≤ ((ps.filter Parameter.byPosition).drop given).length :=
    List.countP_le_length
  rw [List.length_drop, ← List.countP_eq_length_filter] at hneeded
  omega

/-- A call with as many arguments as the arity says fits the parameters, when none of them must be
given by name and there are places for what is given in advance. -/
theorem binds_arity {ps : List Parameter} {given n : Nat} (hps : DefaultsLast ps)
    (hplaces : hasPlaces ps given) (hnamed : .named ∉ ps) (h : arity? ps given = some n) :
  binds ps (given + n)
  := by
  have hn : needed ps given = n := by
    rw [arity?, if_pos hplaces] at h
    split_ifs at h
    exact Option.some.inj h
  subst hn
  simp [binds, hasPlaces_add_needed hplaces, needed_add_needed hps, hnamed]

theorem arity?_le_one {ps : List Parameter} {given n : Nat} (h : arity? ps given = some n) :
  n ≤ 1
  := by
  unfold arity? at h
  split_ifs at h with hplaces hneeded
  · exact Option.some.inj h ▸ hneeded
  · exact Option.some.inj h ▸ Nat.zero_le 1

end Signature

/-! ### Fragments -/

namespace Value

/-- The parameters of a value that has them, the number of arguments given in advance, and its
body. -/
def signature? : Value → Option (List Parameter × Nat × List Step)
  | function ps body => some (ps, 0, body)
  | bound ps given body => some (ps, given, body)
  | callable ps _ body _ => some (ps, 0, body)
  | _ => Option.none

section Called

variable {v : Value} {ps : List Parameter} {given n : Nat} {body : List Step}
  (hv : v.signature? = some (ps, given, body))

include hv

theorem arity?_eq :
  v.arity? = Signature.arity? ps given
  := by
  cases v <;> cases hv <;> rfl

/-- A value with an arity is accepted as a fragment of that arity. -/
theorem accepted (h : v.arity? = some n) :
  v.checkFragment n = .ok ()
  := by
  cases v <;> cases hv <;> simp [checkFragment, isCallable, h]

/-- A value with an arity is a fragment among the arguments of a call. -/
theorem role_eq (h : v.arity? = some n) :
  v.role = .fragment (decide (n = 1))
  := by
  have hle : n ≤ 1 := Signature.arity?_le_one ((arity?_eq hv).symm.trans h)
  rcases Nat.le_one_iff_eq_zero_or_eq_one.mp hle with rfl | rfl
  all_goals cases v <;> cases hv <;> simp [role, isCallable, h]

/-- A call that fits the parameters runs the body. -/
theorem invoke_eq (takesBuilder : Bool)
    (h : Signature.binds ps (given + if takesBuilder then 1 else 0)) (r : Run) :
  Run.invoke r takesBuilder v
    = Run.steps r (some (Run.frameOf ps given takesBuilder)) body
  := by
  cases v <;> cases hv
  · rw [Run.invoke, if_pos (by simpa using h)]
  · rw [Run.invoke, if_pos h]
  · rw [Run.invoke, if_pos (by simpa using h)]

end Called

end Value

/-! ### Calls with a fragment -/

namespace Value

/-- A text that names an element is no fragment. -/
theorem fragment?_of_requireText {v : Value} {argument : String} {s : Wording}
    (h : v.requireText argument = .ok s) :
  v.fragment? = Option.none
  := by
  unfold requireText at h
  cases v with
  | none => cases h
  | callable ps fields body isText => cases isText <;> cases h
  | function ps body => cases h
  | bound ps given body => cases h
  | builtin name => cases h
  | _ => rfl

end Value

/-- The last fragment among some arguments is a fragment. -/
theorem role_of_lastFragment? {vs : List Value} {v : Value} {takesBuilder : Bool}
    (h : lastFragment? vs = some (v, takesBuilder)) :
  v.role = .fragment takesBuilder
  := by
  obtain ⟨w, -, hw⟩ := List.mem_filterMap.mp (List.mem_of_getLast? h)
  unfold Value.fragment? at hw
  split at hw
  · rename_i hrole
    cases hw
    exact hrole
  · cases hw

namespace Builder

variable {b after : Builder} {w : Value} {arguments : List Value} {named : List (String × Value)}
  {place : Place} {sequel : Sequel} {takesBuilder : Bool}

/-- What the beginning of an element says when it succeeds. -/
theorem startElement_ok (h : b.startElement w arguments named = (after, .ok (place, sequel))) :
  ∃ tag element, tagName b.settings w = .ok tag
    ∧ elementOf b.settings tag arguments named = .ok (element, sequel)
  := by
  unfold startElement at h
  split at h
  · cases h
  · rename_i tag htag
    rw [warn_eq] at h
    dsimp only at h
    split at h
    · cases h
    · rename_i element found helement
      split at h
      · cases h
      · cases h
        exact ⟨tag, element, htag, helement⟩

/-- A fragment is to be run just if there is one and all attributes could be set. -/
theorem Sequel.of_eq_fragment {copied : Except Fault Unit} {fragment : Option Bool} :
  Sequel.of copied fragment = .fragment takesBuilder
    ↔ copied = .ok () ∧ fragment = some takesBuilder
  := by
  rcases copied with f | u <;> rcases fragment with _ | t <;> simp [Sequel.of]

/-- An element is begun with the last fragment among its arguments. -/
theorem startElement_fragment
    (h : b.startElement w arguments named = (after, .ok (place, .fragment takesBuilder))) :
  (lastFragment? arguments).map Prod.snd = some takesBuilder
  := by
  obtain ⟨tag, element, -, helement⟩ := startElement_ok h
  obtain ⟨classified, prepared, q, hclassified, -, -, -, hsequel⟩ := elementOf_ok helement
  rw [← Arguments.fragment_classify hclassified]
  exact (Sequel.of_eq_fragment.mp hsequel.symm).2

/-- The arguments of a call and those that go to its element have the same last fragment, as the
name that can stand in front of these is none. -/
theorem lastFragment?_elementCall? {name : String} {rest : List Value}
    (hcall : b.elementCall? name arguments = some (w, rest))
    (hstart : b.startElement w rest named = (after, .ok (place, sequel))) :
  lastFragment? arguments = lastFragment? rest
  := by
  unfold elementCall? at hcall
  split at hcall
  · cases hcall
    rfl
  · split_ifs at hcall
    cases hcall
    rfl
  · split at hcall
    · cases hcall
      obtain ⟨tag, -, htag, -⟩ := startElement_ok hstart
      obtain ⟨text, htext, -⟩ := Reading.bind_ok htag
      rw [lastFragment?_cons, Value.fragment?_of_requireText htext, Option.or_none]
    · cases hcall
  · cases hcall

end Builder

namespace Run

/-- A call whose element is begun with a fragment opens the element, calls the last fragment among
its arguments, closes the element, and ends as the fragment does. -/
theorem step_call_fragment {r : Run} {name : String} {arguments rest : List Value}
    {named : List (String × Value)} {w v : Value} {b : Builder} {place : Place}
    {takesBuilder called : Bool}
    (hcall : r.builder.elementCall? name arguments = some (w, rest))
    (hstart : r.builder.startElement w rest named = (b, .ok (place, .fragment called)))
    (hlast : lastFragment? rest = some (v, takesBuilder)) :
  ∃ inner, enter { r with builder := b } place = .ok inner
    ∧ ∀ frame, step r frame (.call name arguments named)
      = ((invoke inner takesBuilder v).1.leave, (invoke inner takesBuilder v).2)
  := by
  obtain rfl : takesBuilder = called := by
    have hfragment := Builder.startElement_fragment hstart
    rw [hlast] at hfragment
    exact Option.some.inj hfragment
  have hstarted := Builder.startElement_opened r.builder w rest named
  rw [hstart] at hstarted
  obtain ⟨hopened, hplace⟩ := hstarted
  obtain ⟨width, rfl⟩ := hplace place _ rfl
  have hcurrent : b.draft.current = r.builder.draft.current := congrArg (·.headD []) hopened
  have hlast' := (Builder.lastFragment?_elementCall? hcall hstart).trans hlast
  rw [← hcurrent] at hstart ⊢
  have henter : enter { r with builder := b } (b.draft.current ++ [width])
      = .ok { r with
          builder := { b with
            draft := { b.draft with
              opened := (b.draft.current ++ [width]) :: b.draft.opened } } } := by
    rw [enter, Draft.push_nextPlace]
    rfl
  refine ⟨_, henter, fun frame => ?_⟩
  rw [step_call, hcall]
  dsimp only
  rw [hstart, callElement, henter]
  dsimp only
  rw [runLast_eq hlast']

end Run

end XmlDraft
