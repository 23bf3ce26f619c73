import XmlDraft.Building.Session
import XmlDraft.Proofs.Found

/-!
# Arguments that are merged

The arguments of a call are classified from left to right, and of each class the last one counts.
So the classes of a list can be told from those of its parts: what a later part sets takes the place
of what an earlier part sets, an empty text and a bag without fields included, and what it does not
set stays.  Main statement: classification is this merge, it fails where the first part that fails
does, and nothing but the last argument of each class matters to a call.  Members of an enumeration
without a name are not among the arguments, for they are no values.
-/

namespace XmlDraft

/-! ### Classes -/

/-- A class of arguments. -/
inductive Class where
  | content
  | attributes
  | fragment
deriving DecidableEq, Repr

namespace Value

/-- The class of a value in a role; what is passed over has none. -/
def Role.class? : Role → Option Class
  | .nothing => Option.none
  | .fragment _ => some .fragment
  | .content => some .content
  | .bag _ => some .attributes

/-- The class of a value as an argument. -/
def class? (v : Value) : Option Class :=
  v.role.class?

/-- A value as a fragment, and whether it takes the builder then. -/
def fragment? (v : Value) : Option (Value × Bool) :=
  match v.role with
  | .fragment takesBuilder => some (v, takesBuilder)
  | _ => Option.none

theorem isFragment_eq (v : Value) :
  v.isFragment = v.fragment?.isSome
  := by
  unfold isFragment fragment?
  cases v.role <;> rfl

theorem isFragment_iff (v : Value) :
  v.isFragment ↔ v.class? = some .fragment
  := by
  unfold isFragment class?
  cases v.role <;> simp [Role.class?]

theorem fragment?_eq_none {v : Value} (h : v.class? ≠ some .fragment) :
  v.fragment? = Option.none
  := by
  rwa [ne_eq, ← isFragment_iff, isFragment_eq, Option.not_isSome_iff_eq_none] at h

end Value

/-- The last fragment among some arguments, and whether it takes the builder. -/
def lastFragment? (vs : List Value) : Option (Value × Bool) :=
  (vs.filterMap Value.fragment?).getLast?

theorem lastFragment?_append (xs ys : List Value) :
  lastFragment? (xs ++ ys) = (lastFragment? ys).or (lastFragment? xs)
  := by
  rw [lastFragment?, List.filterMap_append, List.getLast?_append]
  rfl

theorem lastFragment?_cons (v : Value) (vs : List Value) :
  lastFragment? (v :: vs) = (lastFragment? vs).or v.fragment?
  := by
  rw [← List.singleton_append, lastFragment?_append]
  congr 1
  cases h : v.fragment? <;> simp [lastFragment?, h]

theorem any_isFragment (vs : List Value) :
  vs.any Value.isFragment = (lastFragment? vs).isSome
  := by
  induction vs with
  | nil => rfl
  | cons v vs ih =>
      rw [List.any_cons, ih, v.isFragment_eq, lastFragment?_cons, Option.isSome_or, Bool.or_comm]

theorem exists_lastFragment {vs : List Value} (h : some .fragment ∈ vs.map Value.class?) :
  ∃ found, lastFragment? vs = some found
  := by
  obtain ⟨v, hv, hclass⟩ := List.mem_map.mp h
  rw [← Option.isSome_iff_exists, ← any_isFragment, List.any_eq_true]
  exact ⟨v, hv, v.isFragment_iff.mpr hclass⟩

/-- The fragment that a call runs is the last one among its arguments. -/
theorem Run.runLast_eq {vs : List Value} {v : Value} {takesBuilder : Bool}
    (h : lastFragment? vs = some (v, takesBuilder)) (r : Run) (called : Bool) :
  Run.runLast r called vs = Run.invoke r called v
  := by
  induction vs with
  | nil => cases h
  | cons w vs ih =>
      rw [lastFragment?_cons] at h
      rw [Run.runLast, any_isFragment]
      cases hlast : lastFragment? vs with
      | none =>
          rw [hlast, Option.none_or] at h
          unfold Value.fragment? at h
          split at h
          · cases h
            rfl
          · cases h
      | some found =>
          rw [hlast, Option.some_or] at h
          exact ih (hlast.trans h)

namespace Arguments

/-! ### The merge -/

/-- Classified arguments in front of which others stand: what is not set is that of the others. -/
def upon (later earlier : Arguments) : Arguments where
  content := later.content.or earlier.content
  attributes := later.attributes.or earlier.attributes
  fragment := later.fragment.or earlier.fragment

theorem upon_empty (c : Arguments) :
  c.upon {} = c
  := by
  obtain ⟨content, attributes, fragment⟩ := c
  simp [upon]

theorem upon_assoc (c d e : Arguments) :
  (c.upon d).upon e = c.upon (d.upon e)
  := by
  simp [upon, Option.or_assoc]

/-- What an argument sets does not depend on the arguments before it. -/
theorem add_eq (c : Arguments) (v : Value) :
  c.add v = (({} : Arguments).add v).map fun d => d.upon c
  := by
  unfold add
  cases v.role with
  | nothing => rfl
  | fragment takesBuilder => rfl
  | content => cases v.markup <;> rfl
  | bag warned => cases v.fields <;> rfl

theorem classifyFrom_append (c : Arguments) (xs ys : List Value) :
  classifyFrom c (xs ++ ys) = (classifyFrom c xs).bind fun d => classifyFrom d ys
  := by
  induction xs generalizing c with
  | nil => rfl
  | cons v vs ih =>
      rw [List.cons_append, classifyFrom, classifyFrom]
      cases c.add v with
      | error e => rfl
      | ok d => exact ih d

/-- What arguments set does not depend on the arguments before them. -/
theorem classifyFrom_eq (c : Arguments) (vs : List Value) :
  classifyFrom c vs = (classifyFrom {} vs).map fun d => d.upon c
  := by
  induction vs generalizing c with
  | nil => rfl
  | cons v vs ih =>
      rw [classifyFrom, classifyFrom, add_eq c v]
      cases hv : ({} : Arguments).add v with
      | error e => rfl
      | ok d =>
          have hstart : classifyFrom (d.upon c) vs = (classifyFrom d vs).map fun e => e.upon c := by
            rw [ih (d.upon c), ih d]
            cases classifyFrom {} vs with
            | error e => rfl
            | ok e => exact congrArg Except.ok (upon_assoc e d c).symm
          exact hstart

theorem withNamed_upon (d c : Arguments) (named : List (String × Value)) :
  (d.upon c).withNamed named = (d.withNamed named).upon c
  := by
  unfold withNamed
  split_ifs
  · rfl
  · rfl

theorem classify_nil_named (vs : List Value) :
  classify vs [] = classifyFrom {} vs
  := by
  unfold classify
  cases classifyFrom {} vs <;> rfl

/-- The classification of a list is that of its second part upon that of its first one. -/
theorem classify_append (xs ys : List Value) (named : List (String × Value)) :
  classify (xs ++ ys) named
    = (classify xs []).bind fun c => (classify ys named).map fun d => d.upon c
  := by
  rw [classify_nil_named, classify, classify, classifyFrom_append]
  cases classifyFrom {} xs with
  | error e => rfl
  | ok c =>
      have hys := classifyFrom_eq c ys
      cases hd : classifyFrom {} ys with
      | error e =>
          rw [hd] at hys
          simp only [Except.bind, hys]
          rfl
      | ok d =>
          rw [hd] at hys
          simp only [Except.bind, hys]
          exact congrArg Except.ok (withNamed_upon d c named)

/-! ### What an argument sets -/

/-- What an argument sets, if it does not fail, is of its class. -/
theorem add_cases {v : Value} {c : Arguments} (h : ({} : Arguments).add v = .ok c) :
  (v.class? = none ∧ c = {})
    ∨ (v.class? = some .content ∧ ∃ s, v.markup = .ok s ∧ c = { content := some s })
    ∨ (v.class? = some .attributes ∧ ∃ fs, v.fields = .ok fs ∧ c = { attributes := some fs })
    ∨ (v.class? = some .fragment
      ∧ ∃ takesBuilder, v.fragment? = some (v, takesBuilder)
        ∧ c = { fragment := some takesBuilder })
  := by
  unfold add at h
  unfold Value.class? Value.fragment?
  cases hrole : v.role with
  | nothing =>
      rw [hrole] at h
      cases h
      exact .inl ⟨rfl, rfl⟩
  | fragment takesBuilder =>
      rw [hrole] at h
      cases h
      exact .inr (.inr (.inr ⟨rfl, takesBuilder, rfl, rfl⟩))
  | content =>
      rw [hrole] at h
      obtain ⟨s, hs, rfl⟩ := Reading.map_ok h
      exact .inr (.inl ⟨rfl, s, Reading.mapError_ok hs, rfl⟩)
  | bag warned =>
      rw [hrole] at h
      obtain ⟨fs, hfs, rfl⟩ := Reading.map_ok h
      exact .inr (.inr (.inl ⟨rfl, fs, hfs, rfl⟩))

/-- Whether classified arguments have anything of a class; an empty text and a bag without fields
count. -/
def sets (c : Arguments) : Class → Bool
  | .content => c.content.isSome
  | .attributes => c.attributes.isSome
  | .fragment => c.fragment.isSome

theorem sets_upon (later earlier : Arguments) (k : Class) :
  (later.upon earlier).sets k = (later.sets k || earlier.sets k)
  := by
  cases k <;> exact Option.isSome_or

/-- An argument sets its class and no other one. -/
theorem add_sets {v : Value} {c : Arguments} (h : ({} : Arguments).add v = .ok c) (k : Class) :
  c.sets k = (v.class? = some k)
  := by
  rcases add_cases h with ⟨hv, rfl⟩ | ⟨hv, s, -, rfl⟩ | ⟨hv, fs, -, rfl⟩ | ⟨hv, t, -, rfl⟩
  all_goals
    rw [hv]
    cases k <;> simp [sets]

/-- What is of the class of an argument takes the place of what the argument sets. -/
theorem upon_of_sets {v : Value} {c d : Arguments} {k : Class}
    (h : ({} : Arguments).add v = .ok c) (hv : v.class? = some k) (hd : d.sets k) :
  d.upon c = d
  := by
  obtain ⟨content, attributes, fragment⟩ := d
  rcases add_cases h with ⟨hv', rfl⟩ | ⟨hv', s, -, rfl⟩ | ⟨hv', fs, -, rfl⟩ | ⟨hv', t, -, rfl⟩
  · exact upon_empty _
  all_goals
    cases hv.symm.trans hv'
    obtain ⟨own, hown⟩ := Option.isSome_iff_exists.mp hd
    dsimp only at hown
    simp [upon, hown]

/-- What arguments of different classes set does not depend on their order. -/
theorem upon_comm {u v : Value} {c d : Arguments} (hu : ({} : Arguments).add u = .ok c)
    (hv : ({} : Arguments).add v = .ok d) (h : u.class? ≠ v.class?) :
  c.upon d = d.upon c
  := by
  rcases add_cases hu with ⟨hcu, rfl⟩ | ⟨hcu, s, -, rfl⟩ | ⟨hcu, fs, -, rfl⟩ | ⟨hcu, t, -, rfl⟩
  all_goals
    rcases add_cases hv with ⟨hcv, rfl⟩ | ⟨hcv, s, -, rfl⟩ | ⟨hcv, fs, -, rfl⟩ | ⟨hcv, t, -, rfl⟩
    all_goals first | rfl | exact absurd (hcu.trans hcv.symm) h

/-! ### What several arguments set -/

theorem classify_singleton (v : Value) :
  classify [v] [] = ({} : Arguments).add v
  := by
  rw [classify_nil_named, classifyFrom]
  cases ({} : Arguments).add v <;> rfl

theorem classify_cons (v : Value) (vs : List Value) (named : List (String × Value)) :
  classify (v :: vs) named
    = (({} : Arguments).add v).bind fun c => (classify vs named).map fun d => d.upon c
  := by
  rw [← List.singleton_append, classify_append, classify_singleton]

theorem classify_cons_ok {v : Value} {vs : List Value} {named : List (String × Value)}
    {c : Arguments} (h : classify (v :: vs) named = .ok c) :
  ∃ one others, ({} : Arguments).add v = .ok one ∧ classify vs named = .ok others
    ∧ c = others.upon one
  := by
  rw [classify_cons] at h
  obtain ⟨one, hone, h⟩ := Reading.bind_ok h
  obtain ⟨others, hothers, rfl⟩ := Reading.map_ok h
  exact ⟨one, others, hone, hothers, rfl⟩

/-- The fragment of classified arguments is the last one among them. -/
theorem fragment_classify {vs : List Value} {named : List (String × Value)} {c : Arguments}
    (h : classify vs named = .ok c) :
  c.fragment = (lastFragment? vs).map Prod.snd
  := by
  induction vs generalizing c with
  | nil =>
      cases h
      unfold withNamed
      split_ifs <;> rfl
  | cons v vs ih =>
      obtain ⟨one, others, hone, hothers, rfl⟩ := classify_cons_ok h
      have hv : one.fragment = v.fragment?.map Prod.snd := by
        rcases add_cases hone with ⟨hv, rfl⟩ | ⟨hv, s, -, rfl⟩ | ⟨hv, fs, -, rfl⟩ | ⟨-, t, ht, rfl⟩
        · rw [Value.fragment?_eq_none (by simp [hv])]
          rfl
        · rw [Value.fragment?_eq_none (by simp [hv])]
          rfl
        · rw [Value.fragment?_eq_none (by simp [hv])]
          rfl
        · rw [ht]
          rfl
      rw [upon, ih hothers, hv, lastFragment?_cons, Option.map_or]

/-- The last argument of a class. -/
def lastOf? (k : Class) (vs : List Value) : Option Value :=
  (vs.filter fun v => v.class? = some k).getLast?

theorem lastOf?_cons (k : Class) (v : Value) (vs : List Value) :
  lastOf? k (v :: vs) = (lastOf? k vs).or (if v.class? = some k then some v else none)
  := by
  unfold lastOf?
  by_cases h : v.class? = some k
  · rw [List.filter_cons_of_pos (by simpa using h), List.getLast?_cons, if_pos h]
    cases (vs.filter fun v => v.class? = some k).getLast? <;> rfl
  · rw [List.filter_cons_of_neg (by simpa using h), if_neg h, Option.or_none]

/-- What the arguments of a call say of its new element: its text is that of the last scalar among
them, and its bag of attributes is the one given by name, if one is, and else the last one among
them. -/
structure Say (given : List Value) (named : List (String × Value)) (text : Option String)
    (bag : List (FieldName × Value)) : Prop where
  text : text.map Except.ok = (lastOf? .content given).map Value.markup
  byName : named ≠ [] → bag = FieldName.ofTexts named
  byPlace : named = [] → Except.ok bag = ((lastOf? .attributes given).map Value.fields).getD (.ok [])

/-- Classified arguments have the text and the bag that the arguments say. -/
theorem classify_say {vs : List Value} {named : List (String × Value)} {c : Arguments}
    (h : classify vs named = .ok c) :
  Say vs named c.content (c.attributes.getD [])
  := by
  have hcontent : c.content.map Except.ok = (lastOf? .content vs).map Value.markup := by
    induction vs generalizing c with
    | nil =>
        cases h
        unfold withNamed
        split_ifs <;> rfl
    | cons v vs ih =>
        obtain ⟨one, others, hone, hothers, rfl⟩ := classify_cons_ok h
        rw [upon, lastOf?_cons, Option.map_or, Option.map_or, ih hothers]
        congr 1
        rcases add_cases hone with ⟨hv, rfl⟩ | ⟨hv, s, hs, rfl⟩ | ⟨hv, fs, -, rfl⟩ | ⟨hv, t, -, rfl⟩
        all_goals simp_all
  have hunnamed : named = [] →
      c.attributes.map Except.ok = (lastOf? .attributes vs).map Value.fields := by
    rintro rfl
    clear hcontent
    induction vs generalizing c with
    | nil =>
        cases h
        rfl
    | cons v vs ih =>
        obtain ⟨one, others, hone, hothers, rfl⟩ := classify_cons_ok h
        rw [upon, lastOf?_cons, Option.map_or, Option.map_or, ih hothers]
        congr 1
        rcases add_cases hone with ⟨hv, rfl⟩ | ⟨hv, s, -, rfl⟩ | ⟨hv, fs, hfs, rfl⟩ | ⟨hv, t, -, rfl⟩
        all_goals simp_all
  refine ⟨hcontent, fun hnamed => ?_, fun hnamed => ?_⟩
  · obtain ⟨d, -, rfl⟩ := Reading.map_ok h
    rw [withNamed, if_neg (by simpa using hnamed), Option.getD_some]
  · rw [← hunnamed hnamed]
    cases c.attributes <;> rfl

/-- Just those classes are set of which there is an argument, where those given by name are a bag.
-/
theorem sets_classify {vs : List Value} {named : List (String × Value)} {c : Arguments}
    (h : classify vs named = .ok c) (k : Class) :
  c.sets k ↔ some k ∈ vs.map Value.class? ∨ k = .attributes ∧ named ≠ []
  := by
  induction vs generalizing c with
  | nil =>
      cases h
      cases named <;> cases k <;> simp [withNamed, sets]
  | cons v vs ih =>
      obtain ⟨one, others, hone, hothers, rfl⟩ := classify_cons_ok h
      rw [sets_upon, Bool.or_eq_true, ih hothers, add_sets hone, List.map_cons, List.mem_cons,
        or_right_comm, or_comm (a := _ ∈ _), eq_comm (a := some k)]

/-- The warnings about a list are those about its first part and those about its second one, unless
the first part fails. -/
theorem warnings_append (xs ys : List Value) :
  warnings (xs ++ ys) = warnings xs ++ if (classify xs []).isOk then warnings ys else []
  := by
  induction xs with
  | nil => rfl
  | cons v vs ih =>
      rw [List.cons_append, warnings, warnings, classify_cons]
      cases ({} : Arguments).add v with
      | error e => simp [Except.bind, Except.isOk, Except.toBool]
      | ok c =>
          have hok : ((classify vs []).map fun d => d.upon c).isOk = (classify vs []).isOk := by
            cases classify vs [] <;> rfl
          simp only [Except.bind, hok, ih, List.append_assoc]

/-! ### Lists that come to the same -/

section Alike

variable {named : List (String × Value)}

/-- Two lists of arguments that come to the same beside arguments given by name: they set the same,
or fail with the same cause, and have the same fragment. -/
structure Alike (named : List (String × Value)) (vs ws : List Value) : Prop where
  classified : classify vs named = classify ws named
  fragment : lastFragment? vs = lastFragment? ws

/-- What stands in front of two lists that come to the same does not matter. -/
theorem Alike.append {vs ws : List Value} (h : Alike named vs ws) (xs : List Value) :
  Alike named (xs ++ vs) (xs ++ ws)
  where
  classified := by rw [classify_append, classify_append xs ws, h.classified]
  fragment := by rw [lastFragment?_append, lastFragment?_append, h.fragment]

theorem alike_none (vs : List Value) :
  Alike named (.none :: vs) vs
  where
  classified := by
    rw [classify_cons]
    cases classify vs named with
    | error e => rfl
    | ok c => exact congrArg Except.ok (upon_empty c)
  fragment := by
    rw [lastFragment?_cons, Value.fragment?_eq_none (by decide), Option.or_none]

/-- Arguments of different classes that do not fail can be swapped. -/
theorem alike_swap {u v : Value} (hclass : u.class? ≠ v.class?) (hu : (classify [u] []).isOk)
    (hv : (classify [v] []).isOk) (vs : List Value) :
  Alike named (u :: v :: vs) (v :: u :: vs)
  where
  classified := by
    rw [classify_singleton] at hu hv
    obtain ⟨c, hc⟩ := Reading.exists_of_isOk hu
    obtain ⟨d, hd⟩ := Reading.exists_of_isOk hv
    simp only [classify_cons, hc, hd]
    cases classify vs named with
    | error e => rfl
    | ok rest => simp only [Except.bind, Except.map, upon_assoc, upon_comm hc hd hclass]
  fragment := by
    simp only [lastFragment?_cons, Option.or_assoc]
    by_cases h : u.class? = some .fragment
    · rw [Value.fragment?_eq_none (v := v) (h ▸ hclass.symm), Option.none_or, Option.or_none]
    · rw [Value.fragment?_eq_none h, Option.none_or, Option.or_none]

/-- Of two arguments of different classes one at most is warned about. -/
theorem warnings_swap {u v : Value} (hclass : u.class? ≠ v.class?) (hu : (classify [u] []).isOk)
    (hv : (classify [v] []).isOk) (vs : List Value) :
  warnings (u :: v :: vs) = warnings (v :: u :: vs)
  := by
  rw [classify_singleton] at hu hv
  obtain ⟨c, hc⟩ := Reading.exists_of_isOk hu
  obtain ⟨d, hd⟩ := Reading.exists_of_isOk hv
  simp only [warnings, hc, hd]
  by_cases hbag : u.role = .bag true
  · have hother : v.role ≠ .bag true := by
      intro h
      exact hclass (by rw [Value.class?, Value.class?, hbag, h])
    rw [if_neg hother, List.nil_append, List.nil_append]
  · rw [if_neg hbag, List.nil_append, List.nil_append]

/-- An argument that does not fail counts for nothing in front of another one of its class, or
where arguments are given by name if it is a bag. -/
theorem alike_later {v : Value} {vs : List Value} (hv : (classify [v] []).isOk)
    (hlater : v.class? ∈ vs.map Value.class? ∨ v.class? = some .attributes ∧ named ≠ []) :
  Alike named (v :: vs) vs
  where
  classified := by
    rw [classify_singleton] at hv
    obtain ⟨c, hone⟩ := Reading.exists_of_isOk hv
    rw [classify_cons, hone]
    cases hrest : classify vs named with
    | error e => rfl
    | ok d =>
        apply congrArg Except.ok
        cases hclass : v.class? with
        | none =>
            rcases add_cases hone with ⟨-, rfl⟩ | ⟨h, -⟩ | ⟨h, -⟩ | ⟨h, -⟩
            · exact upon_empty d
            all_goals cases hclass.symm.trans h
        | some k =>
            rw [hclass] at hlater
            refine upon_of_sets hone hclass ((sets_classify hrest k).mpr ?_)
            exact hlater.imp_right (And.imp_left Option.some.inj)
  fragment := by
    rw [lastFragment?_cons]
    by_cases h : v.class? = some .fragment
    · rw [h] at hlater
      obtain ⟨found, hfound⟩ := exists_lastFragment (hlater.resolve_right (by simp))
      rw [hfound, Option.some_or]
    · rw [Value.fragment?_eq_none h, Option.or_none]

/-- What is set of the class of an argument is what the argument gives, even an empty text or no
fields at all. -/
def Gives (c : Arguments) (v : Value) : Prop :=
  match v.class? with
  | none => True
  | some .content => v.markup.map some = .ok c.content
  | some .attributes => v.fields.map some = .ok c.attributes
  | some .fragment => c.fragment = v.fragment?.map Prod.snd

/-- Of each class the last argument counts. -/
theorem gives_last {xs ys : List Value} {v : Value} {c : Arguments}
    (h : classify (xs ++ v :: ys) named = .ok c)
    (hlast : v.class? ∉ ys.map Value.class? ∧ (v.class? = some .attributes → named = [])) :
  Gives c v
  := by
  rw [classify_append] at h
  obtain ⟨before, hbefore, h⟩ := Reading.bind_ok h
  obtain ⟨rest, hrest, rfl⟩ := Reading.map_ok h
  obtain ⟨one, others, hone, hothers, rfl⟩ := classify_cons_ok hrest
  have hunset (k : Class) (hk : v.class? = some k) : others.sets k = false := by
    rw [← Bool.not_eq_true, sets_classify hothers, not_or]
    exact ⟨hk ▸ hlast.1, fun h => h.2 (hlast.2 (hk.trans (congrArg some h.1)))⟩
  obtain ⟨content, attributes, fragment⟩ := others
  rcases add_cases hone with ⟨hv, rfl⟩ | ⟨hv, s, hs, rfl⟩ | ⟨hv, fs, hfs, rfl⟩ | ⟨hv, t, ht, rfl⟩
  · simp [Gives, hv]
  · have hnone : content = none := by simpa [sets] using hunset .content hv
    simp [Gives, hv, hs, upon, hnone, Except.map]
  · have hnone : attributes = none := by simpa [sets] using hunset .attributes hv
    simp [Gives, hv, hfs, upon, hnone, Except.map]
  · have hnone : fragment = none := by simpa [sets] using hunset .fragment hv
    simp [Gives, hv, ht, upon, hnone]

end Alike

/-- The arguments of a call are merged from those of any two parts of them: each class is set as in
the second part if it is set there, and as in the first one otherwise; it fails where the first part
that fails does; the warnings follow one another; and the fragment that the call runs is the last
one.  So what is passed over can be left out, neighbours of different classes can be swapped, and an
argument before another one of its class can be left out, where they do not fail; and what is set of
a class is what its last argument gives. -/
theorem classes_merged (xs ys : List Value) (named : List (String × Value)) :
  classify (xs ++ ys) named
      = (classify xs []).bind (fun c => (classify ys named).map fun d => d.upon c)
    ∧ warnings (xs ++ ys) = warnings xs ++ (if (classify xs []).isOk then warnings ys else [])
    ∧ lastFragment? (xs ++ ys) = (lastFragment? ys).or (lastFragment? xs)
    ∧ (∀ c, classify (xs ++ ys) named = .ok c →
        c.fragment = (lastFragment? (xs ++ ys)).map Prod.snd)
    ∧ (∀ v takesBuilder, lastFragment? (xs ++ ys) = some (v, takesBuilder) →
        ∀ r, Run.runLast r takesBuilder (xs ++ ys) = Run.invoke r takesBuilder v)
    ∧ (Alike named (xs ++ .none :: ys) (xs ++ ys)
      ∧ warnings (xs ++ .none :: ys) = warnings (xs ++ ys))
    ∧ (∀ u v, u.class? ≠ v.class? → (classify [u] []).isOk → (classify [v] []).isOk →
        Alike named (xs ++ u :: v :: ys) (xs ++ v :: u :: ys)
          ∧ warnings (xs ++ u :: v :: ys) = warnings (xs ++ v :: u :: ys))
    ∧ (∀ v, (classify [v] []).isOk →
        v.class? ∈ ys.map Value.class? ∨ (v.class? = some .attributes ∧ named ≠ []) →
          Alike named (xs ++ v :: ys) (xs ++ ys))
    ∧ (∀ v c, classify (xs ++ v :: ys) named = .ok c →
        v.class? ∉ ys.map Value.class? → (v.class? = some .attributes → named = []) → Gives c v)
  := by
  have hwarnings {vs ws : List Value} (h : warnings vs = warnings ws) :
      warnings (xs ++ vs) = warnings (xs ++ ws) := by
    rw [warnings_append, warnings_append, h]
  refine ⟨classify_append xs ys named, warnings_append xs ys, lastFragment?_append xs ys,
    fun c h => fragment_classify h, fun v t h r => Run.runLast_eq h r t,
    ⟨(alike_none ys).append xs, hwarnings rfl⟩, ?_, ?_, ?_⟩
  · intro u v hclass hu hv
    exact ⟨(alike_swap hclass hu hv ys).append xs, hwarnings (warnings_swap hclass hu hv ys)⟩
  · intro v hv hlater
    exact (alike_later hv hlater).append xs
  · intro v c h hlast hnamed
    exact gives_last h ⟨hlast, hnamed⟩

/-- An empty text and a bag without fields are set, and stand in the place of what was set before,
though a bag by name comes last; a fragment in front stays, and so does the warning about a function
of two parameters. -/
theorem classes_merged_of_empty :
  let take : Value := .function [.required] []
  let wide : Value := .function [.required, .required] []
  let xs : List Value := [.str "x", take, wide]
  let ys : List Value := [.str "", .bare]
  classify (xs ++ ys) [] = .ok ⟨some "", some [], some true⟩
    ∧ warnings (xs ++ ys) = ["f"]
    ∧ lastFragment? (xs ++ ys) = some (take, true)
    ∧ Alike [] (.str "x" :: ys) ys
  := by
  intro take wide xs ys
  obtain ⟨hclassified, hwarnings, hfragment, -, -, -, -, -, -⟩ := classes_merged xs ys []
  obtain ⟨-, -, -, -, -, -, -, hlater, -⟩ := classes_merged [] ys []
  refine ⟨hclassified.trans rfl, hwarnings.trans rfl, hfragment.trans rfl, ?_⟩
  exact hlater (.str "x") rfl (.inl (List.mem_cons.mpr (.inl rfl)))

end Arguments

end XmlDraft
