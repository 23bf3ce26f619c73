import XmlDraft.Building.Builder
import XmlDraft.Proofs.Found
import XmlDraft.Proofs.Soundness

/-!
# Where attributes land

A bag of attributes can hold a name several times, with values and without.  On the element each
name stands where it stood first with a value, and its value is the last one, as in a map; the last
value under `xmlns` is the namespace instead, and an empty one is none.  Main statement: this is
what becomes of a bag whose names pass the checks and whose values have texts, so that it does not
matter where in the bag the namespace is declared.
-/

namespace XmlDraft

/-! ### Setting attributes -/

namespace Attributes

theorem get?_cons (a : String × String) (others : Attributes) (name : String) :
  get? (a :: others) name = if name = a.1 then some a.2 else others.get? name
  := by
  rw [get?, List.lookup_cons]
  by_cases h : name = a.1
  · simp [h]
  · simp [h, beq_eq_false_iff_ne.mpr h, get?]

/-- An attribute that is set has its value, and the others keep theirs. -/
theorem get?_set (attributes : Attributes) (name value other : String) :
  (attributes.set name value).get? other
    = if other = name then some value else attributes.get? other
  := by
  induction attributes with
  | nil => exact get?_cons (name, value) [] other
  | cons a others ih =>
      obtain ⟨n, v⟩ := a
      rw [set]
      by_cases hn : n = name
      · rw [if_pos hn, get?_cons, get?_cons, hn]
        split_ifs <;> rfl
      · rw [if_neg hn, get?_cons, get?_cons, ih]
        split_ifs with hown hother
        · exact absurd (hown.symm.trans hother) hn
        · rfl
        · rfl
        · rfl

end Attributes

/-- Names without those of a list and without one more. -/
theorem removeAll_append_singleton (names others : List String) (name : String) :
  names.removeAll (others ++ [name]) = (names.removeAll others).filter fun n => !(n == name)
  := by
  unfold List.removeAll
  rw [List.filter_filter]
  apply List.filter_congr
  intro n _
  by_cases hname : n = name
  · simp [hname]
  · simp [hname, beq_eq_false_iff_ne.mpr hname]

/-! ### Bags -/

namespace Value

/-- Whether a field of a bag has a value. -/
def hasValue (f : FieldName × Value) : Bool :=
  match f.2 with
  | none => false
  | _ => true

/-- The last value under a name in a bag, if the name has one. -/
def lastValue? (fs : List (FieldName × Value)) (name : String) : Option Value :=
  (fs.filter fun f => hasValue f && f.1 = .text name).getLast?.map Prod.snd

/-- The names in a bag that have values and declare no namespace, as often as they have. -/
def namesSet (fs : List (FieldName × Value)) : List String :=
  (fs.filter hasValue).filterMap fun f => f.1.text?.filter fun n => !declaresSpace n

theorem hasValue_iff (f : FieldName × Value) :
  hasValue f ↔ f.2 ≠ none
  := by
  unfold hasValue
  split <;> simp_all

theorem lastValue?_cons (f : FieldName × Value) (fs : List (FieldName × Value)) (name : String) :
  lastValue? (f :: fs) name
    = (lastValue? fs name).or (if hasValue f && f.1 = .text name then some f.2 else Option.none)
  := by
  unfold lastValue?
  rw [List.filter_cons]
  split_ifs with h
  · rw [List.getLast?_cons, ← Option.or_some, Option.map_or]
    rfl
  · rw [Option.or_none]

theorem namesSet_cons (f : FieldName × Value) (fs : List (FieldName × Value)) :
  namesSet (f :: fs)
    = (if hasValue f then (f.1.text?.filter fun n => !declaresSpace n).toList else []) ++ namesSet fs
  := by
  unfold namesSet
  rw [List.filter_cons]
  split_ifs with h
  · rw [List.filterMap_cons]
    cases f.1.text?.filter fun n => !declaresSpace n <;> rfl
  · rfl

end Value

namespace Prepared

open Value (hasValue lastValue? namesSet)

/-- A field with the text of its value, if it has one. -/
def ofField (f : FieldName × Value) : FieldName × Option String :=
  (f.1, if hasValue f then f.2.markup.toOption else none)

/-- A bag is prepared field by field where its values have texts. -/
theorem ofFields_ok {checked : Bool} {fs : List (FieldName × Value)} {ps : Prepared}
    (h : ofFields checked fs = .ok ps) :
  ps = fs.map ofField ∧ (∀ f ∈ fs, hasValue f → f.2.markup.isOk)
    ∧ (checked → ∀ f ∈ fs, f.1.text?.any Name.isName)
  := by
  induction fs generalizing ps with
  | nil =>
      cases h
      simp
  | cons f fs ih =>
      obtain ⟨p, hp, h⟩ := Reading.bind_ok h
      obtain ⟨others, hothers, h⟩ := Reading.bind_ok h
      cases h
      obtain ⟨rfl, htexts, hnames⟩ := ih hothers
      obtain ⟨hname, hvalue⟩ := one_ok hp
      refine ⟨?_, List.forall_mem_cons.mpr ⟨fun hf => ?_, htexts⟩,
        fun hc => List.forall_mem_cons.mpr ⟨hname hc, hnames hc⟩⟩
      · obtain ⟨hnone, rfl⟩ | ⟨hsome, s, hs, rfl⟩ := hvalue
        · simp [ofField, hasValue, hnone]
        · simp [ofField, (Value.hasValue_iff f).mpr hsome, hs, Except.toOption]
      · obtain ⟨hnone, -⟩ | ⟨-, s, hs, -⟩ := hvalue
        · exact absurd hnone ((Value.hasValue_iff f).mp hf)
        · rw [hs]
          rfl

theorem one_isOk {checked : Bool} {name : String} {v : Value}
    (hname : checked → Name.isName name) (htext : v.markup.isOk) :
  (one checked (.text name) v).isOk
  := by
  obtain ⟨s, hs⟩ := Reading.exists_of_isOk htext
  have hunchecked : (one false (.text name) v).isOk := by
    simp only [one, Bool.false_eq_true, ite_false]
    split
    · rfl
    · rw [hs]
      rfl
  cases checked with
  | false => exact hunchecked
  | true =>
      have hcheck : Name.check name "attributes" = .ok name := if_pos (hname rfl)
      have hown : checkName (.text name) = .ok () := by
        rw [checkName, hcheck]
        rfl
      simp only [one, hown, ite_true]
      exact hunchecked

/-- A bag whose names pass the checks and whose values have texts is prepared. -/
theorem ofFields_eq {checked : Bool} {fs : List (String × Value)}
    (hnames : checked → ∀ f ∈ fs, Name.isName f.1) (htexts : ∀ f ∈ fs, f.2.markup.isOk) :
  ofFields checked (FieldName.ofTexts fs) = .ok ((FieldName.ofTexts fs).map ofField)
  := by
  have hok : (ofFields checked (FieldName.ofTexts fs)).isOk := by
    induction fs with
    | nil => rfl
    | cons f fs ih =>
        rw [List.forall_mem_cons] at htexts
        obtain ⟨ps, hrest⟩ := Reading.exists_of_isOk
          (ih (fun hc f hf => hnames hc f (List.mem_cons_of_mem _ hf)) htexts.2)
        obtain ⟨p, hp⟩ := Reading.exists_of_isOk
          (one_isOk (fun hc => hnames hc f List.mem_cons_self) htexts.1)
        simp only [FieldName.ofTexts, List.map_cons, ofFields, hp, bind, Except.bind] at hrest ⊢
        rw [hrest]
        rfl
  obtain ⟨ps, hps⟩ := Reading.exists_of_isOk hok
  rw [hps, (ofFields_ok hps).1]

/-! ### Copying -/

/-- What was copied is gone on from. -/
theorem copy_append {ps : Prepared} {name : QName} {attributes : Attributes} {e : QName × Attributes}
    (h : ps.copy name attributes = (e, .ok ())) (others : Prepared) :
  copy (ps ++ others) name attributes = others.copy e.1 e.2
  := by
  induction ps generalizing name attributes with
  | nil =>
      cases h
      rfl
  | cons p ps ih =>
      rw [List.cons_append, copy]
      rw [copy] at h
      split at h
      · exact ih h
      · cases h

/-- An element after one attribute, which it passes over if it cannot be set. -/
def applied (e : QName × Attributes) (p : FieldName × Option String) : QName × Attributes :=
  (applyOne e p).toOption.getD e

/-- Where all names with values are texts every attribute can be set. -/
theorem copy_eq {ps : Prepared} (h : ∀ p ∈ ps, p.2.isSome → p.1.text?.isSome)
    (e : QName × Attributes) :
  ps.copy e.1 e.2 = (ps.foldl applied e, .ok ())
  := by
  induction ps generalizing e with
  | nil => rfl
  | cons p ps ih =>
      rw [List.forall_mem_cons] at h
      have hp : applyOne e p = .ok (applied e p) := by
        obtain ⟨field, value⟩ := p
        cases value with
        | none => rfl
        | some value =>
            obtain ⟨n, hn⟩ := Option.isSome_iff_exists.mp (h.1 rfl)
            simp only [applied, applyOne, hn, Attributes.assign]
            split_ifs <;> rfl
      simp only [copy, hp, List.foldl_cons]
      exact ih h.2 _

/-- An attribute with a value whose name is no text ends the copying. -/
theorem copy_error {p : FieldName × Option String} (hvalue : p.2.isSome) (hname : p.1.text? = none)
    (others : Prepared) (e : QName × Attributes) :
  copy (p :: others) e.1 e.2 = (e, .error .attributeNotText)
  := by
  obtain ⟨field, value⟩ := p
  obtain ⟨value, rfl⟩ := Option.isSome_iff_exists.mp hvalue
  dsimp only at hname
  simp [copy, applyOne, hname, Attributes.assign, Except.map]

/-! ### What is copied -/

/-- What one field of a bag does to an element: nothing without a value or if its name is no text,
and otherwise it sets the namespace or an attribute. -/
theorem applied_cases {f : FieldName × Value} (h : hasValue f → f.2.markup.isOk)
    (e : QName × Attributes) :
  ((hasValue f = false ∨ f.1.text? = none) ∧ applied e (ofField f) = e)
    ∨ (hasValue f ∧ ∃ name s, f.1 = .text name ∧ f.2.markup = .ok s
      ∧ ((declaresSpace name ∧ applied e (ofField f) = (e.1.inSpace (some s), e.2))
        ∨ (declaresSpace name = false ∧ applied e (ofField f) = (e.1, e.2.set name s))))
  := by
  obtain ⟨field, v⟩ := f
  cases hvalue : hasValue (field, v) with
  | false => exact .inl ⟨.inl rfl, by simp [applied, applyOne, ofField, hvalue, Except.toOption]⟩
  | true =>
      obtain ⟨s, hs⟩ := Reading.exists_of_isOk (h hvalue)
      dsimp only at hs
      have hfield : ofField (field, v) = (field, some s) := by
        simp [ofField, hvalue, hs, Except.toOption]
      rw [hfield]
      cases field with
      | other isPrivate => exact .inl ⟨.inr rfl, rfl⟩
      | text name =>
          refine .inr ⟨rfl, name, s, rfl, hs, ?_⟩
          cases hspace : declaresSpace name with
          | true =>
              exact .inl ⟨rfl, by simp [applied, applyOne, FieldName.text?, hspace, Except.toOption]⟩
          | false =>
              refine .inr ⟨rfl, ?_⟩
              simp [applied, applyOne, FieldName.text?, hspace, Attributes.assign, Except.map,
                Except.toOption]

section Run

variable {fs : List (FieldName × Value)} (htexts : ∀ f ∈ fs, hasValue f → f.2.markup.isOk)
    (e : QName × Attributes)

include htexts

/-- The names on an element after a bag: those that were there, and behind them each further one
where it is set first. -/
theorem map_fst_applied :
  ((fs.map ofField).foldl applied e).2.map Prod.fst
    = e.2.map Prod.fst ++ ((namesSet fs).removeAll (e.2.map Prod.fst)).eraseDups
  := by
  induction fs generalizing e with
  | nil => exact (List.append_nil _).symm
  | cons f fs ih =>
      rw [List.forall_mem_cons] at htexts
      rw [List.map_cons, List.foldl_cons, ih htexts.2, Value.namesSet_cons]
      rcases applied_cases htexts.1 e with
        ⟨hvalue, h⟩ | ⟨hvalue, name, s, hname, -, ⟨hspace, h⟩ | ⟨hspace, h⟩⟩
      · rcases hvalue with hvalue | hname
        · simp [h, hvalue]
        · simp [h, hname]
      · have hset : f.1.text?.filter (fun n => !declaresSpace n) = none := by
          simp [hname, FieldName.text?, hspace]
        simp [h, hset]
      · have hset : f.1.text?.filter (fun n => !declaresSpace n) = some name := by
          simp [hname, FieldName.text?, hspace]
        rw [h, if_pos hvalue, hset, Option.toList_some, List.singleton_append,
          Attributes.map_fst_set]
        by_cases hmem : name ∈ e.2.map Prod.fst
        · rw [if_pos hmem, List.cons_removeAll, if_neg (by simpa using hmem)]
        · rw [if_neg hmem, List.cons_removeAll, if_pos (by simpa using hmem), List.eraseDups_cons,
            List.append_assoc, removeAll_append_singleton]
          rfl

/-- The attributes on an element after a bag: each name that was set last has the last value, and
the others keep theirs. -/
theorem get?_applied {name : String} (hname : name ≠ "xmlns") :
  (((fs.map ofField).foldl applied e).2.get? name).map Except.ok
    = ((lastValue? fs name).map Value.markup).or ((e.2.get? name).map Except.ok)
  := by
  induction fs generalizing e with
  | nil => rfl
  | cons f fs ih =>
      rw [List.forall_mem_cons] at htexts
      rw [List.map_cons, List.foldl_cons, ih htexts.2, Value.lastValue?_cons, Option.map_or,
        Option.or_assoc]
      congr 1
      rcases applied_cases htexts.1 e with
        ⟨hvalue, h⟩ | ⟨hvalue, other, s, hfield, hs, ⟨hspace, h⟩ | ⟨hspace, h⟩⟩
      · have hother : (hasValue f && f.1 = .text name) = false := by
          rcases hvalue with hvalue | hfield
          · simp [hvalue]
          · have hne : f.1 ≠ .text name := fun heq => by simp [heq, FieldName.text?] at hfield
            simp [hne]
        simp [h, hother]
      · have hother : f.1 ≠ .text name := by
          rintro heq
          obtain rfl : other = name := FieldName.text.inj (hfield.symm.trans heq)
          exact hname (of_decide_eq_true hspace)
        simp [h, hother]
      · rw [h, Attributes.get?_set]
        by_cases hown : name = other
        · simp [hown, hfield, hvalue, hs]
        · simp [hown, hfield, Ne.symm hown]

/-- The name of an element after a bag: it is in the last namespace that is set, if one is. -/
theorem fst_applied :
  ∃ uri : Option String, uri.map Except.ok = (lastValue? fs "xmlns").map Value.markup
    ∧ ((fs.map ofField).foldl applied e).1 = if uri.isSome then e.1.inSpace uri else e.1
  := by
  induction fs generalizing e with
  | nil => exact ⟨none, rfl, rfl⟩
  | cons f fs ih =>
      rw [List.forall_mem_cons] at htexts
      obtain ⟨uri, huri, hlater⟩ := ih htexts.2 (applied e (ofField f))
      rw [List.map_cons, List.foldl_cons, hlater, Value.lastValue?_cons, Option.map_or, ← huri]
      rcases applied_cases htexts.1 e with
        ⟨hvalue, h⟩ | ⟨hvalue, name, s, hfield, hs, ⟨hspace, h⟩ | ⟨hspace, h⟩⟩
      · have hother : (hasValue f && f.1 = .text "xmlns") = false := by
          rcases hvalue with hvalue | hfield
          · simp [hvalue]
          · have hne : f.1 ≠ .text "xmlns" := fun heq => by simp [heq, FieldName.text?] at hfield
            simp [hne]
        exact ⟨uri, by simp [hother], by rw [h]⟩
      · obtain rfl : name = "xmlns" := of_decide_eq_true hspace
        refine ⟨uri.or (some s), by cases uri <;> simp [hvalue, hfield, hs], ?_⟩
        rw [h]
        cases uri <;> rfl
      · have hname : name ≠ "xmlns" := of_decide_eq_false hspace
        exact ⟨uri, by simp [hfield, hname], by rw [h]⟩

end Run

/-! ### Moving the namespace -/

/-- One entry changes the name only when it declares a namespace, and then without a look at the
attributes. -/
theorem applied_fst (p : FieldName × Option String) (name : QName) (attributes others : Attributes) :
  (applied (name, attributes) p).1
    = if p.1.text?.any declaresSpace then (applied (name, others) p).1 else name
  := by
  obtain ⟨field, value⟩ := p
  cases value with
  | none => simp [applied, applyOne, Except.toOption]
  | some value =>
      cases field with
      | other isPrivate => rfl
      | text n => cases h : declaresSpace n <;>
          simp [applied, applyOne, FieldName.text?, h, Attributes.assign, Except.map, Except.toOption]

/-- One entry changes the attributes only when it declares no namespace, and then without a look
at the name. -/
theorem applied_snd (p : FieldName × Option String) (name other : QName) (attributes : Attributes) :
  (applied (name, attributes) p).2
    = if p.1.text?.any declaresSpace then attributes else (applied (other, attributes) p).2
  := by
  obtain ⟨field, value⟩ := p
  cases value with
  | none => simp [applied, applyOne, Except.toOption]
  | some value =>
      cases field with
      | other isPrivate => rfl
      | text n => cases h : declaresSpace n <;>
          simp [applied, applyOne, FieldName.text?, h, Attributes.assign, Except.map, Except.toOption]

/-- The name that a bag leaves on an element is the one that its namespaces alone leave. -/
theorem foldl_applied_fst (ps : Prepared) (name : QName) (attributes others : Attributes) :
  (ps.foldl applied (name, attributes)).1
    = ((ps.filter fun p => p.1.text?.any declaresSpace).foldl applied (name, others)).1
  := by
  induction ps generalizing name attributes others with
  | nil => rfl
  | cons p ps ih =>
      rw [List.foldl_cons, ih (applied (name, attributes) p).1 _ (applied (name, others) p).2,
        applied_fst p name attributes others, List.filter_cons]
      split_ifs with hspace
      · rfl
      · exact (ih _ others _).symm.trans (ih _ _ _)

/-- The attributes that a bag leaves on an element are those that it leaves without its
namespaces. -/
theorem foldl_applied_snd (ps : Prepared) (name other : QName) (attributes : Attributes) :
  (ps.foldl applied (name, attributes)).2
    = ((ps.filter fun p => !p.1.text?.any declaresSpace).foldl applied (other, attributes)).2
  := by
  induction ps generalizing name other attributes with
  | nil => rfl
  | cons p ps ih =>
      rw [List.foldl_cons, ih (applied (name, attributes) p).1 (applied (other, attributes) p).1,
        applied_snd p name other attributes, List.filter_cons]
      cases hspace : p.1.text?.any declaresSpace with
      | true => exact (ih other _ _).symm.trans (ih _ _ _)
      | false => rfl

end Prepared

/-- Two bags that have the same declarations of namespaces in the same order, and the same other
fields in the same order: one is the other with its declarations moved. -/
structure SpacesMoved (fs fs' : List (String × Value)) : Prop where
  /-- The declarations of namespaces are the same. -/
  spaces : (fs'.filter fun f => declaresSpace f.1) = fs.filter fun f => declaresSpace f.1
  /-- The other fields are the same. -/
  others : (fs'.filter fun f => !declaresSpace f.1) = fs.filter fun f => !declaresSpace f.1

namespace SpacesMoved

open Prepared (ofField applied)

variable {fs fs' : List (String × Value)} (h : SpacesMoved fs fs')

include h

theorem mem {f : String × Value} (hf : f ∈ fs') :
  f ∈ fs
  := by
  cases hspace : declaresSpace f.1 with
  | true =>
      have hmem : f ∈ fs'.filter fun f => declaresSpace f.1 := List.mem_filter.mpr ⟨hf, hspace⟩
      exact (List.mem_filter.mp (h.spaces ▸ hmem)).1
  | false =>
      have hmem : f ∈ fs'.filter fun f => !declaresSpace f.1 :=
        List.mem_filter.mpr ⟨hf, by rw [hspace]; rfl⟩
      exact (List.mem_filter.mp (h.others ▸ hmem)).1

/-- A bag whose declarations are moved leaves the same name and attributes on an element. -/
theorem foldl_eq (name : QName) (attributes : Attributes) :
  ((FieldName.ofTexts fs').map ofField).foldl applied (name, attributes)
    = ((FieldName.ofTexts fs).map ofField).foldl applied (name, attributes)
  := by
  have hfilter (keep : String → Bool) (fs : List (String × Value)) :
      (((FieldName.ofTexts fs).map ofField).filter fun p => p.1.text?.any keep)
        = (FieldName.ofTexts (fs.filter fun f => keep f.1)).map ofField := by
    simp only [FieldName.ofTexts, List.map_map, List.filter_map]
    rfl
  have hothers (fs : List (String × Value)) :
      (((FieldName.ofTexts fs).map ofField).filter fun p => !p.1.text?.any declaresSpace)
        = (FieldName.ofTexts (fs.filter fun f => !declaresSpace f.1)).map ofField := by
    simp only [FieldName.ofTexts, List.map_map, List.filter_map]
    rfl
  apply Prod.ext
  · rw [Prepared.foldl_applied_fst _ name attributes [],
      Prepared.foldl_applied_fst ((FieldName.ofTexts fs).map ofField) name attributes [],
      hfilter, hfilter, h.spaces]
  · rw [Prepared.foldl_applied_snd _ name name attributes,
      Prepared.foldl_applied_snd ((FieldName.ofTexts fs).map ofField) name name attributes,
      hothers, hothers, h.others]

end SpacesMoved

/-! ### Landing -/

/-- What a bag makes of a new element of a name. -/
structure Lands (fs : List (FieldName × Value)) (q : QName) (e : QName × Attributes) : Prop where
  /-- The local part is that of the name. -/
  localPart : e.1.localPart = q.localPart
  /-- It is printed as it was. -/
  member : e.1.member = q.member
  /-- The namespace is the last one that is set, if it is not empty. -/
  space : ∃ uri : Option String,
    uri.map Except.ok = (Value.lastValue? fs "xmlns").map Value.markup ∧ e.1.space = nonempty? uri
  /-- The attributes are the other names that are set, each where it is first. -/
  names : e.2.map Prod.fst = (Value.namesSet fs).eraseDups
  /-- The value of an attribute is the text of the last one under its name. -/
  values : ∀ name ≠ "xmlns",
    (e.2.get? name).map Except.ok = (Value.lastValue? fs name).map Value.markup

theorem Prepared.lands_applied {fs : List (FieldName × Value)} {q : QName}
    (htexts : ∀ f ∈ fs, Value.hasValue f → f.2.markup.isOk) (hq : q.space = none) :
  Lands fs q ((fs.map ofField).foldl applied (q, []))
  := by
  obtain ⟨uri, huri, hfst⟩ := fst_applied htexts (q, [])
  refine ⟨?_, ?_, ⟨uri, huri, ?_⟩, ?_, fun name hname => ?_⟩
  · rw [hfst]
    split_ifs <;> rfl
  · rw [hfst]
    split_ifs <;> rfl
  · rw [hfst]
    cases uri with
    | none => exact hq
    | some uri => rfl
  · have hall : (Value.namesSet fs).removeAll [] = Value.namesSet fs :=
      List.filter_eq_self.mpr fun _ _ => rfl
    exact (map_fst_applied htexts (q, [])).trans (congrArg List.eraseDups hall)
  · simpa [Attributes.get?] using get?_applied htexts (q, []) hname

/-- Of a bag whose names are texts every field can be set. -/
theorem Prepared.copy_ofTexts (fs : List (String × Value)) (q : QName) :
  copy ((FieldName.ofTexts fs).map ofField) q []
    = (((FieldName.ofTexts fs).map ofField).foldl applied (q, []), .ok ())
  := by
  apply copy_eq (e := (q, []))
  intro p hp _
  obtain ⟨f, hf, rfl⟩ := List.mem_map.mp hp
  obtain ⟨g, -, rfl⟩ := List.mem_map.mp hf
  rfl

/-- A bag whose names pass the checks and whose values have texts lands on a new element as a map
that keeps the last value of each name, its namespaces apart: the element, and what is written of
it, stays the same when they are moved. -/
theorem Builder.newElement_lands {checked : Bool} {fs : List (String × Value)} {q : QName}
    (hq : q.space = none) (hnames : checked → ∀ f ∈ fs, Name.isName f.1)
    (htexts : ∀ f ∈ fs, f.2.markup.isOk) :
  ∃ ps, Prepared.ofFields checked (FieldName.ofTexts fs) = .ok ps
    ∧ (ps.copy q []).2 = .ok ()
    ∧ Lands (FieldName.ofTexts fs) q (ps.apply q [])
    ∧ ∀ fs', SpacesMoved fs fs' →
      ∃ ps', Prepared.ofFields checked (FieldName.ofTexts fs') = .ok ps'
        ∧ ∀ content, newElement q content ps' = newElement q content ps
          ∧ ∀ layout mixed started level scope,
            Writing.nodeText layout mixed started level scope (newElement q content ps')
              = Writing.nodeText layout mixed started level scope (newElement q content ps)
  := by
  have hfields : ∀ f ∈ FieldName.ofTexts fs, Value.hasValue f → f.2.markup.isOk := by
    intro f hf _
    obtain ⟨g, hg, rfl⟩ := List.mem_map.mp hf
    exact htexts g hg
  refine ⟨_, Prepared.ofFields_eq hnames htexts, by rw [Prepared.copy_ofTexts], ?_, ?_⟩
  · rw [Prepared.apply, Prepared.copy_ofTexts]
    exact Prepared.lands_applied hfields hq
  · intro fs' hmoved
    refine ⟨_, Prepared.ofFields_eq (fun hc f hf => hnames hc f (hmoved.mem hf))
      fun f hf => htexts f (hmoved.mem hf), fun content => ?_⟩
    have hsame : newElement q content ((FieldName.ofTexts fs').map Prepared.ofField)
        = newElement q content ((FieldName.ofTexts fs).map Prepared.ofField) := by
      simp only [newElement, Prepared.apply, Prepared.copy_ofTexts, hmoved.foldl_eq]
    exact ⟨hsame, fun _ _ _ _ _ => by rw [hsame]⟩

/-- A field without a value in front of the first one of its name, another one behind the last, and
two namespaces of which one is empty, whether they are in between or in front. -/
theorem Builder.newElement_lands_of_repeated :
  let fs (first last : String) : List (String × Value) := [("a", .none), ("xmlns", .str first),
    ("b", .str "1"), ("a", .str "x"), ("b", .bool true), ("b", .none), ("xmlns", .str last),
    ("xmlns", .none)]
  let fs' (first last : String) : List (String × Value) := [("xmlns", .str first),
    ("xmlns", .str last), ("xmlns", .none), ("a", .none), ("b", .str "1"), ("a", .str "x"),
    ("b", .bool true), ("b", .none)]
  let q : QName := ⟨"t", none, by decide, none⟩
  ∀ uris ∈ [("u", "", none), ("", "v", some "v"), ("u", "v", some "v")], ∃ ps ps',
    Prepared.ofFields true (FieldName.ofTexts (fs uris.1 uris.2.1)) = .ok ps
    ∧ Prepared.ofFields true (FieldName.ofTexts (fs' uris.1 uris.2.1)) = .ok ps'
    ∧ (ps.apply q []).1.space = uris.2.2
    ∧ (ps.apply q []).2.map Prod.fst = ["b", "a"]
    ∧ ((ps.apply q []).2.get? "b").map Except.ok = some (Value.markup (.bool true))
    ∧ newElement q none ps' = newElement q none ps
  := by
  intro fs fs' q ⟨first, last, space⟩ huris
  have hq : q.space = none := rfl
  have hnames : ∀ f ∈ fs first last, Name.isName f.1 := by
    simp only [fs, List.forall_mem_cons]
    decide
  have htexts : ∀ f ∈ fs first last, f.2.markup.isOk := by
    simp only [fs, List.forall_mem_cons]
    exact ⟨by decide, rfl, by decide, by decide, by decide, by decide, rfl, by decide, nofun⟩
  obtain ⟨ps, hps, -, hlands, hmoved⟩ :=
    newElement_lands hq (fun _ : true = true => hnames) htexts
  obtain ⟨ps', hps', hsame⟩ := hmoved (fs' first last) ⟨rfl, rfl⟩
  obtain ⟨uri, huri, hspace⟩ := hlands.space
  have hlast : uri = some last := Option.map_injective (fun _ _ h => Except.ok.inj h) huri
  refine ⟨ps, ps', hps, hps', ?_, hlands.names.trans rfl,
    hlands.values "b" (by decide), (hsame none).1⟩
  rw [hspace, hlast]
  revert huris
  simp only [List.mem_cons, List.not_mem_nil, or_false]
  rintro (h | h | h) <;> cases h <;> decide

end XmlDraft
