import XmlDraft.Proofs.Scanning
import XmlDraft.Reading.Space

/-!
# Tags that were written

The value of an attribute is the text that was escaped, whatever characters are in it.  In a
document that declares no attributes a tag says what it was written with, name by name.  Main
statement: the tag of an element is resolved to its attributes in their order.
-/

namespace XmlDraft

namespace Reading

/-! ### Types -/

namespace Declarations

/-- Whether an attribute of an element is of the plain type, as it is where nothing is declared. -/
def isPlainAt (d : Declarations) (element name : List Char) : Bool :=
  (d.attributes.find? fun b => b.element = element && b.name = name).all (·.isPlain)

end Declarations

/-- A value that its type leaves as it is: any text if it is of the plain type, and otherwise one
without a blank at its start, at its end, or behind another one. -/
def IsTyped (isPlain : Bool) (cs : List Char) : Prop :=
  isPlain = true ∨ (cs.head? ≠ some ' ' ∧ cs.getLast? ≠ some ' ' ∧ ¬ [' ', ' '] <:+: cs)

/-- A value so far that its type leaves as it is, perhaps with a blank at its end. -/
def IsSpaced (isPlain : Bool) (cs : List Char) : Prop :=
  isPlain = true ∨ (cs.head? ≠ some ' ' ∧ ¬ [' ', ' '] <:+: cs)

theorem IsTyped.isSpaced {isPlain : Bool} {cs : List Char} (h : IsTyped isPlain cs) :
  IsSpaced isPlain cs
  := h.imp_right fun h => ⟨h.1, h.2.2⟩

/-! ### Values -/

namespace Gathered

theorem value_plain (g : Gathered) :
  g.value true = g.reversed.reverse
  := by
  unfold value
  split
  · rename_i heq
    rw [heq]
    rfl
  · rfl

variable {g : Gathered} {isPlain : Bool}

/-- A blank counts where it stands in a value of its type. -/
theorem addBlank_eq {cs : List Char} (h : IsSpaced isPlain (g.reversed.reverse ++ ' ' :: cs)) :
  g.addBlank isPlain = g.add ' '
  := by
  unfold addBlank
  rcases h with rfl | ⟨hhead, hpair⟩
  · rfl
  · cases hr : g.reversed with
    | nil => simp [hr] at hhead
    | cons d ds =>
        have hd : d ≠ ' ' := by
          rintro rfl
          exact hpair ⟨ds.reverse, cs, by simp [hr]⟩
        simp [hd]

/-- A value of its type is kept as it is. -/
theorem value_eq (h : IsTyped isPlain g.reversed.reverse) :
  g.value isPlain = g.reversed.reverse
  := by
  rcases h with rfl | ⟨_, hlast, _⟩
  · exact g.value_plain
  · rw [List.getLast?_reverse] at hlast
    unfold value
    split
    · rename_i rest heq
      rw [heq] at hlast
      exact absurd rfl hlast
    · rfl

end Gathered

/-- The characters of an escaped value are gathered one by one, if it is of its type together with
what was gathered before. -/
theorem gather_escapeValue {m : Medium} {isPlain : Bool}
    (replace : Replacing) (fuel : Nat) (cs : List Char) (hfuel : cs.length ≤ fuel) (g : Gathered)
    (h : IsSpaced isPlain (g.reversed.reverse ++ cs)) :
  gather m isPlain replace fuel (Writing.escapeValue cs) g
    = .ok { g with reversed := cs.reverse ++ g.reversed }
  := by
  induction cs generalizing fuel g with
  | nil => cases fuel <;> rfl
  | cons c cs ih =>
      obtain ⟨fuel, rfl⟩ := Nat.exists_eq_succ_of_ne_zero (Nat.ne_of_gt (Nat.zero_lt_of_lt hfuel))
      have hrest := ih fuel (Nat.le_of_succ_le_succ hfuel) (g.add c) (by simpa [Gathered.add] using h)
      have hadd : { g.add c with reversed := cs.reverse ++ (g.add c).reversed }
          = ({ g with reversed := (c :: cs).reverse ++ g.reversed } : Gathered) := by
        simp [Gathered.add]
      have hblank (hc : c = ' ') : g.addBlank isPlain = g.add c := by
        subst hc
        exact Gathered.addBlank_eq h
      rw [hadd] at hrest
      simp only [Writing.escapeValue, List.flatMap_cons] at hrest ⊢
      rcases valueEscape_cases c with
        ⟨heq, hamp, hless, _, htab, hfeed, hreturn⟩ | ⟨body, heq, href⟩
      · have hspace : (if isBlank c then g.addBlank isPlain else g.add c) = g.add c := by
          split_ifs with hc
          · exact hblank (by simpa [isBlank, htab, hfeed, hreturn] using hc)
          · rfl
        rw [heq, List.singleton_append, gather, hspace]
        · exact hrest
        · exact hamp
        · exact hless
        · exact hreturn
      · obtain ⟨r, hr, hstands⟩ := href.found m (cs.flatMap Writing.valueEscape)
        rw [heq, List.cons_append, gather, hr]
        rcases hstands with rfl | ⟨name, rfl, hname⟩
        · have hspace : (if c = ' ' then g.addBlank isPlain else g.add c) = g.add c := by
            split_ifs with hc
            · exact hblank hc
            · rfl
          rw [← hrest, ← hspace]
        · simp only [hname]
          exact hrest

theorem length_le_escapeValue (cs : List Char) :
  cs.length ≤ (Writing.escapeValue cs).length
  := by
  induction cs with
  | nil => exact Nat.le_refl 0
  | cons c cs ih =>
      have hc : 1 ≤ (Writing.valueEscape c).length := by
        rcases valueEscape_cases c with ⟨heq, _⟩ | ⟨body, heq, _⟩
        · rw [heq]
          exact Nat.le_refl 1
        · rw [heq]
          exact Nat.succ_le_succ (Nat.zero_le _)
      simp only [Writing.escapeValue, List.flatMap_cons, List.length_append,
        List.length_cons] at ih ⊢
      omega

/-- The value of an attribute is the text that was escaped, if it is of its type. -/
theorem attributeValue_escapeValue {m : Medium} (d : Declarations)
    (opened : List (List Char)) {isPlain : Bool} (direct : Option Nat) (spent : Nat)
    {cs : List Char} (h : IsTyped isPlain cs) :
  attributeValue m d opened isPlain direct spent (Writing.escapeValue cs) = .ok (cs, spent)
  := by
  have hlength := length_le_escapeValue cs
  have hgather := gather_escapeValue (m := m.enclosed)
    (replaceAt m d isPlain direct (d.entities.length + 1) opened)
    ((Writing.escapeValue cs).length + 1) cs (by omega) ⟨[], spent⟩ h.isSpaced
  have hvalue : Gathered.value ⟨cs.reverse ++ [], spent⟩ isPlain = cs := by
    rw [Gathered.value_eq]
    · simp
    · simpa using h
  simp only [attributeValue, hgather, Except.map, hvalue]

/-! ### Tags -/

/-- The default namespace in scope is a given one, or there is none. -/
def Scope.HasDefault (s : Scope) (space : Option String) : Prop :=
  s.space? [] = space.map String.toList

theorem Scope.exists_hasDefault (s : Scope) :
  ∃ space, s.HasDefault space
  := ⟨(s.space? []).map String.ofList, by simp [HasDefault, Function.comp_def]⟩

namespace Held

/-- A name that declares no namespace, or a manner that knows of none. -/
def DeclaresNothing (separator : Option Char) (name : List Char) : Prop :=
  separator = none ∨ declaredPrefix? name = none

/-- An attribute that declares no namespace is one of those that are given. -/
theorem add_attribute {separator : Option Char} {name : List Char}
    (hname : DeclaresNothing separator name) (h : Held) (value start : List Char) :
  h.add separator name value start
    = .ok { h with names := name :: h.names, given := (name, value) :: h.given }
  := by
  rcases hname with rfl | hname
  · rfl
  · cases separator with
    | none => rfl
    | some s =>
        simp only [add, hname]
        rfl

/-- Attributes that declare no namespaces are given one after another. -/
theorem readAll_rawParts {m : Medium} (d : Declarations)
    (opened : List (List Char)) {separator : Option Char} (direct : Option Nat)
    (element start : List Char) (attributes : Attributes) (raws : List RawAttribute)
    (hraws : raws.map (fun a => (a.name, a.value)) = Medium.rawParts attributes)
    (htyped : ∀ a ∈ attributes, IsTyped (d.isPlainAt element a.1.toList) a.2.toList)
    (hnothing : ∀ a ∈ attributes, DeclaresNothing separator a.1.toList)
    (hnodup : (attributes.map Prod.fst).Nodup) (h : Held)
    (hfresh : ∀ a ∈ attributes, a.1.toList ∉ h.names) :
  h.readAll m d opened separator direct element start raws
    = .ok { h with
        names := (attributes.map fun a => a.1.toList).reverse ++ h.names
        given := (attributes.map fun a => (a.1.toList, a.2.toList)).reverse ++ h.given }
  := by
  induction attributes generalizing raws h with
  | nil =>
      cases List.map_eq_nil_iff.mp hraws
      rfl
  | cons a others ih =>
      obtain ⟨name, value⟩ := a
      cases raws with
      | nil => cases hraws
      | cons raw raws =>
          rw [Medium.rawParts, List.map_cons, List.map_cons, List.cons.injEq,
            Prod.mk.injEq] at hraws
          obtain ⟨⟨hname, hvalue⟩, hrest⟩ := hraws
          rw [List.map_cons, List.nodup_cons] at hnodup
          rw [List.forall_mem_cons] at hfresh htyped hnothing
          let next : Held := { h with
            names := name.toList :: h.names, given := (name.toList, value.toList) :: h.given }
          have hread : h.read m d opened separator direct element start raw = .ok next := by
            have hvalue' := attributeValue_escapeValue (m := m) d opened direct h.spent htyped.1
            unfold Declarations.isPlainAt at hvalue'
            simp only [read, hname, hfresh.1, ite_false, hvalue, hvalue',
              add_attribute hnothing.1]
            rfl
          have hothers := ih raws hrest htyped.2 hnothing.2 hnodup.2 next (by
            intro a ha hmem
            rcases List.mem_cons.mp hmem with heq | hmem
            · rw [String.toList_inj] at heq
              exact hnodup.1 (List.mem_map.mpr ⟨a, ha, heq⟩)
            · exact hfresh.2 a ha hmem)
          simp only [readAll, hread, bind, Except.bind, hothers, next, List.map_cons,
            List.reverse_cons, List.append_assoc, List.singleton_append]

/-- Where prefixes are not told apart, default values are added behind what is given, and nothing
else is changed. -/
theorem exists_addDefaults (start : List Char) (h : Held) (bs : List AttributeDeclaration) :
  ∃ names others, h.addDefaults none start bs
    = .ok { h with names := names, given := others ++ h.given }
  := by
  induction bs generalizing h with
  | nil => exact ⟨h.names, [], rfl⟩
  | cons b bs ih =>
      unfold addDefaults
      split
      · split_ifs
        · exact ih h
        · rename_i value _ _
          obtain ⟨names, others, heq⟩ := ih { h with
            names := b.name :: h.names, given := (b.name, value) :: h.given }
          exact ⟨names, others ++ [(b.name, value)], by rw [List.append_assoc]; exact heq⟩
      · exact ih h

end Held

/-- The tag of an element without a prefix, as it was written. -/
def plainTag (name : String) (attributes : Attributes) : Tag where
  name := ⟨name, none, name⟩
  given := attributes.map fun a => (⟨a.1, none, a.1⟩, a.2)
  defaulted := []
  declared := []

/-- A tag is resolved to what it was written with, and perhaps default values. -/
theorem resolveTag_rawParts {m : Medium} (d : Declarations)
    (opened : List (List Char)) (direct : Option Nat) (spent : Nat)
    (start : List Char) (scope : Scope) (name : String) (attributes : Attributes)
    (raws : List RawAttribute) (isEmpty : Bool)
    (hraws : raws.map (fun a => (a.name, a.value)) = Medium.rawParts attributes)
    (htyped : ∀ a ∈ attributes, IsTyped (d.isPlainAt name.toList a.1.toList) a.2.toList)
    (hnodup : (attributes.map Prod.fst).Nodup) :
  ∃ defaulted, resolveTag m d opened none direct start scope spent ⟨name.toList, raws, isEmpty⟩
    = .ok ({ plainTag name attributes with defaulted := defaulted }, scope, spent)
  := by
  have hread := Held.readAll_rawParts (m := m) d opened direct name.toList start attributes raws hraws
    htyped (fun _ _ => .inl rfl) hnodup ⟨[], [], scope, [], spent⟩ (fun _ _ => List.not_mem_nil)
  let held : Held := ⟨(attributes.map fun a => a.1.toList).reverse ++ [],
    (attributes.map fun a => (a.1.toList, a.2.toList)).reverse ++ [], scope, [], spent⟩
  obtain ⟨names, others, hall⟩ := held.exists_addDefaults start (d.attributesOf name.toList)
  refine ⟨(others.reverse.map fun p => (wholeLabel p.1, String.ofList p.2)), ?_⟩
  simp only [resolveTag, hread, bind, Except.bind]
  rw [hall]
  simp [tagOf, held, plainTag, wholeLabel, Function.comp_def]

end Reading

end XmlDraft
