import XmlDraft.Proofs.Checks
import Mathlib.Data.List.Nodup

/-!
# Changes under names

Changes of settings are made under names, some of which are those of fields of the layout.  What
changes give under a name is the same in any order of changes under different names.  Main
statement: the section of the layout is set anew just where fields of it are given, with just these.
-/

namespace XmlDraft

/-! ### Names of fields -/

namespace Settings

/-- The name under which a field of the layout is changed. -/
def fieldName (field : String) : String :=
  "serialization__" ++ field

theorem splitName?_eq_some {cs a b : List Char} (h : splitName? cs = some (a, b)) :
  cs = a ++ '_' :: '_' :: b
  := by
  fun_induction splitName? cs generalizing a b with
  | case1 cs =>
      cases h
      rfl
  | case2 c cs _ ih =>
      obtain ⟨⟨a', b'⟩, hsplit, heq⟩ := Option.map_eq_some_iff.mp h
      cases heq
      rw [ih hsplit, List.cons_append]
  | case3 => cases h

/-- A name that sets a field of the layout is the name of the field. -/
theorem sectionField?_iff {name field : String} :
  sectionField? name = some ("serialization", field) ↔ name = fieldName field
  := by
  constructor
  · intro h
    obtain ⟨⟨a, b⟩, hsplit, heq⟩ := Option.map_eq_some_iff.mp h
    obtain ⟨ha, rfl⟩ := Prod.mk.inj heq
    obtain rfl := String.ofList_injective (ha.trans String.ofList_toList.symm)
    apply String.toList_inj.mp
    rw [splitName?_eq_some hsplit, fieldName, String.toList_append,
      String.toList_ofList (l := b)]
    rfl
  · rintro rfl
    have hsplit : splitName? (fieldName field).toList
        = some ("serialization".toList, field.toList) := by
      rw [fieldName, String.toList_append]
      rfl
    rw [sectionField?, hsplit]
    simp

/-! ### What changes give -/

namespace Change

/-- The data of a change that is made under a name. -/
def dataAt? (name : String) : Change → Option Json
  | data n value => if n = name then some value else none
  | layout _ => none

/-- The data that changes give under a name. -/
def given (changes : List Change) (name : String) : Option Json :=
  changes.findSome? (dataAt? name)

/-- The section that changes put in the place of the layout. -/
def givenSection (changes : List Change) : Option LayoutSection :=
  changes.findSome? section?

/-- Some change sets a field of a section. -/
def SetField (changes : List Change) : Prop :=
  ∃ c ∈ changes, (sectionField? c.name).isSome

/-- The name of a change is that of a setting, or that of a field of the layout. -/
def IsKnown (c : Change) : Prop :=
  c.name ∈ fieldNames ∨ ∃ field ∈ Layout.fieldNames, c.name = fieldName field

theorem lookup_pairs (changes : List Change) (name : String) :
  (changes.filterMap pair?).lookup name = given changes name
  := by
  induction changes with
  | nil => rfl
  | cons c changes ih =>
      rw [given] at ih
      cases c with
      | data n value =>
          by_cases hn : n = name
          · simp [pair?, given, dataAt?, hn]
          · have hne : (name == n) = false := beq_false_of_ne (Ne.symm hn)
            simp [pair?, given, dataAt?, hn, hne, List.lookup_cons, ih]
      | layout l => exact ih

variable {changes changes' : List Change}

/-- What is found under one name does not depend on the order of changes under different names. -/
theorem findSome?_perm {α : Type} {f : Change → Option α} (name : String)
    (hf : ∀ c, (f c).isSome → c.name = name) (hnodup : (changes.map Change.name).Nodup)
    (hperm : changes.Perm changes') :
  changes.findSome? f = changes'.findSome? f
  := by
  induction hperm with
  | nil => rfl
  | cons c hperm ih =>
      rw [List.map_cons, List.nodup_cons] at hnodup
      rw [List.findSome?_cons, List.findSome?_cons, ih hnodup.2]
  | swap c d changes =>
      simp only [List.map_cons, List.nodup_cons, List.mem_cons, not_or] at hnodup
      simp only [List.findSome?_cons]
      cases hc : f c with
      | none => rfl
      | some a =>
          cases hd : f d with
          | none => rfl
          | some b =>
              have hcname := hf c (by rw [hc]; rfl)
              have hdname := hf d (by rw [hd]; rfl)
              exact absurd (hdname.trans hcname.symm) hnodup.1.1
  | trans hperm _ ih ih' =>
      exact (ih hnodup).trans (ih' ((hperm.map Change.name).nodup_iff.mp hnodup))

/-- The data that is given does not depend on the order of changes. -/
theorem given_perm (hnodup : (changes.map Change.name).Nodup) (hperm : changes.Perm changes') :
  given changes = given changes'
  := by
  funext name
  refine findSome?_perm name (fun c hc => ?_) hnodup hperm
  cases c with
  | data n value =>
      by_contra (hne : ¬ n = name)
      rw [dataAt?, if_neg hne] at hc
      cases hc
  | layout l => cases hc

theorem givenSection_perm (hnodup : (changes.map Change.name).Nodup)
    (hperm : changes.Perm changes') :
  givenSection changes = givenSection changes'
  := by
  refine findSome?_perm "serialization" (fun c hc => ?_) hnodup hperm
  cases c with
  | data n value =>
      by_contra (hne : ¬ n = "serialization")
      rw [section?, if_neg hne] at hc
      cases hc
  | layout l => rfl

/-- A list that grows by what has a new key holds it all in the end. -/
theorem foldl_append_of_new {α : Type} {put : List α → α → List α} {key : α → String}
    (hput : ∀ items a, key a ∉ items.map key → put items a = items ++ [a]) {items more : List α}
    (hnodup : ((items ++ more).map key).Nodup) :
  more.foldl put items = items ++ more
  := by
  induction more generalizing items with
  | nil => simp
  | cons a more ih =>
      have hall : items ++ a :: more = items ++ [a] ++ more := by simp
      rw [hall] at hnodup
      have hnew : key a ∉ items.map key := by
        rw [List.append_assoc, List.map_append, List.nodup_append] at hnodup
        exact fun hmem => hnodup.2.2 _ hmem (key a) (by simp) rfl
      rw [List.foldl_cons, hput items a hnew, ih hnodup, hall]

theorem put_new (changes : List Change) (c : Change) (h : c.name ∉ changes.map name) :
  put changes c = changes ++ [c]
  := by
  induction changes with
  | nil => rfl
  | cons d changes ih =>
      rw [List.map_cons, List.mem_cons, not_or] at h
      rw [put, if_neg (Ne.symm h.1), ih h.2, List.cons_append]

/-- Changes under different names are made as they are. -/
theorem foldl_put (hnodup : (changes.map name).Nodup) :
  changes.foldl put [] = changes
  := foldl_append_of_new put_new hnodup

end Change

/-! ### Fields of the layout -/

section Fields

variable {pairs : List (String × Json)}

/-- The fields of sections that are set, behind their sections. -/
def fieldParts (pairs : List (String × Json)) : List (String × String × Json) :=
  pairs.filterMap fun c => (sectionField? c.1).map fun q => (q.1, q.2, c.2)

theorem fieldName_injective :
  Function.Injective fieldName
  := fun _ _ h => String.append_right_inj _ |>.mp h

/-- What is kept by a filter under some name is found under it. -/
theorem lookup_filter {p : String × Json → Bool} {name : String} (hp : ∀ value, p (name, value))
    (l : List (String × Json)) :
  (l.filter p).lookup name = l.lookup name
  := by
  induction l with
  | nil => rfl
  | cons c l ih =>
      by_cases hc : c.1 = name
      · obtain ⟨n, value⟩ := c
        obtain rfl : n = name := hc
        rw [List.filter_cons_of_pos (hp value), List.lookup_cons_self, List.lookup_cons_self]
      · have hne : (name == c.1) = false := beq_false_of_ne (Ne.symm hc)
        rw [List.lookup_cons, hne, List.filter_cons]
        split
        · rw [List.lookup_cons, hne, ih]
        · exact ih

/-- Where all sections are the one for the layout, the names of the fields in it are the names that
set them. -/
theorem map_fieldParts (h : ∀ p ∈ fieldParts pairs, p.1 = "serialization") :
  (fieldParts pairs).map (fun p => (fieldName p.2.1, p.2.2))
    = pairs.filter fun c => (sectionField? c.1).isSome
  := by
  induction pairs with
  | nil => rfl
  | cons c pairs ih =>
      cases hc : sectionField? c.1 with
      | none =>
          have hparts : fieldParts (c :: pairs) = fieldParts pairs := by
            simp [fieldParts, hc]
          rw [hparts, ih (hparts ▸ h), List.filter_cons_of_neg (by simp [hc])]
      | some q =>
          have hparts : fieldParts (c :: pairs) = (q.1, q.2, c.2) :: fieldParts pairs := by
            simp [fieldParts, hc]
          rw [hparts, List.forall_mem_cons] at h
          have hname : c.1 = fieldName q.2 := sectionField?_iff.mp (by rw [hc, ← h.1])
          rw [hparts, List.map_cons, ih h.2, List.filter_cons_of_pos (by simp [hc]), ← hname]

theorem lookup_fieldParts (h : ∀ p ∈ fieldParts pairs, p.1 = "serialization") (field : String) :
  ((fieldParts pairs).map Prod.snd).lookup field = pairs.lookup (fieldName field)
  := by
  have hsome (value : Json) : (sectionField? (fieldName field, value).1).isSome := by
    rw [sectionField?_iff.mpr rfl]
    rfl
  rw [← lookup_filter (p := fun c => (sectionField? c.1).isSome) hsome, ← map_fieldParts h]
  induction fieldParts pairs with
  | nil => rfl
  | cons p parts ih =>
      have hsame : (fieldName field == fieldName p.2.1) = (field == p.2.1) := by
        rw [Bool.eq_iff_iff, beq_iff_eq, beq_iff_eq, fieldName_injective.eq_iff]
      rw [List.map_cons, List.map_cons, List.lookup_cons, List.lookup_cons, hsame, ih]

/-- Fields that are set under different names are all set. -/
theorem foldl_fieldParts (hnodup : (pairs.map Prod.fst).Nodup)
    (h : ∀ p ∈ fieldParts pairs, p.1 = "serialization") :
  (fieldParts pairs).foldl (fun m p => Json.put m p.2.1 p.2.2) [] = (fieldParts pairs).map Prod.snd
  := by
  have hput (members : List (String × Json)) (q : String × Json) (hq : q.1 ∉ members.map Prod.fst) :
      Json.put members q.1 q.2 = members ++ [q] := by
    induction members with
    | nil => rfl
    | cons r members ih =>
        rw [List.map_cons, List.mem_cons, not_or] at hq
        rw [Json.put, if_neg (Ne.symm hq.1), ih hq.2, List.cons_append]
  have hnames : (((fieldParts pairs).map Prod.snd).map fun q => fieldName q.1).Nodup := by
    have hsublist := (List.filter_sublist (l := pairs)
      (p := fun c => (sectionField? c.1).isSome)).map Prod.fst
    rw [← map_fieldParts h, List.map_map] at hsublist
    rw [List.map_map]
    exact hnodup.sublist hsublist
  have hfields : (((fieldParts pairs).map Prod.snd).map Prod.fst).Nodup :=
    List.Nodup.of_map fieldName (by rwa [List.map_map])
  have hsame : (fieldParts pairs).foldl (fun m p => Json.put m p.2.1 p.2.2) []
      = ((fieldParts pairs).map Prod.snd).foldl (fun m q => Json.put m q.1 q.2) [] := by
    rw [List.foldl_map]
  rw [hsame]
  exact Change.foldl_append_of_new hput hfields

end Fields

/-! ### Sections with fields set anew -/

/-- Fields are set anew only in the section of the layout. -/
theorem changedSections_ok {s : Settings} {groups : List (String × List (String × Json))}
    {layout? : Option LayoutSection} (h : s.changedSections groups = .ok layout?) :
  ∀ g ∈ groups, g.1 = "serialization"
  := by
  induction groups generalizing layout? with
  | nil => simp
  | cons g groups ih =>
      obtain ⟨name, changes⟩ := g
      by_cases hname : name = "serialization"
      · cases hlayout : s.changedLayout changes with
        | error f => simp [changedSections, hname, hlayout, bind, Except.bind] at h
        | ok layout =>
            cases hlater : s.changedSections groups with
            | error f => simp [changedSections, hname, hlayout, hlater, bind, Except.bind] at h
            | ok later => exact List.forall_mem_cons.mpr ⟨hname, ih hlater⟩
      · simp [changedSections, hname, bind, Except.bind] at h

/-- Of items that are all the same, one stays without repetitions. -/
theorem eraseDups_same {items : List String} {a : String} (h : ∀ b ∈ items, b = a)
    (hne : items ≠ []) :
  items.eraseDups = [a]
  := by
  cases items with
  | nil => exact absurd rfl hne
  | cons b items =>
      rw [List.forall_mem_cons] at h
      have hnone : items.filter (fun c => !c == b) = [] :=
        List.filter_eq_nil_iff.mpr fun c hc => by simp [h.1, h.2 c hc]
      rw [List.eraseDups_cons, hnone, h.1, List.eraseDups_nil]

theorem grouped_eq (pairs : List (String × Json)) :
  grouped pairs = ((fieldParts pairs).map Prod.fst).eraseDups.map fun section' =>
    (section', ((fieldParts pairs).filter fun p => p.1 = section').foldl
      (fun m p => Json.put m p.2.1 p.2.2) [])
  := rfl

/-- The section of the layout is set anew just where fields of it are set. -/
theorem changedSections_grouped {s : Settings} {pairs : List (String × Json)}
    (hnodup : (pairs.map Prod.fst).Nodup) {layout? : Option LayoutSection} :
  s.changedSections (grouped pairs) = .ok layout?
    ↔ (∀ p ∈ fieldParts pairs, p.1 = "serialization")
      ∧ if fieldParts pairs = [] then layout? = none
        else ∃ layout, layout? = some layout
          ∧ s.changedLayout ((fieldParts pairs).map Prod.snd) = .ok layout
  := by
  by_cases hsections : ∀ p ∈ fieldParts pairs, p.1 = "serialization"
  · have hfields := foldl_fieldParts hnodup hsections
    have hfilter : (fieldParts pairs).filter (fun p => p.1 = "serialization")
        = fieldParts pairs := List.filter_eq_self.mpr (by simpa using hsections)
    by_cases hparts : fieldParts pairs = []
    · simp [grouped_eq, hparts, changedSections, eq_comm]
    · have hdups : ((fieldParts pairs).map Prod.fst).eraseDups = ["serialization"] :=
        eraseDups_same (List.forall_mem_map.mpr hsections) (by simpa using hparts)
      rw [grouped_eq, hdups, List.map_singleton, hfilter, hfields, if_neg hparts]
      rw [and_iff_right hsections]
      cases hlayout : s.changedLayout ((fieldParts pairs).map Prod.snd) with
      | error f => simp [changedSections, hlayout, bind, Except.bind]
      | ok layout => simp [changedSections, hlayout, bind, Except.bind, eq_comm]
  · refine ⟨fun h => absurd ?_ hsections, fun h => absurd h.1 hsections⟩
    intro p hp
    have hgroups := changedSections_ok h
    rw [grouped_eq, List.forall_mem_map] at hgroups
    exact hgroups p.1 (List.mem_eraseDups.mpr (List.mem_map_of_mem hp))

end Settings

end XmlDraft
