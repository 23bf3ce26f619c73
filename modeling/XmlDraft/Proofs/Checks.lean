import XmlDraft.Proofs.Layouts
import XmlDraft.Settings.Data

/-!
# Settings that pass their checks

What the checks of a layout and of settings let through and what they make of everything else.
Main statements: each check answers just where the values are as they should be, and what it says of
others is that a setting is invalid, as long as they are of a kind that it can look at.
-/

namespace XmlDraft

/-! ### Valid settings -/

/-- A layout of blanks and an end of a line, with a version and an encoding that count. -/
structure Layout.IsValid (l : Layout) : Prop extends l.IsBlank where
  version : l.version.counts
  encoding : l.encoding.counts

namespace Settings

/-- Settings with a mark of one character, a known logging level and a valid layout. -/
structure IsValid (s : Settings) : Prop where
  mark : ∃ m : String, s.escapeMark = .str m ∧ m.length = 1
  level : s.loggingLevel ∈ levelNames
  layout : ∃ l : Layout, s.layout = .checked l ∧ l.IsValid

end Settings

/-- Whether a fault says that the settings are wrong, and not that a check could not look at
them. -/
def SettingsFault.isRefusal : SettingsFault → Bool
  | invalid _ => true
  | notJson _ => true
  | notObject => true
  | _ => false

namespace Layout

/-! ### Layouts -/

/-- The names of the fields of a layout, in order. -/
def fieldNames : List String :=
  ["indent_chars", "newline", "default_version", "default_encoding"]

theorem mem_validNewlines {s : String} :
  s ∈ validNewlines ↔ s = "\r\n" ∨ s = "\n" ∨ s = "\r"
  := by
  simp [validNewlines]

/-- The checks let through just the fields of a valid layout. -/
theorem check_eq_ok {indent newline version encoding : Json} {l : Layout} :
  check indent newline version encoding = .ok l
    ↔ indent = .str l.indent ∧ newline = .str l.newline ∧ version = l.version
      ∧ encoding = l.encoding ∧ l.IsValid
  := by
  constructor
  · intro h
    cases indent with
    | str i =>
        cases newline with
        | str n =>
            simp only [check] at h
            split_ifs at h with hindent hnewline hversion hencoding
            cases h
            rw [mem_validNewlines] at hnewline
            exact ⟨rfl, rfl, rfl, rfl, ⟨hnewline, by simpa [or_iff_not_imp_left] using hindent⟩,
              by simpa using hversion, by simpa using hencoding⟩
        | _ =>
            simp only [check] at h
            split_ifs at h
    | _ => cases h
  · rintro ⟨rfl, rfl, rfl, rfl, h⟩
    have hindent : (l.indent.toList.all fun c => c = ' ' || c = '\t') = true := by
      simpa using h.indent
    have hnewline : l.newline ∈ validNewlines := mem_validNewlines.mpr h.newline
    simp [check, hindent, hnewline, h.version, h.encoding]

/-- The layout that is there where none is set is valid. -/
theorem isValid_default :
  ({} : Layout).IsValid
  := by
  have hcheck : check (.str "  ") (.str "\r\n") (.str "1.0") (.str "utf-8") = .ok {} := rfl
  exact (check_eq_ok.mp hcheck).2.2.2.2

/-- The checks cannot look at an indentation that is no text, and whatever else they do not let
through they call invalid. -/
theorem check_error {indent newline version encoding : Json} {f : SettingsFault}
    (h : check indent newline version encoding = .error f) :
  if indent.text?.isSome then ∃ cause, f = .invalid cause else f = .noSuchOperation
  := by
  cases indent with
  | str i =>
      cases newline with
      | str n =>
          simp only [check] at h
          split_ifs at h <;> cases h <;> exact ⟨_, rfl⟩
      | _ =>
          simp only [check] at h
          split_ifs at h <;> cases h <;> exact ⟨_, rfl⟩
  | _ => cases h; rfl

/-- Names are not refused just if they are known; the name of the object itself must not be. -/
theorem refusal?_none_iff (maker : String) {known : List String} (hself : "self" ∉ known)
    {changes : List (String × Json)} :
  (∀ c ∈ changes, refusal? maker known c.1 = none) ↔ ∀ c ∈ changes, c.1 ∈ known
  := by
  refine forall₂_congr fun c _ => ?_
  unfold refusal?
  split_ifs with hname hknown
  · simp [hname, hself]
  · simp [hknown]
  · simp [hknown]

/-- Why the first field that a layout does not have is refused, if there is one. -/
def refusedField? (changes : List (String × Json)) : Option String :=
  changes.findSome? fun c => refusal? "SerializationConfig.__init__()" fieldNames c.1

theorem refusedField?_eq_none {changes : List (String × Json)} :
  refusedField? changes = none ↔ ∀ c ∈ changes, c.1 ∈ fieldNames
  := by
  rw [← refusal?_none_iff "SerializationConfig.__init__()" (by decide)]
  exact List.findSome?_eq_none_iff

/-- The value that changes give to a field, or else the one that it has. -/
def changedField (changes : List (String × Json)) (name : String) (old : Json) : Json :=
  (changes.lookup name).getD old

theorem map_fst_members (l : Layout) :
  l.members.map Prod.fst = fieldNames
  := rfl

/-- Changes of fields that a layout has are checked together with the fields that stay. -/
theorem update_eq (l : Layout) (changes : List (String × Json)) :
  l.update changes
    = match refusedField? changes with
      | some reason => .error (.wrongKind reason)
      | none => check (changedField changes "indent_chars" (.str l.indent))
          (changedField changes "newline" (.str l.newline))
          (changedField changes "default_version" l.version)
          (changedField changes "default_encoding" l.encoding)
  := by
  rw [refusedField?, ← List.head?_filterMap]
  simp only [update, map_fst_members]
  cases changes.filterMap fun c => refusal? "SerializationConfig.__init__()" fieldNames c.1 with
  | nil => rfl
  | cons reason reasons => rfl

/-- An update gives a valid layout in which each field is the one that was set or the one that was
there; only fields of layouts can be set. -/
theorem update_ok {l new : Layout} {changes : List (String × Json)} :
  l.update changes = .ok new
    ↔ (∀ c ∈ changes, c.1 ∈ fieldNames) ∧ new.IsValid
      ∧ ∀ field ∈ fieldNames,
        new.members.lookup field = (changes.lookup field).or (l.members.lookup field)
  := by
  have hfields : (∀ field ∈ fieldNames,
        new.members.lookup field = (changes.lookup field).or (l.members.lookup field))
      ↔ .str new.indent = changedField changes "indent_chars" (.str l.indent)
        ∧ .str new.newline = changedField changes "newline" (.str l.newline)
        ∧ new.version = changedField changes "default_version" l.version
        ∧ new.encoding = changedField changes "default_encoding" l.encoding := by
    simp [fieldNames, members, List.lookup_cons, changedField]
  rw [update_eq, hfields]
  cases hrefused : refusedField? changes with
  | some reason =>
      have hknown : ¬ ∀ c ∈ changes, c.1 ∈ fieldNames := by
        rw [← refusedField?_eq_none, hrefused]
        exact nofun
      exact ⟨nofun, fun h => absurd h.1 hknown⟩
  | none =>
      rw [check_eq_ok]
      constructor
      · rintro ⟨hindent, hnewline, hversion, hencoding, hvalid⟩
        exact ⟨refusedField?_eq_none.mp hrefused, hvalid, hindent.symm, hnewline.symm,
          hversion.symm, hencoding.symm⟩
      · rintro ⟨-, hvalid, hindent, hnewline, hversion, hencoding⟩
        exact ⟨hindent.symm, hnewline.symm, hversion.symm, hencoding.symm, hvalid⟩

end Layout

namespace Settings

/-! ### Settings -/

/-- The checks let through just settings with a mark of size one and a known logging level. -/
theorem check_eq_ok {layout : LayoutSection} {mark names correlation level : Json} {s : Settings} :
  check layout mark names correlation level = .ok s
    ↔ mark.size? = some 1 ∧ level = .str s.loggingLevel ∧ s.loggingLevel ∈ levelNames
      ∧ s.layout = layout ∧ s.escapeMark = mark ∧ s.checkNames = names
      ∧ s.correlation = correlation
  := by
  unfold check
  constructor
  · intro h
    cases hsize : mark.size? with
    | none => rw [hsize] at h; cases h
    | some n =>
        rw [hsize] at h
        simp only at h
        split_ifs at h with hn
        cases level with
        | str l =>
            simp only at h
            split_ifs at h with hl
            cases h
            exact ⟨by rw [not_not.mp hn], rfl, hl, rfl, rfl, rfl, rfl⟩
        | _ => cases h
  · rintro ⟨hsize, rfl, hlevel, rfl, rfl, rfl, rfl⟩
    simp [hsize, hlevel]

/-- The settings that are there where none are set are valid. -/
theorem isValid_default :
  ({} : Settings).IsValid
  where
  mark := ⟨"_", rfl, rfl⟩
  level := by decide
  layout := ⟨{}, rfl, Layout.isValid_default⟩

/-- The checks cannot look at a mark without a size, and whatever else they do not let through they
call invalid. -/
theorem check_error {layout : LayoutSection} {mark names correlation level : Json}
    {f : SettingsFault} (h : check layout mark names correlation level = .error f) :
  if mark.size?.isSome then ∃ cause, f = .invalid cause
    else f = .wrongKind ("object of type '" ++ mark.kindName ++ "' has no len()")
  := by
  unfold check at h
  cases hsize : mark.size? with
  | none =>
      rw [hsize] at h
      cases h
      rfl
  | some n =>
      rw [hsize] at h
      simp only at h
      split_ifs at h
      · cases h
        exact ⟨_, rfl⟩
      · cases level with
        | str l =>
            simp only at h
            split_ifs at h
            cases h
            exact ⟨_, rfl⟩
        | _ => cases h; exact ⟨_, rfl⟩

end Settings

end XmlDraft
