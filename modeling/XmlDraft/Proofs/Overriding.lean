import XmlDraft.Proofs.Changes

/-!
# Settings with changes made to them

What comes of settings that are changed at some places is told here by the names of the changes,
without an order among them.  Main statement: changes that are taken give valid settings, and each
setting and each field of the layout is the one that was given or the one that was there, except
that a layout as a whole is lost where fields of it are given as well.
-/

namespace XmlDraft

namespace Settings

/-! ### Changes that are taken -/

section Taken

variable {s t : Settings} {changes changes' : List Change}

/-- The pairs of name and data in changes. -/
def pairs (changes : List Change) : List (String × Json) :=
  changes.filterMap Change.pair?

/-- The changes of settings other than fields of sections. -/
def topPairs (changes : List Change) : List (String × Json) :=
  (pairs changes).filter fun c => (sectionField? c.1).isNone

theorem mem_pairs {name : String} {value : Json} :
  (name, value) ∈ pairs changes ↔ .data name value ∈ changes
  := by
  rw [pairs, List.mem_filterMap]
  constructor
  · rintro ⟨c, hc, hpair⟩
    cases c with
    | data n v =>
        cases hpair
        exact hc
    | layout l => cases hpair
  · exact fun h => ⟨_, h, rfl⟩

theorem nodup_pairs (hnodup : (changes.map Change.name).Nodup) :
  ((pairs changes).map Prod.fst).Nodup
  := by
  induction changes with
  | nil => exact List.nodup_nil
  | cons c changes ih =>
      rw [List.map_cons, List.nodup_cons] at hnodup
      cases c with
      | layout l => exact ih hnodup.2
      | data name value =>
          have hpairs : pairs (.data name value :: changes) = (name, value) :: pairs changes := rfl
          rw [hpairs, List.map_cons, List.nodup_cons]
          refine ⟨fun hmem => hnodup.1 ?_, ih hnodup.2⟩
          obtain ⟨⟨n, v⟩, hp, rfl⟩ := List.mem_map.mp hmem
          exact List.mem_map.mpr ⟨_, mem_pairs.mp hp, rfl⟩

theorem mem_fieldParts {pairs : List (String × Json)} {p : String × String × Json} :
  p ∈ fieldParts pairs
    ↔ ∃ c ∈ pairs, sectionField? c.1 = some (p.1, p.2.1) ∧ c.2 = p.2.2
  := by
  rw [fieldParts, List.mem_filterMap]
  refine exists_congr fun c => and_congr_right fun _ => ?_
  rw [Option.map_eq_some_iff]
  constructor
  · rintro ⟨q, hq, rfl⟩
    exact ⟨hq, rfl⟩
  · rintro ⟨hq, heq⟩
    exact ⟨_, hq, by rw [heq]⟩

/-- No name of a setting sets a field of a section. -/
theorem sectionField?_top {name : String} (h : name ∈ fieldNames) :
  sectionField? name = none
  := by
  have hall : ∀ name ∈ fieldNames, sectionField? name = none :=
    List.forall_iff_forall_mem.mp ⟨by decide, by decide, by decide, by decide, by decide⟩
  exact hall name h

theorem setField_iff :
  Change.SetField changes ↔ fieldParts (pairs changes) ≠ []
  := by
  constructor
  · rintro ⟨c, hc, hfield⟩
    cases c with
    | layout l =>
        have hnone : sectionField? "serialization" = none := by decide
        rw [Change.name, hnone] at hfield
        cases hfield
    | data name value =>
        obtain ⟨q, hq⟩ := Option.isSome_iff_exists.mp hfield
        exact List.ne_nil_of_mem
          (a := (q.1, q.2, value)) (mem_fieldParts.mpr ⟨_, mem_pairs.mpr hc, hq, rfl⟩)
  · intro h
    obtain ⟨p, hp⟩ := List.exists_mem_of_ne_nil _ h
    obtain ⟨c, hc, hq, -⟩ := mem_fieldParts.mp hp
    exact ⟨_, mem_pairs.mp hc, Option.isSome_iff_exists.mpr ⟨_, hq⟩⟩

/-- The names that are known are those of settings and of fields of the layout. -/
theorem known_iff :
  (∀ c ∈ changes, c.IsKnown)
    ↔ (∀ p ∈ fieldParts (pairs changes), p.1 = "serialization")
      ∧ (∀ q ∈ (fieldParts (pairs changes)).map Prod.snd, q.1 ∈ Layout.fieldNames)
      ∧ ∀ c ∈ topPairs changes, c.1 ∈ fieldNames
  := by
  constructor
  · intro h
    have hknown {c : String × Json} (hc : c ∈ pairs changes) : c.1 ∈ fieldNames
        ∨ ∃ field ∈ Layout.fieldNames, c.1 = fieldName field := h _ (mem_pairs.mp hc)
    have hpart {p : String × String × Json} (hp : p ∈ fieldParts (pairs changes)) :
        p.1 = "serialization" ∧ p.2.1 ∈ Layout.fieldNames := by
      obtain ⟨c, hc, hq, -⟩ := mem_fieldParts.mp hp
      rcases hknown hc with htop | ⟨field, hfield, hname⟩
      · rw [sectionField?_top htop] at hq
        cases hq
      · rw [sectionField?_iff.mpr hname, Option.some_inj, Prod.mk.injEq] at hq
        exact ⟨hq.1.symm, hq.2 ▸ hfield⟩
    refine ⟨fun p hp => (hpart hp).1, List.forall_mem_map.mpr fun p hp => (hpart hp).2, ?_⟩
    intro c hc
    obtain ⟨hc, hnone⟩ := List.mem_filter.mp hc
    rcases hknown hc with htop | ⟨field, hfield, hname⟩
    · exact htop
    · rw [sectionField?_iff.mpr hname] at hnone
      cases hnone
  · rintro ⟨hsections, hfields, htop⟩ c hc
    cases c with
    | layout l => exact .inl List.mem_cons_self
    | data name value =>
        have hmem := mem_pairs.mpr hc
        cases hfield : sectionField? name with
        | none => exact .inl (htop _ (List.mem_filter.mpr ⟨hmem, by simp [hfield]⟩))
        | some q =>
            have hpart : (q.1, q.2, value) ∈ fieldParts (pairs changes) :=
              mem_fieldParts.mpr ⟨_, hmem, hfield, rfl⟩
            have hname : name = fieldName q.2 :=
              sectionField?_iff.mp (by rw [hfield, ← hsections _ hpart])
            exact .inr ⟨q.2, hfields _ (List.mem_map_of_mem hpart), hname⟩

/-- Changes of fields of the layout are made to a checked layout. -/
theorem changedLayout_ok {fields : List (String × Json)} {layout : LayoutSection} :
  s.changedLayout fields = .ok layout
    ↔ ∃ old new : Layout, s.layout = .checked old ∧ layout = .checked new
      ∧ old.update fields = .ok new
  := by
  unfold changedLayout
  cases s.layout with
  | loose d =>
      refine ⟨nofun, ?_⟩
      rintro ⟨_, _, h, -⟩
      cases h
  | checked l =>
      cases hupdate : l.update fields with
      | error f =>
          simp [Except.map, hupdate]
      | ok new =>
          simp [Except.map, hupdate, eq_comm]

/-- A layout is that of some settings with the fields that changes give. -/
def SetsFields (s : Settings) (changes : List Change) (layout : LayoutSection) : Prop :=
  ∃ old new : Layout, s.layout = .checked old ∧ layout = .checked new ∧ new.IsValid
    ∧ ∀ field ∈ Layout.fieldNames, new.members.lookup field
      = (Change.given changes (fieldName field)).or (old.members.lookup field)

/-- What comes of settings with changes made to them, told by the names of the changes. -/
structure Overrides (s : Settings) (changes : List Change) (t : Settings) : Prop where
  /-- Only what is known is changed. -/
  known : ∀ c ∈ changes, c.IsKnown
  /-- The mark is of size one. -/
  size : t.escapeMark.size? = some 1
  /-- The logging level is known. -/
  level : t.loggingLevel ∈ levelNames
  /-- Each setting but the layout is the one that was given or the one that was there. -/
  settings : ∀ name ∈ fieldNames, name ≠ "serialization" →
    t.members.lookup name = (Change.given changes name).or (s.members.lookup name)
  /-- The layout is the one that was given or the one that was there, if no field of it is given. -/
  whole : ¬ Change.SetField changes →
    t.layout = (Change.givenSection changes).getD s.layout
  /-- If a field of the layout is given, the others are those that were there, even where a layout
  is given as a whole. -/
  fields : Change.SetField changes → s.SetsFields changes t.layout

theorem lookup_topPairs {name : String} (h : name ∈ fieldNames) :
  (topPairs changes).lookup name = Change.given changes name
  := by
  rw [topPairs, lookup_filter (p := fun c => (sectionField? c.1).isNone), pairs,
    Change.lookup_pairs]
  intro value
  rw [sectionField?_top h]
  rfl

theorem changed_eq (s : Settings) (changes : List Change) :
  s.changed changes = (s.changedSections (grouped (pairs changes))).bind fun layout? =>
    match (topPairs changes).filterMap fun c =>
      Layout.refusal? "BuilderConfig.__init__()" fieldNames c.1 with
    | reason :: _ => .error (.wrongKind reason)
    | [] => check ((layout?.or (Change.givenSection changes)).getD s.layout)
        (((topPairs changes).lookup "escape_prefix").getD s.escapeMark)
        (((topPairs changes).lookup "validate_names").getD s.checkNames)
        (((topPairs changes).lookup "correlation_id").getD s.correlation)
        (((topPairs changes).lookup "logging_level").getD (.str s.loggingLevel))
  := rfl

/-- Changed settings are checked together with the settings that stay. -/
theorem changed_ok :
  s.changed changes = .ok t
    ↔ ∃ layout?, s.changedSections (grouped (pairs changes)) = .ok layout?
      ∧ (∀ c ∈ topPairs changes, c.1 ∈ fieldNames)
      ∧ check ((layout?.or (Change.givenSection changes)).getD s.layout)
          ((Change.given changes "escape_prefix").getD s.escapeMark)
          ((Change.given changes "validate_names").getD s.checkNames)
          ((Change.given changes "correlation_id").getD s.correlation)
          ((Change.given changes "logging_level").getD (.str s.loggingLevel)) = .ok t
  := by
  have hlookup : ∀ name ∈ fieldNames,
      (topPairs changes).lookup name = Change.given changes name := fun _ => lookup_topPairs
  simp only [fieldNames, List.forall_mem_cons] at hlookup
  obtain ⟨-, hmark, hnames, hcorrelation, hlevel, -⟩ := hlookup
  have hknown : (topPairs changes).filterMap (fun c =>
      Layout.refusal? "BuilderConfig.__init__()" fieldNames c.1) = []
      ↔ ∀ c ∈ topPairs changes, c.1 ∈ fieldNames := by
    rw [List.filterMap_eq_nil_iff]
    exact Layout.refusal?_none_iff _ (by decide)
  rw [changed_eq, ← hmark, ← hnames, ← hcorrelation, ← hlevel, ← hknown]
  cases s.changedSections (grouped (pairs changes)) with
  | error f =>
      constructor
      · intro h
        cases h
      · rintro ⟨_, h, -⟩
        cases h
  | ok layout? =>
      cases (topPairs changes).filterMap fun c =>
          Layout.refusal? "BuilderConfig.__init__()" fieldNames c.1 with
      | nil =>
          constructor
          · exact fun h => ⟨_, rfl, rfl, h⟩
          · rintro ⟨layout, hlayout, -, h⟩
            cases hlayout
            exact h
      | cons reason reasons =>
          constructor
          · intro h
            cases h
          · rintro ⟨_, -, h, -⟩
            cases h

/-- The settings other than the layout, told one by one. -/
theorem settings_iff :
  (∀ name ∈ fieldNames, name ≠ "serialization" →
      t.members.lookup name = (Change.given changes name).or (s.members.lookup name))
    ↔ t.escapeMark = (Change.given changes "escape_prefix").getD s.escapeMark
      ∧ t.checkNames = (Change.given changes "validate_names").getD s.checkNames
      ∧ t.correlation = (Change.given changes "correlation_id").getD s.correlation
      ∧ .str t.loggingLevel = (Change.given changes "logging_level").getD (.str s.loggingLevel)
  := by
  simp [fieldNames, members, List.lookup_cons]

/-- The section of the layout is set anew just where fields of it are set, and only known ones. -/
theorem changedSections_iff (hnodup : (changes.map Change.name).Nodup)
    {layout? : Option LayoutSection} :
  s.changedSections (grouped (pairs changes)) = .ok layout?
    ↔ (∀ p ∈ fieldParts (pairs changes), p.1 = "serialization")
      ∧ (∀ q ∈ (fieldParts (pairs changes)).map Prod.snd, q.1 ∈ Layout.fieldNames)
      ∧ (¬ Change.SetField changes → layout? = none)
      ∧ (Change.SetField changes → ∃ layout, layout? = some layout
        ∧ s.SetsFields changes layout)
  := by
  rw [changedSections_grouped (nodup_pairs hnodup), setField_iff]
  refine and_congr_right fun hsections => ?_
  have hlookup (field : String) : ((fieldParts (pairs changes)).map Prod.snd).lookup field
      = Change.given changes (fieldName field) :=
    (lookup_fieldParts hsections field).trans (Change.lookup_pairs changes _)
  by_cases hparts : fieldParts (pairs changes) = []
  · simp [hparts]
  · rw [if_neg hparts]
    constructor
    · rintro ⟨layout, rfl, hchanged⟩
      obtain ⟨old, new, hold, rfl, hupdate⟩ := changedLayout_ok.mp hchanged
      obtain ⟨hknown, hvalid, hfields⟩ := Layout.update_ok.mp hupdate
      simp only [hlookup] at hfields
      exact ⟨hknown, fun hno => absurd hparts hno, fun _ =>
        ⟨_, rfl, old, new, hold, rfl, hvalid, hfields⟩⟩
    · rintro ⟨hknown, -, hset⟩
      obtain ⟨layout, rfl, old, new, hold, rfl, hvalid, hfields⟩ := hset hparts
      simp only [← hlookup] at hfields
      exact ⟨_, rfl, changedLayout_ok.mpr
        ⟨old, new, hold, rfl, Layout.update_ok.mpr ⟨hknown, hvalid, hfields⟩⟩⟩

theorem changed_iff (hnodup : (changes.map Change.name).Nodup) :
  s.changed changes = .ok t ↔ s.Overrides changes t
  := by
  rw [changed_ok]
  constructor
  · rintro ⟨layout?, hsections, htop, hcheck⟩
    obtain ⟨hser, hfields, hwhole, hset⟩ := (changedSections_iff hnodup).mp hsections
    obtain ⟨hsize, hlevel, hknown, hlayout, hmark, hnames, hcorrelation⟩ := check_eq_ok.mp hcheck
    refine ⟨known_iff.mpr ⟨hser, hfields, htop⟩, hmark ▸ hsize, hknown,
      settings_iff.mpr ⟨hmark, hnames, hcorrelation, hlevel.symm⟩, fun hno => ?_, fun hfield => ?_⟩
    · rw [hlayout, hwhole hno, Option.none_or]
    · obtain ⟨layout, rfl, hsets⟩ := hset hfield
      rwa [hlayout, Option.some_or, Option.getD_some]
  · intro h
    obtain ⟨hser, hfields, htop⟩ := known_iff.mp h.known
    obtain ⟨hmark, hnames, hcorrelation, hlevel⟩ := settings_iff.mp h.settings
    have hcheck {layout : LayoutSection} (hlayout : t.layout = layout) :=
      check_eq_ok.mpr ⟨hmark ▸ h.size, hlevel.symm, h.level, hlayout, hmark, hnames, hcorrelation⟩
    by_cases hfield : Change.SetField changes
    · refine ⟨some t.layout, (changedSections_iff hnodup).mpr
        ⟨hser, hfields, fun hno => absurd hfield hno, fun _ => ⟨_, rfl, h.fields hfield⟩⟩, htop, ?_⟩
      exact hcheck (by rw [Option.some_or, Option.getD_some])
    · refine ⟨none, (changedSections_iff hnodup).mpr
        ⟨hser, hfields, fun _ => rfl, fun hset => absurd hset hfield⟩, htop, ?_⟩
      exact hcheck (by rw [Option.none_or, h.whole hfield])

/-- Changes under different names are taken just where what comes of them is as told. -/
theorem overrideBy_iff (hnodup : (changes.map Change.name).Nodup) :
  s.overrideBy changes = .ok t ↔ s.Overrides changes t
  := by
  rw [← changed_iff hnodup, overrideBy, Change.foldl_put hnodup]
  by_cases hself : changes.any fun c => c.name = "self"
  · -- A change of what is called `self` is not known, either.
    rw [if_pos hself]
    refine ⟨nofun, fun h => ?_⟩
    obtain ⟨c, hc, hname⟩ := List.any_eq_true.mp hself
    have hknown := ((changed_iff hnodup).mp h).known c hc
    rw [Change.IsKnown, of_decide_eq_true hname] at hknown
    exact absurd hknown (by decide)
  · rw [if_neg hself]
    cases s.changed changes with
    | ok t' => rfl
    | error f => cases f <;> exact ⟨nofun, nofun⟩

/-- What comes of changes does not depend on their order. -/
theorem Overrides.perm (hnodup : (changes.map Change.name).Nodup) (hperm : changes.Perm changes')
    (h : s.Overrides changes t) :
  s.Overrides changes' t
  := by
  have hfield : Change.SetField changes ↔ Change.SetField changes' :=
    exists_congr fun c => and_congr_left' hperm.mem_iff
  have hgiven := Change.given_perm hnodup hperm
  have hsection := Change.givenSection_perm hnodup hperm
  refine ⟨fun c hc => h.known c (hperm.mem_iff.mpr hc), h.size, h.level, hgiven ▸ h.settings,
    fun hno => hsection ▸ h.whole (mt hfield.mp hno), fun hset => ?_⟩
  have hfields := h.fields (hfield.mpr hset)
  rwa [SetsFields, hgiven] at hfields

end Taken

/-! ### Changes of the types of the settings -/

namespace Change

variable {changes : List Change}

/-- Layouts that are given are valid, and no other data stands in the place of a layout or of a
text for the mark. -/
structure AreTyped (changes : List Change) : Prop where
  layout : ∀ l, .layout l ∈ changes → l.IsValid
  whole : ∀ value, .data "serialization" value ∉ changes
  mark : ∀ value, .data "escape_prefix" value ∈ changes → value.text?.isSome

theorem mem_of_given {name : String} {value : Json} (h : given changes name = some value) :
  .data name value ∈ changes
  := by
  obtain ⟨c, hc, hvalue⟩ := List.exists_of_findSome?_eq_some h
  cases c with
  | data n v =>
      by_cases hn : n = name
      · rw [dataAt?, if_pos hn, Option.some_inj] at hvalue
        rwa [← hn, ← hvalue]
      · rw [dataAt?, if_neg hn] at hvalue
        cases hvalue
  | layout l => cases hvalue

theorem setField_of_given {field : String} {value : Json}
    (h : given changes (fieldName field) = some value) :
  SetField changes
  := ⟨_, mem_of_given h, Option.isSome_iff_exists.mpr ⟨_, sectionField?_iff.mpr rfl⟩⟩

theorem AreTyped.givenSection_eq (h : AreTyped changes) {layout : LayoutSection}
    (hlayout : givenSection changes = some layout) :
  ∃ l : Layout, layout = .checked l ∧ l.IsValid
  := by
  obtain ⟨c, hc, hsection⟩ := List.exists_of_findSome?_eq_some hlayout
  cases c with
  | data n v =>
      by_cases hn : n = "serialization"
      · exact absurd (hn ▸ hc) (h.whole v)
      · rw [section?, if_neg hn] at hsection
        cases hsection
  | layout l => exact ⟨l, (Option.some.inj hsection).symm, h.layout l hc⟩

/-- What a field of the layout is said to be with changes made to settings: what is given for the
field, or else for the layout as a whole, or else what was there. -/
def promised (s : Settings) (changes : List Change) (field : String) : Option Json :=
  (given changes (fieldName field)).or
    (((givenSection changes).bind fun layout => layout.data.get? field).or
      (s.layout.data.get? field))

end Change

theorem exists_field (l : Layout) {field : String} (h : field ∈ Layout.fieldNames) :
  ∃ value, (LayoutSection.checked l).data.get? field = some value
  := by
  rw [← Option.isSome_iff_exists]
  have hall : ∀ field ∈ Layout.fieldNames,
      ((LayoutSection.checked l).data.get? field).isSome := by
    simp [Layout.fieldNames, LayoutSection.data, Json.get?, Layout.members, List.lookup_cons]
  exact hall field h

variable {s t : Settings} {changes : List Change}

/-- Typed changes of valid settings give valid settings. -/
theorem Overrides.isValid (h : s.Overrides changes t) (hs : s.IsValid)
    (htyped : Change.AreTyped changes) :
  t.IsValid
  := by
  refine ⟨?_, h.level, ?_⟩
  · have hmark := (settings_iff.mp h.settings).1
    have htext : ∃ m, t.escapeMark = .str m := by
      cases hgiven : Change.given changes "escape_prefix" with
      | none =>
          obtain ⟨m, hm, -⟩ := hs.mark
          exact ⟨m, by rw [hmark, hgiven, Option.getD_none, hm]⟩
      | some value =>
          have hvalue := htyped.mark value (Change.mem_of_given hgiven)
          cases value with
          | str m => exact ⟨m, by rw [hmark, hgiven, Option.getD_some]⟩
          | _ => cases hvalue
    obtain ⟨m, hm⟩ := htext
    have hsize := h.size
    rw [hm] at hsize
    exact ⟨m, hm, Option.some.inj hsize⟩
  · by_cases hset : Change.SetField changes
    · obtain ⟨_, new, -, hnew, hvalid, -⟩ := h.fields hset
      exact ⟨new, hnew, hvalid⟩
    · rw [h.whole hset]
      cases hgiven : Change.givenSection changes with
      | none => exact hs.layout
      | some layout => exact htyped.givenSection_eq hgiven

/-- Where fields of the layout are given, the others are those that were there. -/
theorem Overrides.fields_eq (h : s.Overrides changes t) (hset : Change.SetField changes) :
  ∀ field ∈ Layout.fieldNames, t.layout.data.get? field
    = (Change.given changes (fieldName field)).or (s.layout.data.get? field)
  := by
  obtain ⟨old, new, hold, hnew, -, hfields⟩ := h.fields hset
  rw [hold, hnew]
  exact hfields

/-- The layout is as it is said to be just where no fields of it are given, or where a layout that
is given agrees with the one that was there on the fields that are not. -/
theorem Overrides.promised_iff (h : s.Overrides changes t) (htyped : Change.AreTyped changes) :
  (∀ field ∈ Layout.fieldNames, t.layout.data.get? field = Change.promised s changes field)
    ↔ (Change.SetField changes → ∀ layout, Change.givenSection changes = some layout →
      ∀ field ∈ Layout.fieldNames, Change.given changes (fieldName field) = none →
        layout.data.get? field = s.layout.data.get? field)
  := by
  by_cases hset : Change.SetField changes
  · rw [forall_prop_of_true hset]
    have hfields := h.fields_eq hset
    constructor
    · intro hpromised layout hlayout field hfield hgiven
      obtain ⟨l, rfl, -⟩ := htyped.givenSection_eq hlayout
      obtain ⟨value, hvalue⟩ := exists_field l hfield
      have heq := (hfields field hfield).symm.trans (hpromised field hfield)
      rw [Change.promised, hgiven, hlayout, Option.none_or, Option.none_or, Option.bind_some,
        hvalue, Option.some_or] at heq
      rw [hvalue, heq]
    · intro hagrees field hfield
      rw [hfields field hfield, Change.promised]
      cases hgiven : Change.given changes (fieldName field) with
      | some value => rfl
      | none =>
          cases hlayout : Change.givenSection changes with
          | none => rfl
          | some layout =>
              rw [Option.bind_some, hagrees layout hlayout field hfield hgiven, Option.or_self]
  · rw [forall_prop_of_false hset, iff_true]
    intro field hfield
    have hnone : Change.given changes (fieldName field) = none :=
      Option.eq_none_iff_forall_ne_some.mpr fun value hvalue =>
        hset (Change.setField_of_given hvalue)
    rw [h.whole hset, Change.promised, hnone, Option.none_or]
    cases hlayout : Change.givenSection changes with
    | none => rfl
    | some layout =>
        obtain ⟨l, rfl, -⟩ := htyped.givenSection_eq hlayout
        obtain ⟨value, hvalue⟩ := exists_field l hfield
        rw [Option.bind_some, Option.getD_some, hvalue, Option.some_or]

end Settings

open Settings (Change)

/-- Changes under different names that are taken by valid settings give valid settings, in any order
the same.  Each setting but the layout is the one that was given or the one that was there.  The
layout is as well, or it has the fields that were given and the others that were there; a layout
that is given besides is lost, so that the layout is what it is said to be just where this makes no
difference. -/
theorem overrides_applied {s t : Settings} {changes : List Change} (hs : s.IsValid)
    (hnodup : (changes.map Change.name).Nodup) (htyped : Change.AreTyped changes)
    (h : s.overrideBy changes = .ok t) :
  t.IsValid ∧ (∀ c ∈ changes, c.IsKnown)
    ∧ (∀ name ∈ Settings.fieldNames, name ≠ "serialization" →
      t.members.lookup name = (Change.given changes name).or (s.members.lookup name))
    ∧ (¬ Change.SetField changes → t.layout = (Change.givenSection changes).getD s.layout)
    ∧ (Change.SetField changes → ∀ field ∈ Layout.fieldNames, t.layout.data.get? field
      = (Change.given changes (Settings.fieldName field)).or (s.layout.data.get? field))
    ∧ ((∀ field ∈ Layout.fieldNames,
        t.layout.data.get? field = Change.promised s changes field)
      ↔ (Change.SetField changes → ∀ layout, Change.givenSection changes = some layout →
        ∀ field ∈ Layout.fieldNames, Change.given changes (Settings.fieldName field) = none →
          layout.data.get? field = s.layout.data.get? field))
    ∧ ∀ changes', changes.Perm changes' → s.overrideBy changes' = .ok t
  := by
  have hover := (Settings.overrideBy_iff hnodup).mp h
  refine ⟨hover.isValid hs htyped, hover.known, hover.settings, hover.whole, hover.fields_eq,
    hover.promised_iff htyped, fun changes' hperm => ?_⟩
  have hnodup' := (hperm.map Change.name).nodup_iff.mp hnodup
  exact (Settings.overrideBy_iff hnodup').mpr (hover.perm hnodup hperm)

/-- A layout and a mark, in both orders; then a mark among two fields of that layout, which keeps
its other fields. -/
theorem overrides_applied_of_layout_and_fields :
  let layout : Layout := { indent := "\t" }
  let whole : List Change := [.layout layout, .data "escape_prefix" (.str "~")]
  let parts : List Change := [.data "serialization__newline" (.str "\n"),
    .data "escape_prefix" (.str "-"), .data "serialization__default_encoding" (.str "utf-16")]
  let t : Settings := { layout := .checked layout, escapeMark := .str "~" }
  let t' : Settings :=
    { layout := .checked { layout with newline := "\n", encoding := .str "utf-16" },
      escapeMark := .str "-" }
  (({} : Settings).overrideBy whole = .ok t ∧ t.IsValid
      ∧ ({} : Settings).overrideBy whole.reverse = .ok t)
    ∧ t.overrideBy parts = .ok t' ∧ t'.IsValid ∧ t.overrideBy parts.reverse = .ok t'
    ∧ t'.layout.data.get? "newline" = some (.str "\n")
    ∧ t'.layout.data.get? "indent_chars" = t.layout.data.get? "indent_chars"
  := by
  intro layout whole parts t t'
  have hlayout : layout.IsValid := by
    have hcheck : Layout.check (.str "\t") (.str "\r\n") (.str "1.0") (.str "utf-8") = .ok layout :=
      rfl
    exact (Layout.check_eq_ok.mp hcheck).2.2.2.2
  have hwhole : Change.AreTyped whole := by
    refine ⟨fun l hl => ?_, fun value hvalue => ?_, fun value hvalue => ?_⟩
    · simp [whole] at hl
      exact hl ▸ hlayout
    · simp [whole] at hvalue
    · simp [whole] at hvalue
      rw [hvalue]
      rfl
  have hparts : Change.AreTyped parts := by
    refine ⟨fun l hl => ?_, fun value hvalue => ?_, fun value hvalue => ?_⟩
    · simp [parts] at hl
    · simp [parts] at hvalue
    · simp [parts] at hvalue
      rw [hvalue]
      rfl
  have htaken : ({} : Settings).overrideBy whole = .ok t := by rfl
  have htaken' : t.overrideBy parts = .ok t' := by
    simp only [t, t', parts, layout]
    rfl
  obtain ⟨hvalid, -, -, -, -, -, hperm⟩ :=
    overrides_applied Settings.isValid_default (by decide) hwhole htaken
  obtain ⟨hvalid', -, -, -, hfields, -, hperm'⟩ :=
    overrides_applied hvalid (by decide) hparts htaken'
  have hset : Change.SetField parts := ⟨_, List.mem_cons_self, by decide⟩
  refine ⟨⟨htaken, hvalid, hperm _ (List.reverse_perm _).symm⟩, htaken', hvalid',
    hperm' _ (List.reverse_perm _).symm, ?_, ?_⟩
  · rw [hfields hset "newline" (by decide)]
    rfl
  · rw [hfields hset "indent_chars" (by decide)]
    rfl

/-- A layout that is given together with a field of the layout is lost. -/
theorem given_layout_lost :
  let changes : List Change :=
    [.layout { indent := "\t" }, .data "serialization__newline" (.str "\n")]
  let t : Settings := { layout := .checked { newline := "\n" } }
  ({} : Settings).overrideBy changes = .ok t
    ∧ t.layout.data.get? "indent_chars" = some (.str "  ")
    ∧ Change.promised {} changes "indent_chars" = some (.str "\t")
    ∧ ¬ ∀ field ∈ Layout.fieldNames,
      t.layout.data.get? field = Change.promised {} changes field
  := by
  intro changes t
  have hfield : t.layout.data.get? "indent_chars" = some (.str "  ") := rfl
  have hpromised : Change.promised {} changes "indent_chars" = some (.str "\t") := by rfl
  refine ⟨by rfl, hfield, hpromised, fun hall => ?_⟩
  have hsame := hall "indent_chars" (by decide)
  rw [hfield, hpromised, Option.some_inj, Json.str.injEq] at hsame
  exact absurd hsame (by decide)

end XmlDraft
