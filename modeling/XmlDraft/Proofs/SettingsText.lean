import XmlDraft.Proofs.Checks

/-!
# Settings that a text writes

A text of JSON writes valid settings, or is refused as a text of settings, except where the checks
do not look at the kinds of its values.  Main statement: these exceptions are all told here, each
with what comes of it.
-/

namespace XmlDraft

namespace Settings

/-- What a text of settings comes to is valid settings, or a refusal. -/
def Answers : Except SettingsFault Settings → Prop
  | .ok s => s.IsValid
  | .error f => f.isRefusal

/-- The fault that a text of settings comes to, if it is one. -/
def fault? : Except SettingsFault Settings → Option SettingsFault
  | .ok _ => none
  | .error f => some f

/-! ### Unknown names -/

theorem distinct_ne_nil {items : List Json} (h : items ≠ []) :
  distinct items ≠ []
  := by
  have hkept (seen : List Json) (items : List Json) (h : seen ≠ [] ∨ items ≠ []) :
      items.foldl (fun seen x => if seen.any (·.same x) then seen else seen ++ [x]) seen ≠ [] := by
    induction items generalizing seen with
    | nil => simpa using h
    | cons x items ih =>
        rw [List.foldl_cons]
        refine ih _ (.inl ?_)
        cases seen with
        | nil => simp
        | cons y seen => split_ifs <;> simp
  exact hkept [] items (.inr h)

theorem mem_of_mem_distinct {items : List Json} {x : Json} (h : x ∈ distinct items) :
  x ∈ items
  := by
  have hkept (seen : List Json) (items : List Json)
      (h : x ∈ items.foldl (fun seen x => if seen.any (·.same x) then seen else seen ++ [x]) seen) :
      x ∈ seen ∨ x ∈ items := by
    induction items generalizing seen with
    | nil => exact .inl h
    | cons y items ih =>
        rcases ih _ h with hseen | hitems
        · dsimp only at hseen
          split_ifs at hseen
          · exact .inl hseen
          · rcases List.mem_append.mp hseen with hseen | hseen
            · exact .inl hseen
            · exact .inr (by simp [List.mem_singleton.mp hseen])
        · exact .inr (List.mem_cons_of_mem _ hitems)
  exact (hkept [] items h).resolve_left (by simp)

/-- Texts can be put in order. -/
theorem sorted?_texts {items : List Json} (h : ∀ x ∈ items, x.text?.isSome) (hne : items ≠ []) :
  ∃ x xs, sorted? items = some (x :: xs)
  := by
  cases items with
  | nil => exact absurd rfl hne
  | cons a rest =>
      cases rest with
      | nil => exact ⟨a, [], rfl⟩
      | cons b rest =>
          have hall : ((a :: b :: rest).all fun x => x.text?.isSome) = true :=
            List.all_eq_true.mpr h
          have hsorted : sorted? (a :: b :: rest)
              = some ((a :: b :: rest).mergeSort fun x y =>
                textLE (x.text?.getD "") (y.text?.getD "")) := if_pos hall
          rw [hsorted]
          cases hsort : (a :: b :: rest).mergeSort fun x y =>
              textLE (x.text?.getD "") (y.text?.getD "") with
          | nil =>
              have hlength := congrArg List.length hsort
              rw [List.length_mergeSort] at hlength
              cases hlength
          | cons x xs => exact ⟨x, xs, rfl⟩

/-- Names of which one is unknown make settings invalid. -/
theorem namesFault_unknown {members : List (String × Json)}
    (h : ¬ ∀ m ∈ members, m.1 ∈ fieldNames) :
  ∃ cause, namesFault (members.map fun m => .str m.1) = .invalid cause
  := by
  let names : List Json := members.map fun m => .str m.1
  let unknown := names.filter fun x => !(x.text?.any (· ∈ fieldNames))
  have htext : ∀ x ∈ names, ∃ s, x = .str s := by
    intro x hx
    obtain ⟨m, -, rfl⟩ := List.mem_map.mp hx
    exact ⟨m.1, rfl⟩
  have hplain {p : Json → Bool} (hp : ∀ s, p (.str s) = false) : names.any p = false := by
    rw [List.any_eq_false]
    intro x hx
    obtain ⟨s, rfl⟩ := htext x hx
    simp [hp]
  have hunknown : unknown ≠ [] := by
    push Not at h
    obtain ⟨m, hm, hname⟩ := h
    refine List.ne_nil_of_mem (a := .str m.1) (List.mem_filter.mpr ⟨List.mem_map_of_mem hm, ?_⟩)
    simpa [Json.text?] using hname
  have htexts : ∀ x ∈ distinct unknown, x.text?.isSome := by
    intro x hx
    obtain ⟨s, rfl⟩ := htext x (List.mem_filter.mp (mem_of_mem_distinct hx)).1
    rfl
  obtain ⟨x, xs, hsorted⟩ := sorted?_texts htexts (distinct_ne_nil hunknown)
  refine ⟨.unknownNames ("[" ++ Text.joined ", " ((x :: xs).map shown) ++ "]"), ?_⟩
  change namesFault names = _
  rw [namesFault, hplain fun _ => rfl]
  simp only [Bool.false_eq_true, ite_false, hsorted, unknown]

/-! ### Members -/

/-- The members of the object that a text writes, each of which has the name of a setting. -/
structure SetsKnown (text : String) (members : List (String × Json)) : Prop where
  read : Json.ofText text = .ok (.obj members)
  known : ∀ m ∈ members, m.1 ∈ fieldNames

/-- The section of the layout in known members. -/
def sectionOf (members : List (String × Json)) : Except SettingsFault LayoutSection :=
  match members.lookup "serialization" with
  | some d => layoutOf d
  | none => .ok (.checked {})

theorem ofKnown_eq (members : List (String × Json)) :
  ofKnown members = (sectionOf members).bind fun layout =>
    check layout (Layout.changedField members "escape_prefix" (.str "_"))
      (Layout.changedField members "validate_names" (.bool true))
      (Layout.changedField members "correlation_id" .null)
      (Layout.changedField members "logging_level" (.str "INFO"))
  := by
  unfold ofKnown sectionOf
  cases members.lookup "serialization" <;> rfl

/-- The ways in which a text of settings is neither refused nor gives valid settings, with what it
comes to. -/
inductive Slips (text : String) : Except SettingsFault Settings → Prop
  /-- A whole number has more than 4300 digits. -/
  | numeral {f : Json.Fault} {digits : Nat} (hread : Json.ofText text = .error f)
      (hcause : f.cause = .longNumeral digits) :
    Slips text (.error (.longNumeral digits))
  /-- The section of the layout has a field that layouts do not have. -/
  | field {members fields : List (String × Json)} {reason : String} (hset : SetsKnown text members)
      (hsection : members.lookup "serialization" = some (.obj fields))
      (hreason : Layout.refusedField? fields = some reason) :
    Slips text (.error (.wrongKind reason))
  /-- The indentation is no text. -/
  | indentation {members fields : List (String × Json)} {indent : Json}
      (hset : SetsKnown text members)
      (hsection : members.lookup "serialization" = some (.obj fields))
      (hfields : Layout.refusedField? fields = none)
      (hindent : fields.lookup "indent_chars" = some indent) (hkind : indent.text? = none) :
    Slips text (.error .noSuchOperation)
  /-- The mark has no size, and the section of the layout is in order. -/
  | unsized {members : List (String × Json)} {layout : LayoutSection} {mark : Json}
      (hset : SetsKnown text members) (hsection : sectionOf members = .ok layout)
      (hmark : members.lookup "escape_prefix" = some mark) (hsize : mark.size? = none) :
    Slips text (.error (.wrongKind ("object of type '" ++ mark.kindName ++ "' has no len()")))
  /-- The section of the layout is no object, and is taken as it is. -/
  | loose {members : List (String × Json)} {d : Json} {s : Settings} (hset : SetsKnown text members)
      (hsection : members.lookup "serialization" = some d) (hkind : ∀ fields, d ≠ .obj fields)
      (htaken : ofText text = .ok s) :
    Slips text (.ok s)
  /-- The mark is a list or an object of one item. -/
  | collection {members : List (String × Json)} {mark : Json} {s : Settings}
      (hset : SetsKnown text members) (hmark : members.lookup "escape_prefix" = some mark)
      (hkind : mark.text? = none) (htaken : ofText text = .ok s) :
    Slips text (.ok s)

variable {text : String} {members : List (String × Json)}

theorem SetsKnown.ofText_eq (h : SetsKnown text members) :
  ofText text = ofKnown members
  := by
  have hall : (members.all fun m => m.1 ∈ fieldNames) = true := by simpa using h.known
  simp only [ofText, h.read, ofData, hall, ite_true]

/-- A text that sets known members is read to the settings of its section and its other members. -/
theorem SetsKnown.ofText_bind (h : SetsKnown text members) :
  ofText text = (sectionOf members).bind fun layout =>
    check layout (Layout.changedField members "escape_prefix" (.str "_"))
      (Layout.changedField members "validate_names" (.bool true))
      (Layout.changedField members "correlation_id" .null)
      (Layout.changedField members "logging_level" (.str "INFO"))
  := h.ofText_eq.trans (ofKnown_eq members)

theorem changedField_of_lookup {changes : List (String × Json)} {name : String} {value : Json}
    (h : changes.lookup name = some value) (old : Json) :
  Layout.changedField changes name old = value
  := by
  rw [Layout.changedField, h, Option.getD_some]

/-- A value that is no text, where a text stands for one that is not set, is set. -/
theorem lookup_of_changedField {changes : List (String × Json)} {name default' : String}
    {P : Json → Prop} (h : P (Layout.changedField changes name (.str default')))
    (hdefault : ¬ P (.str default')) :
  ∃ value, changes.lookup name = some value ∧ P value
  := by
  unfold Layout.changedField at h
  cases hvalue : changes.lookup name with
  | none => exact absurd (by simpa [hvalue] using h) hdefault
  | some value => exact ⟨value, rfl, by simpa [hvalue] using h⟩

theorem sectionOf_obj {fields : List (String × Json)}
    (hsection : members.lookup "serialization" = some (.obj fields)) :
  sectionOf members = (({} : Layout).update fields).map .checked
  := by
  simp only [sectionOf, hsection, layoutOf, Layout.ofMembers]

theorem sectionOf_loose {d : Json} (hsection : members.lookup "serialization" = some d)
    (hkind : ∀ fields, d ≠ .obj fields) :
  sectionOf members = .ok (.loose d)
  := by
  simp only [sectionOf, hsection]
  cases d with
  | obj fields => exact absurd rfl (hkind fields)
  | _ => rfl

/-- Settings that are read have the section and the mark that are set. -/
theorem SetsKnown.of_ok {s : Settings} (h : SetsKnown text members) (hread : ofText text = .ok s) :
  sectionOf members = .ok s.layout
    ∧ s.escapeMark = Layout.changedField members "escape_prefix" (.str "_")
  := by
  rw [h.ofText_bind] at hread
  cases hsection : sectionOf members with
  | error f => rw [hsection] at hread; cases hread
  | ok layout =>
      rw [hsection] at hread
      obtain ⟨-, -, -, hlayout, hmark, -⟩ := check_eq_ok.mp hread
      exact ⟨by rw [hlayout], hmark⟩

/-- The section of the layout in known members is a valid layout, or data of another kind, or it is
refused or slips. -/
theorem sectionOf_cases (h : SetsKnown text members) :
  (∃ l : Layout, sectionOf members = .ok (.checked l) ∧ l.IsValid)
    ∨ (∃ d, members.lookup "serialization" = some d ∧ (∀ fields, d ≠ .obj fields)
      ∧ sectionOf members = .ok (.loose d))
    ∨ ∃ f, sectionOf members = .error f ∧ (f.isRefusal ∨ Slips text (.error f))
  := by
  cases hsection : members.lookup "serialization" with
  | none => exact .inl ⟨{}, by simp only [sectionOf, hsection], Layout.isValid_default⟩
  | some d =>
      by_cases hkind : ∃ fields, d = .obj fields
      · obtain ⟨fields, rfl⟩ := hkind
        rw [sectionOf_obj hsection, Layout.update_eq]
        cases hfields : Layout.refusedField? fields with
        | some reason => exact .inr (.inr ⟨_, rfl, .inr (.field h hsection hfields)⟩)
        | none =>
            dsimp only
            cases hcheck : Layout.check (Layout.changedField fields "indent_chars" (.str "  "))
                (Layout.changedField fields "newline" (.str "\r\n"))
                (Layout.changedField fields "default_version" (.str "1.0"))
                (Layout.changedField fields "default_encoding" (.str "utf-8")) with
            | ok l => exact .inl ⟨l, rfl, (Layout.check_eq_ok.mp hcheck).2.2.2.2⟩
            | error f =>
                refine .inr (.inr ⟨f, rfl, ?_⟩)
                have hf := Layout.check_error hcheck
                split_ifs at hf with htext
                · obtain ⟨cause, rfl⟩ := hf
                  exact .inl rfl
                · obtain ⟨indent, hindent, hkind⟩ := lookup_of_changedField
                    (P := fun d => d.text?.isSome ≠ true) htext (by simp [Json.text?])
                  rw [hf]
                  exact .inr (.indentation h hsection hfields hindent (by simpa using hkind))
      · push Not at hkind
        exact .inr (.inl ⟨d, rfl, hkind, sectionOf_loose hsection hkind⟩)

/-- Behind a section of the layout that is valid, or no object, the mark and the logging level are
checked, and all goes well unless it slips. -/
theorem SetsKnown.answers_behind (h : SetsKnown text members) {layout : LayoutSection}
    (hsection : sectionOf members = .ok layout)
    (hlayout : (∃ l : Layout, layout = .checked l ∧ l.IsValid)
      ∨ ∃ d, members.lookup "serialization" = some d ∧ ∀ fields, d ≠ .obj fields) :
  Answers (ofText text) ∨ Slips text (ofText text)
  := by
  have hbind := h.ofText_bind
  rw [hsection] at hbind
  cases hread : ofText text with
  | error f =>
      have hf := check_error (hbind.symm.trans hread)
      split_ifs at hf with hsize
      · obtain ⟨cause, rfl⟩ := hf
        exact .inl rfl
      · obtain ⟨mark, hmark, hsize⟩ := lookup_of_changedField
          (P := fun d => d.size?.isSome ≠ true) hsize (by simp [Json.size?])
        rw [hf, changedField_of_lookup hmark]
        exact .inr (.unsized h hsection hmark (by simpa using hsize))
  | ok s =>
      obtain ⟨hsize, -, hlevel, hsection', hmark', -⟩ := check_eq_ok.mp (hbind.symm.trans hread)
      rcases hlayout with ⟨l, rfl, hl⟩ | ⟨d, hd, hkind⟩
      · cases hmark : s.escapeMark with
        | str m =>
            rw [← hmark', hmark] at hsize
            exact .inl ⟨⟨m, hmark, Option.some.inj hsize⟩, hlevel, l, hsection', hl⟩
        | _ =>
            have hkind :
                (Layout.changedField members "escape_prefix" (.str "_")).text? = none := by
              rw [← hmark', hmark]
              rfl
            obtain ⟨mark, hgiven, hkind⟩ := lookup_of_changedField (P := fun d => d.text? = none)
              hkind (by simp [Json.text?])
            exact .inr (.collection h hgiven hkind hread)
      · exact .inr (.loose h hd hkind hread)

/-- Known members that are not refused and do not slip give valid settings. -/
theorem SetsKnown.answers_or_slips (h : SetsKnown text members) :
  Answers (ofText text) ∨ Slips text (ofText text)
  := by
  rcases sectionOf_cases h with ⟨l, hsection, hl⟩ | ⟨d, hd, hkind, hsection⟩ | ⟨f, hsection, hf⟩
  · exact h.answers_behind hsection (.inl ⟨l, rfl, hl⟩)
  · exact h.answers_behind hsection (.inr ⟨d, hd, hkind⟩)
  · have hbind := h.ofText_bind
    rw [hsection] at hbind
    rw [hbind]
    exact hf

/-- What slips is neither refused nor valid settings. -/
theorem Slips.ofText_eq {r : Except SettingsFault Settings} (h : Slips text r) :
  ofText text = r ∧ ¬ Answers r
  := by
  cases h with
  | numeral hread hcause =>
      refine ⟨?_, nofun⟩
      simp only [ofText, hread, hcause]
  | field hset hsection hreason =>
      refine ⟨?_, nofun⟩
      rw [hset.ofText_bind, sectionOf_obj hsection, Layout.update_eq, hreason]
      rfl
  | @indentation members fields indent hset hsection hfields hindent hkind =>
      refine ⟨?_, nofun⟩
      rw [hset.ofText_bind, sectionOf_obj hsection, Layout.update_eq, hfields,
        changedField_of_lookup hindent]
      cases indent with
      | str s => cases hkind
      | _ => rfl
  | @unsized members layout mark hset hsection hmark hsize =>
      refine ⟨?_, nofun⟩
      rw [hset.ofText_bind, hsection, changedField_of_lookup hmark]
      simp only [Except.bind, check, hsize]
  | @loose members d s hset hsection hkind htaken =>
      refine ⟨htaken, fun hvalid => ?_⟩
      obtain ⟨l, hl, -⟩ := hvalid.layout
      have hlayout := (hset.of_ok htaken).1
      rw [sectionOf_loose hsection hkind, hl] at hlayout
      cases hlayout
  | @collection members mark s hset hmark hkind htaken =>
      refine ⟨htaken, fun hvalid => ?_⟩
      obtain ⟨m, hm, -⟩ := hvalid.mark
      rw [(hset.of_ok htaken).2, changedField_of_lookup hmark] at hm
      rw [hm] at hkind
      cases hkind

end Settings

/-- A text writes valid settings, or is refused as a text of settings, unless it slips: a whole
number in it is too long, or it sets known members of which the section of the layout has an unknown
field, an indentation that is no text, or the form of another value than an object, or of which the
mark is no text.  What slips is an error of another sort, or settings that are not valid. -/
theorem settings_text_valid_or_refused (text : String) :
  (Settings.Answers (Settings.ofText text) ∨ Settings.Slips text (Settings.ofText text))
    ∧ ∀ r, Settings.Slips text r → Settings.ofText text = r ∧ ¬ Settings.Answers r
  := by
  refine ⟨?_, fun r hr => hr.ofText_eq⟩
  cases hread : Json.ofText text with
  | error f =>
      cases hcause : f.cause with
      | longNumeral digits =>
          have hslips := Settings.Slips.numeral hread hcause
          exact .inr (hslips.ofText_eq.1 ▸ hslips)
      | _ =>
          refine .inl ?_
          simp only [Settings.ofText, hread, hcause]
          exact rfl
  | ok d =>
      by_cases hkind : ∃ members, d = .obj members
      · obtain ⟨members, rfl⟩ := hkind
        by_cases hknown : ∀ m ∈ members, m.1 ∈ Settings.fieldNames
        · exact Settings.SetsKnown.answers_or_slips ⟨hread, hknown⟩
        · obtain ⟨cause, hcause⟩ := Settings.namesFault_unknown hknown
          have hall : ¬ (members.all fun m => m.1 ∈ Settings.fieldNames) = true := by
            simpa using hknown
          refine .inl ?_
          simp only [Settings.ofText, hread, Settings.ofData, if_neg hall, hcause]
          exact rfl
      · refine .inl ?_
        have hobject : Settings.ofText text = .error .notObject := by
          simp only [Settings.ofText, hread]
          cases d with
          | obj members => exact absurd ⟨members, rfl⟩ hkind
          | _ => rfl
        rw [hobject]
        exact rfl

/-- A section of the layout with an unknown field is neither read to settings nor refused. -/
theorem unknown_field_not_refused :
  let text := "\x7b\"serialization\": \x7b\"width\": 80\x7d\x7d"
  (∃ f, Settings.ofText text = .error f ∧ f.isRefusal = false
      ∧ f.message = "SerializationConfig.__init__() got an unexpected keyword argument 'width'")
    ∧ ¬ Settings.Answers (Settings.ofText text)
  := by
  intro text
  have hfault : (Settings.fault? (Settings.ofText text)).map (fun f => (f.isRefusal, f.message))
      = some (false,
        "SerializationConfig.__init__() got an unexpected keyword argument 'width'") := by
    decide +kernel
  cases hread : Settings.ofText text with
  | ok s =>
      rw [hread] at hfault
      cases hfault
  | error f =>
      rw [hread, Settings.fault?, Option.map_some, Option.some_inj, Prod.mk.injEq] at hfault
      refine ⟨⟨f, rfl, hfault⟩, fun hanswers => ?_⟩
      exact Bool.false_ne_true (hfault.1.symm.trans hanswers)

end XmlDraft
