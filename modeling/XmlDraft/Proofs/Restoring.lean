import XmlDraft.Proofs.JsonText
import XmlDraft.Proofs.SettingsText

/-!
# Settings that survive their text

The text of valid settings sets every member of the settings and every field of their layout, so
that reading it finds them all.  Main statement: what is read is the settings that were written.
-/

namespace XmlDraft

namespace Settings

/-- Settings whose fields hold what they are meant to hold: a truth value for the checks of names,
a text or nothing that marks the log, and texts for the version and the encoding. -/
structure IsTyped (s : Settings) : Prop where
  names : ∃ b, s.checkNames = .bool b
  correlation : s.correlation = .null ∨ ∃ mark, s.correlation = .str mark
  layout : ∀ l, s.layout = .checked l → (∃ v, l.version = .str v) ∧ ∃ e, l.encoding = .str e

variable {s : Settings}

theorem data_layout {l : Layout} (h : s.layout = .checked l) :
  s.layout.data = .obj l.members
  := by
  rw [h]
  rfl

/-- The data of typed settings holds no numbers. -/
theorem IsTyped.isTextual_data (h : s.IsTyped) (hs : s.IsValid) :
  s.data.IsTextual
  := by
  obtain ⟨m, hm, -⟩ := hs.mark
  obtain ⟨l, hl, -⟩ := hs.layout
  obtain ⟨b, hb⟩ := h.names
  obtain ⟨⟨v, hv⟩, e, he⟩ := h.layout l hl
  have hcorrelation : s.correlation.IsTextual := by
    rcases h.correlation with hnull | ⟨mark, hmark⟩
    · exact hnull ▸ .null
    · exact hmark ▸ .str mark
  have hlayout : s.layout.data.IsTextual := by
    rw [data_layout hl, Layout.members, hv, he]
    refine .obj (show Layout.fieldNames.Nodup by decide) ?_
    simp only [List.forall_mem_cons, List.not_mem_nil, false_implies, implies_true, and_true]
    exact ⟨.str _, .str _, .str _, .str _⟩
  refine .obj (show fieldNames.Nodup by decide) ?_
  simp only [members, List.forall_mem_cons, List.not_mem_nil, false_implies, implies_true, and_true]
  exact ⟨hlayout, hm ▸ .str m, hb ▸ .bool b, hcorrelation, .str _⟩

end Settings

/-- A valid layout is what its own fields set. -/
theorem Layout.ofMembers_members {l : Layout} (h : l.IsValid) :
  Layout.ofMembers l.members = .ok l
  := by
  refine Layout.update_ok.mpr ⟨by simp [members, fieldNames], h, fun field hfield => ?_⟩
  obtain ⟨value, hvalue⟩ : ∃ value, l.members.lookup field = some value := by
    simp only [fieldNames, List.mem_cons, List.not_mem_nil, or_false] at hfield
    rcases hfield with rfl | rfl | rfl | rfl <;> exact ⟨_, rfl⟩
  rw [hvalue, Option.some_or]

namespace Settings

variable {s : Settings}

/-- Valid settings are what their own members set. -/
theorem ofKnown_members (h : s.IsValid) :
  ofKnown s.members = .ok s
  := by
  obtain ⟨m, hm, hlength⟩ := h.mark
  obtain ⟨l, hl, hvalid⟩ := h.layout
  have hsection : sectionOf s.members = .ok s.layout := by
    have hlookup : s.members.lookup "serialization" = some (.obj l.members) :=
      congrArg some (data_layout hl)
    rw [sectionOf_obj hlookup, hl]
    exact congrArg (Except.map _) (Layout.ofMembers_members hvalid)
  rw [ofKnown_eq, hsection]
  refine check_eq_ok.mpr ⟨?_, rfl, h.level, rfl, rfl, rfl, rfl⟩
  rw [hm, Json.size?, hlength]

end Settings

/-- Valid settings are written as text with any indentation, and the text is read as the same
settings: the marks, the version and the encoding may hold any characters. -/
theorem settings_survive_text {s : Settings} (h : s.IsValid) (htyped : s.IsTyped) (indent : Int) :
  ∃ text, s.toText (.int indent) = .ok text ∧ Settings.ofText text = .ok s
  := by
  have hdata := htyped.isTextual_data h
  let unit := String.ofList (List.replicate indent.toNat ' ')
  refine ⟨s.data.text (some unit), ?_, ?_⟩
  · simp only [Settings.toText, Settings.indentation, bind, Except.bind,
      Json.isWritable_of_isTextual hdata, if_true, unit]
  · have hread : Json.ofText (s.data.text (some unit)) = .ok (.obj s.members) := by
      refine Json.ofText_text hdata ?_
      intro blanks hblanks c hc
      rw [← Option.some.inj hblanks] at hc
      rw [String.toList_ofList] at hc
      rw [List.eq_of_mem_replicate hc]
      rfl
    have hknown : Settings.SetsKnown (s.data.text (some unit)) s.members :=
      ⟨hread, by simp [Settings.members, Settings.fieldNames]⟩
    rw [hknown.ofText_eq, Settings.ofKnown_members h]

/-- A mark beyond the basic plane, and texts with quotes, controls, separators of lines and
characters that are not printed. -/
theorem settings_survive_text_of_escapes :
  let layout : Layout :=
    { indent := " \t", newline := "\r", version := .str "\"1\\1\"\x00",
      encoding := .str "\x7f\u2028" }
  let s : Settings :=
    { layout := .checked layout, escapeMark := .str "😀", checkNames := .bool false,
      correlation := .str "\x08\x0c\n\r\t/\x1f𝔘\uffff", loggingLevel := "ERROR" }
  s.IsValid ∧ s.IsTyped ∧ ∃ text, s.toText (.int 3) = .ok text ∧ Settings.ofText text = .ok s
  := by
  intro layout s
  have hcheck : Layout.check (.str " \t") (.str "\r") layout.version layout.encoding = .ok layout :=
    rfl
  have hlayout : layout.IsValid := (Layout.check_eq_ok.mp hcheck).2.2.2.2
  have hvalid : s.IsValid := ⟨⟨"😀", rfl, rfl⟩, by decide, layout, rfl, hlayout⟩
  have htyped : s.IsTyped := by
    refine ⟨⟨false, rfl⟩, .inr ⟨_, rfl⟩, ?_⟩
    rintro l hl
    cases hl
    exact ⟨⟨_, rfl⟩, _, rfl⟩
  exact ⟨hvalid, htyped, settings_survive_text hvalid htyped 3⟩

end XmlDraft
