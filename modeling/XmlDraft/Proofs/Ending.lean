import XmlDraft.Proofs.Files
import XmlDraft.Proofs.Reporting
import XmlDraft.Proofs.Rereading

/-!
# How formatting ends

A file that is formatted with the settings by default is either read and written, or it cannot be
read.  Main statement: every failure to read is reported in a line and has a status of its own, but
for octets that declare an encoding of which no table is known: they end the program before it has a
status.
-/

namespace XmlDraft

namespace Reading

/-! ### Encodings that are missing -/

/-- Whether no table is known of the encoding of a name that is declared. -/
def InputEncoding.lacks (shown : InputEncoding) (name : List Char) : Bool :=
  (ofName? shown name).isNone && (codePage? (String.ofList name)).isNone

/-- The encoding that the declaration of octets asks for, if no table of it is known. -/
def missingEncoding? (os : List UInt8) : Option String := do
  let (shown, lead) ← detect? os
  let (text, _) ← headingText? (shown.script ({} : Manner).alphabet os lead)
  let heading ← (Heading.ofText text).toOption
  let (name, _) ← heading.encoding
  if shown.lacks name then some (String.ofList name) else none

theorem declared_missing {e : InputEncoding} {s : Script} {name here : List Char} {n : String} :
  e.declared s name here = .error (.noSuchEncoding n) ↔ e.lacks name ∧ String.ofList name = n
  := by
  unfold InputEncoding.declared InputEncoding.lacks Script.refusal
  dsimp only
  cases InputEncoding.ofName? e name with
  | some new =>
      dsimp only
      split_ifs <;> simp
  | none =>
      cases codePage? (String.ofList name) with
      | none => simp
      | some page => cases page <;> simp

/-- Octets cannot begin for want of an encoding just if their declaration asks for one that is
missing. -/
theorem beginSource_missing {os : List UInt8} {n : String} :
  beginSource {} (.octets os) = .error (.noSuchEncoding n) ↔ missingEncoding? os = some n
  := by
  unfold beginSource missingEncoding?
  dsimp only
  cases detect? os with
  | none => simp [begin, headingText?]
  | some found =>
      obtain ⟨shown, lead⟩ := found
      unfold begin
      cases hheading : headingText? (shown.script ({} : Manner).alphabet os lead) with
      | none => simp [hheading]
      | some parts =>
          obtain ⟨text, rest⟩ := parts
          cases htext : Heading.ofText text with
          | error cs => simp [hheading, htext, Script.refusal, Except.toOption]
          | ok heading =>
              cases hencoding : heading.encoding with
              | none => simp [hheading, htext, hencoding, Except.toOption]
              | some named =>
                  obtain ⟨name, here⟩ := named
                  simp only [hheading, htext, hencoding, Except.toOption, switchScript,
                    Option.bind_eq_bind, Option.bind_some, Bool.false_eq_true, if_false]
                  have hif : (if shown.lacks name then some (String.ofList name) else none) = some n
                      ↔ shown.lacks name ∧ String.ofList name = n := by simp
                  rw [hif, ← declared_missing]
                  cases shown.declared _ name _ with
                  | error u => simp [bind, Except.bind]
                  | ok new => simp [bind, Except.bind]

/-! ### Failures to read -/

namespace Assembly

variable {a : Assembly} {f : Fault}

/-- Why a node or a tag does not fit into a document. -/
def IsUnfit (f : Fault) : Prop :=
  (∃ m, f = .misplaced m) ∨ f = .emptyLocalPart

theorem attach_error {n : Node} (h : a.attach n = .error f) :
  IsUnfit f
  := by
  unfold attach at h
  split at h
  · cases h
  · cases happend : a.document.append n with
    | error m =>
        rw [happend] at h
        cases h
        exact .inl ⟨m, rfl⟩
    | ok d =>
        rw [happend] at h
        cases h

theorem step_error {e : Event} (h : a.step e = .error f) :
  IsUnfit f
  := by
  cases e with
  | start t =>
      simp only [step, openTag] at h
      split at h
      · cases h
        exact .inr rfl
      · cases h
  | finish =>
      simp only [step, closeTag] at h
      split at h
      · exact attach_error h
      · cases h
  | comment text =>
      simp only [step, addComment] at h
      split_ifs at h
      exact attach_error h
  | doctypeEnd =>
      simp only [step, closeDoctype] at h
      split at h
      · cases h
      · exact attach_error h
  | cdataEnd =>
      simp only [step, closeSection] at h
      split at h
      · split_ifs at h
        exact attach_error h
      · cases h
  | _ => cases h

theorem run_error {es : List Event} (h : a.run es = .error f) :
  IsUnfit f
  := by
  induction es generalizing a with
  | nil => cases h
  | cons e es ih =>
      cases hstep : a.step e with
      | error g =>
          rw [run, hstep] at h
          cases h
          exact step_error hstep
      | ok b =>
          rw [run, hstep] at h
          exact ih h

end Assembly

end Reading

open Reading

/-- A source cannot be read because it cannot begin, because its markup is refused, or because its
events make no document. -/
theorem readDocument_error {source : Source} {f : Fault} (h : readDocument source = .error f) :
  (∃ u, beginSource {} source = .error u ∧ f = .unreadable u)
    ∨ (∃ b, beginSource {} source = .ok b) ∧ ((∃ cause p, f = .unreadable (.malformed cause p))
      ∨ f = .unreadable .rootless ∨ Assembly.IsUnfit f)
  := by
  cases hbegun : beginSource {} source with
  | error u =>
      simp only [readDocument, events, hbegun, bind, Except.bind, Except.mapError,
        Except.error.injEq] at h
      exact .inl ⟨u, rfl, h.symm⟩
  | ok b =>
      refine .inr ⟨⟨b, rfl⟩, ?_⟩
      simp only [readDocument, events, hbegun, bind, Except.bind] at h
      cases hmarkup : wholeMarkup b.script.medium {} (b.script.medium.account source.bytes.length)
          { b.prolog with types := none } b.rest with
      | error failure =>
          simp only [hmarkup, Bool.false_eq_true, if_false, Except.mapError,
            Except.error.injEq] at h
          exact .inl ⟨_, _, h.symm⟩
      | ok es =>
          simp only [hmarkup, Bool.false_eq_true, if_false, Except.mapError, Document.ofEvents,
            bind, Except.bind] at h
          split at h
          · rename_i hrun
            cases h
            exact .inr (.inr (Assembly.run_error hrun))
          · split_ifs at h
            cases h
            exact .inr (.inl rfl)

/-- Reading octets fails for want of an encoding just if their declaration asks for one that is
missing. -/
theorem readDocument_missing {os : List UInt8} {n : String} :
  readDocument (.octets os) = .error (.unreadable (.noSuchEncoding n))
    ↔ missingEncoding? os = some n
  := by
  rw [← beginSource_missing]
  constructor
  · intro h
    obtain ⟨u, hu, heq⟩ | ⟨-, ⟨_, _, heq⟩ | heq | ⟨_, heq⟩ | heq⟩ := readDocument_error h
    · cases heq
      exact hu
    all_goals cases heq
  · intro h
    simp only [readDocument, events, h, bind, Except.bind, Except.mapError]

/-! ### Writing what was read -/

/-- A document that was read can be written in any layout with the words by default. -/
theorem render_read {source : Source} {d : Document} (h : readDocument source = .ok d)
    {layout : Layout} (hlayout : Writing.IsStandard layout) (indented : Bool) :
  (∃ text, d.render layout indented = .ok text)
    ∧ ∃ encoding, OutputEncoding.select d.declaration = .ok encoding
  := by
  obtain ⟨m, declarations, front, others, haccepted, -⟩ := readDocument_ok h
  refine ⟨?_, Builder.select_legible haccepted.declaration⟩
  obtain ⟨head, hhead⟩ := Writing.exists_head hlayout haccepted.declaration
  have hsound : ∀ n ∈ Node.nodesList others, n.IsSound := by
    intro n hn
    obtain ⟨_, hwritable⟩ := haccepted.others.writable.nodes n hn
    exact hwritable.isSound
  have hprint : Writing.allPrintableList d.children := by
    rw [haccepted.children, Writing.allPrintableList_append, haccepted.front.allPrintable,
      (Writing.allPrintableList_sound none hsound).1]
    rfl
  rw [Document.render, show d = ⟨d.declaration, d.children⟩ from rfl, hhead.written _ _ hprint]
  exact ⟨_, rfl⟩

/-! ### Files -/

namespace Storage

/-- A path to which a file can be written: the folders around it are there or can be made, and what
stands there is no folder. -/
def IsWritable (s : Storage) (p : FilePath) : Prop :=
  ∃ s', s.makeFolders p.parent = (s', .ok ()) ∧ ∀ octets, ∃ s'', s'.write p octets = .ok s''

/-- A file that is read is there. -/
theorem holds_of_read {s : Storage} {p : FilePath} {octets : List UInt8}
    (h : s.read p = .ok octets) :
  s.holds p = .ok true
  := by
  obtain ⟨place, hlocate, h⟩ := bind_ok h
  unfold holds
  rw [hlocate]
  split at h
  · rename_i hfile
    simp [hfile]
  · cases h
  · cases h

end Storage

namespace Command

/-! ### Settings -/

/-- Without a file of settings they are those by default, but for the end of lines. -/
theorem settingsFor_plain (s : Storage) {o : Options} (h : o.config = none) :
  ∃ settings layout level, settingsFor s o = .ok settings ∧ settings.layout = .checked layout
    ∧ Writing.IsStandard layout ∧ thresholdOf o settings = .ok level
  := by
  let layout (newline : String) : Layout := { newline := newline }
  have hnewline : ({} : Settings).override [("serialization__newline", .str "\n")]
      = .ok { layout := .checked (layout "\n") } := by
    rfl
  have hthreshold (settings : Settings) (hlevel : settings.loggingLevel = "INFO") :
      ∃ level, thresholdOf o settings = .ok level := by
    have hinfo : Log.levelOf? settings.loggingLevel = some .info := by
      rw [hlevel]
      rfl
    unfold thresholdOf
    split_ifs
    · exact ⟨_, rfl⟩
    · exact ⟨_, rfl⟩
    · exact ⟨.info, by rw [hinfo]⟩
  unfold settingsFor
  rw [h]
  cases o.unixNewlines with
  | false =>
      obtain ⟨level, hlevel⟩ := hthreshold {} rfl
      exact ⟨_, _, level, rfl, rfl, ⟨rfl, rfl⟩, hlevel⟩
  | true =>
      obtain ⟨level, hlevel⟩ := hthreshold { layout := .checked (layout "\n") } rfl
      refine ⟨_, _, level, ?_, rfl, ⟨rfl, rfl⟩, hlevel⟩
      simp only [pure, Except.pure, bind, Except.bind, hnewline, Except.mapError, if_true]

/-! ### Delivering -/

/-- Writing the octets of a document leaves it as it is. -/
theorem renderOctets_draft (b : Builder) (indented : Bool) :
  (b.renderOctets indented).1.draft = b.draft
  := by
  unfold Builder.renderOctets
  split
  · rfl
  · exact b.render_draft indented

/-- A builder is delivered if its document can be written, and the file where it is put. -/
theorem deliver_ok {s : Storage} {o : Options} {b : Builder} {text : String}
    {encoding : OutputEncoding} (htext : (b.render o.indent).2 = .ok text)
    (hencoding : OutputEncoding.select b.draft.document.declaration = .ok encoding)
    (houtput : ∀ name ∈ o.output, s.IsWritable (.ofText name)) :
  ∃ product, (deliver s o b).outcome = .ok product
  := by
  unfold deliver
  cases hname : o.output with
  | none => exact ⟨.printed text, by simp only [htext, Except.map, Except.mapError]⟩
  | some name =>
      obtain ⟨s', hfolders, hwrite⟩ := houtput name hname
      have hoctets := Builder.renderOctets_eq hencoding htext
      obtain ⟨s'', hwritten⟩ := hwrite (encoding.encode text.toList)
      cases hrendered : b.renderOctets o.indent with
      | mk b' outcome =>
          rw [hrendered] at hoctets
          dsimp only at hoctets
          subst hoctets
          have hdraft : b'.draft = b.draft := by
            have hkept := renderOctets_draft b o.indent
            rwa [hrendered] at hkept
          have hagain : b'.encoding = .ok encoding := by
            rw [Builder.encoding, hdraft, hencoding]
            rfl
          refine ⟨.written (.ofText name) encoding, ?_⟩
          simp only [hfolders, hwritten, hagain, Except.map, Except.mapError]

/-! ### Formatting -/

section Formatting

variable {w : Surroundings} {path : String} {o : Options} {octets : List UInt8}

/-- What the first half of formatting a file that is there comes to. -/
theorem prepare_format (hconfig : o.config = none)
    (hread : w.storage.read (.ofText path) = .ok octets) :
  ∃ settings layout level, settings.layout = .checked layout ∧ Writing.IsStandard layout
    ∧ (Task.format path).missing? w.storage = .ok none
    ∧ (Task.format path).prepare w o = ⟨some level, (Builder.ofSource settings (.octets octets)).1,
        (Builder.ofSource settings (.octets octets)).2.mapError .fault⟩
  := by
  obtain ⟨settings, layout, level, hsettings, hlayout, hstandard, hlevel⟩ :=
    settingsFor_plain w.storage hconfig
  refine ⟨settings, layout, level, hlayout, hstandard, ?_, ?_⟩
  · simp [Task.missing?, Storage.holds_of_read hread, bind, Except.bind, Except.mapError]
  · simp [Task.prepare, hsettings, hlevel, bind, Except.bind, Task.builder, hread]

/-- A file that is read is formatted. -/
theorem format_ok (hconfig : o.config = none)
    (hread : w.storage.read (.ofText path) = .ok octets)
    (houtput : ∀ name ∈ o.output, w.storage.IsWritable (.ofText name)) {d : Document}
    (hd : readDocument (.octets octets) = .ok d) :
  ((Task.format path).run w o).ending = .status 0
  := by
  obtain ⟨settings, layout, level, hlayout, hstandard, hmissing, hprepare⟩ :=
    prepare_format hconfig hread
  obtain ⟨b, hb, hsettings, hdocument⟩ := Builder.ofSource_document settings hd
  obtain ⟨⟨text, htext⟩, encoding, hencoding⟩ := render_read hd hstandard o.indent
  have hrender : (b.render o.indent).2 = .ok text :=
    Builder.render_document (by rw [hsettings, hlayout]) ⟨encoding, by rw [hdocument, hencoding]⟩
      (by rw [hdocument, htext])
  obtain ⟨product, hproduct⟩ := deliver_ok hrender (by rw [hdocument, hencoding]) houtput
  have houtcome : ((Task.format path).prepare w o).outcome = .ok b := by
    rw [hprepare, hb]
    rfl
  simp only [Task.run, hmissing, houtcome, hproduct]
  cases product <;> rfl

/-- Formatting a file that cannot be read comes to the report of that failure. -/
theorem format_error (hconfig : o.config = none)
    (hread : w.storage.read (.ofText path) = .ok octets) {f : Fault}
    (hf : readDocument (.octets octets) = .error f) :
  ∃ level records, (Task.format path).run w o
    = Report.ofFailure w.storage (.format path) (some level) records (.fault f)
  := by
  obtain ⟨settings, _, level, _, _, hmissing, hprepare⟩ := prepare_format hconfig hread
  have hb : (Builder.ofSource settings (.octets octets)).2 = .error f := by
    unfold Builder.ofSource
    rw [hf]
    rfl
  refine ⟨level, (Builder.ofSource settings (.octets octets)).1, ?_⟩
  simp only [Task.run, hmissing, hprepare, hb, Except.mapError]

end Formatting

/-- A failure that is reported has a line of its own and the status one, and changes no file. -/
theorem Report.ofFailure_reported {s : Storage} {t : Task} {threshold : Option Log.Level}
    {records : List Log.Record} {f : Failure} (hf : f.isReported) :
  ∃ before, Report.ofFailure s t threshold records f =
    { notices := before ++ [.text ("Error: " ++ f.message ++ "\n")], storage := s
      ending := .status 1 }
  := by
  unfold Report.ofFailure
  dsimp only
  split
  · cases hf
  · rw [if_pos hf]
    exact ⟨_, rfl⟩

/-- Only octets that declare an encoding that is missing cannot be read for a reason that is not
reported. -/
theorem isReported_of_read {octets : List UInt8} {f : Fault}
    (hf : readDocument (.octets octets) = .error f) (hmissing : missingEncoding? octets = none) :
  (Failure.fault f).isReported
  := by
  obtain ⟨u, -, rfl⟩ | ⟨-, ⟨_, _, rfl⟩ | rfl | ⟨_, rfl⟩ | rfl⟩ := readDocument_error hf
  · cases u with
    | noSuchEncoding n =>
        rw [readDocument_missing.mp hf] at hmissing
        cases hmissing
    | _ => rfl
  all_goals rfl

end Command

open Command (Request)

/-- How a command line ends that formats a file with the settings by default, into a file that can
be written or onto the standard output: with status zero if the file can be read, and with status
one and a line on the failure if not, unless the octets declare an encoding that is missing, which
ends the program. -/
theorem formatting_ends {w : Command.Surroundings} {words : List String} {path : String}
    {o : Command.Options} {octets : List UInt8}
    (hwords : Request.ofWords words = .task (.format path) o) (hconfig : o.config = none)
    (hread : w.storage.read (.ofText path) = .ok octets)
    (houtput : ∀ name ∈ o.output, w.storage.IsWritable (.ofText name)) :
  (∀ d, readDocument (.octets octets) = .ok d → (Command.run w words).ending = .status 0)
    ∧ (∀ f, readDocument (.octets octets) = .error f → missingEncoding? octets = none →
      ∃ before, Command.run w words =
        { notices := before ++ [.text ("Error: " ++ f.message ++ "\n")], storage := w.storage
          ending := .status 1 })
    ∧ ∀ name, missingEncoding? octets = some name →
      (Command.run w words).ending = .failed (.fault (.unreadable (.noSuchEncoding name)))
  := by
  rw [Command.run, hwords, Request.run]
  refine ⟨fun d hd => Command.format_ok hconfig hread houtput hd, ?_, ?_⟩
  · intro f hf hmissing
    obtain ⟨level, records, hrun⟩ := Command.format_error hconfig hread hf
    rw [hrun]
    exact Command.Report.ofFailure_reported (Command.isReported_of_read hf hmissing)
  · intro name hname
    obtain ⟨level, records, hrun⟩ :=
      Command.format_error hconfig hread (readDocument_missing.mpr hname)
    rw [hrun]
    rfl

/-- A malformed file that would be written into a new folder. -/
theorem formatting_ends_of_malformed :
  let octets : List UInt8 := "<a>\n<b></a>".toList.map fun c => c.toNat.toUInt8
  let w : Command.Surroundings := ⟨⟨[], [(["a"], .file octets)]⟩, {}⟩
  let words := ["-q", "format", "-i", "--output", "b/c", "a", "--unix-newlines"]
  ∃ before, Command.run w words =
    { notices := before ++ [.text "Error: mismatched tag (line 2, column 5)\n"]
      storage := w.storage, ending := .status 1 }
  := by
  intro octets w words
  have hoctets : readDocument (.octets octets)
      = .error (.unreadable (.malformed .mismatchedTag ⟨2, 5⟩)) := by
    rfl
  have hwords : Request.ofWords words = .task (.format "a")
      { quiet := true, indent := true, output := some "b/c", unixNewlines := true } := by
    rfl
  have hread : w.storage.read (.ofText "a") = .ok octets := rfl
  have houtput : ∀ name ∈ some "b/c", w.storage.IsWritable (.ofText name) := by
    rintro name ⟨⟩
    exact ⟨_, rfl, fun octets => ⟨_, rfl⟩⟩
  exact (formatting_ends hwords rfl hread houtput).2.1 _ hoctets rfl

/-- A file that declares an encoding of which no table is known ends the program. -/
theorem formatting_fails_of_encoding :
  let octets : List UInt8 := "<?xml version=\"1.0\" encoding=\"foo\"?><a/>".toList.map
    fun c => c.toNat.toUInt8
  let w : Command.Surroundings := ⟨⟨[], [(["a"], .file octets)]⟩, {}⟩
  (Command.run w ["format", "a"]).ending = .failed (.fault (.unreadable (.noSuchEncoding "foo")))
  := by
  rfl

end XmlDraft
