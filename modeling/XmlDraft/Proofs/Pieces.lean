import XmlDraft.Proofs.Phases

/-!
# Data in pieces

The data of an event may come at once or in pieces, one event for each: character data, and what is
written where nothing else is told of it.  Adding two pieces one after the other is adding them
together, so that all pieces are taken as the one event is.  A text goes on behind what leaves
nothing in the tree.  Main statement: a well-formed document is put together in the same way however
its data is cut.
-/

namespace XmlDraft

namespace Reading

/-! ### Cutting events -/

/-- What an event tells as it is written: an instruction, markup in the document type, or a
reference that is not replaced. -/
def Event.written? : Event → Option (List Char)
  | instruction raw _ _ => some raw
  | plain raw => some raw
  | unresolved name => some ('&' :: name.toList ++ [';'])
  | _ => none

/-- The ways in which an event may come: as it is, or with its character data or what it tells as
written in consecutive pieces that are not empty. -/
inductive Event.Cuts : Event → List Event → Prop
  | whole (e : Event) : Cuts e [e]
  | characters (pieces : List (List Char)) (hpieces : ∀ piece ∈ pieces, piece ≠ []) :
      Cuts (.characters pieces.flatten) (pieces.map .characters)
  | written (e : Event) (pieces : List (List Char)) (hpieces : ∀ piece ∈ pieces, piece ≠ [])
      (he : e.written? = some pieces.flatten) : Cuts e (pieces.map .plain)

/-- Events that come one after another, each in one of the ways in which it may come. -/
inductive Divides : List Event → List Event → Prop
  | nil : Divides [] []
  | cons {e : Event} {es part cut : List Event} :
      e.Cuts part → Divides es cut → Divides (e :: es) (part ++ cut)

/-- Events may come as they are. -/
theorem Divides.refl (es : List Event) :
  Divides es es
  := by
  induction es with
  | nil => exact .nil
  | cons e es ih => exact .cons (.whole e) ih

/-- Events that make up one text: character data, and between it what leaves nothing in the tree,
such as instructions and empty CDATA sections. -/
inductive MakesText : List Event → List Char → Prop
  | nil : MakesText [] []
  | characters {es : List Event} {cs : List Char} (ds : List Char) :
      MakesText es cs → MakesText (.characters ds :: es) (ds ++ cs)
  | written {e : Event} {es : List Event} {cs : List Char} (he : e.written?.isSome) :
      MakesText es cs → MakesText (e :: es) cs
  | emptySection {es : List Event} {cs : List Char} :
      MakesText es cs → MakesText (.cdataStart :: .cdataEnd :: es) cs

/-! ### Pieces one after another -/

namespace Assembly

variable {a : Assembly}

theorem addCharacters_append (a : Assembly) (s t : String) :
  (a.addCharacters s).addCharacters t = a.addCharacters (s ++ t)
  := by
  obtain ⟨document, opened, spaces, doctype, subset, openSection⟩ := a
  cases openSection with
  | some before => simp [addCharacters, String.append_assoc]
  | none =>
      cases opened with
      | nil => rfl
      | cons o others => simp [addCharacters, join_join]

theorem addToSubset_append (a : Assembly) (s t : String) :
  (a.addToSubset s).addToSubset t = a.addToSubset (s ++ t)
  := by
  simp [addToSubset, Function.comp_def, String.append_assoc]

theorem addToSubset_empty (a : Assembly) :
  a.addToSubset "" = a
  := by
  simp [addToSubset]

/-- Where two pieces one after the other are taken as both together, so are all pieces. -/
theorem run_map (make : List Char → Event) (add : Assembly → List Char → Assembly)
    (hstep : ∀ (a : Assembly) (cs : List Char), a.step (make cs) = .ok (add a cs))
    (happend : ∀ (a : Assembly) (cs ds : List Char), add (add a cs) ds = add a (cs ++ ds))
    (a : Assembly)
    {pieces : List (List Char)} (hne : pieces ≠ []) :
  a.run (pieces.map make) = .ok (add a pieces.flatten)
  := by
  induction pieces generalizing a with
  | nil => exact absurd rfl hne
  | cons piece pieces ih =>
      rw [List.map_cons, Assembly.run, hstep]
      cases pieces with
      | nil => simp [Assembly.run, bind, Except.bind]
      | cons next more =>
          -- the first piece is already added to what the others are added to
          rw [List.flatten_cons, ← happend]
          exact ih (add a piece) (List.cons_ne_nil next more)

theorem run_characters (a : Assembly) {pieces : List (List Char)} (hne : pieces ≠ []) :
  a.run (pieces.map .characters) = a.step (.characters pieces.flatten)
  := by
  apply run_map .characters (fun a cs => a.addCharacters (String.ofList cs)) _ _ a hne
  · intro a cs
    rfl
  · intro a cs ds
    rw [addCharacters_append, String.ofList_append]

theorem run_plain (a : Assembly) (pieces : List (List Char)) :
  a.run (pieces.map .plain) = .ok (a.addToSubset (String.ofList pieces.flatten))
  := by
  by_cases hne : pieces = []
  · rw [hne, List.map_nil, List.flatten_nil, String.ofList_nil, addToSubset_empty]
    rfl
  · apply run_map .plain (fun a cs => a.addToSubset (String.ofList cs)) _ _ a hne
    · intro a cs
      rfl
    · intro a cs ds
      rw [addToSubset_append, String.ofList_append]

end Assembly

/-! ### Cut data -/

variable {a b : Assembly} {p q : Phase} {e : Event} {es part cut : List Event}

/-- What an event tells as it is written goes to the subset, if there is one. -/
theorem Follows.step_written (h : Follows p e q) (ha : a.Fits p) {cs : List Char}
    (he : e.written? = some cs) :
  a.step e = .ok (a.addToSubset (String.ofList cs))
  := by
  cases h with
  | instruction raw target data hp =>
      cases he
      rfl
  | plain raw hp =>
      cases he
      rfl
  | unresolved depth name => rw [Assembly.addToSubset_outside ha.1, Assembly.step]
  | _ => cases he

/-- An event is taken in the same way however it comes. -/
theorem Follows.run_cut (h : Follows p e q) (ha : a.Fits p)
    (hdata : ∀ cs, e = .characters cs → cs ≠ []) (hcuts : e.Cuts part) :
  a.run part = a.step e
  := by
  cases hcuts with
  | whole => exact bind_pure _
  | characters pieces =>
      have hne : pieces ≠ [] := by
        intro hnil
        exact hdata _ rfl (by rw [hnil, List.flatten_nil])
      exact a.run_characters hne
  | written _ pieces _ he => rw [Assembly.run_plain, h.step_written ha he]

/-- Events in order are taken in the same way however they come. -/
theorem Divides.run (hdivides : Divides es cut) (h : Proceeds p es q) (hdata : HasData es)
    (ha : a.Fits p) :
  a.run cut = a.run es
  := by
  -- both runs go on from the assembly behind the same event, in whatever phase that is
  induction hdivides generalizing a p with
  | nil => rfl
  | @cons e es part cut hcuts _ ih =>
      cases h with
      | cons hfollows hproceeds =>
          obtain ⟨hfirst, hothers⟩ := hasData_cons.mp hdata
          obtain ⟨b, hstep, hb⟩ := hfollows.step ha
          rw [Assembly.run_append, hfollows.run_cut ha hfirst hcuts, Assembly.run, hstep]
          exact ih hproceeds hothers hb

/-! ### Texts -/

namespace Assembly

/-- Character data added, if there is any. -/
def withText (a : Assembly) (cs : List Char) : Assembly :=
  if cs = [] then a else a.addCharacters (String.ofList cs)

theorem withText_append (a : Assembly) (cs ds : List Char) :
  (a.withText cs).withText ds = a.withText (cs ++ ds)
  := by
  by_cases hcs : cs = []
  · simp [withText, hcs]
  · by_cases hds : ds = []
    · simp [withText, hds]
    · simp [withText, hcs, hds, addCharacters_append, String.ofList_append]

theorem Fits.withText {depth : Nat} (ha : a.Fits (.content depth)) (cs : List Char) :
  (a.withText cs).Fits (.content depth)
  := by
  unfold Assembly.withText
  split_ifs
  · exact ha
  · obtain ⟨b, hstep, hb⟩ := (Follows.characters depth cs).step ha
    cases hstep
    exact hb

end Assembly

/-- Events that make up a text add it inside an element, and nothing else. -/
theorem MakesText.run {cs : List Char} (h : MakesText es cs) {depth : Nat}
    (ha : a.Fits (.content depth)) (hdata : HasData es) :
  a.run es = .ok (a.withText cs)
  := by
  induction h generalizing a with
  | nil => rfl
  | @characters es cs ds _ ih =>
      obtain ⟨hfirst, hothers⟩ := hasData_cons.mp hdata
      have hstep : a.step (.characters ds) = .ok (a.withText ds) := by
        rw [Assembly.withText, if_neg (hfirst ds rfl)]
        rfl
      rw [Assembly.run, hstep, ← Assembly.withText_append]
      exact ih (ha.withText ds) hothers
  | @written e es cs he _ ih =>
      have hstep : a.step e = .ok a := by
        cases e with
        | instruction raw target data => exact congrArg _ (Assembly.addToSubset_outside ha.1 _)
        | plain raw => exact congrArg _ (Assembly.addToSubset_outside ha.1 _)
        | unresolved name => rfl
        | _ => cases he
      rw [Assembly.run, hstep]
      exact ih ha (hasData_cons.mp hdata).2
  | emptySection _ ih =>
      -- the section is opened and closed again with nothing in it
      have hsame : { a with openSection := none } = a := by rw [← ha.2.closed]
      rw [← ih ha (hasData_cons.mp (hasData_cons.mp hdata).2).2, ← hsame]
      rfl

end Reading

end XmlDraft
