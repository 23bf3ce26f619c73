import XmlDraft.Export.ObjectModel
import XmlDraft.Proofs.Levels
import XmlDraft.Proofs.TopLevel
import XmlDraft.Reading.Assembly

/-!
# Nodes that events leave at the top level

A document, the object model and the full form are put together from events in three ways, but what
an event does to the open elements and to the nodes at the top level is the same in all of them.
Main statements: what has been left at the top level stays there, behind whatever events, and an
element that is open has been left there under its name when no element is open any more.
-/

namespace XmlDraft

namespace Reading

/-! ### Elements that open and close -/

/-- What an event does to the names of the open elements, the innermost first, and to the nodes at
the top level, the latest first: a start tag opens an element, an end tag closes one, which is left
at the top level under its name if no other is open, and any other event leaves a node at the top
level at most, where no element is open. -/
inductive Moves {β γ : Type} (name? : γ → Option β) :
    Event → List β × List γ → List β × List γ → Prop
  | start {tag : Tag} {b : β} {bs : List β} {ts : List γ} :
      Moves name? (.start tag) (bs, ts) (b :: bs, ts)
  | finishInner {b : β} {bs : List β} {ts : List γ} (h : bs ≠ []) :
      Moves name? .finish (b :: bs, ts) (bs, ts)
  | finishLast {b : β} {t : γ} {ts : List γ} (h : name? t = some b) :
      Moves name? .finish ([b], ts) ([], t :: ts)
  | finishNone {ts : List γ} : Moves name? .finish ([], ts) ([], ts)
  | stay {e : Event} {bs : List β} {ts : List γ} (h : ∀ n, e.level n = n) :
      Moves name? e (bs, ts) (bs, ts)
  | leave {e : Event} {t : γ} {ts : List γ} (h : ∀ n, e.level n = n) :
      Moves name? e ([], ts) ([], t :: ts)

/-- What events do to them one after another. -/
inductive Runs {β γ : Type} (name? : γ → Option β) :
    List Event → List β × List γ → List β × List γ → Prop
  | nil {s : List β × List γ} : Runs name? [] s s
  | cons {e : Event} {es : List Event} {s s' s'' : List β × List γ} (h : Moves name? e s s')
      (hrest : Runs name? es s' s'') : Runs name? (e :: es) s s''

section Runs

variable {β γ : Type} {name? : γ → Option β} {s s' : List β × List γ} {es : List Event}

/-- As many elements are open as the events tell. -/
theorem Runs.length_eq (h : Runs name? es s s') :
  s'.1.length = es.foldl (fun n e => e.level n) s.1.length
  := by
  induction h with
  | nil => rfl
  | @cons e es s s' s'' hmoves hrest ih =>
      rw [List.foldl_cons, ih]
      have hlength : s'.1.length = e.level s.1.length := by
        cases hmoves with
        | stay he => exact (he _).symm
        | leave he => exact (he _).symm
        | _ => rfl
      rw [hlength]

/-- What has been left at the top level stays there. -/
theorem Runs.suffix (h : Runs name? es s s') :
  s.2 <:+ s'.2
  := by
  induction h with
  | nil => exact List.suffix_rfl
  | cons hmoves hrest ih =>
      cases hmoves with
      | finishLast h => exact (List.suffix_cons _ _).trans ih
      | leave h => exact (List.suffix_cons _ _).trans ih
      | _ => exact ih

/-- The outermost open element has been left at the top level when none is open any more. -/
theorem Runs.exists_root {b : β} (h : Runs name? es s s') (hopened : s.1.getLast? = some b)
    (hclosed : s'.1 = []) :
  ∃ t, name? t = some b ∧ t :: s.2 <:+ s'.2
  := by
  induction h with
  | nil =>
      rw [hclosed] at hopened
      cases hopened
  | cons hmoves hrest ih =>
      cases hmoves with
      | @start tag c bs ts =>
          refine ih ?_ hclosed
          cases bs with
          | nil => cases hopened
          | cons d ds => rwa [List.getLast?_cons_cons]
      | @finishInner c bs ts h =>
          refine ih ?_ hclosed
          cases bs with
          | nil => exact absurd rfl h
          | cons d ds => rwa [List.getLast?_cons_cons] at hopened
      | @finishLast c t ts h =>
          cases hopened
          exact ⟨t, h, hrest.suffix⟩
      | finishNone => cases hopened
      | stay h => exact ih hopened hclosed
      | leave h => cases hopened

/-- Steps that move are a run. -/
theorem Runs.of_foldl {σ : Type} {step : σ → Event → σ} {state : σ → List β × List γ}
    (h : ∀ g e, Moves name? e (state g) (state (step g e))) (es : List Event) (g : σ) :
  Runs name? es (state g) (state (es.foldl step g))
  := by
  induction es generalizing g with
  | nil => exact .nil
  | cons e es ih => exact .cons (h g e) (ih (step g e))

end Runs

/-! ### Documents -/

namespace Assembly

/-- The local parts of the names of the open elements, and the nodes at the top level. -/
def state (a : Assembly) : List String × List Node :=
  (a.opened.map fun o => o.name.localPart, a.document.children.reverse)

/-- The local part of the name of a node. -/
def localName? (n : Node) : Option String :=
  n.name?.map QName.localPart

variable {a b : Assembly}

/-- A node that is attached is left at the top level if no element is open. -/
theorem attach_state {n : Node} (h : a.attach n = .ok b) :
  b.state = if a.opened = [] then ([], n :: a.state.2) else a.state
  := by
  unfold attach at h
  split at h
  · rename_i o others hopened
    cases h
    simp [state, hopened]
  · rename_i hopened
    obtain ⟨d, hd, rfl⟩ := map_ok h
    obtain ⟨-, rfl⟩ := Document.append_ok (mapError_ok hd)
    simp [state, hopened]

/-- An event that attaches a node and is no tag moves. -/
theorem attach_moves {e : Event} (he : ∀ n, e.level n = n) {n : Node} (h : a.attach n = .ok b) :
  Moves localName? e a.state b.state
  := by
  rw [attach_state h]
  split_ifs with hopened
  · have hstate : a.state = ([], a.state.2) := by simp [state, hopened]
    rw [hstate]
    exact .leave he
  · exact .stay he

theorem step_moves {e : Event} (h : a.step e = .ok b) :
  Moves localName? e a.state b.state
  := by
  cases e with
  | start tag =>
      rw [step, openTag] at h
      dsimp only at h
      split at h
      · cases h
      · cases h
        exact .start
  | finish =>
      rw [step, closeTag] at h
      split at h
      · rename_i o others hopened
        have hafter := attach_state h
        have hbefore : a.state = (o.name.localPart :: others.map fun o => o.name.localPart,
            a.state.2) := by simp [state, hopened]
        rw [hafter, hbefore]
        cases others with
        | nil => exact .finishLast rfl
        | cons p ps => exact .finishInner (List.cons_ne_nil _ _)
      · rename_i hopened
        cases h
        have hbefore : a.state = ([], a.state.2) := by simp [state, hopened]
        rw [hbefore]
        exact .finishNone
  | characters cs =>
      cases h
      have hstate : (a.addCharacters (String.ofList cs)).state = a.state := by
        unfold addCharacters
        split
        · rfl
        · split
          · rename_i hopened
            simp [state, hopened]
          · rfl
      rw [hstate]
      exact .stay fun _ => rfl
  | comment text =>
      rw [step, addComment] at h
      split_ifs at h
      · cases h
        exact .stay fun _ => rfl
      · exact attach_moves (fun _ => rfl) h
  | doctypeEnd =>
      rw [step, closeDoctype] at h
      split at h
      · cases h
        exact .stay fun _ => rfl
      · exact attach_moves (a := { a with doctype := none, subset := none }) (fun _ => rfl) h
  | cdataEnd =>
      rw [step, closeSection] at h
      split at h
      · dsimp only at h
        split_ifs at h
        · cases h
          exact .stay fun _ => rfl
        · exact attach_moves (a := { a with openSection := none }) (fun _ => rfl) h
      · cases h
        exact .stay fun _ => rfl
  | _ =>
      cases h
      exact .stay fun _ => rfl

theorem run_moves {es : List Event} (h : a.run es = .ok b) :
  Runs localName? es a.state b.state
  := by
  induction es generalizing a with
  | nil =>
      cases h
      exact .nil
  | cons e es ih =>
      obtain ⟨next, hnext, hrest⟩ := bind_ok h
      exact .cons (step_moves hnext) (ih hrest)

end Assembly

end Reading

namespace Export

open Reading (Event Moves)

/-! ### The object model -/

namespace ModelGrowth

/-- The names of the open elements, and the nodes at the top level. -/
def state (g : ModelGrowth) : List String × List ModelNode :=
  (g.opened.map OpenModel.name, g.top)

/-- The name of an element as written. -/
def name? : ModelNode → Option String
  | .element name _ _ _ => some name
  | _ => none

/-- A node that is added is left at the top level if no element is open. -/
theorem add_moves {e : Event} (he : ∀ n, e.level n = n) (g : ModelGrowth) (n : ModelNode) :
  Moves name? e g.state (g.add n).state
  := by
  obtain ⟨opened, top, doctype, subset, openSection⟩ := g
  cases opened with
  | nil => exact .leave he
  | cons o others => exact .stay he

end ModelGrowth

theorem modelStep_moves (g : ModelGrowth) (e : Event) :
  Moves ModelGrowth.name? e g.state (modelStep g e).state
  := by
  cases e with
  | start tag => exact .start
  | finish =>
      obtain ⟨opened, top, doctype, subset, openSection⟩ := g
      match opened with
      | [] => exact .finishNone
      | [o] => exact .finishLast rfl
      | o :: p :: others => exact .finishInner (List.cons_ne_nil _ _)
  | characters cs =>
      have hstate : (g.addCharacters (String.ofList cs)).state = g.state := by
        unfold ModelGrowth.addCharacters
        split
        · rfl
        · rename_i hopened
          simp [ModelGrowth.state, hopened]
        · rfl
      rw [modelStep, hstate]
      exact .stay fun _ => rfl
  | comment text =>
      rw [modelStep]
      split_ifs
      · exact .stay fun _ => rfl
      · exact g.add_moves (fun _ => rfl) _
  | instruction raw target data =>
      rw [modelStep]
      split_ifs
      · exact .stay fun _ => rfl
      · exact g.add_moves (fun _ => rfl) _
  | doctypeEnd =>
      rw [modelStep, ModelGrowth.closeDoctype]
      split
      · exact ModelGrowth.add_moves (fun _ => rfl) { g with doctype := none, subset := none } _
      · exact .stay fun _ => rfl
  | cdataEnd =>
      rw [modelStep, ModelGrowth.closeSection]
      split
      · dsimp only
        split_ifs
        · exact .stay fun _ => rfl
        · exact ModelGrowth.add_moves (fun _ => rfl) { g with openSection := none } _
      · exact .stay fun _ => rfl
  | _ => exact .stay fun _ => rfl

/-! ### The full form -/

namespace FullGrowth

/-- The names of the open elements in Clark notation, and the nodes at the top level. -/
def state (f : FullGrowth) : List String × List ElementTree :=
  (f.growth.opened.map ElementTree.Open.clark, f.growth.top)

/-- The name of an element in Clark notation. -/
def clark? (t : ElementTree) : Option String :=
  match labelOf t with
  | .element clark => some clark
  | _ => none

/-- A node that is added is left at the top level if no element is open. -/
theorem add_moves {e : Event} (he : ∀ n, e.level n = n) (f : FullGrowth) (t : ElementTree) :
  Moves clark? e f.state { f with growth := f.growth.add t }.state
  := by
  obtain ⟨⟨opened, top⟩, _⟩ := f
  cases opened with
  | nil => exact .leave he
  | cons o others => exact .stay he

end FullGrowth

theorem fullStep_moves (f : FullGrowth) (e : Event) :
  Moves FullGrowth.clark? e f.state (fullStep f e).state
  := by
  cases e with
  | start tag => exact .start
  | finish =>
      obtain ⟨⟨opened, top⟩, _⟩ := f
      match opened with
      | [] => exact .finishNone
      | [o] => exact .finishLast rfl
      | o :: p :: others => exact .finishInner (List.cons_ne_nil _ _)
  | characters cs =>
      have hstate : (fullStep f (.characters cs)).state = f.state := by
        obtain ⟨⟨opened, top⟩, _⟩ := f
        cases opened with
        | nil => rfl
        | cons o others =>
            obtain ⟨clark, attributes, text, children⟩ := o
            cases children <;> rfl
      rw [hstate]
      exact .stay fun _ => rfl
  | comment text =>
      rw [fullStep]
      split_ifs
      · exact .stay fun _ => rfl
      · exact f.add_moves (fun _ => rfl) _
  | instruction raw target data =>
      rw [fullStep]
      split_ifs
      · exact .stay fun _ => rfl
      · exact f.add_moves (fun _ => rfl) _
  | unresolved name => exact f.add_moves (fun _ => rfl) _
  | _ => exact .stay fun _ => rfl

end Export

end XmlDraft
