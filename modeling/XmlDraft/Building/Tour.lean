import XmlDraft.Building.Draft

/-!
# Tours

Moving through a draft by hand: elements are made under labels, entered and left one by one
or for the length of some further moves.  The stops of a tour show where each move ended.
-/

namespace XmlDraft

/-- A move of a tour. -/
inductive Move where
  /-- Makes an element under a label, and attaches it at the current place or not. -/
  | make (label name : String) (attached : Bool)
  /-- Opens the element of a label. -/
  | enter (label : String)
  /-- Closes the innermost open element. -/
  | leave
  /-- Opens the element of a label for the length of further moves. -/
  | visit (label : String) (moves : List Move)
  /-- Fails with a message. -/
  | fail (message : String)

/-- A stop of a tour, with the label of the current place and the number of open elements. -/
inductive Stop where
  /-- The beginning of a visit. -/
  | entered (label : String) (depth : Nat)
  /-- The end of a move, with the label of the place that it gave back, if any. -/
  | ended (r : Except Fault (Option String)) (label : String) (depth : Nat)

/-- The state of a tour: the draft, the places of the labels, the latest first, and the stops,
the latest first.  An element that was not attached has no place. -/
structure Tour where
  /-- The draft. -/
  draft : Draft := {}
  /-- The labels and the places of their elements. -/
  labels : List (String × Option Place) := []
  /-- The stops. -/
  stops : List Stop := []

namespace Tour

/-- The label of a place: the top is the document, and a place whose label was given away
has none. -/
def labelOf (t : Tour) (place : Place) : String :=
  if place = [] then "document"
  else
    let own := t.labels.find? fun l => l.2 = some place && t.labels.lookup l.1 = some (some place)
    (own.map Prod.fst).getD "?"

/-- The label of the current place. -/
def here (t : Tour) : String :=
  t.labelOf t.draft.current

/-- The tour with one more element, which has its label even if it cannot be attached. -/
def make (t : Tour) (label name : String) (attached : Bool) :
    Tour × Except Fault (Option String) :=
  match QName.ofClark? name with
  | none => (t, .error .emptyLocalPart)
  | some q =>
    if attached then
      match t.draft.append (.element q [] []) with
      | .ok d =>
        ({ t with draft := d, labels := (label, some t.draft.nextPlace) :: t.labels }, .ok none)
      | .error f => ({ t with labels := (label, none) :: t.labels }, .error f)
    else ({ t with labels := (label, none) :: t.labels }, .ok none)

/-- The tour with the element of a label open. -/
def enter (t : Tour) (label : String) : Except Fault Tour :=
  match t.labels.lookup label with
  | none => .error .noAttribute
  | some none => .error .notChild
  | some (some place) => (t.draft.push place).map fun d => { t with draft := d }

/-- The tour with the innermost open element closed. -/
def leave (t : Tour) : Except Fault Tour :=
  t.draft.pop.map fun d => { t with draft := d }

/-- The tour with one more stop. -/
def note (t : Tour) (s : Stop) : Tour :=
  { t with stops := s :: t.stops }

mutual

/-- Makes a move; a visit closes its element again however its moves end, and a failure to
do so takes the place of an earlier one. -/
def move (t : Tour) : Move → Tour × Except Fault (Option String)
  | .make label name attached => t.make label name attached
  | .enter label =>
    match t.enter label with
    | .ok t => (t, .ok none)
    | .error f => (t, .error f)
  | .leave =>
    match t.leave with
    | .ok t => (t, .ok (some t.here))
    | .error f => (t, .error f)
  | .visit label moves =>
    match t.enter label with
    | .error f => (t, .error f)
    | .ok t =>
      let (t, outcome) := run (t.note (.entered t.here t.draft.depth)) moves
      match t.leave with
      | .ok t => (t, outcome.map fun _ => none)
      | .error f => (t, .error f)
  | .fail message => (t, .error (.raised message))

/-- Makes moves one after another up to the first one that fails. -/
def run (t : Tour) : List Move → Tour × Except Fault Unit
  | [] => (t, .ok ())
  | m :: ms =>
    match move t m with
    | (t, .ok _) => run t ms
    | (t, .error f) => (t, .error f)

end

/-- Makes a move and notes where it ended. -/
def moveAndNote (t : Tour) (m : Move) : Tour :=
  let (t, r) := t.move m
  t.note (.ended r t.here t.draft.depth)

/-- The tour of some moves, each of which may fail. -/
def ofMoves (ms : List Move) : Tour :=
  ms.foldl moveAndNote {}

end Tour

end XmlDraft
