import XmlDraft.Text.DecimalDigit

/-!
# Words of a command line

What the words of a command line ask for, one after another, by a usage: a list of switches,
and one operand.  A switch has short names of one letter and long names, which may be cut
short where they stay unique; flags may share a word, and a value may follow its switch in the
same word.  After the word `--` no word is a switch.
-/

namespace XmlDraft

namespace Command

/-- A switch: the key by which it is known, its names, and whether it takes a value. -/
structure Switch (κ : Type) where
  /-- The key. -/
  key : κ
  /-- The names, with the dashes at their heads. -/
  names : List String
  /-- Whether it takes a value. -/
  takesValue : Bool := false

/-- What a command line may consist of. -/
structure Usage (κ : Type) where
  /-- The switches. -/
  switches : List (Switch κ)
  /-- Whether the operand takes all words that follow it. -/
  takesRest : Bool := false

/-- What a word is, by its form. -/
inductive Word (κ : Type) where
  /-- An operand or a value. -/
  | plain
  /-- The word after which all are plain. -/
  | separator
  /-- A switch that there is not. -/
  | unknown
  /-- A switch, and what follows its name in the word. -/
  | switch (s : Switch κ) (tail : List Char)

/-- What words ask for. -/
inductive Act (κ : Type) where
  /-- A switch, with its value if it takes one. -/
  | set (key : κ) (value : Option String)
  /-- The operand. -/
  | operand (words : List String)
  /-- A word for which there is no use. -/
  | extra
  /-- Words that cannot be understood; those after them are not looked at. -/
  | refused

namespace Usage

variable {κ : Type}

/-- The names of all switches. -/
def named (u : Usage κ) : List (String × Switch κ) :=
  u.switches.flatMap fun s => s.names.map fun name => (name, s)

/-- The switch of a name. -/
def switch? (u : Usage κ) (name : List Char) : Option (Switch κ) :=
  u.named.lookup (String.ofList name)

/-- The part of a word before its first equals sign, and the rest. -/
def splitValue (w : List Char) : List Char × List Char :=
  (w.takeWhile (· ≠ '='), w.dropWhile (· ≠ '='))

/-- The switches that a word may stand for which is not the name of one, with what follows
their names: those whose long names begin with the word up to the equals sign, or the one whose
short name begins the word. -/
def candidates (u : Usage κ) (w : List Char) : List (Switch κ × List Char) :=
  match w with
  | '-' :: '-' :: _ =>
    let (stem, tail) := splitValue w
    (u.named.filter fun n => stem.isPrefixOf n.1.toList).map fun n => (n.2, tail)
  | a :: b :: tail => ((u.switch? [a, b]).map fun s => (s, tail)).toList
  | _ => []

/-- Whether a word is a negative number: digits with at most one point, which has digits
behind it, and at most one end of a line. -/
def isNegativeNumber (w : List Char) : Bool :=
  match w with
  | '-' :: cs =>
    let tail := cs.dropWhile Text.isDecimalDigit
    let last := match tail with
      | '.' :: ds => if ds.head?.any Text.isDecimalDigit then ds.dropWhile Text.isDecimalDigit else tail
      | _ => tail
    let hasDigits := cs.head?.any Text.isDecimalDigit || last.length < tail.length
    hasDigits && (last = [] || last = ['\n'])
  | _ => false

/-- What a word is that stands before any separator; a word that may stand for several
switches is nothing. -/
def word? (u : Usage κ) (w : List Char) : Option (Word κ) :=
  match w with
  | '-' :: _ :: _ =>
    let (stem, tail) := splitValue w
    match u.switch? w, u.switch? stem, u.candidates w with
    | some s, _, _ => some (.switch s [])
    | none, some s, _ => some (.switch s tail)
    | none, none, [(s, tail)] => some (.switch s tail)
    | none, none, _ :: _ :: _ => none
    | none, none, [] => some (if isNegativeNumber w || ' ' ∈ w then .plain else .unknown)
  | _ => some .plain

/-- The words of a command line with what they are, unless one of them is nothing. -/
def classify (u : Usage κ) : List String → Option (List (String × Word κ))
  | [] => some []
  | w :: ws =>
    if w = "--" then some ((w, .separator) :: ws.map fun w => (w, .plain))
    else do
      let kind ← u.word? w.toList
      let rest ← u.classify ws
      some ((w, kind) :: rest)

/-- What a word with a switch asks for, and the key of a switch whose value is to be the next
word.  Further flags may follow the name of a flag; a word in which a flag is given a value
cannot be understood. -/
def cluster? (u : Usage κ) (s : Switch κ) : List Char → Option (List (Act κ) × Option κ)
  | [] => some (if s.takesValue then ([], some s.key) else ([.set s.key none], none))
  | '=' :: cs =>
    if s.takesValue then some ([.set s.key (some (String.ofList cs))], none) else none
  | c :: cs =>
    if s.takesValue then some ([.set s.key (some (String.ofList (c :: cs)))], none)
    else if c = '-' then none
    else
      match u.switch? ['-', c] with
      | none => some ([.set s.key none, .extra], none)
      | some next =>
        (u.cluster? next cs).map fun (acts, open?) => (.set s.key none :: acts, open?)

/-- What classified words ask for; `pending` tells whether the operand is still to come.  A
separator may stand on either side of the operand. -/
def actsOf (u : Usage κ) (pending : Bool) : List (String × Word κ) → List (Act κ)
  | [] => []
  | (w, kind) :: ws =>
    match kind with
    | .unknown => .extra :: u.actsOf pending ws
    | .switch s tail =>
      match u.cluster? s tail, ws with
      | none, _ => [.refused]
      | some (acts, none), ws => acts ++ u.actsOf pending ws
      | some (acts, some key), (value, .plain) :: ws =>
        acts ++ .set key (some value) :: u.actsOf pending ws
      | some (_, some _), _ => [.refused]
    | .plain =>
      if !pending then .extra :: u.actsOf pending ws
      else if u.takesRest then [.operand (w :: ws.map Prod.fst)]
      else
        match ws with
        | (_, .separator) :: ws => .operand [w] :: u.actsOf false ws
        | ws => .operand [w] :: u.actsOf false ws
    | .separator =>
      match pending, ws with
      | true, (value, _) :: ws =>
        if u.takesRest then [.operand (w :: value :: ws.map Prod.fst)]
        else .operand [value] :: u.actsOf false ws
      | _, ws => .extra :: u.actsOf pending ws

/-- What the words of a command line ask for. -/
def acts (u : Usage κ) (words : List String) : List (Act κ) :=
  match u.classify words with
  | some ws => u.actsOf true ws
  | none => [.refused]

end Usage

end Command

end XmlDraft
