import XmlDraft.Reading.Scan

/-!
# Tokens before the root

The tokens of what stands before and after the root element: blanks, comments,
instructions, and the parts of a document type.
-/

namespace XmlDraft

namespace Reading

/-- A mark behind a name or a group: how often it occurs. -/
inductive Mark where
  | once
  | optional
  | many
  | some
deriving DecidableEq, Repr

/-- A token before or after the root. -/
inductive Token where
  /-- The start of the root element. -/
  | root
  | blank
  /-- The declaration of the document, with the characters after its target. -/
  | declaration (text : List Char)
  | instruction (target text : List Char)
  | comment (text : List Char)
  /-- The opening of a declaration inside a document type, or of one. -/
  | opening (keyword : List Char)
  | closing
  | name (n : List Char)
  /-- A name with a prefix. -/
  | prefixed (n : List Char)
  /-- A text of characters that may stand in names. -/
  | nameToken (n : List Char)
  /-- A name with a mark behind it. -/
  | marked (n : List Char)
  /-- A name after a number sign. -/
  | keyword (n : List Char)
  | literal (value : List Char)
  | percent
  /-- A reference to a parameter. -/
  | parameter (n : List Char)
  | openBracket
  | closeBracket
  | openGroup
  | closeGroup (mark : Mark)
  | comma
  | bar
  | sectionOpening
  | sectionClosing
deriving DecidableEq, Repr

/-- Whether the end of a token shows only in what follows it, so that the end of the source,
even a ragged one, ends it too. -/
def Token.endsOpen : Token → Bool
  | name _ => true
  | prefixed _ => true
  | nameToken _ => true
  | keyword _ => true
  | literal _ => true
  | closeBracket => true
  | closeGroup .once => true
  | _ => false

/-- A token that takes half a unit along: a text of characters that may stand in names is then
no keyword. -/
def Token.halved : Token → Token
  | name n => name (n ++ ['\ufffd'])
  | keyword n => keyword (n ++ ['\ufffd'])
  | t => t

namespace Medium

/-- Whether the characters end where more would be wanted, so that what was found so far
is taken as it is. -/
def endsSoftly (m : Medium) : Bool :=
  m.ending = .clean || m.ending = .ragged

/-- The characters of a literal up to the quote that closes it. -/
def literalBody (m : Medium) (quote : Char) : List Char → Except Lapse (Found (List Char))
  | [] => .error (m.stop true)
  | c :: cs =>
    if c = quote then .ok ([], cs)
    else if isXmlChar c then do
      let (ds, rest) ← literalBody m quote cs
      .ok (c :: ds, rest)
    else .error (.invalid (c :: cs))

/-- A literal whose opening quote has been read; only certain characters may follow it. -/
def literal (m : Medium) (quote : Char) (cs : List Char) : Except Lapse (Found Token) := do
  let (value, rest) ← m.literalBody quote cs
  match rest with
  | [] => if m.endsSoftly then .ok (.literal value, []) else .error (.invalid [])
  | c :: _ =>
    if isBlank c || c = '>' || c = '%' || c = '[' then .ok (.literal value, rest)
    else .error (.invalid rest)

/-- The letters of the keyword of a declaration, up to a blank or a percent sign that
begins a reference. -/
def openingBody (m : Medium) : List Char → Except Lapse (Found (List Char))
  | [] => .error (m.stop false)
  | c :: cs =>
    if isBlank c then .ok ([], c :: cs)
    else if c = '%' then
      match cs with
      | [] => if m.endsSoftly then .error .unclosed else .ok ([], [c])
      | d :: _ =>
        if isBlank d || d = '%' then .error (.invalid (c :: cs)) else .ok ([], c :: cs)
    else if m.alphabet.isKeywordLetter c then do
      let (ds, rest) ← openingBody m cs
      .ok (c :: ds, rest)
    else .error (.invalid (c :: cs))

/-- What follows an opening bracket and an exclamation mark. -/
def declarationToken (m : Medium) (cs : List Char) : Except Lapse (Found Token) :=
  match cs with
  | [] => .error (m.stop false)
  | '-' :: rest => (m.comment rest).map fun (text, rest) => (.comment text, rest)
  | '[' :: rest => .ok (.sectionOpening, rest)
  | c :: rest =>
    if m.alphabet.isKeywordLetter c then
      (m.openingBody rest).map fun (word, rest) => (.opening (c :: word), rest)
    else .error (.invalid cs)

/-- What follows an opening bracket. -/
def markupToken (m : Medium) (cs : List Char) : Except Lapse (Found Token) :=
  match cs with
  | [] =>
    match m.ending with
    | .truncated => .ok (.root, '<' :: cs)
    | .broken => .ok (.root, '<' :: cs)
    | _ => .error (m.stop false)
  | '!' :: rest => m.declarationToken rest
  | '?' :: rest =>
    (m.instruction rest).map fun ((target, text), rest) =>
      (if target = ['x', 'm', 'l'] then .declaration text else .instruction target text, rest)
  | c :: _ =>
    if m.alphabet.opensElement c then .ok (.root, '<' :: cs)
    else .error (.invalid cs)

/-- What follows a percent sign. -/
def percentToken (m : Medium) (cs : List Char) : Except Lapse (Found Token) :=
  match cs with
  | [] => .error (m.stop true)
  | c :: _ =>
    if isBlank c || c = '%' then .ok (.percent, cs)
    else do
      let (name, rest) ← m.plainName cs
      match rest with
      | ';' :: rest => .ok (.parameter name, rest)
      | _ => .error (.invalid rest)

/-- The characters of a name inside a document type; at the end of the source the name
ends too. -/
def softName (m : Medium) : List Char → Except Lapse (Found (List Char))
  | [] => if m.endsSoftly then .ok ([], []) else .error (m.stop true)
  | c :: cs =>
    if m.alphabet.isInner c then do
      let (ds, rest) ← softName m cs
      .ok (c :: ds, rest)
    else .ok ([], c :: cs)

/-- What follows a number sign: a keyword. -/
def keywordToken (m : Medium) (cs : List Char) : Except Lapse (Found Token) := do
  let (c, rest) ← m.nameStart cs
  let (ds, rest) ← m.softName rest
  match rest with
  | [] => .ok (.keyword (c :: ds), [])
  | d :: _ =>
    if isBlank d || d = ')' || d = '>' || d = '%' || d = '|' then .ok (.keyword (c :: ds), rest)
    else .error (.invalid rest)

/-- The form of a text of name characters: a name, a name with a prefix, or neither. -/
inductive Form where
  | name
  | prefixed
  | token
deriving DecidableEq, Repr

/-- The token of a text in a form. -/
def formed (form : Form) (n : List Char) : Token :=
  match form with
  | .name => .name n
  | .prefixed => .prefixed n
  | .token => .nameToken n

/-- The form of a text after a dividing colon, and whether a character of a name must
follow. -/
def afterColon (m : Medium) (form : Form) (cs : List Char) : Except Lapse Form :=
  match form with
  | .name =>
    match cs with
    | [] => .error (m.stop true)
    | c :: _ => .ok (if m.alphabet.isInner c then .prefixed else .token)
  | .prefixed => .ok .token
  | .token => .ok .token

/-- The characters of a name, a prefixed name or a name token after those known, with the
mark behind it if there is one; `fuel` bounds the number of colons. -/
def nameLike (m : Medium) : Nat → Form → List Char → List Char → Except Lapse (Found Token)
  | 0, _, _, cs => .error (.invalid cs)
  | fuel + 1, form, before, cs => do
    let (ds, rest) ← m.softName cs
    let n := before ++ ds
    match rest with
    | [] => .ok (formed form n, [])
    | c :: more =>
      if isBlank c || c = '>' || c = ')' || c = ',' || c = '|' || c = '[' || c = '%' then
        .ok (formed form n, rest)
      else if c = ':' && m.alphabet.divides then do
        let form ← m.afterColon form more
        nameLike m fuel form (n ++ [':']) more
      else if (c = '+' || c = '*' || c = '?') && form ≠ .token then .ok (.marked n, more)
      else .error (.invalid rest)

/-- What follows a closing parenthesis. -/
def groupEnd (m : Medium) (cs : List Char) : Except Lapse (Found Token) :=
  match cs with
  | [] => if m.endsSoftly then .ok (.closeGroup .once, []) else .error (.invalid [])
  | '*' :: rest => .ok (.closeGroup .many, rest)
  | '?' :: rest => .ok (.closeGroup .optional, rest)
  | '+' :: rest => .ok (.closeGroup .some, rest)
  | c :: _ =>
    if isBlank c || c = '>' || c = ',' || c = '|' || c = ')' then .ok (.closeGroup .once, cs)
    else .error (.invalid cs)

/-- What follows a closing bracket. -/
def bracketEnd (m : Medium) (cs : List Char) : Except Lapse (Found Token) :=
  match cs with
  | ']' :: '>' :: rest => .ok (.sectionClosing, rest)
  | [']'] => if m.endsSoftly then .error .unclosed else .ok (.closeBracket, cs)
  | _ => .ok (.closeBracket, cs)

/-- The token at the head of characters that are not all read. -/
def token (m : Medium) (c : Char) (cs : List Char) : Except Lapse (Found Token) :=
  if isBlank c then .ok (.blank, cs.dropWhile isBlank)
  else
    match c with
    | '<' => m.markupToken cs
    | '"' => m.literal '"' cs
    | '\'' => m.literal '\'' cs
    | '%' => m.percentToken cs
    | ',' => .ok (.comma, cs)
    | '[' => .ok (.openBracket, cs)
    | ']' => m.bracketEnd cs
    | '(' => .ok (.openGroup, cs)
    | ')' => m.groupEnd cs
    | '|' => .ok (.bar, cs)
    | '>' => .ok (.closing, cs)
    | '#' => m.keywordToken cs
    | _ =>
      if m.alphabet.isStart c then m.nameLike (cs.length + 1) .name [c] cs
      else if m.alphabet.isInner c || c = ':' then m.nameLike (cs.length + 1) .token [c] cs
      else .error (.invalid (c :: cs))

end Medium

end Reading

end XmlDraft
