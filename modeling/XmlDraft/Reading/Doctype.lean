import XmlDraft.Reading.Event
import XmlDraft.Reading.Token

/-!
# Document types

What stands before the root element, as a machine that goes on token by token: the order
in which the parts of a document type must come, and what they declare.  Parameters are
never replaced, so that after a reference to one not all declarations are known.
-/

namespace XmlDraft

namespace Reading

/-- What may come next before the root element. -/
inductive Stage where
  | beginning
  | beforeDoctype
  | afterDoctype
  | doctypeName
  | doctypeNamed
  | doctypePublic
  | doctypeSystem
  | doctypeIdentified
  | doctypeEnd
  | subset
  | entityName
  | parameterName
  | entityNamed
  | entityPublic
  | entitySystem
  | entityIdentified
  | entityFormat
  | parameterNamed
  | parameterPublic
  | parameterSystem
  | parameterIdentified
  | formatName
  | formatNamed
  | formatPublic
  | formatSystem
  | formatIdentified
  | attributesOf
  | attributeName
  | attributeType
  | choice
  | afterChoice
  | formatsStart
  | formatChoice
  | afterFormatChoice
  | attributeDefault
  | attributeFixed
  | elementName
  | elementContent
  | groupStart
  | mixedEnd
  | mixedItem
  | mixedNext
  | groupItem
  | groupNext
  | ending
deriving DecidableEq, Repr

/-- The state of reading what stands before the root element. -/
structure Prolog where
  /-- What may come next. -/
  stage : Stage := .beginning
  /-- What has been declared. -/
  declarations : Declarations := {}
  /-- The events, the latest first. -/
  events : List Event := []
  /-- The name of the document type, or of what is being declared. -/
  name : List Char := []
  /-- The public identifier of the document type. -/
  publicId : Option (List Char) := none
  /-- The system identifier of the document type. -/
  systemId : Option (List Char) := none
  /-- Whether the internal subset is being read. -/
  inSubset : Bool := false
  /-- The name of the entity that is being declared, if the declaration counts. -/
  entity : Option (List Char) := none
  /-- The element whose attributes are being declared. -/
  element : List Char := []
  /-- Whether the attribute is of the plain type. -/
  isPlain : Bool := false
  /-- Whether the attribute is an identifier. -/
  isIdentifier : Bool := false
  /-- The connectors of the open groups, the innermost first. -/
  groups : List (Option Token) := []
  /-- The element types declared so far, where each may be declared once. -/
  types : Option (List (List Char)) := none
  /-- The octets of replacement texts read in default values. -/
  spent : Nat := 0

/-! ### Public identifiers -/

/-- A character that may stand in a public identifier. -/
def isPublicChar (c : Char) : Bool :=
  isAsciiLetter c || Text.isDigit c || " \r\n-'()+,./:=?;!*#@$_%".toList.contains c

/-- A public identifier with one blank in place of several and none at its ends. -/
def normalPublicId (cs : List Char) : List Char :=
  let words := (cs.splitOnP fun c => c = ' ' || c = '\r' || c = '\n').filter (· ≠ [])
  [' '].intercalate words

/-- The check of a public identifier that stands behind the quote at the head of `cs`. -/
def checkPublicId (value cs : List Char) : Except Failure Unit :=
  let good := value.takeWhile isPublicChar
  if good.length < value.length then .error (.illegalPublicId, cs.drop (1 + good.length))
  else .ok ()

namespace Prolog

/-- Whether a text is a keyword. -/
def isWord (n : List Char) (word : String) : Bool :=
  n = word.toList

/-- The state at another stage. -/
def goTo (p : Prolog) (stage : Stage) : Except Failure Prolog :=
  .ok { p with stage := stage }

/-- The state with one more event. -/
def emit (p : Prolog) (e : Event) : Prolog :=
  { p with events := e :: p.events }

/-- The failure of a token that has no place. -/
def refuse {α : Type} (t : Token) (cs : List Char) : Except Failure α :=
  match t with
  | .parameter _ => .error (.illegalParameterReference, cs)
  | .declaration _ => .error (.misplacedDeclaration, cs)
  | _ => .error (.wrongSyntax, cs)

/-! ### The document type -/

/-- The event at which a document type starts. -/
def doctypeEvent (p : Prolog) (hasSubset : Bool) : Event :=
  .doctypeStart (String.ofList p.name) (p.systemId.map String.ofList)
    (p.publicId.map String.ofList) hasSubset

/-- The state inside the internal subset. -/
def openSubset (p : Prolog) : Except Failure Prolog :=
  .ok { p.emit (p.doctypeEvent true) with stage := .subset, inSubset := true }

/-- The state after the document type. -/
def closeDoctype (p : Prolog) (started : Bool) : Except Failure Prolog :=
  let p := if started then p else p.emit (p.doctypeEvent false)
  .ok { p.emit .doctypeEnd with stage := .afterDoctype }

/-- The state after a sign that not all declarations can be seen. -/
def partly (p : Prolog) : Prolog :=
  { p with declarations.isPartial := true }

/-- The steps through the parts of a document type outside its subset. -/
def doctypeStep (p : Prolog) (t : Token) (cs : List Char) : Except Failure Prolog :=
  match p.stage, t with
  | .doctypeName, .name n => .ok { p with stage := .doctypeNamed, name := n }
  | .doctypeName, .prefixed n => .ok { p with stage := .doctypeNamed, name := n }
  | .doctypeNamed, .openBracket => p.openSubset
  | .doctypeNamed, .closing => p.closeDoctype false
  | .doctypeNamed, .name n =>
    if isWord n "SYSTEM" then p.goTo .doctypeSystem
    else if isWord n "PUBLIC" then p.goTo .doctypePublic
    else refuse t cs
  | .doctypePublic, .literal value => do
    checkPublicId value cs
    .ok { p.partly with stage := .doctypeSystem, publicId := some value }
  | .doctypeSystem, .literal value =>
    .ok { p.partly with stage := .doctypeIdentified, systemId := some value }
  | .doctypeIdentified, .openBracket => p.openSubset
  | .doctypeIdentified, .closing => p.closeDoctype false
  | .doctypeEnd, .closing => p.closeDoctype true
  | _, _ => refuse t cs

/-! ### Entities and formats -/

/-- The state after the declaration of an entity, if it counts. -/
def declare (p : Prolog) (e : Entity) : Prolog :=
  match p.entity with
  | some name => { p with declarations := p.declarations.declareEntity name e }
  | none => p

/-- Whether half a unit follows the closing quote of a literal that begins at `cs`. -/
def isHalved (m : Medium) (value cs : List Char) : Bool :=
  m.ending = .ragged && cs.length = value.length + 2

/-- The state after the literal that gives the replacement text of an entity. -/
def declareText (m : Medium) (p : Prolog) (value cs : List Char) : Except Failure Prolog :=
  if p.declarations.keepsReading then
    if isHalved m value cs then .error (.invalidToken, cs.drop (value.length + 1)) else
    match replacementText m.enclosed (value.length + 1) value with
    | .ok text => .ok { p.declare (.internal text) with stage := .ending }
    | .error t => .error (placed t value (cs.drop 1) cs)
  else p.goTo .ending

/-- The name of the entity that is being declared, where the declaration counts: it comes
before any reference to a parameter, and is the first one of a name that is not
predefined. -/
def countedEntity (p : Prolog) (n : List Char) : Option (List Char) :=
  if p.declarations.keepsReading && (predefined? n).isNone
      && (p.declarations.entity? n).isNone then some n else none

/-- The steps through the declaration of an entity. -/
def entityStep (m : Medium) (p : Prolog) (t : Token) (cs : List Char) : Except Failure Prolog :=
  match p.stage, t with
  | .entityName, .percent => p.goTo .parameterName
  | .entityName, .name n => .ok { p with stage := .entityNamed, entity := p.countedEntity n }
  | .parameterName, .name _ => .ok { p with stage := .parameterNamed, entity := none }
  | .entityNamed, .name n =>
    if isWord n "SYSTEM" then p.goTo .entitySystem
    else if isWord n "PUBLIC" then p.goTo .entityPublic
    else refuse t cs
  | .entityNamed, .literal value => declareText m p value cs
  | .entityPublic, .literal value => do
    checkPublicId value cs
    p.goTo .entitySystem
  | .entitySystem, .literal _ => p.goTo .entityIdentified
  | .entityIdentified, .closing => .ok { p.declare .external with stage := .subset }
  | .entityIdentified, .name n =>
    if isWord n "NDATA" then p.goTo .entityFormat else refuse t cs
  | .entityFormat, .name _ => .ok { p.declare .unparsed with stage := .ending }
  | .parameterNamed, .name n =>
    if isWord n "SYSTEM" then p.goTo .parameterSystem
    else if isWord n "PUBLIC" then p.goTo .parameterPublic
    else refuse t cs
  | .parameterNamed, .literal value => declareText m p value cs
  | .parameterPublic, .literal value => do
    checkPublicId value cs
    p.goTo .parameterSystem
  | .parameterSystem, .literal _ => p.goTo .parameterIdentified
  | .parameterIdentified, .closing => p.goTo .subset
  | _, _ => refuse t cs

/-- The steps through the declaration of a format of what is no markup. -/
def formatStep (p : Prolog) (t : Token) (cs : List Char) : Except Failure Prolog :=
  match p.stage, t with
  | .formatName, .name _ => p.goTo .formatNamed
  | .formatNamed, .name n =>
    if isWord n "SYSTEM" then p.goTo .formatSystem
    else if isWord n "PUBLIC" then p.goTo .formatPublic
    else refuse t cs
  | .formatPublic, .literal value => do
    checkPublicId value cs
    p.goTo .formatIdentified
  | .formatSystem, .literal _ => p.goTo .ending
  | .formatIdentified, .literal _ => p.goTo .ending
  | .formatIdentified, .closing => p.goTo .subset
  | _, _ => refuse t cs

/-! ### Attributes -/

/-- The words for the types of attributes. -/
def attributeTypes : List String :=
  ["CDATA", "ID", "IDREF", "IDREFS", "ENTITY", "ENTITIES", "NMTOKEN", "NMTOKENS"]

/-- The state after an attribute has been declared, perhaps with a default value. -/
def declareAttribute (p : Prolog) (value : Option (List Char)) : Prolog :=
  if p.declarations.keepsReading then
    { p with
      declarations := p.declarations.declareAttribute ⟨p.element, p.name, p.isPlain, value⟩
        (p.isIdentifier && value.isNone) }
  else p

/-- The state after the literal that gives the default value of an attribute.  The source has
been read up to the quote behind it. -/
def declareDefault (m : Medium) (account : Account) (p : Prolog) (value cs : List Char) :
    Except Failure Prolog :=
  if p.declarations.keepsReading then
    if isHalved m value cs then .error (.invalidToken, cs.drop (value.length + 1)) else
    match attributeValue m p.declarations [] p.isPlain (account (cs.drop (value.length + 2)))
        p.spent value with
    | .ok (text, spent) =>
      .ok { p.declareAttribute (some text) with stage := .attributeName, spent := spent }
    | .error t => .error (placed t value (cs.drop 1) cs)
  else p.goTo .attributeName

/-- The steps through the declaration of attributes. -/
def attributeStep (m : Medium) (account : Account) (p : Prolog) (t : Token) (cs : List Char) :
    Except Failure Prolog :=
  match p.stage, t with
  | .attributesOf, .name n => .ok { p with stage := .attributeName, element := n }
  | .attributesOf, .prefixed n => .ok { p with stage := .attributeName, element := n }
  | .attributeName, .closing => p.goTo .subset
  | .attributeName, .name n =>
    .ok { p with stage := .attributeType, name := n, isPlain := false, isIdentifier := false }
  | .attributeName, .prefixed n =>
    .ok { p with stage := .attributeType, name := n, isPlain := false, isIdentifier := false }
  | .attributeType, .name n =>
    if String.ofList n ∈ attributeTypes then
      .ok { p with
        stage := .attributeDefault
        isPlain := isWord n "CDATA"
        isIdentifier := isWord n "ID" }
    else if isWord n "NOTATION" then p.goTo .formatsStart
    else refuse t cs
  | .attributeType, .openGroup => p.goTo .choice
  | .choice, .nameToken _ => p.goTo .afterChoice
  | .choice, .name _ => p.goTo .afterChoice
  | .choice, .prefixed _ => p.goTo .afterChoice
  | .afterChoice, .closeGroup .once => p.goTo .attributeDefault
  | .afterChoice, .bar => p.goTo .choice
  | .formatsStart, .openGroup => p.goTo .formatChoice
  | .formatChoice, .name _ => p.goTo .afterFormatChoice
  | .afterFormatChoice, .closeGroup .once => p.goTo .attributeDefault
  | .afterFormatChoice, .bar => p.goTo .formatChoice
  | .attributeDefault, .keyword n =>
    if isWord n "IMPLIED" || isWord n "REQUIRED" then
      .ok { p.declareAttribute none with stage := .attributeName }
    else if isWord n "FIXED" then p.goTo .attributeFixed
    else refuse t cs
  | .attributeDefault, .literal value => declareDefault m account p value cs
  | .attributeFixed, .literal value => declareDefault m account p value cs
  | _, _ => refuse t cs

/-! ### Elements -/

/-- The state inside one more group. -/
def openGroup (p : Prolog) (stage : Stage) : Except Failure Prolog :=
  .ok { p with stage := stage, groups := none :: p.groups }

/-- The state after the content of an element has been declared by a token that begins at
`cs`. -/
def closeContent (p : Prolog) (cs : List Char) : Except Failure Prolog :=
  if p.types.any (p.name ∈ ·) then .error (.repeatedType (String.ofList p.name), cs)
  else .ok { p with stage := .ending, groups := [], types := p.types.map (p.name :: ·) }

/-- The state after a group that is closed by a token which begins at `cs`. -/
def closeGroup (p : Prolog) (cs : List Char) : Except Failure Prolog :=
  match p.groups with
  | _ :: g :: rest => .ok { p with stage := .groupNext, groups := g :: rest }
  | _ => p.closeContent cs

/-- The state after a connector, which must be the same one throughout a group. -/
def connect (p : Prolog) (t : Token) (cs : List Char) : Except Failure Prolog :=
  match p.groups with
  | g :: rest =>
    if g.any (· ≠ t) then .error (.wrongSyntax, cs)
    else .ok { p with stage := .groupItem, groups := some t :: rest }
  | [] => refuse t cs

/-- The steps through the declaration of an element. -/
def elementStep (p : Prolog) (t : Token) (cs : List Char) : Except Failure Prolog :=
  match p.stage, t with
  | .elementName, .name n => .ok { p with stage := .elementContent, name := n }
  | .elementName, .prefixed n => .ok { p with stage := .elementContent, name := n }
  | .elementContent, .name n =>
    if isWord n "EMPTY" || isWord n "ANY" then p.closeContent cs else refuse t cs
  | .elementContent, .openGroup => { p with groups := [] }.openGroup .groupStart
  | .groupStart, .keyword n => if isWord n "PCDATA" then p.goTo .mixedEnd else refuse t cs
  | .groupStart, .openGroup => p.openGroup .groupItem
  | .groupStart, .name _ => p.goTo .groupNext
  | .groupStart, .prefixed _ => p.goTo .groupNext
  | .groupStart, .marked _ => p.goTo .groupNext
  | .mixedEnd, .closeGroup .once => p.closeContent cs
  | .mixedEnd, .closeGroup .many => p.closeContent cs
  | .mixedEnd, .bar => p.goTo .mixedItem
  | .mixedItem, .name _ => p.goTo .mixedNext
  | .mixedItem, .prefixed _ => p.goTo .mixedNext
  | .mixedNext, .closeGroup .many => p.closeContent cs
  | .mixedNext, .bar => p.goTo .mixedItem
  | .groupItem, .openGroup => p.openGroup .groupItem
  | .groupItem, .name _ => p.goTo .groupNext
  | .groupItem, .prefixed _ => p.goTo .groupNext
  | .groupItem, .marked _ => p.goTo .groupNext
  | .groupNext, .closeGroup _ => p.closeGroup cs
  | .groupNext, .comma => p.connect t cs
  | .groupNext, .bar => p.connect t cs
  | _, _ => refuse t cs

/-! ### All steps -/

/-- The steps between the declarations of the internal subset. -/
def subsetStep (p : Prolog) (t : Token) (cs : List Char) : Except Failure Prolog :=
  match t with
  | .opening word =>
    if isWord word "ENTITY" then p.goTo .entityName
    else if isWord word "ATTLIST" then p.goTo .attributesOf
    else if isWord word "ELEMENT" then p.goTo .elementName
    else if isWord word "NOTATION" then p.goTo .formatName
    else refuse t cs
  | .parameter _ =>
    .ok { p.partly with declarations.keepsReading := p.declarations.standalone }
  | .closeBracket => .ok { p with stage := .doctypeEnd, inSubset := false }
  | _ => refuse t cs

/-- The steps outside the document type. -/
def outerStep (p : Prolog) (t : Token) (cs : List Char) : Except Failure Prolog :=
  match p.stage, t with
  | .afterDoctype, _ => refuse t cs
  | _, .opening word => if isWord word "DOCTYPE" then p.goTo .doctypeName else refuse t cs
  | _, _ => refuse t cs

/-- Whether comments and instructions may stand at a stage. -/
def allowsAsides : Stage → Bool
  | .beginning => true
  | .beforeDoctype => true
  | .afterDoctype => true
  | .subset => true
  | _ => false

/-- The step for a token that begins at `cs`, which is neither a comment nor an
instruction nor a blank. -/
def partStep (m : Medium) (account : Account) (p : Prolog) (t : Token) (cs : List Char) :
    Except Failure Prolog :=
  match p.stage with
  | .beginning => p.outerStep t cs
  | .beforeDoctype => p.outerStep t cs
  | .afterDoctype => p.outerStep t cs
  | .doctypeName => p.doctypeStep t cs
  | .doctypeNamed => p.doctypeStep t cs
  | .doctypePublic => p.doctypeStep t cs
  | .doctypeSystem => p.doctypeStep t cs
  | .doctypeIdentified => p.doctypeStep t cs
  | .doctypeEnd => p.doctypeStep t cs
  | .subset => p.subsetStep t cs
  | .formatName => p.formatStep t cs
  | .formatNamed => p.formatStep t cs
  | .formatPublic => p.formatStep t cs
  | .formatSystem => p.formatStep t cs
  | .formatIdentified => p.formatStep t cs
  | .attributesOf => attributeStep m account p t cs
  | .attributeName => attributeStep m account p t cs
  | .attributeType => attributeStep m account p t cs
  | .choice => attributeStep m account p t cs
  | .afterChoice => attributeStep m account p t cs
  | .formatsStart => attributeStep m account p t cs
  | .formatChoice => attributeStep m account p t cs
  | .afterFormatChoice => attributeStep m account p t cs
  | .attributeDefault => attributeStep m account p t cs
  | .attributeFixed => attributeStep m account p t cs
  | .elementName => p.elementStep t cs
  | .elementContent => p.elementStep t cs
  | .groupStart => p.elementStep t cs
  | .mixedEnd => p.elementStep t cs
  | .mixedItem => p.elementStep t cs
  | .mixedNext => p.elementStep t cs
  | .groupItem => p.elementStep t cs
  | .groupNext => p.elementStep t cs
  | .ending =>
    match t with
    | .closing => p.goTo .subset
    | _ => refuse t cs
  | _ => entityStep m p t cs

/-- The state with the text of a token, if it stands in the internal subset. -/
def keepText (p : Prolog) (raw : List Char) : Prolog :=
  if p.inSubset then p.emit (.plain raw) else p

/-- The step from the first place to the one before a document type. -/
def leaveBeginning (p : Prolog) : Prolog :=
  if p.stage = .beginning then { p with stage := .beforeDoctype } else p

/-- The step for a token that begins at `cs` and is written as `raw`. -/
def step (m : Medium) (account : Account) (p : Prolog) (t : Token) (raw cs : List Char) :
    Except Failure Prolog :=
  match t with
  | .blank => .ok (p.leaveBeginning.keepText raw)
  | .comment text =>
    if allowsAsides p.stage then .ok (p.leaveBeginning.emit (commentEvent text))
    else refuse t cs
  | .instruction target text =>
    if allowsAsides p.stage then .ok (p.leaveBeginning.emit (instructionEvent raw target text))
    else refuse t cs
  | _ => do
    let next ← partStep m account p t cs
    .ok (if next.inSubset && p.inSubset then next.keepText raw else next)

end Prolog

end Reading

end XmlDraft
