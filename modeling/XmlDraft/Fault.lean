import XmlDraft.Settings.Basic
import XmlDraft.Reading.Malformed
import XmlDraft.Value.Text

/-!
# Faults

What can go wrong in building, reading, writing and converting documents, as one type of
causes, and the wording of those that have one.
-/

namespace XmlDraft

/-- An argument that cannot be used. -/
inductive Misuse where
  /-- A text that must not be empty. -/
  | empty (argument : String)
  /-- A value of another kind than a text. -/
  | notText (argument kindName : String)
  /-- A tag name that consists of the escape character alone. -/
  | onlyEscape
  /-- A text that is no name. -/
  | badName (name : Wording) (argument : String)
  /-- A comment that would end early or not at all. -/
  | commentDashes
  /-- A missing fragment. -/
  | noFragment
  /-- A fragment that cannot be called. -/
  | notCallable
  /-- A fragment that takes another number of arguments. -/
  | wrongArity (expected : Nat)
  /-- A missing callback of a new builder. -/
  | noCallback
deriving DecidableEq, Repr

namespace Misuse

/-- The wording of a misuse. -/
def message : Misuse → String
  | empty argument => argument ++ " cannot be empty"
  | notText argument kindName => argument ++ " must be a string, got " ++ kindName
  | onlyEscape => "name cannot be only the escape character"
  | badName name _ => name.shown ++ " is not a valid XML name"
  | commentDashes => "Comment text cannot contain '--' or end with '-'"
  | noFragment => "fragment cannot be None"
  | notCallable => "fragment must be callable"
  | wrongArity 0 => "fragment must take no arguments"
  | wrongArity _ => "fragment must take exactly one argument"
  | noCallback => "builder callback cannot be None"

/-- The name of the argument. -/
def argument : Misuse → String
  | empty argument => argument
  | notText argument _ => argument
  | onlyEscape => "name"
  | badName _ argument => argument
  | commentDashes => "text"
  | noFragment => "fragment"
  | notCallable => "fragment"
  | wrongArity _ => "fragment"
  | noCallback => "callback"

end Misuse

/-- The readers of other trees into which a document can be exported. -/
inductive Exporter where
  /-- Plain element trees. -/
  | plain
  /-- The document object model. -/
  | objectModel
  /-- Full element trees, with what stands outside the root. -/
  | full
deriving DecidableEq, Repr

/-- A cause of failure. -/
inductive Fault where
  /-- An argument that cannot be used. -/
  | misuse (m : Misuse)
  /-- A node that is out of place at the top level. -/
  | misplaced (m : Misplacement)
  /-- Markup or octets that cannot be read. -/
  | unreadable (u : Unreadable)
  /-- Settings that could not be made. -/
  | settings (s : SettingsFault)
  /-- Written markup that an exporter cannot read. -/
  | export (target : Exporter) (message : String)
  /-- A failure with a message of its own. -/
  | raised (message : String)
  /-- An interruption by the user. -/
  | interrupted
  /-- A call that its target does not accept. -/
  | badCall
  /-- A value of a kind that an operation does not take. -/
  | wrongKind
  /-- An attribute that is not there, or an operation that a value does not have. -/
  | noAttribute
  /-- A key that is taken. -/
  | reservedKey
  /-- A number that is too long to be written. -/
  | longNumber
  /-- An operation that is left open. -/
  | notImplemented
  /-- A name without a local part. -/
  | emptyLocalPart
  /-- An element that is no child of the current container. -/
  | notChild
  /-- No element is open. -/
  | atTop
  /-- A child that is no node. -/
  | notNode
  /-- An attribute that is not made of texts. -/
  | attributeNotText
  /-- A node that has no written form. -/
  | cannotRender (kindName : String)
  /-- A logging level that is not known. -/
  | unknownLevel
  /-- An element type that is declared twice. -/
  | repeatedType
  /-- A node that is inside itself. -/
  | endless

namespace Fault

/-- The wording of a fault. -/
def message : Fault → String
  | misuse m => m.message
  | misplaced m => m.message
  | unreadable u => u.message
  | settings s => s.message
  | .export _ message => message
  | raised message => message
  | interrupted => ""
  | badCall => ""
  | wrongKind => ""
  | noAttribute => ""
  | reservedKey => ""
  | longNumber => SettingsFault.longNumber.message
  | notImplemented => ""
  | emptyLocalPart => "Local name cannot be empty"
  | notChild => "Only a child of the current container can be entered"
  | atTop => "Cannot leave the document root"
  | notNode => "Child must be an XMLNode instance"
  | attributeNotText => "Attribute name and value must be strings"
  | cannotRender kindName => "Cannot render node of type " ++ kindName
  | repeatedType => ""
  | endless => ""
  | unknownLevel => "logging level must be one of " ++ quotedList levelNames

/-- The fault of a value without a text. -/
def ofNoText : NoText → Fault
  | .longNumber => longNumber

/-- The fault of a document that cannot be written: a field of the declaration has no
characters to escape, or a field of the document type has no text. -/
def ofRender : RenderFault → Fault
  | .notText => noAttribute
  | .unprintable => longNumber

end Fault

end XmlDraft
