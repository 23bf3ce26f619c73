import XmlDraft.Fault
import XmlDraft.Storage.Basic
import XmlDraft.Text.Utf8
import XmlDraft.Command.Catalogue

/-!
# Failures of commands

What can go wrong in a task: a fault of the library, or one of files and targets.  Most
failures are reported in a line; the others end the program.
-/

namespace XmlDraft

namespace Command

/-- Why a task failed. -/
inductive Failure where
  /-- Building, reading or writing failed, or the settings are at fault. -/
  | fault (f : Fault)
  /-- A file or a folder is at fault. -/
  | storage (f : StorageFault)
  /-- The file of the settings is no text. -/
  | undecodable (f : Text.Utf8Fault)
  /-- The target is at fault. -/
  | target (f : TargetFault)

namespace Failure

/-- The wording of a failure. -/
def message : Failure → String
  | fault f => f.message
  | storage f => f.message
  | undecodable f => f.message
  | target f => f.message

/-- Whether a fault of settings is reported: data of a kind that a check cannot look at ends
the program. -/
def reportsSettings : SettingsFault → Bool
  | .wrongKind _ => false
  | .noSuchOperation => false
  | _ => true

/-- Whether a failure to read is reported: a source in an encoding that there is not ends the
program. -/
def reportsUnreadable : Unreadable → Bool
  | .noSuchEncoding _ => false
  | _ => true

/-- Whether a fault is reported: a wrong argument, a wrong place, a wrong value. -/
def reportsFault : Fault → Bool
  | .misuse _ => true
  | .misplaced _ => true
  | .unreadable u => reportsUnreadable u
  | .settings s => reportsSettings s
  | .longNumber => true
  | .emptyLocalPart => true
  | .notChild => true
  | .unknownLevel => true
  | _ => false

/-- Whether a failure is reported. -/
def isReported : Failure → Bool
  | fault f => reportsFault f
  | target .relative => false
  | _ => true

end Failure

end Command

end XmlDraft
