import Std.Time.Format
import XmlDraft.Command.Report

/-!
# The program

The outer layer of the command line: the files that a request names are looked up, the request
is run, and its report is carried out.  No building functions come with the program.
-/

namespace XmlDraft

namespace Program

/-- The text of a place. -/
def placeText (place : List String) : String :=
  "/" ++ Text.joined "/" place

/-- What stands at a place. -/
def look (place : List String) : IO (Option Stored) := do
  try
    let real ← IO.FS.realPath (placeText place)
    if ← real.isDir then return some .folder
    else return some (.file (← IO.FS.readBinFile real).toList)
  catch _ => return none

/-- The paths that a request names. -/
def named : Command.Request → List FilePath
  | .task t o =>
    let input := match t with
      | .format path => [path]
      | .render _ => []
    (o.config.toList ++ input ++ o.output.toList).map FilePath.ofText
  | _ => []

/-- The storage with what stands on a path. -/
def lookAlong (s : Storage) (p : FilePath) : IO Storage := do
  let mut s := s
  for place in Storage.visited (if p.slashes = 0 then s.here else []) p.names do
    if (s.entry? place).isNone then
      if let some stored ← look place then s := s.put place stored
  return s

/-- Makes a file or a folder. -/
def make (place : List String) : Stored → IO Unit
  | .folder => IO.FS.createDir (placeText place)
  | .file octets => IO.FS.writeBinFile (placeText place) ⟨octets.toArray⟩

/-- The text of a notice, with the time in front of a record. -/
def noticeText : Command.Notice → IO String
  | .text s => return s
  | .record r => do
    let now ← Std.Time.PlainDateTime.now
    return now.format "uuuu-MM-dd HH:mm:ss,SSS" ++ Command.Report.line r

/-- Runs a command line. -/
def run (words : List String) : IO UInt32 := do
  let request := Command.Request.ofWords words
  let mut storage := Storage.of (FilePath.ofText (← IO.currentDir).toString).names
  for p in named request do
    storage ← lookAlong storage p
  let report := request.run ⟨storage, {}⟩
  for (place, stored) in storage.gained report.storage do
    make place stored
  IO.print report.output
  for notice in report.notices do
    IO.eprint (← noticeText notice)
  match report.ending with
  | .status n => return n.toUInt32
  | .left n => return n.toUInt32
  | .failed f =>
    IO.eprintln f.message
    return 1

end Program

end XmlDraft

/-- The program. -/
def main (words : List String) : IO UInt32 :=
  XmlDraft.Program.run words
