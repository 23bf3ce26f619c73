import XmlDraft.Storage.FilePath

/-!
# Storage

The files and folders that a program meets.  A place in it is a list of names from the top
folder, which is always there.  A path leads to a place by way of the folders that it names one
after another, each of which has to be there.
-/

namespace XmlDraft

/-- What stands at a place. -/
inductive Stored where
  | file (octets : List UInt8)
  | folder
deriving DecidableEq, Repr

/-- Files and folders. -/
structure Storage where
  /-- The folder in which paths begin that have no slash at their head. -/
  here : List String
  /-- What stands at the places other than the top folder. -/
  entries : List (List String × Stored)

/-- Why a path cannot be used. -/
inductive PathTrouble where
  | absent
  | present
  | notFolder
  | isFolder
  | longName
deriving DecidableEq, Repr

/-- A failure to use a path. -/
inductive StorageFault where
  /-- What is in the way on a path. -/
  | path (trouble : PathTrouble) (p : FilePath)
  /-- The path holds a character that no path may hold. -/
  | nullCharacter
deriving DecidableEq, Repr

namespace PathTrouble

/-- The number and the wording of a trouble. -/
def described : PathTrouble → String
  | absent => "[Errno 2] No such file or directory"
  | present => "[Errno 17] File exists"
  | notFolder => "[Errno 20] Not a directory"
  | isFolder => "[Errno 21] Is a directory"
  | longName => "[Errno 36] File name too long"

end PathTrouble

namespace StorageFault

/-- The wording of a fault. -/
def message : StorageFault → String
  | path trouble p => trouble.described ++ ": " ++ Text.quoted p.text
  | nullCharacter => "embedded null byte"

end StorageFault

namespace Storage

/-- What stands at a place, if anything does. -/
def entry? (s : Storage) (place : List String) : Option Stored :=
  if place = [] then some .folder else s.entries.lookup place

/-- The storage with an entry at a place, instead of any that stood there. -/
def put (s : Storage) (place : List String) (e : Stored) : Storage :=
  { s with entries := (place, e) :: s.entries.filter fun x => x.1 ≠ place }

/-! ### Places of paths -/

/-- The greatest number of octets of a name. -/
def longestName : Nat := 255

/-- The greatest number of octets of a path. -/
def longestPath : Nat := 4095

/-- The place to which names lead from a folder, of which only the last need not be there. -/
def walk (s : Storage) (folder : List String) : List String → Except PathTrouble (List String)
  | [] => .ok folder
  | name :: names =>
    match s.entry? folder with
    | none => .error .absent
    | some (.file _) => .error .notFolder
    | some .folder =>
      if name = ".." then s.walk folder.dropLast names
      else if longestName < name.utf8ByteSize then .error .longName
      else s.walk (folder ++ [name]) names

/-- The place to which a path leads. -/
def place (s : Storage) (p : FilePath) : Except PathTrouble (List String) :=
  if longestPath < p.text.utf8ByteSize then .error .longName
  else s.walk (if p.slashes = 0 then s.here else []) p.names

/-- The place to which a path without a null character leads. -/
def locate (s : Storage) (p : FilePath) : Except StorageFault (List String) :=
  if p.hasNull then .error .nullCharacter else (s.place p).mapError fun t => .path t p

/-! ### Operations -/

/-- Whether something stands where a path leads.  A path on which a folder is missing leads
nowhere, and so does one with a null character. -/
def holds (s : Storage) (p : FilePath) : Except StorageFault Bool :=
  match s.locate p with
  | .ok place => .ok (s.entry? place).isSome
  | .error (.path .longName p) => .error (.path .longName p)
  | .error _ => .ok false

/-- The octets of a file. -/
def read (s : Storage) (p : FilePath) : Except StorageFault (List UInt8) := do
  match s.entry? (← s.locate p) with
  | some (.file octets) => .ok octets
  | some .folder => .error (.path .isFolder p)
  | none => .error (.path .absent p)

/-- The storage in which a file has other octets, or is new. -/
def write (s : Storage) (p : FilePath) (octets : List UInt8) : Except StorageFault Storage := do
  let place ← s.locate p
  match s.entry? place with
  | some .folder => .error (.path .isFolder p)
  | _ => .ok (s.put place (.file octets))

/-- The storage with a new folder. -/
def makeFolder (s : Storage) (p : FilePath) : Except StorageFault Storage := do
  let place ← s.locate p
  match s.entry? place with
  | some _ => .error (.path .present p)
  | none => .ok (s.put place .folder)

/-- Whether a folder stands where a path leads. -/
def isFolder (s : Storage) (p : FilePath) : Bool :=
  match s.locate p with
  | .ok place => s.entry? place = some .folder
  | .error _ => false

/-- The storage with a folder that need not be new, and with the folders around it; `fuel`
bounds their number.  Folders stay that were made before a failure. -/
def makeFoldersWithin (s : Storage) (p : FilePath) : Nat → Storage × Except StorageFault Unit
  | 0 => (s, .error (.path .absent p))
  | fuel + 1 =>
    let accept := fun (s : Storage) (f : StorageFault) =>
      if f ≠ .nullCharacter && s.isFolder p then (s, .ok ()) else (s, .error f)
    match s.makeFolder p with
    | .ok s => (s, .ok ())
    | .error (.path .absent q) =>
      if p.parent = p then (s, .error (.path .absent q))
      else
        match s.makeFoldersWithin p.parent fuel with
        | (s, .error f) => (s, .error f)
        | (s, .ok _) =>
          match s.makeFolder p with
          | .ok s => (s, .ok ())
          | .error f => accept s f
    | .error f => accept s f

/-- The storage with a folder that need not be new, and with the folders around it. -/
def makeFolders (s : Storage) (p : FilePath) : Storage × Except StorageFault Unit :=
  s.makeFoldersWithin p (p.names.length + 1)

/-! ### Views -/

/-- The places by which names lead, one after another, from a folder. -/
def visited (folder : List String) : List String → List (List String)
  | [] => [folder]
  | name :: names =>
    folder :: visited (if name = ".." then folder.dropLast else folder ++ [name]) names

/-- A storage in which there is nothing but a folder and what is around it. -/
def of (here : List String) : Storage :=
  ⟨here, (visited [] here).map fun place => (place, .folder)⟩

/-- The entries that a storage has gained over an earlier one, in the order in which they came. -/
def gained (before after : Storage) : List (List String × Stored) :=
  after.entries.reverse.filter fun e => before.entry? e.1 ≠ some e.2

end Storage

end XmlDraft
