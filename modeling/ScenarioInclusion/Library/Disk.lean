import ScenarioInclusion.Library

/-!
# Documents on disk

A disk is the tree of files and directories under the directory that relative
paths start from.  Nothing is known of the places outside that tree, except
that the directories above it are there; so a path that leaves it leads to
nothing.

A file is read in two steps: its directory is opened, component by component,
and then the file is opened in it.  A component that is a file cannot be gone
through, a name has at most 255 bytes and a path at most 4095, and what is read
must be UTF-8.
-/

namespace ScenarioInclusion

namespace ReadFault

def isDirectory : ReadFault := ⟨"Is a directory (os error 21)"⟩

def notDirectory : ReadFault := ⟨"Not a directory (os error 20)"⟩

def nameTooLong : ReadFault := ⟨"File name too long (os error 36)"⟩

def notUnicode : ReadFault := ⟨"stream did not contain valid UTF-8"⟩

def zeroInName : ReadFault := ⟨"Invalid argument (os error 22)"⟩

def zeroInDirectory : ReadFault :=
  ⟨"file name contained an unexpected NUL byte"⟩

end ReadFault

namespace Disk

inductive Entry where
  | directory
  | file (content : List UInt8)
  deriving DecidableEq, Repr

end Disk

/-- What lies at the names that lead down from the starting directory, the
newest entry first. -/
structure Disk where
  entries : List (List Text × Disk.Entry)

namespace Disk

def empty : Disk := ⟨[]⟩

/-- The names that a relative path goes down by. -/
def namesOf (path : Path) : List Text :=
  path.normal.components.filterMap fun
    | .name text => some text
    | _ => none

def makeDirectories (disk : Disk) (names : List Text) : Disk :=
  ⟨(List.range (names.length + 1)).reverse.map
    (fun depth => (names.take depth, Entry.directory)) ++ disk.entries⟩

def makeDirectory (disk : Disk) (path : Path) : Disk :=
  disk.makeDirectories (namesOf path)

def write (disk : Disk) (path : Path) (content : List UInt8) : Disk :=
  let names := namesOf path
  ⟨(names, .file content) :: (disk.makeDirectories names.dropLast).entries⟩

/-- What lies at a place, which may be outside the tree. -/
def entryAt? (disk : Disk) (outside : Bool) (names : List Text) :
    Option Entry :=
  if names = [] then some .directory
  else if outside then none
  else (disk.entries.find? (·.1 = names)).map Prod.snd

def byteLength (text : Text) : Nat :=
  (String.ofList text).utf8ByteSize

def longestName : Nat := 255

def longestPath : Nat := 4095

def lookup (disk : Disk) (outside : Bool) (above : List Text) (name : Text) :
    Except ReadFailure Entry :=
  if longestName < byteLength name then .error (.faulty .nameTooLong)
  else
    match disk.entryAt? outside (above ++ [name]) with
    | none => .error .missing
    | some entry => .ok entry

def descend (disk : Disk) (outside : Bool) :
    (above names : List Text) → Except ReadFailure Unit
  | _, [] => .ok ()
  | above, name :: rest =>
    match disk.lookup outside above name with
    | .error failure => .error failure
    | .ok (.file _) => .error (.faulty .notDirectory)
    | .ok .directory => disk.descend outside (above ++ [name]) rest

def decode (content : List UInt8) : Except ReadFailure Text :=
  match String.fromUTF8? ⟨content.toArray⟩ with
  | some string => .ok string.toList
  | none => .error (.faulty .notUnicode)

def zero : Char := '\x00'

def openDirectory (disk : Disk) (outside : Bool) (directory : Path) :
    Except ReadFailure Unit :=
  if zero ∈ directory.text then .error (.faulty .zeroInDirectory)
  else if longestPath < byteLength directory.text then
    .error (.faulty .nameTooLong)
  else disk.descend outside [] (namesOf directory)

def readIn (disk : Disk) (outside : Bool) (above : List Text) (name : Text) :
    Except ReadFailure Text :=
  if zero ∈ name then .error (.faulty .zeroInName)
  else
    match disk.lookup outside above name with
    | .error failure => .error failure
    | .ok .directory => .error (.faulty .isDirectory)
    | .ok (.file content) => decode content

/-- Read the text of the file at a normal path. -/
def read (disk : Disk) (path : Path) : Except ReadFailure Text :=
  let outside := path.components.any fun component =>
    component = .root ∨ component = .up
  match path.fileName? with
  | none => .error .missing
  | some name => do
    disk.openDirectory outside path.directory
    disk.readIn outside (namesOf path.directory) name

def library (disk : Disk) (featuresRoot : Option Path) : Library :=
  .ofReader disk.read featuresRoot

end Disk

end ScenarioInclusion
