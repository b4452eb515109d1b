import MapScript.Text.Word

/-!
# Folders

A folder is a list of files on a machine of which little else is known: there is a root, with the
null device below it and a directory for temporary files, and there are the directories above the
folder. A path is followed name by name, and what it finds can be read and written.
-/
namespace MapScript

/-- Why a file could not be read or written. -/
inductive FileFault where
  | notFound
  | notUtf8
  | isDirectory
  | notDirectory
  | nameTooLong
  | denied
  | other (text : String)
deriving DecidableEq, Repr

def FileFault.message : FileFault → String
  | notFound => "No such file or directory (os error 2)"
  | notUtf8 => "stream did not contain valid UTF-8"
  | isDirectory => "Is a directory (os error 21)"
  | notDirectory => "Not a directory (os error 20)"
  | nameTooLong => "File name too long (os error 36)"
  | denied => "Permission denied (os error 13)"
  | other text => text

/-- A directory that a path can pass through. -/
inductive Directory where
  /-- The folder itself. -/
  | folder
  | root
  | devices
  /-- Any other one. Nothing in it is known. -/
  | elsewhere
deriving DecidableEq, Repr

/-- The directory that a name stands for in another one, if it is known to stand for one. An empty
name comes from a slash too many. -/
def Directory.enter? : Directory → String → Option Directory
  | d, "" => some d
  | d, "." => some d
  | .root, ".." => some .root
  | .devices, ".." => some .root
  | _, ".." => some .elsewhere
  | .root, "dev" => some .devices
  | .root, "tmp" => some .elsewhere
  | _, _ => none

/-- Where a path leads. -/
inductive Target where
  | directory
  /-- The last name of the path. -/
  | file (parent : Directory) (name : String)
  /-- The last name, with a slash after it as for a directory. -/
  | slashed (parent : Directory) (name : String)
  /-- Something inside of a name. -/
  | inside (parent : Directory) (name : String)
deriving DecidableEq, Repr

/-- Follows names from a directory. -/
def Directory.follow : Directory → List String → Target
  | _, [] => .directory
  | d, name :: names =>
    match d.enter? name with
    | some next => next.follow names
    | none =>
      if names = [] then .file d name
      else if names.all (· = "") then .slashed d name
      else .inside d name

/-- Names and paths have a greatest length in bytes. -/
def maxNameLength : Nat := 255

def maxPathLength : Nat := 4095

/-- Follows a path from the folder, or from the root if it begins with a slash. -/
def resolvePath (path : String) : Except FileFault Target :=
  if path = "" then .error .notFound
  else if maxPathLength < byteLength path.toList then .error .nameTooLong
  else
    match path.splitOn "/" with
    | "" :: names => .ok (Directory.root.follow names)
    | names => .ok (Directory.folder.follow names)

abbrev Folder := List (String × ByteArray)

namespace Folder

def file? (folder : Folder) (name : String) : Option ByteArray := folder.lookup name

/-- The bytes of a file in a directory, if there is one. -/
def entry? (folder : Folder) (parent : Directory) (name : String) :
    Except FileFault (Option ByteArray) :=
  if maxNameLength < byteLength name.toList then .error .nameTooLong
  else
    match parent with
    | .folder => .ok (folder.file? name)
    | .devices => .ok (if name = "null" then some ByteArray.empty else none)
    | _ => .ok none

/-- Why nothing is found inside of a name. -/
def insideFault (folder : Folder) (parent : Directory) (name : String) : FileFault :=
  match folder.entry? parent name with
  | .error fault => fault
  | .ok none => .notFound
  | .ok (some _) => .notDirectory

def read (folder : Folder) (path : String) : Except FileFault String := do
  match ← resolvePath path with
  | .directory => throw .isDirectory
  | .slashed parent name => throw (folder.insideFault parent name)
  | .inside parent name => throw (folder.insideFault parent name)
  | .file parent name =>
    match ← folder.entry? parent name with
    | none => throw .notFound
    | some bytes =>
      match String.fromUTF8? bytes with
      | some text => return text
      | none => throw .notUtf8

/-- Puts a text into a file. What goes to another directory is not seen in the folder. -/
def write (folder : Folder) (path text : String) : Except FileFault Folder := do
  match ← resolvePath path with
  | .directory => throw .isDirectory
  | .slashed _ _ => throw .isDirectory
  | .inside parent name => throw (folder.insideFault parent name)
  | .file parent name =>
    let _ ← folder.entry? parent name
    if parent = .folder then return (name, text.toUTF8) :: folder.filter (·.1 != name)
    else return folder

end Folder

end MapScript
