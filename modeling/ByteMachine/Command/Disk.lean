import ByteMachine.Text.Split

/-!
This module contains a tree of files as a value, with the logic to read and to write files in it by
their paths.
-/

namespace ByteMachine
namespace Command

inductive FileError where
  | notFound
  | notDirectory
  | isDirectory
  | nameTooLong
  | notText
  | other (message : String)
deriving DecidableEq

def FileError.message : FileError → String
  | .notFound => "No such file or directory (os error 2)"
  | .notDirectory => "Not a directory (os error 20)"
  | .isDirectory => "Is a directory (os error 21)"
  | .nameTooLong => "File name too long (os error 36)"
  | .notText => "stream did not contain valid UTF-8"
  | .other message => message

abbrev Location := List String

inductive Entry where
  | directory
  | file (content : List UInt8)
deriving DecidableEq

structure Disk where
  /-- What is at which place, the latest first; the root is a directory in any case. -/
  entries : List (Location × Entry)
  workingDirectory : Location
deriving DecidableEq

namespace Disk

def entry? (d : Disk) (location : Location) : Option Entry :=
  if location = [] then some .directory else (d.entries.find? (·.1 = location)).map (·.2)

def nameLimit : Nat := 255

def pathLimit : Nat := 4095

def enter (d : Disk) (location : Location) (name : String) : Except FileError Location :=
  match d.entry? location with
  | none => .error .notFound
  | some (.file _) => .error .notDirectory
  | some .directory =>
    if name = "." then
      .ok location
    else if name = ".." then
      .ok location.dropLast
    else if nameLimit < name.utf8ByteSize then
      .error .nameTooLong
    else
      .ok (location ++ [name])

def names (path : String) : List String :=
  (Text.words (· = '/') path.toList).map String.ofList

def pathError? (path : String) : Option FileError :=
  if '\x00' ∈ path.toList then
    some (.other "file name contained an unexpected NUL byte")
  else if pathLimit < path.utf8ByteSize then
    some .nameTooLong
  else if path = "" then
    some .notFound
  else
    none

def locate (d : Disk) (path : String) (names : List String) : Except FileError Location :=
  match pathError? path with
  | some error => .error error
  | none =>
    names.foldlM d.enter (if path.toList.head? = some '/' then [] else d.workingDirectory)

def namesDirectory (path : String) : Bool :=
  path.toList.getLast? = some '/'

def read (d : Disk) (path : String) : Except FileError (List UInt8) := do
  let location ← d.locate path (names path)
  match d.entry? location with
  | none => throw .notFound
  | some .directory => throw .isDirectory
  | some (.file content) =>
    if namesDirectory path then throw .notDirectory else return content

/--
Writes a file; one that is there already is replaced. The last name of a path that is to name a
directory is not looked up.
-/
def write (d : Disk) (path : String) (content : List UInt8) : Except FileError Disk := do
  if namesDirectory path then
    let _ ← d.locate path ((names path).dropLast ++ ["."])
    throw .isDirectory
  let location ← d.locate path (names path)
  match d.entry? location with
  | some .directory => throw .isDirectory
  | _ => return { d with entries := (location, .file content) :: d.entries }

end Disk
end Command
end ByteMachine
