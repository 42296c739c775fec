import TnslReader.Text.Utf8

/-!
Contract: directories of files, and what a path means in them.

A path leads from directory to directory. Empty parts and `.` stay where they are, `..` goes up, and
every other part names an entry. A path that begins with a slash starts at the top, and any other at
the working directory.

Owns: reading, writing and the ways in which both fail.
Does not own: what is read or written.
-/

set_option autoImplicit false

namespace TnslReader

inductive StorageError where
  | notFound
  | permissionDenied
  | notADirectory
  | isADirectory
  | nameTooLong
  | nulInPath
  | other (description : String)
deriving DecidableEq, Repr

def StorageError.description : StorageError → String
  | .notFound => "No such file or directory (os error 2)"
  | .permissionDenied => "Permission denied (os error 13)"
  | .notADirectory => "Not a directory (os error 20)"
  | .isADirectory => "Is a directory (os error 21)"
  | .nameTooLong => "File name too long (os error 36)"
  | .nulInPath => "file name contained an unexpected NUL byte"
  | .other description => description

/-- What a file holds. Zeros alone are counted and not kept one by one, so that some contents can be
kept in two ways; `Contents.same` compares what they hold. -/
inductive Contents where
  | bytes (data : List UInt8)
  | zeros (count : Nat)

namespace Contents

def ofText (text : String) : Contents :=
  .bytes text.toUTF8.toList

def toList : Contents → List UInt8
  | .bytes data => data
  | .zeros count => List.replicate count 0

/-- Whether two contents are the same bytes, whichever way these are kept. -/
def same : Contents → Contents → Bool
  | .bytes data, .bytes other => data == other
  | .bytes data, .zeros count => data.length == count && data.all (· == 0)
  | .zeros count, .bytes data => data.length == count && data.all (· == 0)
  | .zeros count, .zeros other => count == other

theorem same_eq_true {first second : Contents} :
    first.same second = true ↔ first.toList = second.toList := by
  cases first <;> cases second
  · simp [same, toList]
  · simp [same, toList, List.eq_replicate_iff]
  · simp [same, toList, List.eq_replicate_iff, eq_comm (a := List.replicate _ _)]
  · simp [same, toList]

def size : Contents → Nat
  | .bytes data => data.length
  | .zeros count => count

def text : Contents → String
  | .bytes data => Utf8.decode data
  | .zeros count => String.ofList (List.replicate count '\x00')

end Contents

inductive Entry where
  | file (contents : Contents)
  | directory

/-- Entries by their path from the top. The top itself is a directory and not listed. -/
structure Storage where
  entries : List (List String × Entry)

inductive Place where
  | directory (path : List String)
  | file (path : List String) (contents : Contents)

namespace Storage

/-- The working directory. No path can spell its name. -/
def workingDirectory : List String := ["."]

def empty : Storage := ⟨[(workingDirectory, .directory)]⟩

def entry? (storage : Storage) (path : List String) : Option Entry :=
  if path.isEmpty then some .directory else storage.entries.lookup path

def insert (storage : Storage) (path : List String) (entry : Entry) : Storage :=
  if storage.entries.any (·.1 == path) then
    ⟨storage.entries.map fun old => if old.1 == path then (path, entry) else old⟩
  else
    ⟨storage.entries ++ [(path, entry)]⟩

def longestName : Nat := 255

def longestPath : Nat := 4095

/-- Follows the parts of a path from a directory on. -/
def follow (storage : Storage) (directory : List String) :
    List String → Except StorageError Place
  | [] => .ok (.directory directory)
  | part :: parts =>
      if part = "" || part = "." then
        storage.follow directory parts
      else if part = ".." then
        storage.follow directory.dropLast parts
      else if longestName < part.utf8ByteSize then
        .error .nameTooLong
      else
        match storage.entry? (directory ++ [part]) with
        | none => .error .notFound
        | some .directory => storage.follow (directory ++ [part]) parts
        | some (.file contents) =>
            if parts.isEmpty then .ok (.file (directory ++ [part]) contents)
            else .error .notADirectory

def origin (path : String) : List String :=
  if path.toList.head? == some '/' then [] else workingDirectory

/-- The parts of a path that can be followed at all. -/
def partsOf (path : String) : Except StorageError (List String) :=
  if path.toList.contains '\x00' then .error .nulInPath
  else if longestPath < path.utf8ByteSize then .error .nameTooLong
  else if path.isEmpty then .error .notFound
  else .ok (path.splitOn "/")

def find (storage : Storage) (path : String) : Except StorageError Place := do
  storage.follow (origin path) (← partsOf path)

def size (storage : Storage) (path : String) : Except StorageError Nat := do
  match ← storage.find path with
  | .directory _ => return 0
  | .file _ contents => return contents.size

def read (storage : Storage) (path : String) : Except StorageError Contents := do
  match ← storage.find path with
  | .directory _ => throw .isADirectory
  | .file _ contents => return contents

/-- The storage with the given contents in the file at a path, which is made if it is not there. Its
directory must be there. A path that ends with a slash means a directory, there or not. -/
def write (storage : Storage) (path : String) (contents : Contents) :
    Except StorageError Storage := do
  let parts ← partsOf path
  let names := parts.filter (· != "")
  match ← storage.follow (origin path) names.dropLast with
  | .file _ _ => throw .notADirectory
  | .directory directory =>
      let name := names.getLast?.getD "."
      if parts.getLast? == some "" || name = "." || name = ".." then
        throw .isADirectory
      else if longestName < name.utf8ByteSize then
        throw .nameTooLong
      else
        match storage.entry? (directory ++ [name]) with
        | some .directory => throw .isADirectory
        | _ => return storage.insert (directory ++ [name]) (.file contents)

/-- The storage with an entry at a path from the working directory, and with directories on the way
there. -/
def place (storage : Storage) (path : String) (entry : Entry) : Storage :=
  let parts := path.splitOn "/"
  let ways := (List.range parts.length).tail.map fun length =>
    workingDirectory ++ parts.take length
  let paved := ways.foldl (fun paved way =>
    if (paved.entry? way).isSome then paved else paved.insert way .directory) storage
  paved.insert (workingDirectory ++ parts) entry

def holds (storage : Storage) (path : List String) (contents : Contents) : Bool :=
  match storage.entry? path with
  | some (.file present) => present.same contents
  | _ => false

/-- The files in the working directory that are not in `before` or differ from it, by their paths
from there. -/
def changesSince (storage before : Storage) : List (String × Contents) :=
  storage.entries.filterMap fun (path, entry) =>
    match entry, workingDirectory.isPrefixOf path with
    | .file contents, true =>
        if before.holds path contents then none
        else some (String.intercalate "/" (path.drop workingDirectory.length), contents)
    | _, _ => none

end Storage

end TnslReader
