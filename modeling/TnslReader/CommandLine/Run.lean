import TnslReader.CommandLine.Arguments
import TnslReader.CommandLine.Storage
import TnslReader.Listing.Json
import TnslReader.Listing.Text
import TnslReader.Reader

/-!
Contract: what a run of the program does.

A run checks the size of its input file, reads it, and writes the listing that was asked for. The
listing of tokens never fails; that of the tree fails where the tree cannot be read, and then
nothing is written.
-/

set_option autoImplicit false

namespace TnslReader

/-- The largest source file that is read, in bytes. -/
def largestSource : Nat := 100 * 1024 * 1024

inductive Failure where
  /-- The input file cannot be reached. -/
  | inaccessible (path : String) (error : StorageError)
  /-- The input file is too large. -/
  | tooLarge (path : String) (size : Nat)
  /-- The input file cannot be read. -/
  | unreadable (path : String) (error : StorageError)
  /-- The source text has no tree. -/
  | invalid (diagnostic : Diagnostic)
  /-- The output file cannot be written. -/
  | unwritable (path : String) (error : StorageError)
deriving DecidableEq, Repr

def Failure.message : Failure → String
  | .inaccessible path error => "Cannot access file '" ++ path ++ "': " ++ error.description
  | .tooLarge path size =>
      "Source file '" ++ path ++ "' is too large (" ++ toString size ++ " bytes, max " ++
        toString largestSource ++ " bytes)"
  | .unreadable path error => "Error reading file '" ++ path ++ "': " ++ error.description
  | .invalid diagnostic => diagnostic.display
  | .unwritable path error =>
      "Error writing output file '" ++ path ++ "': " ++ error.description

def Failure.exitCode : Nat := 1

/-- A JSON value as a file: one entry to a line, and a newline at the end. -/
def Json.fileText (json : Json) : String :=
  json.pretty ++ "\n"

def listSource (source label : String) (level : Level) (format : Format) (maxDepth : Nat) :
    Except ParseError String :=
  let tokens := lex source
  match level, format with
  | .tokens, .text => .ok (tokenListing tokens)
  | .tokens, .json => .ok (tokensToJson tokens).fileText
  | .tree, format =>
      (readTree tokens label { Limits.standard with maxDepth := maxDepth }).map fun root =>
        match format with
        | .text => root.listing
        | .json => root.toJson.fileText

def Invocation.listing (invocation : Invocation) (source : String) : Except Failure String :=
  match listSource source invocation.input invocation.level invocation.format
      invocation.maxDepth with
  | .ok text => .ok text
  | .error error => .error (.invalid error.diagnostic)

def checkSize (path : String) (size : Nat) : Except Failure Unit :=
  if largestSource < size then .error (.tooLarge path size) else .ok ()

def Invocation.run (invocation : Invocation) (storage : Storage) : Except Failure Storage := do
  let size ← (storage.size invocation.input).mapError (.inaccessible invocation.input)
  checkSize invocation.input size
  let contents ← (storage.read invocation.input).mapError (.unreadable invocation.input)
  let text ← invocation.listing contents.text
  (storage.write invocation.output (.ofText text)).mapError (.unwritable invocation.output)

end TnslReader
