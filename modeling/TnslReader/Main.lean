import TnslReader.CommandLine.Run

/-!
Contract: the program, which runs one invocation on the files of the system.

What a run does is decided by `Invocation.ofArguments`, `checkSize` and `Invocation.listing`. This
module only reads and writes files, prints what went wrong, and sets the exit code.
-/

set_option autoImplicit false

namespace TnslReader

/-- The number of an error from its code. Some calls to the system give it negated, in 32 bits. -/
def errorNumber (code : UInt32) : Nat :=
  if code.toNat < 0x80000000 then code.toNat else 0x100000000 - code.toNat

def errorNumber? : IO.Error → Option Nat
  | .alreadyExists _ code _ => some (errorNumber code)
  | .otherError code _ => some (errorNumber code)
  | .resourceBusy code _ => some (errorNumber code)
  | .resourceVanished code _ => some (errorNumber code)
  | .unsupportedOperation code _ => some (errorNumber code)
  | .hardwareFault code _ => some (errorNumber code)
  | .unsatisfiedConstraints code _ => some (errorNumber code)
  | .illegalOperation code _ => some (errorNumber code)
  | .protocolError code _ => some (errorNumber code)
  | .timeExpired code _ => some (errorNumber code)
  | .interrupted _ code _ => some (errorNumber code)
  | .noFileOrDirectory _ code _ => some (errorNumber code)
  | .invalidArgument _ code _ => some (errorNumber code)
  | .permissionDenied _ code _ => some (errorNumber code)
  | .resourceExhausted _ code _ => some (errorNumber code)
  | .inappropriateType _ code _ => some (errorNumber code)
  | .noSuchThing _ code _ => some (errorNumber code)
  | .unexpectedEof => none
  | .userError _ => none

def StorageError.ofSystem (error : IO.Error) : StorageError :=
  match errorNumber? error with
  | some 2 => .notFound
  | some 13 => .permissionDenied
  | some 20 => .notADirectory
  | some 21 => .isADirectory
  | some 36 => .nameTooLong
  | _ => .other (toString error)

/-- The failure to read an input file. A file that is there but cannot be opened, or is a directory,
counts as unreadable; any other cannot even be reached. -/
def Failure.ofReading (path : String) (error : StorageError) : Failure :=
  match error with
  | .isADirectory | .permissionDenied => .unreadable path error
  | _ => .inaccessible path error

def Refusal.message : Refusal → String
  | .help =>
      "Lex and parse a TNSL source file\n\n" ++
        "Usage: tnsl [OPTIONS] <INPUT>\n\n" ++
        "Options:\n" ++
        "  -o, --out <FILE>           Output file [default: out.tnt]\n" ++
        "  -w, --write-level <LEVEL>  What to write: tokens or tree [default: tree]\n" ++
        "      --format <FORMAT>      Output format: text or json [default: text]\n" ++
        "      --max-depth <N>        Deepest nesting accepted [default: 256]\n" ++
        "  -h, --help                 Print help\n" ++
        "  -V, --version              Print version"
  | .version => "tnsl " ++ programVersion
  | .missingInput => "error: the input file is missing"
  | .missingValue _ => "error: an option needs a value but has none"
  | .emptyPath _ => "error: a path must not be empty"
  | .unknownChoice _ value => "error: invalid value '" ++ value ++ "'"
  | .notANumber value => "error: invalid number '" ++ value ++ "'"
  | .repeated _ => "error: an option cannot be given more than once"
  | .unknownArgument argument => "error: unexpected argument '" ++ argument ++ "'"
  | .unwantedValue argument => "error: the option '--" ++ argument ++ "' takes no value"

def Invocation.listInput (invocation : Invocation) : IO (Except Failure String) := do
  try
    let data ← IO.FS.readBinFile invocation.input
    return do
      checkSize invocation.input data.size
      invocation.listing (Contents.bytes data.toList).text
  catch error =>
    return .error (.ofReading invocation.input (.ofSystem error))

def Invocation.writeOutput (invocation : Invocation) (text : String) :
    IO (Except Failure Unit) := do
  try
    IO.FS.writeFile invocation.output text
    return .ok ()
  catch error =>
    return .error (.unwritable invocation.output (.ofSystem error))

def Failure.print (failure : Failure) : IO Unit := do
  IO.eprintln failure.message
  match failure with
  | .invalid diagnostic => (diagnostic.help?).forM fun help => IO.eprintln help
  | _ => return ()

def Invocation.perform (invocation : Invocation) : IO UInt32 := do
  let outcome ←
    match ← invocation.listInput with
    | .error failure => pure (.error failure)
    | .ok text => invocation.writeOutput text
  match outcome with
  | .ok () => return 0
  | .error failure =>
      failure.print
      return Failure.exitCode.toUInt32

end TnslReader

def main (arguments : List String) : IO UInt32 :=
  match TnslReader.Invocation.ofArguments arguments with
  | .ok invocation => invocation.perform
  | .error refusal => do
      if refusal.exitCode = 0 then
        IO.println refusal.message
      else
        IO.eprintln refusal.message
      return refusal.exitCode.toUInt32
