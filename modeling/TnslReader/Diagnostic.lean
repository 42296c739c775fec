import TnslReader.Token

/-!
Contract: reports about a source text.

A diagnostic says what is wrong, where, and of which kind it is. Its message names the offending
token in words; notes and hints come after it.

Does not own: drawing a diagnostic into the source text.
-/

set_option autoImplicit false

namespace TnslReader

inductive DiagnosticKind where
  | general
  | grammar
  | limit
deriving DecidableEq, Repr

namespace DiagnosticKind

def description : DiagnosticKind → String
  | .general => "error"
  | .grammar => "syntax error"
  | .limit => "limit exceeded"

def code : DiagnosticKind → String
  | .general => "tnsl::error"
  | .grammar => "tnsl::syntax"
  | .limit => "tnsl::limit"

end DiagnosticKind

/-- A report: its message, the bytes it is about, its kind, the line and column of the offending
token if there is one, and notes and hints in order. -/
structure Diagnostic where
  message : String
  span : Span
  kind : DiagnosticKind
  position? : Option (Nat × Nat)
  notes : List String
  hints : List String
deriving DecidableEq, Repr

namespace Diagnostic

def about (kind : DiagnosticKind) (message : String) (span : Span) : Diagnostic :=
  ⟨message, span, kind, none, [], []⟩

/-- A report about a token. The message ends with the token's text and place. -/
def atToken (kind : DiagnosticKind) (message : String) (token : Token) : Diagnostic :=
  ⟨message ++ ": `" ++ token.text ++ "` at line " ++ toString token.line ++ ", column " ++
      toString token.column,
    token.span, kind, some (token.line, token.column), [], []⟩

/-- A report that the input ended too early. It points behind the last token. -/
def unexpectedEnd (wanted : String) (last : Option Token) : Diagnostic :=
  ⟨"unexpected end of input, expected " ++ wanted,
    (last.map fun token => ⟨token.span.stop, token.span.stop⟩).getD ⟨0, 0⟩, .grammar,
    last.map fun token => (token.line, token.column), [], []⟩

def withNote (diagnostic : Diagnostic) (note : String) : Diagnostic :=
  { diagnostic with notes := diagnostic.notes ++ [note] }

def withHint (diagnostic : Diagnostic) (hint : String) : Diagnostic :=
  { diagnostic with hints := diagnostic.hints ++ [hint] }

def depthLimit (limit : Nat) (token : Token) : Diagnostic :=
  (atToken .limit ("nesting deeper than " ++ toString limit ++ " levels") token).withHint
    "raise the limit with `--max-depth`"

def chainLimit (limit : Nat) (token : Token) : Diagnostic :=
  (atToken .limit ("more than " ++ toString limit ++ " chained binary operators") token).withNote
    "operators of equal binding order fold into one left-leaning chain"

def display (diagnostic : Diagnostic) : String :=
  diagnostic.kind.description ++ ": " ++ diagnostic.message

/-- The notes, marked as such, and then the hints, one to a line. -/
def help? (diagnostic : Diagnostic) : Option String :=
  match diagnostic.notes.map ("note: " ++ ·) ++ diagnostic.hints with
  | [] => none
  | lines => some (String.intercalate "\n" lines)

end Diagnostic

end TnslReader
