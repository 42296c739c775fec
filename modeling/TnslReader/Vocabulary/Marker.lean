/-!
Contract: the two-rune markers that structure a source file.

A marker closes the section that stands before it, opens the section that stands after it, or does
both at once. What it closes and opens determines all the rest, so `closes?` and `opens?` are the
definition and the other facts are read off them.

Does not own: the nesting of sections, or how comment markers are resolved.
-/

set_option autoImplicit false

namespace TnslReader

inductive Section where
  | code
  | preprocessor
  | comment
deriving DecidableEq, Repr

inductive MarkerRole where
  | opens
  | closes
  | redefines
  | comments
deriving DecidableEq, Repr

/-- A marker, named for the sections that it leaves and enters. -/
inductive Marker where
  /-- `/;` -/
  | openCode
  /-- `;/` -/
  | closeCode
  /-- `/:` -/
  | openPreprocessor
  /-- `:/` -/
  | closePreprocessor
  /-- `/#` -/
  | openComment
  /-- `#/` -/
  | closeComment
  /-- `;;` -/
  | codeToCode
  /-- `::` -/
  | preprocessorToPreprocessor
  /-- `;:` -/
  | codeToPreprocessor
  /-- `:;` -/
  | preprocessorToCode
  /-- `;#` -/
  | codeToComment
  /-- `:#` -/
  | preprocessorToComment
  /-- `#;` -/
  | commentToCode
  /-- `#:` -/
  | commentToPreprocessor
deriving DecidableEq, Repr

namespace Marker

def all : List Marker :=
  [.openCode, .closeCode, .openPreprocessor, .closePreprocessor, .openComment, .closeComment,
    .codeToCode, .preprocessorToPreprocessor, .codeToPreprocessor, .preprocessorToCode,
    .codeToComment, .preprocessorToComment, .commentToCode, .commentToPreprocessor]

def spelling : Marker → String
  | .openCode => "/;"
  | .closeCode => ";/"
  | .openPreprocessor => "/:"
  | .closePreprocessor => ":/"
  | .openComment => "/#"
  | .closeComment => "#/"
  | .codeToCode => ";;"
  | .preprocessorToPreprocessor => "::"
  | .codeToPreprocessor => ";:"
  | .preprocessorToCode => ":;"
  | .codeToComment => ";#"
  | .preprocessorToComment => ":#"
  | .commentToCode => "#;"
  | .commentToPreprocessor => "#:"

def closes? : Marker → Option Section
  | .openCode | .openPreprocessor | .openComment => none
  | .closeCode | .codeToCode | .codeToPreprocessor | .codeToComment => some .code
  | .closePreprocessor | .preprocessorToPreprocessor | .preprocessorToCode
  | .preprocessorToComment => some .preprocessor
  | .closeComment | .commentToCode | .commentToPreprocessor => some .comment

def opens? : Marker → Option Section
  | .closeCode | .closePreprocessor | .closeComment => none
  | .openCode | .codeToCode | .preprocessorToCode | .commentToCode => some .code
  | .openPreprocessor | .preprocessorToPreprocessor | .codeToPreprocessor
  | .commentToPreprocessor => some .preprocessor
  | .openComment | .codeToComment | .preprocessorToComment => some .comment

/-- A marker that touches a comment has no say in the block structure; of the others, those that
both close and open a section redefine the block. -/
def role (marker : Marker) : MarkerRole :=
  match marker.closes?, marker.opens? with
  | some .comment, _ => .comments
  | _, some .comment => .comments
  | some _, some _ => .redefines
  | some _, none => .closes
  | none, _ => .opens

def ofSpelling? (text : String) : Option Marker :=
  all.find? (·.spelling == text)

/-- Whether the marker structures blocks. Statements and values end before such a marker. -/
def isBlockMarker (marker : Marker) : Bool :=
  marker.role != .comments

def endsSection (marker : Marker) : Bool :=
  marker.role == .closes || marker.role == .redefines

def opensComment (marker : Marker) : Bool :=
  marker.opens? == some .comment

def closesComment (marker : Marker) : Bool :=
  marker.closes? == some .comment

theorem mem_all (marker : Marker) : marker ∈ all := by
  cases marker <;> simp [all]

theorem spelling_of_ofSpelling? {text : String} {marker : Marker}
    (found : ofSpelling? text = some marker) : marker.spelling = text := by
  simpa using List.find?_some found

theorem ofSpelling?_spelling (marker : Marker) : ofSpelling? marker.spelling = some marker := by
  cases marker <;> decide +kernel

end Marker

end TnslReader
