import TnslReader.Token.Scan

/-!
Contract: removing block comments from scanned tokens.

A comment reaches from a marker that opens one to the next marker that closes one; markers that open
a comment within a comment count as its text. Some comment markers also end or begin a section of a
block, and leave the marker for that behind:

- `;#` and `:#` leave `;/` and `:/`, unless they stand within a comment;
- `#;` and `#:` leave `/;` and `/:`, whether or not a comment was open;
- `/#` leaves nothing, and `#/` leaves nothing unless no comment was open, where it stays.
-/

set_option autoImplicit false

namespace TnslReader

/-- What a marker that opens a comment leaves in its place. -/
def Marker.leftByOpening? : Marker → Option Marker
  | .codeToComment => some .closeCode
  | .preprocessorToComment => some .closePreprocessor
  | _ => none

/-- What a marker that closes a comment leaves in its place. -/
def Marker.leftByClosing? : Marker → Option Marker
  | .commentToCode => some .openCode
  | .commentToPreprocessor => some .openPreprocessor
  | _ => none

namespace Comment

/-- What is left of a token that stands inside or outside a comment, and whether the tokens behind
it stand inside one. -/
def resolve (inComment : Bool) (token : Token) : Option Token × Bool :=
  let leave (marker : Marker) : Token := token.respelled token.tokenClass marker.spelling
  let outside : Option Token := if inComment then none else some token
  match token.marker? with
  | none => (outside, inComment)
  | some marker =>
      if marker.opensComment then
        (if inComment then none else marker.leftByOpening?.map leave, true)
      else if marker.closesComment then
        ((marker.leftByClosing?.map leave).or outside, false)
      else
        (outside, inComment)

def stripStep (left : Array Token × Bool) (token : Token) : Array Token × Bool :=
  let resolved := resolve left.2 token
  (left.1 ++ resolved.1.toList, resolved.2)

/-- The tokens without block comments. A comment that is never closed reaches to the end. -/
def strip (tokens : Array Token) : Array Token :=
  (tokens.foldl stripStep (#[], false)).1

end Comment

def lex (source : String) : Array Token :=
  Comment.strip (Scan.scan source)

end TnslReader
