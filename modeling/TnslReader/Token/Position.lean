/-!
Contract: places in a source text, and how reading characters moves a place.
-/

set_option autoImplicit false

namespace TnslReader

/-- A place between two characters: the bytes before it, and its line and column counted from 1 in
characters. -/
structure Position where
  offset : Nat
  line : Nat
  column : Nat
deriving DecidableEq, Repr

namespace Position

def start : Position := ⟨0, 1, 1⟩

def after (position : Position) (character : Char) : Position :=
  if character = '\n' then
    ⟨position.offset + character.utf8Size, position.line + 1, 1⟩
  else
    ⟨position.offset + character.utf8Size, position.line, position.column + 1⟩

def afterAll (position : Position) (characters : List Char) : Position :=
  characters.foldl after position

@[simp] theorem afterAll_nil (position : Position) : position.afterAll [] = position := rfl

@[simp] theorem afterAll_cons (position : Position) (character : Char)
    (characters : List Char) :
    position.afterAll (character :: characters) =
      (position.after character).afterAll characters := rfl

theorem afterAll_append (position : Position) (first second : List Char) :
    position.afterAll (first ++ second) = (position.afterAll first).afterAll second :=
  List.foldl_append

end Position

end TnslReader
