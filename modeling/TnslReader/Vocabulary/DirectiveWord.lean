/-!
Contract: the directive words of the preprocessor.

These words have their meaning in preprocessor context only. Elsewhere they are user words or, as
`if` and `else`, reserved words.
-/

set_option autoImplicit false

namespace TnslReader

/-- A word that begins a preprocessor directive. -/
inductive DirectiveWord where
  | includeWord
  | defineWord
  | externWord
  | sizeWord
  | alignWord
  | addressWord
  | rootfileWord
  | ifWord
  | elseWord
  | abiWord
  | usingWord
deriving DecidableEq, Repr

namespace DirectiveWord

def all : List DirectiveWord :=
  [.includeWord, .defineWord, .externWord, .sizeWord, .alignWord, .addressWord, .rootfileWord,
    .ifWord, .elseWord, .abiWord, .usingWord]

def spelling : DirectiveWord → String
  | .includeWord => "include"
  | .defineWord => "define"
  | .externWord => "extern"
  | .sizeWord => "size"
  | .alignWord => "align"
  | .addressWord => "address"
  | .rootfileWord => "rootfile"
  | .ifWord => "if"
  | .elseWord => "else"
  | .abiWord => "abi"
  | .usingWord => "using"

def ofSpelling? (text : String) : Option DirectiveWord :=
  all.find? (·.spelling == text)

theorem mem_all (word : DirectiveWord) : word ∈ all := by
  cases word <;> simp [all]

theorem spelling_of_ofSpelling? {text : String} {word : DirectiveWord}
    (found : ofSpelling? text = some word) : word.spelling = text := by
  simpa using List.find?_some found

end DirectiveWord

end TnslReader
