/-!
Contract: reading bytes as UTF-8 text without ever refusing them.

A well-formed sequence gives its character. Where no character can be read, the longest run of bytes
that still begins some character, or else one byte, gives one replacement character, and reading
goes on behind it.
-/

set_option autoImplicit false

namespace TnslReader.Utf8

/-- What stands for bytes that are no character. -/
def replacement : Char := '\uFFFD'

/-- The bytes that may follow a lead byte: how many there are, and the bounds of the first. -/
structure Tail where
  count : Nat
  lowest : Nat
  highest : Nat
deriving DecidableEq, Repr

/-- What must follow a byte that begins a character of several bytes. The bounds on the first
following byte keep out overlong forms, surrogates and codes beyond the last plane. -/
def tailOf? (lead : Nat) : Option Tail :=
  if 0xC2 ≤ lead ∧ lead ≤ 0xDF then some ⟨1, 0x80, 0xBF⟩
  else if lead = 0xE0 then some ⟨2, 0xA0, 0xBF⟩
  else if lead = 0xED then some ⟨2, 0x80, 0x9F⟩
  else if 0xE1 ≤ lead ∧ lead ≤ 0xEF then some ⟨2, 0x80, 0xBF⟩
  else if lead = 0xF0 then some ⟨3, 0x90, 0xBF⟩
  else if 0xF1 ≤ lead ∧ lead ≤ 0xF3 then some ⟨3, 0x80, 0xBF⟩
  else if lead = 0xF4 then some ⟨3, 0x80, 0x8F⟩
  else none

def leadPayload (lead count : Nat) : Nat :=
  match count with
  | 1 => lead % 0x20
  | 2 => lead % 0x10
  | _ => lead % 0x08

/-- Reads `count` following bytes, the first of them within the given bounds, onto the payload
`code`. Gives the code, or nothing if a byte does not fit, and the bytes from there on. -/
def readTail (count lowest highest code : Nat) (bytes : List UInt8) : Option Nat × List UInt8 :=
  match count, bytes with
  | 0, rest => (some code, rest)
  | _ + 1, [] => (none, [])
  | count + 1, byte :: rest =>
      if lowest ≤ byte.toNat ∧ byte.toNat ≤ highest then
        readTail count 0x80 0xBF (code * 0x40 + byte.toNat % 0x40) rest
      else
        (none, byte :: rest)

theorem readTail_length_le (count lowest highest code : Nat) (bytes : List UInt8) :
    (readTail count lowest highest code bytes).2.length ≤ bytes.length := by
  fun_induction readTail count lowest highest code bytes with
  | case1 => exact Nat.le_refl _
  | case2 => exact Nat.le_refl _
  | case3 _ _ _ _ _ _ _ inductionHypothesis =>
      exact Nat.le_succ_of_le inductionHypothesis
  | case4 => exact Nat.le_refl _

def readCharacter (lead : UInt8) (bytes : List UInt8) : Char × List UInt8 :=
  if lead.toNat < 0x80 then
    (Char.ofNat lead.toNat, bytes)
  else
    match tailOf? lead.toNat with
    | none => (replacement, bytes)
    | some tail =>
        let answer :=
          readTail tail.count tail.lowest tail.highest (leadPayload lead.toNat tail.count) bytes
        ((answer.1.map Char.ofNat).getD replacement, answer.2)

theorem readCharacter_length_le (lead : UInt8) (bytes : List UInt8) :
    (readCharacter lead bytes).2.length ≤ bytes.length := by
  unfold readCharacter
  split
  · exact Nat.le_refl _
  · split
    · exact Nat.le_refl _
    · exact readTail_length_le ..

/-- Reads all bytes behind the characters that were read before, of which `reversed` holds the last
first. -/
def decodeOnto (reversed : List Char) (bytes : List UInt8) : List Char :=
  match bytes with
  | [] => reversed.reverse
  | lead :: rest =>
      decodeOnto ((readCharacter lead rest).1 :: reversed) (readCharacter lead rest).2
termination_by bytes.length
decreasing_by
  have := readCharacter_length_le lead rest
  simp only [List.length_cons]
  omega

def decode (bytes : List UInt8) : String :=
  String.ofList (decodeOnto [] bytes)

end TnslReader.Utf8
