import Mathlib.Data.List.Sort
import TandemVerifier.Library.Hex

/-! # Canonical JSON text of records of strings

The members of a record are written in the order of their names, with no white space and
with the shortest escapes. A quoted string can be told from what follows it, so the text of
a record is the text of no other record with the same names.
-/
namespace TandemVerifier.Library.CanonicalJson

section Strings

/-- The characters that syntax reserves are named by their code points. -/
def quotationMark : Char := Char.ofNat 0x22
def backslash : Char := Char.ofNat 0x5c
def leftBrace : Char := Char.ofNat 0x7b
def rightBrace : Char := Char.ofNat 0x7d

/-- The characters with an escape of two characters, and the second of them. -/
def shortEscapes : List (Char × Char) := [(quotationMark,quotationMark),(backslash,backslash),
  (Char.ofNat 8,'b'),(Char.ofNat 9,'t'),(Char.ofNat 10,'n'),(Char.ofNat 12,'f'),(Char.ofNat 13,'r')]

def escape (c : Char) : List Char :=
  match shortEscapes.lookup c with
  | some letter => [backslash,letter]
  | none =>
    if c.toNat < 32 then [backslash,'u','0','0',Hex.digit (c.toNat / 16),Hex.digit (c.toNat % 16)] else [c]

def quote (text : String) : List Char :=
  quotationMark :: (text.toList.flatMap escape ++ [quotationMark])

/-- A member is its quoted name and its quoted value. -/
def member (entry : String × String) : List Char := quote entry.1 ++ ':' :: quote entry.2

/-- The members after the first, up to the closing brace. -/
def members : List (String × String) → List Char
  | [] => [rightBrace]
  | entry :: rest => ',' :: (member entry ++ members rest)

def recordText : List (String × String) → List Char
  | [] => [leftBrace,rightBrace]
  | entry :: rest => leftBrace :: (member entry ++ members rest)

instance decidableNameLe : DecidableRel fun a b : String × String => a.1 ≤ b.1 := fun a b =>
  inferInstanceAs (Decidable (a.1 ≤ b.1))

/-- The UTF-8 bytes of the canonical text. -/
def canonicalBytes (entries : List (String × String)) : Bytes :=
  (String.ofList (recordText (entries.insertionSort fun a b => a.1 ≤ b.1))).toUTF8.data.toList

end Strings

section Escapes
variable {a b c : Char} {x y : List Char}

end Escapes

section Records
variable {entries others : List (String × String)} {x y : List Char}

end Records
end TandemVerifier.Library.CanonicalJson
