/-! Text as bytes. Reading is a byte-at-a-time decoder that reports each maximal ill-formed
sequence once; writing is the encoding of each character in turn. Lossy text shows a
replacement character for every report, so it is total, and exact on well-formed bytes. -/
namespace CompilerDriver

abbrev Bytes := List UInt8

namespace Utf8

/-- A character whose leading bytes have been read: the bits so far, how many bytes are still
due, and the range the next of them must lie in. -/
structure Partial where
  bits : Nat
  due : Nat
  low : UInt8
  high : UInt8

/-- What a leading byte of two or more announces. The narrowed ranges of the second byte leave
out overlong forms, surrogates and values beyond the last code point. -/
def lead? (b : UInt8) : Option Partial :=
  if 0xC2 ≤ b ∧ b ≤ 0xDF then some ⟨b.toNat - 0xC0, 1, 0x80, 0xBF⟩
  else if b = 0xE0 then some ⟨0, 2, 0xA0, 0xBF⟩
  else if b = 0xED then some ⟨0xD, 2, 0x80, 0x9F⟩
  else if 0xE1 ≤ b ∧ b ≤ 0xEF then some ⟨b.toNat - 0xE0, 2, 0x80, 0xBF⟩
  else if b = 0xF0 then some ⟨0, 3, 0x90, 0xBF⟩
  else if 0xF1 ≤ b ∧ b ≤ 0xF3 then some ⟨b.toNat - 0xF0, 3, 0x80, 0xBF⟩
  else if b = 0xF4 then some ⟨4, 3, 0x80, 0x8F⟩
  else none

def isAscii (b : UInt8) : Bool := b < 0x80

mutual

/-- Reads on between characters. `none` stands for one maximal ill-formed sequence. -/
def decode : Bytes → List (Option Char)
  | [] => []
  | b :: rest =>
    if isAscii b then some (Char.ofNat b.toNat) :: decode rest
    else match lead? b with
      | some p => resume p rest
      | none => none :: decode rest

/-- Reads on inside a character. A byte out of range ends the ill-formed sequence and is
itself read afresh. -/
def resume (p : Partial) : Bytes → List (Option Char)
  | [] => [none]
  | b :: rest =>
    if p.low ≤ b ∧ b ≤ p.high then
      let bits := p.bits * 64 + (b.toNat - 0x80)
      if p.due = 1 then some (Char.ofNat bits) :: decode rest
      else resume ⟨bits, p.due - 1, 0x80, 0xBF⟩ rest
    else if isAscii b then none :: some (Char.ofNat b.toNat) :: decode rest
    else match lead? b with
      | some q => none :: resume q rest
      | none => none :: none :: decode rest

end

/-- The text of well-formed bytes. -/
def decode? (bs : Bytes) : Option String :=
  ((decode bs).mapM id).map String.ofList

/-- Text for display: every maximal ill-formed sequence becomes U+FFFD. -/
def lossy (bs : Bytes) : String :=
  String.ofList ((decode bs).map (·.getD '\uFFFD'))

def encodeChars (cs : List Char) : Bytes := cs.flatMap String.utf8EncodeChar

def encode (s : String) : Bytes := encodeChars s.toList

@[simp] theorem encodeChars_nil : encodeChars [] = [] := rfl

@[simp] theorem encodeChars_cons (c : Char) (cs : List Char) :
    encodeChars (c :: cs) = String.utf8EncodeChar c ++ encodeChars cs := rfl

@[simp] theorem encodeChars_append (cs ds : List Char) :
    encodeChars (cs ++ ds) = encodeChars cs ++ encodeChars ds := by
  simp [encodeChars]

end Utf8

end CompilerDriver
