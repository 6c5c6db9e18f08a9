namespace Respell.Text

def encode (cs : List Char) : List UInt8 := cs.flatMap String.utf8EncodeChar

/-- The six payload bits of a continuation byte. -/
def payload (b : UInt8) : Nat := b.toNat % 64

/-- The code point that the lead byte announces, read without checking the bytes after it. -/
def announced : List UInt8 → Nat
  | [] => 0
  | a :: rest =>
      if a < 0x80 then a.toNat
      else match rest with
        | [] => 0
        | b :: rest =>
            if a < 0xE0 then a.toNat % 32 * 64 + payload b
            else match rest with
              | [] => 0
              | c :: rest =>
                  if a < 0xF0 then (a.toNat % 16 * 64 + payload b) * 64 + payload c
                  else match rest with
                    | [] => 0
                    | d :: _ =>
                        ((a.toNat % 8 * 64 + payload b) * 64 + payload c) * 64 + payload d

/-- The character whose encoding some bytes begin with. -/
def firstChar? (bytes : List UInt8) : Option Char :=
  let c := Char.ofNat (announced bytes)
  if (String.utf8EncodeChar c).isPrefixOf bytes then some c else none

/-- Reads bytes of which the first `skip` belong to a character already read. -/
def decodeFrom : Nat → List UInt8 → List (Option Char)
  | _, [] => []
  | skip + 1, _ :: bytes => decodeFrom skip bytes
  | 0, b :: bytes =>
      match firstChar? (b :: bytes) with
      | some c => some c :: decodeFrom (c.utf8Size - 1) bytes
      | none => none :: decodeFrom 0 bytes

/-- The characters of some bytes, with a gap for each byte that belongs to none. -/
def decode (bytes : List UInt8) : List (Option Char) := decodeFrom 0 bytes

/-- A run of decoded characters as text, if it has no gap. -/
def gapless? : List (Option Char) → Option (List Char)
  | [] => some []
  | none :: _ => none
  | some c :: cs => (gapless? cs).map (c :: ·)

end Respell.Text
