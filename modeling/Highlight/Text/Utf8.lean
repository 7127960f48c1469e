import Highlight.Text.Byte

/-!
# Text as UTF-8 bytes

`Utf8.bytes` writes a string as bytes.  Reading goes the other way one
character at a time: `Utf8.readChar` gives a character or says how many bytes
to give up.  The bytes given up are the longest prefix that a valid sequence
could start with, and never none, so one replacement character stands for one
broken sequence.
-/

namespace Highlight.Utf8

/-- The UTF-8 bytes of a list of characters. -/
def encode (chars : List Char) : Bytes :=
  chars.flatMap String.utf8EncodeChar

/-- The UTF-8 bytes of a string. -/
def bytes (text : String) : Bytes :=
  encode text.toList

/-- What a lead byte announces: how many continuation bytes follow it, and the
bounds of the first of them.  The bounds exclude overlong forms, surrogates and
values past the last code point. -/
structure Lead where
  tail : Nat
  low : UInt8
  high : UInt8

/-- The lead bytes of multi-byte characters. -/
def lead? (b : UInt8) : Option Lead :=
  if 0xC2 ≤ b ∧ b ≤ 0xDF then some ⟨1, 0x80, 0xBF⟩
  else if b = 0xE0 then some ⟨2, 0xA0, 0xBF⟩
  else if b = 0xED then some ⟨2, 0x80, 0x9F⟩
  else if 0xE1 ≤ b ∧ b ≤ 0xEF then some ⟨2, 0x80, 0xBF⟩
  else if b = 0xF0 then some ⟨3, 0x90, 0xBF⟩
  else if 0xF1 ≤ b ∧ b ≤ 0xF3 then some ⟨3, 0x80, 0xBF⟩
  else if b = 0xF4 then some ⟨3, 0x80, 0x8F⟩
  else none

/-- The continuation bytes at the front that fit what `lead` announces. -/
def continuation (lead : Lead) : Bytes → Bytes
  | [] => []
  | b :: rest =>
      if lead.low ≤ b ∧ b ≤ lead.high then
        b :: (rest.take (lead.tail - 1)).takeWhile Byte.isContinuation
      else []

/-- The code point spelled by a lead byte and its continuation bytes. -/
def codePoint (first : UInt8) (tail : Bytes) : Nat :=
  tail.foldl (fun value b => value * 64 + b.toNat % 64) (first.toNat % Nat.pow 2 (6 - tail.length))

/-- Reads the character that starts with `first`: the character, or nothing if
the bytes spell none, and the number of bytes taken. -/
def readChar (first : UInt8) (rest : Bytes) : Option Char × Nat :=
  if first < 0x80 then (some (Char.ofNat first.toNat), 1)
  else
    match lead? first with
    | none => (none, 1)
    | some lead =>
        let tail := continuation lead rest
        if tail.length = lead.tail then
          (some (Char.ofNat (codePoint first tail)), 1 + tail.length)
        else (none, 1 + tail.length)

/-- Reads bytes one character at a time.  `pending` counts the bytes at the
front that belong to the character read last. -/
def readChars : Nat → Bytes → List (Option Char)
  | _, [] => []
  | pending + 1, _ :: rest => readChars pending rest
  | 0, first :: rest =>
      let (char, length) := readChar first rest
      char :: readChars (length - 1) rest

/-- The text that the bytes spell, if all of them are valid. -/
def decode? (bytes : Bytes) : Option String :=
  ((readChars 0 bytes).mapM id).map String.ofList

/-- The text that the bytes spell, with the replacement character U+FFFD for
each broken sequence. -/
def decodeLossy (bytes : Bytes) : String :=
  String.ofList ((readChars 0 bytes).map (·.getD (Char.ofNat 0xFFFD)))

end Highlight.Utf8
