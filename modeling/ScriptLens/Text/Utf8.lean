/-! # UTF-8 text

Sources are byte sequences. Decoding never fails: a maximal run of bytes that
starts a character but does not finish it, or a byte that starts none, reads as
one replacement character. Slices are taken at byte positions and exist only
where both ends fall between two characters.
-/
namespace ScriptLens.Text

/-- The character that stands for undecodable bytes. -/
def replacement : Char := Char.ofNat 0xFFFD

/-- A decoder between characters, or inside one: the bytes still to come, the
bits read so far, and the range of the next byte. -/
inductive Decoder where
  | idle
  | pending (left bits low high : Nat)
deriving DecidableEq

namespace Decoder

/-- The first byte of a character, read as a character, a start or neither. The
ranges of the second byte leave out overlong forms and surrogates. -/
def first (b : Nat) : List Char × Decoder :=
  if b < 0x80 then ([Char.ofNat b], .idle)
  else if b < 0xC2 then ([replacement], .idle)
  else if b < 0xE0 then ([], .pending 1 (b - 0xC0) 0x80 0xBF)
  else if b = 0xE0 then ([], .pending 2 0 0xA0 0xBF)
  else if b = 0xED then ([], .pending 2 0xD 0x80 0x9F)
  else if b < 0xF0 then ([], .pending 2 (b - 0xE0) 0x80 0xBF)
  else if b = 0xF0 then ([], .pending 3 0 0x90 0xBF)
  else if b < 0xF4 then ([], .pending 3 (b - 0xF0) 0x80 0xBF)
  else if b = 0xF4 then ([], .pending 3 4 0x80 0x8F)
  else ([replacement], .idle)

/-- One byte: the characters it finishes and the decoder after it. -/
def step : Decoder → Nat → List Char × Decoder
  | .idle, b => first b
  | .pending left bits low high, b =>
    if low ≤ b ∧ b ≤ high then
      let bits := bits * 64 + (b - 0x80)
      if left ≤ 1 then ([Char.ofNat bits], .idle)
      else ([], .pending (left - 1) bits 0x80 0xBF)
    else
      let (chars, next) := first b
      (replacement :: chars, next)

/-- Whatever the bytes leave unfinished reads as one replacement character. -/
def run : Decoder → List UInt8 → List Char
  | .idle, [] => []
  | .pending .., [] => [replacement]
  | d, b :: rest =>
    let (chars, next) := d.step b.toNat
    chars ++ run next rest

end Decoder

def decode (bytes : List UInt8) : List Char := Decoder.idle.run bytes

/-- The bytes from `start` up to `stop`, as far as there are any. -/
def bytesBetween (source : ByteArray) (start stop : Nat) : List UInt8 :=
  (source.extract start stop).data.toList

/-- A position between two characters. Inside a character every byte has the
form `10xxxxxx`. -/
def isBoundary (source : ByteArray) (i : Nat) : Bool :=
  match source[i]? with
  | none => i == source.size
  | some b => b &&& 0xC0 != 0x80

def lossySlice (source : ByteArray) (start stop : Nat) : String :=
  String.ofList (decode (bytesBetween source start stop))

def slice? (source : ByteArray) (start stop : Nat) : Option String :=
  if start ≤ stop && isBoundary source start && isBoundary source stop then
    some (lossySlice source start stop)
  else none

def ofBytes? (source : ByteArray) : Option String := String.fromUTF8? source

end ScriptLens.Text
