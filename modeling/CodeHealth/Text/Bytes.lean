/-!
# Bytes of a text

Reading UTF-8, with `U+FFFD` in place of each malformed part, and the line and column of a byte
offset.
-/

namespace CodeHealth.Text

/-- The start of a character that still lacks bytes: its bits so far, how many bytes are missing,
and the range of the next one. -/
structure Pending where
  value : Nat
  missing : Nat
  low : Nat
  high : Nat

/-- Reads the first byte of a character. -/
def readFirst (b : Nat) : List Char × Option Pending :=
  if b < 0x80 then ([Char.ofNat b], none)
  else if 0xc2 ≤ b && b ≤ 0xdf then ([], some ⟨b - 0xc0, 1, 0x80, 0xbf⟩)
  else if b == 0xe0 then ([], some ⟨0, 2, 0xa0, 0xbf⟩)
  else if b == 0xed then ([], some ⟨0xd, 2, 0x80, 0x9f⟩)
  else if 0xe1 ≤ b && b ≤ 0xef then ([], some ⟨b - 0xe0, 2, 0x80, 0xbf⟩)
  else if b == 0xf0 then ([], some ⟨0, 3, 0x90, 0xbf⟩)
  else if b == 0xf4 then ([], some ⟨4, 3, 0x80, 0x8f⟩)
  else if 0xf1 ≤ b && b ≤ 0xf3 then ([], some ⟨b - 0xf0, 3, 0x80, 0xbf⟩)
  else (['\ufffd'], none)

/-- Reads one byte after an unfinished character. A byte that cannot continue it ends the malformed
part and is read as a first byte. -/
def readNext (pending : Option Pending) (b : Nat) : List Char × Option Pending :=
  match pending with
  | none => readFirst b
  | some p =>
    if p.low ≤ b && b ≤ p.high then
      let value := p.value * 64 + (b - 0x80)
      if p.missing ≤ 1 then ([Char.ofNat value], none)
      else ([], some ⟨value, p.missing - 1, 0x80, 0xbf⟩)
    else
      let (out, next) := readFirst b
      ('\ufffd' :: out, next)

/-- Reads bytes as UTF-8; each longest malformed part becomes one replacement character. -/
def decodeFrom (pending : Option Pending) : List UInt8 → List Char
  | [] => if pending.isSome then ['\ufffd'] else []
  | b :: bs =>
    let (out, next) := readNext pending b.toNat
    out ++ decodeFrom next bs

/-- The text of some bytes, malformed parts replaced. -/
def decodeLossy (bytes : ByteArray) : String :=
  match String.fromUTF8? bytes with
  | some s => s
  | none => String.ofList (decodeFrom none bytes.data.toList)

/-- The text between two byte offsets. -/
def sliceBytes (bytes : ByteArray) (start stop : Nat) : String :=
  if start < stop then decodeLossy (bytes.extract start stop) else ""

/-- A place in a text: the line feeds before it and the bytes since the last of them. -/
structure Point where
  row : Nat
  column : Nat
  deriving DecidableEq, Repr

/-- Moves a place over the given number of bytes. -/
def Point.advance (p : Point) : List UInt8 → Nat → Point
  | _, 0 => p
  | [], n + 1 => ⟨p.row, p.column + (n + 1)⟩
  | b :: bs, n + 1 =>
    if b == 10 then Point.advance ⟨p.row + 1, 0⟩ bs n
    else Point.advance ⟨p.row, p.column + 1⟩ bs n

/-- The place of a byte offset. -/
def pointAt (bytes : List UInt8) (offset : Nat) : Point :=
  Point.advance ⟨0, 0⟩ bytes offset

end CodeHealth.Text
