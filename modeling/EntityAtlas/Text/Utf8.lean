import EntityAtlas.Text.Quoted

/-!
# UTF-8

Reading bytes as text. The reader stops at the first byte sequence that is no character and tells which bytes they are
and what is wrong with them.
-/

namespace EntityAtlas.Text.Utf8

/-- What is wrong with a byte sequence. -/
inductive Flaw where
  | badStart
  | badContinuation
  | endOfData
  deriving DecidableEq, Repr

def Flaw.message : Flaw → String
  | .badStart => "invalid start byte"
  | .badContinuation => "invalid continuation byte"
  | .endOfData => "unexpected end of data"

/-- A malformed sequence: its first byte, its position, its length and its flaw. -/
structure Malformed where
  byte : UInt8
  position : Nat
  length : Nat
  flaw : Flaw
  deriving DecidableEq, Repr

/-- The wording of the report. -/
def Malformed.message (m : Malformed) : String :=
  let subject := if m.length == 1
    then "byte 0x" ++ hex 2 m.byte.toNat ++ " in position " ++ toString m.position
    else "bytes in position " ++ toString m.position ++ "-" ++ toString (m.position + m.length - 1)
  "'utf-8' codec can't decode " ++ subject ++ ": " ++ m.flaw.message

/-- A byte that continues a character. -/
def isContinuation (b : UInt8) : Bool :=
  128 ≤ b && b < 192

/-- The second bytes that may follow a first byte: long forms, surrogates and numbers beyond the range are shut out. -/
def isSecond (first second : UInt8) : Bool :=
  isContinuation second &&
    !(first == 224 && second < 160) && !(first == 237 && 160 ≤ second) &&
    !(first == 240 && second < 144) && !(first == 244 && 144 ≤ second)

/-- How many bytes a character takes, by its first byte. -/
def width (first : UInt8) : Option Nat :=
  if first < 128 then some 1
  else if first < 194 then none
  else if first < 224 then some 2
  else if first < 240 then some 3
  else if first < 245 then some 4
  else none

/-- The number that a byte contributes when it is no first byte. -/
def low (b : UInt8) : Nat := b.toNat - 128

/-- Read bytes as characters, `position` bytes after the start of the data. -/
def decodeFrom : Nat → List UInt8 → Except Malformed (List Char)
  | _, [] => .ok []
  | position, b :: rest =>
    let flawed (length : Nat) (flaw : Flaw) : Except Malformed (List Char) := .error ⟨b, position, length, flaw⟩
    match width b with
    | none => flawed 1 .badStart
    | some 1 => (decodeFrom (position + 1) rest).map (Char.ofNat b.toNat :: ·)
    | some 2 =>
      match rest with
      | [] => flawed 1 .endOfData
      | b₂ :: rest₂ =>
        if !isSecond b b₂ then flawed 1 .badContinuation
        else (decodeFrom (position + 2) rest₂).map (Char.ofNat ((b.toNat - 192) * 64 + low b₂) :: ·)
    | some 3 =>
      match rest with
      | [] => flawed 1 .endOfData
      | [b₂] => if isSecond b b₂ then flawed 2 .endOfData else flawed 1 .badContinuation
      | b₂ :: b₃ :: rest₃ =>
        if !isSecond b b₂ then flawed 1 .badContinuation
        else if !isContinuation b₃ then flawed 2 .badContinuation
        else (decodeFrom (position + 3) rest₃).map
          (Char.ofNat (((b.toNat - 224) * 64 + low b₂) * 64 + low b₃) :: ·)
    | some _ =>
      match rest with
      | [] => flawed 1 .endOfData
      | [b₂] => if isSecond b b₂ then flawed 2 .endOfData else flawed 1 .badContinuation
      | [b₂, b₃] =>
        if !isSecond b b₂ then flawed 1 .badContinuation
        else if isContinuation b₃ then flawed 3 .endOfData else flawed 2 .badContinuation
      | b₂ :: b₃ :: b₄ :: rest₄ =>
        if !isSecond b b₂ then flawed 1 .badContinuation
        else if !isContinuation b₃ then flawed 2 .badContinuation
        else if !isContinuation b₄ then flawed 3 .badContinuation
        else (decodeFrom (position + 4) rest₄).map
          (Char.ofNat ((((b.toNat - 240) * 64 + low b₂) * 64 + low b₃) * 64 + low b₄) :: ·)

/-- Read bytes as characters. -/
def decode (bytes : List UInt8) : Except Malformed (List Char) :=
  decodeFrom 0 bytes

/-- The bytes of a character. -/
def encodeChar (c : Char) : List UInt8 :=
  let n := c.toNat
  if n < 128 then [n.toUInt8]
  else if n < 2048 then [(192 + n / 64).toUInt8, (128 + n % 64).toUInt8]
  else if n < 65536 then [(224 + n / 4096).toUInt8, (128 + n / 64 % 64).toUInt8, (128 + n % 64).toUInt8]
  else [(240 + n / 262144).toUInt8, (128 + n / 4096 % 64).toUInt8, (128 + n / 64 % 64).toUInt8,
    (128 + n % 64).toUInt8]

/-- The bytes of a text. -/
def encode (cs : List Char) : List UInt8 :=
  cs.flatMap encodeChar

/-- The number of bytes of a character. -/
def charSize (c : Char) : Nat :=
  if c.toNat < 128 then 1 else if c.toNat < 2048 then 2 else if c.toNat < 65536 then 3 else 4

/-- Line ends of every system made into line feeds. -/
def unifyLineEnds : List Char → List Char
  | '\r' :: '\n' :: rest => '\n' :: unifyLineEnds rest
  | '\r' :: rest => '\n' :: unifyLineEnds rest
  | c :: rest => c :: unifyLineEnds rest
  | [] => []

end EntityAtlas.Text.Utf8
