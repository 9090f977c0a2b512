/-!
# Decoding UTF-8

A text is decoded from bytes one character at a time. A character takes one to four bytes,
of which all but the first are continuation bytes `0x80` to `0xBF`; overlong forms,
surrogates and code points past U+10FFFF have no encoding. Where the bytes are not the
encoding of a text, decoding stops at the first byte that belongs to no character and says
which bytes are at fault and why.

Bytes are read in blocks. A character that a block leaves unfinished is decoded together with
the next block, or alone if there is none, and the bytes at fault are counted from the start
of what is decoded together. Whether a text can be decoded does not depend on the blocks.

## Main statement

* `decode_eq_ok_iff` : what is decoded does not depend on the blocks.
-/

namespace UntypedLambda.Text.Utf8

/-- Why some bytes are not the encoding of a character. -/
inductive Reason where
  /-- The byte starts no character. -/
  | start
  /-- The bytes start a character that does not go on with a continuation byte. -/
  | continuation
  /-- The bytes start a character that the text is too short for. -/
  | incomplete
  deriving DecidableEq

/-- The bytes from position `first` on that encode no character. Positions are counted from
zero. -/
structure Malformed where
  /-- The position of the first byte at fault. -/
  first : Nat
  bytes : List UInt8
  reason : Reason

/-- Whether a byte can stand inside a character. -/
def isContinuation (b : UInt8) : Bool := 0x80 ≤ b && b < 0xC0

/-- The range of second bytes that a first byte of a longer character allows. -/
def secondRange (b : UInt8) : UInt8 × UInt8 :=
  if b = 0xE0 then (0xA0, 0xBF)
  else if b = 0xED then (0x80, 0x9F)
  else if b = 0xF0 then (0x90, 0xBF)
  else if b = 0xF4 then (0x80, 0x8F)
  else (0x80, 0xBF)

/-- How many continuation bytes follow a first byte, if it starts a character of more than
one byte. -/
def following? (b : UInt8) : Option Nat :=
  if b < 0xC2 then none
  else if b < 0xE0 then some 1
  else if b < 0xF0 then some 2
  else if b < 0xF5 then some 3
  else none

/-- The number of bytes of `rest` that can go on the character started by `b`, where at most
`n` are wanted. -/
def accepted (b : UInt8) (n : Nat) (rest : List UInt8) : Nat :=
  match rest with
  | [] => 0
  | second :: others =>
      if (secondRange b).1 ≤ second && second ≤ (secondRange b).2 then
        1 + ((others.take (n - 1)).takeWhile isContinuation).length
      else 0

/-- The code point written by a first byte and its continuation bytes. -/
def codePoint (b : UInt8) (rest : List UInt8) : Nat :=
  let lead := match rest.length with
    | 1 => b.toNat % 0x20
    | 2 => b.toNat % 0x10
    | _ => b.toNat % 0x08
  rest.foldl (fun n c => n * 0x40 + c.toNat % 0x40) lead

/-- Decode the bytes that stand at position `pos` of a text. -/
def decodeFrom (pos : Nat) : List UInt8 → Except Malformed (List Char)
  | [] => .ok []
  | b :: rest =>
      if b < 0x80 then (decodeFrom (pos + 1) rest).map (Char.ofNat b.toNat :: ·)
      else match following? b with
        | none => .error ⟨pos, [b], .start⟩
        | some n =>
            let k := accepted b n rest
            if k = n then
              (decodeFrom (pos + 1 + n) (rest.drop n)).map
                (Char.ofNat (codePoint b (rest.take n)) :: ·)
            else if rest.length = k then .error ⟨pos, b :: rest, .incomplete⟩
            else .error ⟨pos, b :: rest.take k, .continuation⟩
termination_by bytes => bytes.length
decreasing_by
  · simp
  · simp only [List.length_drop, List.length_cons]
    omega

/-- The number of bytes in a block. -/
def blockSize : Nat := 8192

/-- The position from which positions are counted while the block with the byte at position
`n` is decoded: the start of the block, or of the character that is unfinished there. -/
def blockOrigin (bytes : List UInt8) (n : Nat) : Nat :=
  let start := n / blockSize * blockSize
  match decodeFrom 0 (bytes.take start) with
  | .error unfinished => unfinished.first
  | .ok _ => start

/-- Whether the bytes at position `n` are the first two of a surrogate. -/
def isSurrogateAt (bytes : List UInt8) (n : Nat) : Bool :=
  match bytes.drop n with
  | first :: second :: _ => first = 0xED && 0xA0 ≤ second && second ≤ 0xBF
  | _ => false

/-- The position of the byte that shows the fault: the only byte at fault, or the one that
should have gone on the character. A surrogate is told by its third byte. -/
def Malformed.shownAt (e : Malformed) (bytes : List UInt8) : Nat :=
  if e.reason = .start then e.first
  else if isSurrogateAt bytes e.first then e.first + 2
  else e.first + e.bytes.length

/-- The position from which the bytes at fault are counted. -/
def Malformed.origin (e : Malformed) (bytes : List UInt8) : Nat :=
  let n := e.shownAt bytes
  if n < bytes.length then blockOrigin bytes n else e.first

/-- Decode a text. -/
def decode (bytes : List UInt8) : Except Malformed (List Char) :=
  (decodeFrom 0 bytes).mapError fun e => { e with first := e.first - e.origin bytes }

/-- What is decoded does not depend on the blocks. -/
theorem decode_eq_ok_iff {bytes : List UInt8} {cs : List Char} :
    decode bytes = .ok cs ↔ decodeFrom 0 bytes = .ok cs := by
  unfold decode
  cases decodeFrom 0 bytes with
  | error e =>
      show Except.error _ = .ok cs ↔ _
      simp
  | ok cs' => exact Iff.rfl

/-- A byte as two hexadecimal digits. -/
def hexByte (b : UInt8) : String :=
  String.ofList [Nat.digitChar (b.toNat / 16), Nat.digitChar (b.toNat % 16)]

/-- What is wrong, in words. -/
def Reason.text : Reason → String
  | .start => "invalid start byte"
  | .continuation => "invalid continuation byte"
  | .incomplete => "unexpected end of data"

/-- The text of the error: the bytes at fault by their positions, a single one also by its
value. -/
def Malformed.message (e : Malformed) : String :=
  "'utf-8' codec can't decode " ++
    (match e.bytes with
      | [b] => "byte 0x" ++ hexByte b ++ " in position " ++ toString e.first
      | bytes => "bytes in position " ++ toString e.first ++ "-" ++
          toString (e.first + bytes.length - 1)) ++
    ": " ++ e.reason.text

end UntypedLambda.Text.Utf8
