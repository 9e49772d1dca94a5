import InstallScript.Text.Quoted

/-!
Reading bytes as UTF-8. The first ill-formed sequence ends the reading; what is wrong with it and
which bytes belong to it follow the maximal-subpart practice of the Unicode Standard.
-/

namespace InstallScript.Text

/-- What is wrong with a byte sequence. -/
inductive Utf8Fault
  | startByte
  | continuationByte
  | endOfData
  deriving DecidableEq, Repr

/-- An ill-formed sequence: its first byte and the positions from `start` up to `stop`. -/
structure Utf8Error where
  fault : Utf8Fault
  first : UInt8
  start : Nat
  stop : Nat
  deriving DecidableEq, Repr

/-- The wording of a fault. -/
def Utf8Fault.message : Utf8Fault → String
  | startByte => "invalid start byte"
  | continuationByte => "invalid continuation byte"
  | endOfData => "unexpected end of data"

/-- The wording of an error. -/
def Utf8Error.message (e : Utf8Error) : String :=
  if e.stop = e.start + 1 then
    let byte := String.ofList (hex 2 e.first.toNat)
    s!"'utf-8' codec can't decode byte 0x{byte} in position {e.start}: {e.fault.message}"
  else
    s!"'utf-8' codec can't decode bytes in position {e.start}-{e.stop - 1}: {e.fault.message}"

/-- A byte that continues a sequence. -/
def isContinuation (b : UInt8) : Bool := 0x80 ≤ b && b < 0xC0

/-- The six bits that a continuation byte carries. -/
def payload (b : UInt8) : Nat := b.toNat % 64

/-- Whether the second byte fits the first: it continues a sequence, and neither an overlong form
nor a surrogate nor a number above U+10FFFF follows from it. -/
def fitsSecond (first second : UInt8) : Bool :=
  isContinuation second &&
    (if first = 0xE0 then 0xA0 ≤ second
     else if first = 0xED then second < 0xA0
     else if first = 0xF0 then 0x90 ≤ second
     else if first = 0xF4 then second < 0x90
     else true)

/-- Characters read from bytes, the first byte standing at the given position. -/
def decodeUtf8From : Nat → List UInt8 → Except Utf8Error (List Char)
  | _, [] => .ok []
  | at_, a :: rest =>
    let bad fault length := Except.error ⟨fault, a, at_, at_ + length⟩
    if a < 0x80 then
      (decodeUtf8From (at_ + 1) rest).map (Char.ofNat a.toNat :: ·)
    else if a < 0xC2 || 0xF5 ≤ a then bad .startByte 1
    else
      match rest with
      | [] => bad .endOfData 1
      | b :: rest =>
        if !fitsSecond a b then bad .continuationByte 1
        else if a < 0xE0 then
          (decodeUtf8From (at_ + 2) rest).map
            (Char.ofNat (a.toNat % 32 * 64 + payload b) :: ·)
        else
          match rest with
          | [] => bad .endOfData 2
          | c :: rest =>
            if !isContinuation c then bad .continuationByte 2
            else if a < 0xF0 then
              (decodeUtf8From (at_ + 3) rest).map
                (Char.ofNat (a.toNat % 16 * 4096 + payload b * 64 + payload c) :: ·)
            else
              match rest with
              | [] => bad .endOfData 3
              | d :: rest =>
                if !isContinuation d then bad .continuationByte 3
                else
                  (decodeUtf8From (at_ + 4) rest).map
                    (Char.ofNat (a.toNat % 8 * 262144 + payload b * 4096 + payload c * 64
                      + payload d) :: ·)

/-- A text read from bytes. -/
def decodeUtf8 (bytes : List UInt8) : Except Utf8Error (List Char) :=
  decodeUtf8From 0 bytes

/-- Reads bytes as they arrive. A character that the end of the bytes cuts off is noticed only when
all others have been handed out; its bytes are then counted from its first. -/
def decodeArriving (bytes : List UInt8) : Except Utf8Error (List Char × Option Utf8Error) :=
  match decodeUtf8 bytes with
  | .ok cs => .ok (cs, none)
  | .error e =>
    if e.fault = .endOfData then
      (decodeUtf8 (bytes.take e.start)).map fun cs =>
        (cs, some { e with start := 0, stop := e.stop - e.start })
    else .error e

/-- The bytes of a text. -/
def encodeUtf8 (s : String) : List UInt8 :=
  s.toUTF8.toList

end InstallScript.Text
