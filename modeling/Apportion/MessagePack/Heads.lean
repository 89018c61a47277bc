import Apportion.Bytes

/-!
The heads of MessagePack values. A head says what kind of value follows and how long it is; numbers
and truth values are all head. Each kind has several forms, of which writing takes the shortest and
reading takes any.
-/

namespace Apportion.MessagePack.Heads

open Apportion.Bytes

inductive Head where
  | nothing
  | boolean (value : Bool)
  | integer (value : Int)
  /-- A double, given by its word. -/
  | float64 (word : Nat)
  | float32 (word : Nat)
  | text (length : Nat)
  | binary (length : Nat)
  | array (count : Nat)
  | map (count : Nat)
  /-- One byte for an application's own kind and then so many bytes. -/
  | extension (length : Nat)
  deriving DecidableEq, Repr

def readNumber (width : Nat) (bytes : List UInt8) : Option (Nat × List UInt8) :=
  (split? width bytes).map fun parts => (ofBigEndian parts.1, parts.2)

def ofTwosComplement (width word : Nat) : Int :=
  (BitVec.ofNat (8 * width) word).toInt

/-- What a marker of `0xc0` and above stands for: either a finished head, or the width of the number
that completes it. -/
inductive Form where
  | complete (head : Head)
  | number (width : Nat) (head : Nat → Head)

def form? (marker : Nat) : Option Form :=
  if marker < 0x80 then some (.complete (.integer marker))
  else if marker < 0x90 then some (.complete (.map (marker - 0x80)))
  else if marker < 0xa0 then some (.complete (.array (marker - 0x90)))
  else if marker < 0xc0 then some (.complete (.text (marker - 0xa0)))
  else if 0xe0 ≤ marker then some (.complete (.integer ((marker : Int) - 256)))
  else
    match marker with
    | 0xc0 => some (.complete .nothing)
    | 0xc2 => some (.complete (.boolean false))
    | 0xc3 => some (.complete (.boolean true))
    | 0xc4 => some (.number 1 .binary)
    | 0xc5 => some (.number 2 .binary)
    | 0xc6 => some (.number 4 .binary)
    | 0xc7 => some (.number 1 .extension)
    | 0xc8 => some (.number 2 .extension)
    | 0xc9 => some (.number 4 .extension)
    | 0xca => some (.number 4 .float32)
    | 0xcb => some (.number 8 .float64)
    | 0xcc => some (.number 1 (.integer ·))
    | 0xcd => some (.number 2 (.integer ·))
    | 0xce => some (.number 4 (.integer ·))
    | 0xcf => some (.number 8 (.integer ·))
    | 0xd0 => some (.number 1 fun word => .integer (ofTwosComplement 1 word))
    | 0xd1 => some (.number 2 fun word => .integer (ofTwosComplement 2 word))
    | 0xd2 => some (.number 4 fun word => .integer (ofTwosComplement 4 word))
    | 0xd3 => some (.number 8 fun word => .integer (ofTwosComplement 8 word))
    | 0xd4 => some (.complete (.extension 1))
    | 0xd5 => some (.complete (.extension 2))
    | 0xd6 => some (.complete (.extension 4))
    | 0xd7 => some (.complete (.extension 8))
    | 0xd8 => some (.complete (.extension 16))
    | 0xd9 => some (.number 1 .text)
    | 0xda => some (.number 2 .text)
    | 0xdb => some (.number 4 .text)
    | 0xdc => some (.number 2 .array)
    | 0xdd => some (.number 4 .array)
    | 0xde => some (.number 2 .map)
    | 0xdf => some (.number 4 .map)
    | _ => none

def readHead : List UInt8 → Option (Head × List UInt8)
  | [] => none
  | marker :: rest =>
      match form? marker.toNat with
      | none => none
      | some (.complete head) => some (head, rest)
      | some (.number width head) =>
          (readNumber width rest).map fun parts => (head parts.1, parts.2)

/-- The shortest form of a number that is not negative and below `2 ^ 64`. -/
def writeNatural (value : Nat) : List UInt8 :=
  if value < 0x80 then [UInt8.ofNat value]
  else if value < 0x100 then 0xcc :: bigEndian 1 value
  else if value < 0x10000 then 0xcd :: bigEndian 2 value
  else if value < 0x100000000 then 0xce :: bigEndian 4 value
  else 0xcf :: bigEndian 8 value

def writeArrayHead (count : Nat) : List UInt8 :=
  if count < 16 then [UInt8.ofNat (0x90 + count)]
  else if count < 0x10000 then 0xdc :: bigEndian 2 count
  else 0xdd :: bigEndian 4 count

def writeBinary (bytes : List UInt8) : List UInt8 :=
  let head :=
    if bytes.length < 0x100 then 0xc4 :: bigEndian 1 bytes.length
    else if bytes.length < 0x10000 then 0xc5 :: bigEndian 2 bytes.length
    else 0xc6 :: bigEndian 4 bytes.length
  head ++ bytes

def writeShortText (text : String) : List UInt8 :=
  UInt8.ofNat (0xa0 + (ofText text).length) :: ofText text

def writeMapHead (count : Nat) : List UInt8 :=
  [UInt8.ofNat (0x80 + count)]

def writeBoolean (value : Bool) : List UInt8 :=
  [if value then 0xc3 else 0xc2]

end Apportion.MessagePack.Heads
