namespace Apportion.Base64

def alphabet : List Char :=
  "ABCDEFGHIJKLMNOPQRSTUVWXYZabcdefghijklmnopqrstuvwxyz0123456789+/".toList

def padding : UInt8 := 61

def symbol (number : Nat) : Char :=
  alphabet.getD number 'A'

def number? (byte : UInt8) : Option Nat :=
  let index := alphabet.findIdx fun symbol => symbol.toNat == byte.toNat
  if index < 64 then some index else none

inductive Base64Error where
  | symbol (byte : UInt8) (offset : Nat)
  /-- The last group is a single symbol. -/
  | loneSymbol (length : Nat)
  /-- The last symbol holds bits that belong to no byte. -/
  | lastSymbol (byte : UInt8) (offset : Nat)
  | padding
  deriving DecidableEq, Repr

def Base64Error.message : Base64Error → String
  | .symbol byte offset => s!"Invalid symbol {byte.toNat}, offset {offset}."
  | .loneSymbol length => s!"Invalid input length: {length}"
  | .lastSymbol byte offset => s!"Invalid last symbol {byte.toNat}, offset {offset}."
  | .padding => "Invalid padding"

def encode : List UInt8 → List Char
  | [] => []
  | [a] => [symbol (a.toNat / 4), symbol (a.toNat % 4 * 16), '=', '=']
  | [a, b] =>
      [symbol (a.toNat / 4), symbol (a.toNat % 4 * 16 + b.toNat / 16),
        symbol (b.toNat % 16 * 4), '=']
  | a :: b :: c :: rest =>
      symbol (a.toNat / 4) :: symbol (a.toNat % 4 * 16 + b.toNat / 16) ::
        symbol (b.toNat % 16 * 4 + c.toNat / 64) :: symbol (c.toNat % 64) :: encode rest

def numberAt (offset : Nat) (byte : UInt8) : Except Base64Error Nat :=
  match number? byte with
  | some number => .ok number
  | none => .error (.symbol byte offset)

def numbersFrom (offset : Nat) : List UInt8 → Except Base64Error (List Nat)
  | [] => .ok []
  | byte :: rest => do
      let number ← numberAt offset byte
      let numbers ← numbersFrom (offset + 1) rest
      return number :: numbers

def groupBytes (a b c d : Nat) : List UInt8 :=
  [UInt8.ofNat (a * 4 + b / 16), UInt8.ofNat (b % 16 * 16 + c / 4), UInt8.ofNat (c % 4 * 64 + d)]

def lastBytes : List Nat → List UInt8 × Bool
  | [a, b] => ((groupBytes a b 0 0).take 1, b % 16 == 0)
  | [a, b, c] => ((groupBytes a b c 0).take 2, c % 4 == 0)
  | [a, b, c, d] => (groupBytes a b c d, true)
  | _ => ([], true)

/-- Read the last group, of at most four bytes. Padding may only follow two symbols or more, and
nothing may follow padding. -/
def decodeLast (offset : Nat) (group : List UInt8) : Except Base64Error (List UInt8) := do
  let symbols := group.takeWhile (· != padding)
  let filling := group.drop symbols.length
  let numbers ← numbersFrom offset symbols
  if filling ≠ [] ∧ symbols.length < 2 then
    throw (.symbol padding (offset + symbols.length))
  else if filling.any (· != padding) then throw (.symbol padding (offset + symbols.length))
  else if offset + group.length = 0 then return []
  else if symbols.length < 2 then throw (.loneSymbol (offset + symbols.length))
  else if (symbols.length + filling.length) % 4 ≠ 0 then throw .padding
  else
    let (bytes, clean) := lastBytes numbers
    if clean then return bytes
    else throw (.lastSymbol (symbols.getLastD 0) (offset + symbols.length - 1))

/-- Read the groups from an offset on. Only the last group may hold padding. -/
def decodeFrom (offset : Nat) : List UInt8 → Except Base64Error (List UInt8)
  | a :: b :: c :: d :: next :: rest => do
      let numberA ← numberAt offset a
      let numberB ← numberAt (offset + 1) b
      let numberC ← numberAt (offset + 2) c
      let numberD ← numberAt (offset + 3) d
      let bytes ← decodeFrom (offset + 4) (next :: rest)
      return groupBytes numberA numberB numberC numberD ++ bytes
  | group => decodeLast offset group

def strayEnd (text : List UInt8) : Option Base64Error :=
  match text.getLast? with
  | some byte =>
      if text.length % 4 = 1 ∧ byte ≠ padding ∧ number? byte = none then
        some (.symbol byte (text.length - 1))
      else none
  | none => none

/-- Read the bytes of a text. A stray byte at the end is reported before anything else. -/
def decode (text : List UInt8) : Except Base64Error (List UInt8) :=
  match strayEnd text with
  | some fault => .error fault
  | none => decodeFrom 0 text

end Apportion.Base64
