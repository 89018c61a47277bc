import Apportion.Number.DecimalText

namespace Apportion.Json.Writing

def escape (character : Char) : List Char :=
  if character = '"' then ['\\', '"']
  else if character = '\\' then ['\\', '\\']
  else if character.toNat = 8 then ['\\', 'b']
  else if character.toNat = 9 then ['\\', 't']
  else if character.toNat = 10 then ['\\', 'n']
  else if character.toNat = 12 then ['\\', 'f']
  else if character.toNat = 13 then ['\\', 'r']
  else if character.toNat < 32 then
    ['\\', 'u', '0', '0', Nat.digitChar (character.toNat / 16),
      Nat.digitChar (character.toNat % 16)]
  else [character]

def writeText (text : String) : String :=
  String.ofList ('"' :: text.toList.flatMap escape ++ ['"'])

/-- A double; one that is infinite or undefined has no number and is written as absent. -/
def writeDouble (value : Float) : String :=
  if value.isFinite then Number.DecimalText.jsonText value.toBits else "null"

def writeNaturals (values : List Nat) : String :=
  "[" ++ String.intercalate "," (values.map fun value => toString value) ++ "]"

end Apportion.Json.Writing
