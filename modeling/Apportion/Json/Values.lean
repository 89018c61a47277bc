import Apportion.Json.Readers

namespace Apportion.Json.Values

open Apportion.Json.Faults
open Apportion.Json.Scalars
open Apportion.Json.Readers

inductive Value where
  | nothing
  | boolean (value : Bool)
  | number (value : Number)
  | text (value : String)
  | list (values : List Value)
  | object (members : List (String × Value))

def readValue (depth : Nat) : Reader Value := fun text => do
  let (character, rest) ← firstCharacter text
  if character = 'n' then
    let rest ← readWord ['u', 'l', 'l'] rest
    return (.nothing, rest)
  else if character = 't' then
    let rest ← readWord ['r', 'u', 'e'] rest
    return (.boolean true, rest)
  else if character = 'f' then
    let rest ← readWord ['a', 'l', 's', 'e'] rest
    return (.boolean false, rest)
  else if startsNumber character then
    let (number, rest) ← readNumber (character :: rest)
    return (.number number, rest)
  else if character = '"' then
    let (value, rest) ← readText rest
    return (.text value, rest)
  else if character = '[' then
    match depth with
    | 0 => throw .malformed
    | depth + 1 =>
        let (values, rest) ← readList (readValue depth) rest
        return (.list values, rest)
  else if character = '\x7b' then
    match depth with
    | 0 => throw .malformed
    | depth + 1 =>
        let readMember := fun (members : List (String × Value)) (key : String) text => do
          let text ← skipColon text
          let (value, rest) ← readValue depth text
          return (members ++ [(key, value)], rest)
        let (members, rest) ← readObject readMember [] rest
        return (.object members, rest)
  else throw .malformed

end Apportion.Json.Values
