import Apportion.Json.Skipping

namespace Apportion.Json.Readers

open Apportion.Text.Mismatches
open Apportion.Json.Faults
open Apportion.Json.Scalars
open Apportion.Json.Skipping

/-- The value that begins with a character, for a message. Lists and objects are not read. -/
def found (character : Char) (rest : List Char) : Except JsonError Found :=
  if character = 'n' then (readWord ['u', 'l', 'l'] rest).map fun _ => .nothing
  else if character = 't' then (readWord ['r', 'u', 'e'] rest).map fun _ => .boolean true
  else if character = 'f' then (readWord ['a', 'l', 's', 'e'] rest).map fun _ => .boolean false
  else if startsNumber character then (readNumber (character :: rest)).map (·.1.found)
  else if character = '"' then (readText rest).map fun parts => .text parts.1
  else if character = '[' then .ok .sequence
  else if character = '\x7b' then .ok .map
  else .error .malformed

def refuse {α : Type} (expected : String) (character : Char) (rest : List Char) :
    Except JsonError α := do
  let found ← found character rest
  throw (.content (.mismatch (.kind found expected)))

def firstCharacter (text : List Char) : Except JsonError (Char × List Char) :=
  match skipBlanks text with
  | [] => .error .unfinished
  | character :: rest => .ok (character, rest)

def readAnyNumber (expected : String) : Reader Number := fun text => do
  let (character, rest) ← firstCharacter text
  if startsNumber character then readNumber (character :: rest)
  else refuse expected character rest

def readBelow (bound : Nat) (expected : String) : Reader Nat := fun text => do
  let (number, rest) ← readAnyNumber expected text
  match number with
  | .integer value =>
      if 0 ≤ value ∧ value < bound then return (value.toNat, rest)
      else throw (.content (.mismatch (.range (.integer value) expected)))
  | .real word => throw (.content (.mismatch (.kind (.real word) expected)))

def readDouble : Reader Float := fun text => do
  let (number, rest) ← readAnyNumber "f64" text
  return (Float.ofBits number.word, rest)

def readString (expected : String) : Reader String := fun text => do
  let (character, rest) ← firstCharacter text
  if character = '"' then readText rest else refuse expected character rest

def readNothing : Reader Unit := fun text => do
  let (character, rest) ← firstCharacter text
  if character = 'n' then
    let rest ← readWord ['u', 'l', 'l'] rest
    return ((), rest)
  else refuse "unit" character rest

def readOptional {α : Type} (read : Reader α) : Reader (Option α) := fun text =>
  match skipBlanks text with
  | 'n' :: rest => (readWord ['u', 'l', 'l'] rest).map (none, ·)
  | text => (read text).map fun parts => (some parts.1, parts.2)

/-- Go on to the next element of a list, if there is one; a comma must come before each but the
first. The end of the list is left in place. -/
def nextElement (isFirst : Bool) : Reader Bool := fun text =>
  match skipBlanks text with
  | [] => .error .unfinished
  | character :: rest =>
      if character = ']' then .ok (false, character :: rest)
      else if isFirst then .ok (true, character :: rest)
      else if character = ',' then
        match skipBlanks rest with
        | [] => .error .unfinished
        | character :: rest =>
            if character = ']' then .error .malformed else .ok (true, character :: rest)
      else .error .malformed

def endList (text : List Char) : Except JsonError (List Char) :=
  match skipBlanks text with
  | [] => .error .unfinished
  | character :: rest => if character = ']' then .ok rest else .error .malformed

/-- Read the elements of a list from behind its opening bracket. The number of steps is bounded by
the length of the text. -/
def readElements {α : Type} (read : Reader α) : Nat → Bool → Reader (List α)
  | 0, _, _ => .error .unfinished
  | steps + 1, isFirst, text => do
      let (more, rest) ← nextElement isFirst text
      if more then
        let (value, rest) ← read rest
        let (values, rest) ← readElements read steps false rest
        return (value :: values, rest)
      else return ([], rest.tail)

def readList {α : Type} (read : Reader α) : Reader (List α) := fun text =>
  readElements read (text.length + 1) true text

def nextKey (isFirst : Bool) : Reader (Option String) := fun text =>
  let readKey : Reader (Option String) := fun text =>
    match text with
    | '"' :: rest => (readText rest).map fun parts => (some parts.1, parts.2)
    | _ => .error .malformed
  match skipBlanks text with
  | [] => .error .unfinished
  | character :: rest =>
      if character = '\x7d' then .ok (none, rest)
      else if isFirst then readKey (character :: rest)
      else if character = ',' then
        match skipBlanks rest with
        | [] => .error .unfinished
        | rest => readKey rest
      else .error .malformed

def skipColon (text : List Char) : Except JsonError (List Char) :=
  match skipBlanks text with
  | [] => .error .unfinished
  | character :: rest => if character = ':' then .ok rest else .error .malformed

/-- Read the members of an object from behind its opening brace. Each member is read into the state
that those before it have left, given its key and the text behind it. -/
def readMembers {σ : Type} (readMember : σ → String → Reader σ) : Nat → Bool → σ → Reader σ
  | 0, _, _, _ => .error .unfinished
  | steps + 1, isFirst, state, text => do
      let (key, rest) ← nextKey isFirst text
      match key with
      | none => return (state, rest)
      | some key =>
          let (state, rest) ← readMember state key rest
          readMembers readMember steps false state rest

def readObject {σ : Type} (readMember : σ → String → Reader σ) (state : σ) : Reader σ :=
  fun text => readMembers readMember (text.length + 1) true state text

def readField {α : Type} (name : String) (before : Option α) (read : Reader α) : Reader α :=
  fun text => do
    if before.isSome then throw (.content (.duplicateField name))
    let text ← skipColon text
    read text

def skipMember (text : List Char) : Except JsonError (List Char) := do
  let text ← skipColon text
  skipValue text

def readListed {α : Type} (isFirst : Bool) (read : Reader α) : Reader (Option α) := fun text => do
  let (more, rest) ← nextElement isFirst text
  if more then
    let (value, rest) ← read rest
    return (some value, rest)
  else return (none, rest)

/-- Read a record, which may be given as an object or as a list of its fields in order. Both readers
start from behind the opening sign. -/
def readRecord {α : Type} (expected : String) (fromObject fromList : Reader α) : Reader α :=
  fun text => do
    let (character, rest) ← firstCharacter text
    if character = '\x7b' then fromObject rest
    else if character = '[' then
      let (value, rest) ← fromList rest
      let rest ← endList rest
      return (value, rest)
    else refuse expected character rest

def readDocument {α : Type} (read : Reader α) (text : String) : Except JsonError α := do
  let (value, rest) ← read text.toList
  if (skipBlanks rest).isEmpty then return value else throw .malformed

end Apportion.Json.Readers
