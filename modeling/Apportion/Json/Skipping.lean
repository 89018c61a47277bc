import Apportion.Json.Scalars

/-!
Passing over JSON values that nothing is read from. A value is followed character by character,
with the lists and objects that are open kept on a stack, so values may be nested to any depth. The
size of numbers and the pairing of escapes are not looked at.
-/

namespace Apportion.Json.Skipping

open Apportion.Json.Faults
open Apportion.Json.Scalars

inductive Frame where
  | list
  | object
  deriving DecidableEq, Repr

inductive Place where
  | value
  | firstElement
  | afterValue
  | firstKey
  | key
  | colon
  | word (letters : List Char)
  | text (isKey : Bool)
  | escape (isKey : Bool)
  | unit (isKey : Bool) (digits : Nat)
  | sign
  | zero
  | whole
  | point
  | fraction
  | exponent
  | exponentSign
  | exponentDigits
  deriving DecidableEq, Repr

/-- What comes of a character. -/
inductive Move where
  | go (place : Place) (frames : List Frame)
  | ended
  /-- The value had ended before the character. -/
  | endedBefore
  deriving DecidableEq, Repr

def close (frames : List Frame) : Move :=
  if frames.isEmpty then .ended else .go .afterValue frames

def startValue (frames : List Frame) (character : Char) : Except JsonError Move :=
  if character = 'n' then .ok (.go (.word ['u', 'l', 'l']) frames)
  else if character = 't' then .ok (.go (.word ['r', 'u', 'e']) frames)
  else if character = 'f' then .ok (.go (.word ['a', 'l', 's', 'e']) frames)
  else if character = '-' then .ok (.go .sign frames)
  else if character = '0' then .ok (.go .zero frames)
  else if character.isDigit then .ok (.go .whole frames)
  else if character = '"' then .ok (.go (.text false) frames)
  else if character = '[' then .ok (.go .firstElement (.list :: frames))
  else if character = '\x7b' then .ok (.go .firstKey (.object :: frames))
  else .error .malformed

def continueFrame (frame : Frame) (frames : List Frame) (character : Char) :
    Except JsonError Move :=
  match frame with
  | .list =>
      if character = ',' then .ok (.go .value (.list :: frames))
      else if character = ']' then .ok (close frames)
      else .error .malformed
  | .object =>
      if character = ',' then .ok (.go .key (.object :: frames))
      else if character = '\x7d' then .ok (close frames)
      else .error .malformed

def followValue (frames : List Frame) (character : Char) : Except JsonError Move :=
  if isBlank character then .ok (.go .afterValue frames)
  else
    match frames with
    | [] => .ok .endedBefore
    | frame :: frames => continueFrame frame frames character

def followNumber (frames : List Frame) (character : Char) : Except JsonError Move :=
  if frames.isEmpty then .ok .endedBefore else followValue frames character

def followDigits (frames : List Frame) (character : Char) : Except JsonError Move :=
  if character = 'e' ∨ character = 'E' then .ok (.go .exponent frames)
  else followNumber frames character

def followWhole (frames : List Frame) (character : Char) : Except JsonError Move :=
  if character = '.' then .ok (.go .point frames) else followDigits frames character

def closeText (isKey : Bool) (frames : List Frame) : Move :=
  if isKey then .go .colon frames else close frames

def stepEscape (isKey : Bool) (frames : List Frame) (character : Char) (rest : List Char) :
    Except JsonError Move :=
  if character = 'u' then
    if (String.ofList (rest.take 4)).utf8ByteSize < 4 then .error .unfinished
    else .ok (.go (.unit isKey 4) frames)
  else if (escaped? character).isSome then .ok (.go (.text isKey) frames)
  else .error .malformed

/-- What comes of a character at a place; `rest` follows it. -/
def step (place : Place) (frames : List Frame) (character : Char) (rest : List Char) :
    Except JsonError Move :=
  match place with
  | .value =>
      if isBlank character then .ok (.go .value frames) else startValue frames character
  | .firstElement =>
      if isBlank character then .ok (.go .firstElement frames)
      else if character = ']' then .ok (close frames.tail)
      else startValue frames character
  | .afterValue => followValue frames character
  | .firstKey =>
      if isBlank character then .ok (.go .firstKey frames)
      else if character = '\x7d' then .ok (close frames.tail)
      else if character = '"' then .ok (.go (.text true) frames)
      else .error .malformed
  | .key =>
      if isBlank character then .ok (.go .key frames)
      else if character = '"' then .ok (.go (.text true) frames)
      else .error .malformed
  | .colon =>
      if isBlank character then .ok (.go .colon frames)
      else if character = ':' then .ok (.go .value frames)
      else .error .malformed
  | .word letters =>
      match letters with
      | [] => .error .malformed
      | letter :: letters =>
          if character ≠ letter then .error .malformed
          else if letters.isEmpty then .ok (close frames)
          else .ok (.go (.word letters) frames)
  | .text isKey =>
      if character = '"' then .ok (closeText isKey frames)
      else if character = '\\' then .ok (.go (.escape isKey) frames)
      else if character < ' ' then .error .malformed
      else .ok (.go (.text isKey) frames)
  | .escape isKey => stepEscape isKey frames character rest
  | .unit isKey digits =>
      if (hexValue? character).isNone then .error .malformed
      else if digits ≤ 1 then .ok (.go (.text isKey) frames)
      else .ok (.go (.unit isKey (digits - 1)) frames)
  | .sign =>
      if character = '0' then .ok (.go .zero frames)
      else if character.isDigit then .ok (.go .whole frames)
      else .error .malformed
  | .zero => if character.isDigit then .error .malformed else followWhole frames character
  | .whole =>
      if character.isDigit then .ok (.go .whole frames) else followWhole frames character
  | .point => if character.isDigit then .ok (.go .fraction frames) else .error .malformed
  | .fraction =>
      if character.isDigit then .ok (.go .fraction frames) else followDigits frames character
  | .exponent =>
      if character = '+' ∨ character = '-' then .ok (.go .exponentSign frames)
      else if character.isDigit then .ok (.go .exponentDigits frames)
      else .error .malformed
  | .exponentSign =>
      if character.isDigit then .ok (.go .exponentDigits frames) else .error .malformed
  | .exponentDigits =>
      if character.isDigit then .ok (.go .exponentDigits frames)
      else followNumber frames character

/-- What comes of the end of the text at a place. Only a complete number may end there, and only
outside of lists and objects. -/
def atEnd (place : Place) (frames : List Frame) : Except JsonError (List Char) :=
  match place with
  | .sign | .point | .exponent | .exponentSign => .error .malformed
  | .zero | .whole | .fraction | .exponentDigits =>
      if frames.isEmpty then .ok [] else .error .unfinished
  | _ => .error .unfinished

def follow : Place → List Frame → List Char → Except JsonError (List Char)
  | place, frames, [] => atEnd place frames
  | place, frames, character :: rest =>
      match step place frames character rest with
      | .error fault => .error fault
      | .ok .ended => .ok rest
      | .ok .endedBefore => .ok (character :: rest)
      | .ok (.go place frames) => follow place frames rest

def skipValue (text : List Char) : Except JsonError (List Char) :=
  follow .value [] text

end Apportion.Json.Skipping
