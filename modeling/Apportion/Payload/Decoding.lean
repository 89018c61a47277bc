import Apportion.MessagePack.Readers
import Apportion.Payload.Descriptors
import Apportion.Tensor.Arrays

/-!
Reading arrays from payloads. The entries of the map may come in any order and among any others; of
entries under one key the last counts. What follows the map is not looked at.
-/

namespace Apportion.Payload.Decoding

open Apportion.Bytes
open Apportion.MessagePack.Heads
open Apportion.MessagePack.Readers
open Apportion.Payload.Descriptors
open Apportion.Tensor.Elements
open Apportion.Tensor.Buffers
open Apportion.Tensor.Shapes
open Apportion.Tensor.Arrays

inductive PayloadError where
  | unreadable (cause : ReadError)
  | unknownDescriptor (text : String)
  | partialElement (cause : PartialElement)
  | missingShape
  /-- The shape demands another number of elements than there are. -/
  | countMismatch (count : Nat) (type : ElementType)
  deriving DecidableEq, Repr

structure Entries where
  isArray? : Option Bool
  descriptor? : Option String
  shape? : Option (List Nat)
  data? : Option (List UInt8)

def skippedDepth : Nat := 1022

def readEntry (entries : Entries) (key bytes : List UInt8) :
    Except ReadError (Entries × List UInt8) := do
  if key = ofText "nd" then
    let (value, rest) ← readBoolean bytes
    return ({ entries with isArray? := some value }, rest)
  else if key = ofText "type" then
    let (value, rest) ← readText bytes
    return ({ entries with descriptor? := some value }, rest)
  else if key = ofText "shape" then
    let (value, rest) ← readNaturals bytes
    return ({ entries with shape? := some value }, rest)
  else if key = ofText "data" then
    let (value, rest) ← readBytes bytes
    return ({ entries with data? := some value }, rest)
  else
    let rest ← orMalformed (skipValue skippedDepth bytes)
    return (entries, rest)

def readEntries : Nat → Entries → List UInt8 → Except ReadError Entries
  | 0, entries, _ => .ok entries
  | count + 1, entries, bytes => do
      let (key, rest) ← readKey bytes
      let (entries, rest) ← readEntry entries key rest
      readEntries count entries rest

structure Parts where
  isArray : Bool
  descriptor : String
  shape? : Option (List Nat)
  data : List UInt8

/-- The parts that the entries give. Only the shape may be absent. -/
def Entries.parts (entries : Entries) : Except ReadError Parts :=
  match entries.isArray? with
  | none => .error (.missing "nd")
  | some isArray =>
      match entries.descriptor? with
      | none => .error (.missing "type")
      | some descriptor =>
          match entries.data? with
          | none => .error (.missing "data")
          | some data => .ok ⟨isArray, descriptor, entries.shape?, data⟩

def readParts (bytes : List UInt8) : Except ReadError Parts := do
  let (head, body) ← orMalformed (readHead bytes)
  match head with
  | .map count =>
      let entries ← readEntries count ⟨none, none, none, none⟩ body
      entries.parts
  | _ => refuse "a msgpack-numpy map" head body

/-- The shape that the parts give. A single element has no axes, whatever shape is given. -/
def Parts.shape (parts : Parts) : Except PayloadError Shape :=
  if parts.isArray then
    match parts.shape? with
    | some shape => .ok shape
    | none => .error .missingShape
  else .ok []

def Parts.buffer (parts : Parts) : Except PayloadError Buffer :=
  match parse? parts.descriptor with
  | none => .error (.unknownDescriptor parts.descriptor)
  | some (type, order) => (Buffer.ofBytes type order parts.data).mapError .partialElement

def decode (bytes : List UInt8) : Except PayloadError TypedArray := do
  let parts ← (readParts bytes).mapError .unreadable
  let buffer ← parts.buffer
  let shape ← parts.shape
  (TypedArray.ofBuffer shape buffer).mapError fun _ =>
    .countMismatch buffer.length buffer.type

/-- An unknown descriptor is an unsupported type; all else is a fault of decoding. -/
def PayloadError.message : PayloadError → String
  | .unknownDescriptor text => "Unsupported element type: " ++ unknownText text
  | .unreadable cause =>
      let detail := (cause.detail?.map (": " ++ ·)).getD ""
      "Decode error: invalid msgpack payload" ++ detail
  | .partialElement cause => cause.message
  | .missingShape => "Decode error: array payload has no `shape`"
  | .countMismatch count type =>
      let name := type.name
      s!"Decode error: payload holds {count} {name} elements, inconsistent with its shape"

end Apportion.Payload.Decoding
