import Apportion.Envelopes.Packing
import Apportion.Json.Values
import Apportion.Json.Writing

namespace Apportion.Envelopes.Document

open Apportion.Json.Faults
open Apportion.Json.Scalars
open Apportion.Json.Readers
open Apportion.Json.Values
open Apportion.Json.Writing
open Apportion.Envelopes.Coercion
open Apportion.Envelopes.Packing
open Apportion.Tensor.Elements
open Apportion.Tensor.Shapes

def toDocument (envelope : Envelope) : String :=
  "\x7b\"buffer\":" ++ writeText envelope.buffer ++ ",\"dtype\":" ++
    writeText envelope.type.name ++ ",\"shape\":" ++ writeNaturals envelope.shape ++ "\x7d"

/-- The fields that a document has given so far. A type or a shape that is given as absent is given
all the same. -/
structure Fields where
  buffer? : Option String
  type? : Option (Option String)
  shape? : Option ShapeSource

def shapeDepth : Nat := 126

def dimension? : Value → Option Int
  | .number (.integer value) => if value ≤ 0x7fffffffffffffff then some value else none
  | _ => none

def shapeSource? : Value → Option ShapeSource
  | .text text => some (.text text)
  | .list values => (values.mapM dimension?).map .dimensions
  | _ => none

def readShapeSource : Reader ShapeSource := fun text => do
  let (value, rest) ← readValue shapeDepth text
  match shapeSource? value with
  | some source => return (source, rest)
  | none => throw (.content (.noForm "RawShape"))

def readShape : Reader ShapeSource := fun text =>
  (readOptional readShapeSource text).map fun parts => (parts.1.getD .absent, parts.2)

def readBuffer : Reader String :=
  readString "a string"

def readTypeName : Reader (Option String) :=
  readOptional (readString "a string")

def readMember (fields : Fields) (key : String) : Reader Fields := fun text => do
  if key = "buffer" then
    let (value, rest) ← readField key fields.buffer? readBuffer text
    return ({ fields with buffer? := some value }, rest)
  else if key = "dtype" then
    let (value, rest) ← readField key fields.type? readTypeName text
    return ({ fields with type? := some value }, rest)
  else if key = "shape" then
    let (value, rest) ← readField key fields.shape? readShape text
    return ({ fields with shape? := some value }, rest)
  else
    let rest ← skipMember text
    return (fields, rest)

structure Source where
  buffer : String
  type : TypeSource
  shape : ShapeSource

/-- The parts that the fields give. Only the buffer must be among them. -/
def Fields.source (fields : Fields) : Except JsonError Source :=
  match fields.buffer? with
  | none => .error (.content (.missingField "buffer"))
  | some buffer =>
      let type :=
        match fields.type?.join with
        | some name => TypeSource.name name
        | none => .absent
      .ok ⟨buffer, type, fields.shape?.getD .absent⟩

def readObjectParts : Reader Source := fun text => do
  let (fields, rest) ← readObject readMember ⟨none, none, none⟩ text
  let source ← fields.source
  return (source, rest)

def readListedParts : Reader Source := fun text => do
  let (buffer, rest) ← readListed true readBuffer text
  if buffer.isNone then
    throw (.content (.wrongLength 0 "struct RawEnvelope with 3 elements"))
  let (type, rest) ← readListed false readTypeName rest
  let (shape, rest) ← readListed false readShape rest
  let source ← Fields.source ⟨buffer, type, shape⟩
  return (source, rest)

def readEnvelope : Reader Envelope := fun text => do
  let (source, rest) ← readRecord "struct RawEnvelope" readObjectParts readListedParts text
  match make source.buffer source.type source.shape with
  | .ok envelope => return (envelope, rest)
  | .error cause => throw (.content (.refused cause.message))

def contentMessage (fault : ContentFault) : String :=
  "JSON error: " ++ fault.message

def ofDocument (text : String) : Except JsonError Envelope :=
  readDocument readEnvelope text

def typeToDocument (type : ElementType) : String :=
  writeText type.name

def typeOfName (name : String) : Except JsonError ElementType :=
  match ElementType.ofName? name with
  | some type => .ok type
  | none => .error (.content (.unknownName name (ElementType.all.map ElementType.name)))

def readName : Reader ElementType := fun text => do
  let (character, rest) ← firstCharacter text
  if character = '"' then
    let (name, rest) ← readText rest
    let type ← typeOfName name
    return (type, rest)
  else throw .malformed

/-- Read an element type: its name, or an object with the name as its only key and no value. -/
def readType : Reader ElementType := fun text => do
  let (character, rest) ← firstCharacter text
  if character = '\x7b' then
    let (type, rest) ← readName rest
    let rest ← skipColon rest
    let (_, rest) ← readNothing rest
    match skipBlanks rest with
    | [] => throw .unfinished
    | character :: rest => if character = '\x7d' then return (type, rest) else throw .malformed
  else readName text

def typeOfDocument (text : String) : Except JsonError ElementType :=
  readDocument readType text

def shapeToDocument (shape : Shape) : String :=
  writeNaturals shape

def readDimensions : Reader Shape := fun text => do
  let (character, rest) ← firstCharacter text
  if character = '[' then readList (readBelow UInt64.size "usize") rest
  else refuse "a sequence" character rest

def shapeOfDocument (text : String) : Except JsonError Shape :=
  readDocument readDimensions text

end Apportion.Envelopes.Document
