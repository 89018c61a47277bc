import Mathlib.Data.Int.ModEq
import Mathlib.Data.List.Forall2
import Apportion.Tensor.Arrays

namespace Apportion.Proofs.Tensor.IntegerCasts

open Apportion.Tensor.Arrays
open Apportion.Tensor.Buffers
open Apportion.Tensor.Casting
open Apportion.Tensor.Elements

inductive IsInteger : ElementType → Prop where
  | uint8 : IsInteger .uint8
  | int8 : IsInteger .int8
  | int16 : IsInteger .int16
  | int32 : IsInteger .int32
  | int64 : IsInteger .int64

def least : ElementType → Int
  | .uint8 => 0
  | type => -2 ^ (8 * type.width - 1)

def modulus (type : ElementType) : Int :=
  2 ^ (8 * type.width)

def InRange (type : ElementType) (value : Int) : Prop :=
  least type ≤ value ∧ value < least type + modulus type

/-- The only integer in the range of the type that is congruent to the value. -/
structure Wraps (type : ElementType) (value wrapped : Int) : Prop where
  inRange : InRange type wrapped
  congruent : wrapped ≡ value [ZMOD modulus type]
  unique : ∀ other, InRange type other → other ≡ value [ZMOD modulus type] → other = wrapped

/-- The elements of the buffer are these integers. -/
def HoldsIntegers (buffer : Buffer) (values : List Int) : Prop :=
  List.Forall₂ (fun element value => ofElement buffer.type element = .integer value)
    buffer.elements values

section

variable {type : ElementType} {value other : Int}

theorem eq_of_congruent (hvalue : InRange type value) (hother : InRange type other)
    (hcongruent : value ≡ other [ZMOD modulus type]) : value = other := by
  obtain ⟨hlow, hhigh⟩ := hvalue
  obtain ⟨hotherLow, hotherHigh⟩ := hother
  have hshifted : (value - least type) % modulus type = (other - least type) % modulus type :=
    hcongruent.sub_right (least type)
  rw [Int.emod_eq_of_lt (by omega) (by omega), Int.emod_eq_of_lt (by omega) (by omega)] at hshifted
  omega

theorem Wraps.of_congruent (hvalue : InRange type value)
    (hcongruent : value ≡ other [ZMOD modulus type]) : Wraps type other value where
  inRange := hvalue
  congruent := hcongruent
  unique _ hthird hthirdCongruent :=
    eq_of_congruent hthird hvalue (hthirdCongruent.trans hcongruent.symm)

theorem wraps_mod (hleast : least type = 0) (value : Int) :
    Wraps type value (value % modulus type) := by
  have hpositive : 0 < modulus type := by
    rw [modulus]
    exact Int.pow_pos (by decide)
  refine .of_congruent ?_ (Int.mod_modEq value (modulus type))
  rw [InRange, hleast, zero_add]
  exact ⟨Int.emod_nonneg value hpositive.ne', Int.emod_lt_of_pos value hpositive⟩

theorem wraps_bmod (hleast : modulus type = -2 * least type) (value : Int) :
    Wraps type value (value.bmod (2 ^ (8 * type.width))) := by
  have hmodulus : ((2 ^ (8 * type.width) : Nat) : Int) = modulus type := by
    rw [modulus, Int.natCast_pow]
    rfl
  have hpositive : 0 < 2 ^ (8 * type.width) := Nat.pow_pos (by decide)
  have hlow := @Int.le_bmod value _ hpositive
  have hhigh := @Int.bmod_lt value _ hpositive
  rw [hmodulus] at hlow hhigh
  refine .of_congruent ⟨by omega, by omega⟩ ?_
  rw [Int.ModEq, ← hmodulus]
  exact Int.bmod_emod

theorem toNat_ofInt (value : Int) : ((UInt8.ofInt value).toNat : Int) = value % 2 ^ 8 := by
  rw [UInt8.ofInt, UInt8.toNat_ofNat']
  omega

theorem exists_wraps (hinteger : IsInteger type) (value : Int) :
    ∃ wrapped, ofElement type (toElement type (.integer value)) = .integer wrapped ∧
      Wraps type value wrapped := by
  cases hinteger with
  | uint8 => exact ⟨_, congrArg ElementValue.integer (toNat_ofInt value), wraps_mod rfl value⟩
  | int8 => exact ⟨_, congrArg ElementValue.integer Int8.toInt_ofInt, wraps_bmod rfl value⟩
  | int16 => exact ⟨_, congrArg ElementValue.integer Int16.toInt_ofInt, wraps_bmod rfl value⟩
  | int32 => exact ⟨_, congrArg ElementValue.integer Int32.toInt_ofInt, wraps_bmod rfl value⟩
  | int64 => exact ⟨_, congrArg ElementValue.integer Int64.toInt_ofInt, wraps_bmod rfl value⟩

theorem exists_integer (hinteger : IsInteger type) (element : type.Element) :
    ∃ value, ofElement type element = .integer value := by
  cases hinteger with
  | uint8 => exact ⟨_, rfl⟩
  | int8 => exact ⟨_, rfl⟩
  | int16 => exact ⟨_, rfl⟩
  | int32 => exact ⟨_, rfl⟩
  | int64 => exact ⟨_, rfl⟩

theorem toElement_ofElement (hinteger : IsInteger type) (element : type.Element) :
    toElement type (ofElement type element) = element := by
  cases hinteger with
  | uint8 =>
      apply UInt8.toNat_inj.mp
      have hvalue := toNat_ofInt (element.toNat : Int)
      have hbound := element.toNat_lt
      change (UInt8.ofInt (element.toNat : Int)).toNat = element.toNat
      omega
  | int8 => exact Int8.ofInt_toInt element
  | int16 => exact Int16.ofInt_toInt element
  | int32 => exact Int32.ofInt_toInt element
  | int64 => exact Int64.ofInt_toInt element

theorem toElement_congr (hinteger : IsInteger type)
    (hcongruent : value ≡ other [ZMOD modulus type]) :
    toElement type (.integer value) = toElement type (.integer other) := by
  obtain ⟨wrapped, helement, hwraps⟩ := exists_wraps hinteger value
  obtain ⟨otherWrapped, hotherElement, hotherWraps⟩ := exists_wraps hinteger other
  have hsame : wrapped = otherWrapped :=
    hotherWraps.unique wrapped hwraps.inRange (hwraps.congruent.trans hcongruent)
  calc
    toElement type (.integer value) =
        toElement type (ofElement type (toElement type (.integer value))) :=
      (toElement_ofElement hinteger _).symm
    _ = toElement type (ofElement type (toElement type (.integer other))) := by
      rw [helement, hotherElement, hsame]
    _ = toElement type (.integer other) := toElement_ofElement hinteger _

theorem modulus_dvd {middle target : ElementType} (hwidth : target.width ≤ middle.width) :
    modulus target ∣ modulus middle :=
  pow_dvd_pow 2 (Nat.mul_le_mul_left 8 hwidth)

theorem toElement_through {middle target : ElementType} (hmiddle : IsInteger middle)
    (htarget : IsInteger target) (hwidth : target.width ≤ middle.width) (value : Int) :
    toElement target (ofElement middle (toElement middle (.integer value))) =
      toElement target (.integer value) := by
  obtain ⟨wrapped, helement, hwraps⟩ := exists_wraps hmiddle value
  rw [helement]
  exact toElement_congr htarget (hwraps.congruent.of_dvd (modulus_dvd hwidth))

theorem ofElement_truth (hinteger : IsInteger type) (truth : Bool) :
    ofElement type (toElement type (.truth truth)) = .integer (if truth then 1 else 0) := by
  cases hinteger <;> cases truth <;> decide

end

section

variable {buffer : Buffer} {middle target : ElementType}

theorem exists_holdsIntegers (hinteger : IsInteger buffer.type) :
    ∃ values, HoldsIntegers buffer values := by
  obtain ⟨type, elements⟩ := buffer
  change IsInteger type at hinteger
  induction elements with
  | nil => exact ⟨[], .nil⟩
  | cons element elements ih =>
      obtain ⟨value, hvalue⟩ := exists_integer hinteger element
      obtain ⟨values, hvalues⟩ := ih
      exact ⟨value :: values, .cons hvalue hvalues⟩

theorem type_cast (target : ElementType) (buffer : Buffer) :
    (Tensor.Casting.cast target buffer).type = target := by
  rw [Tensor.Casting.cast]
  split
  · assumption
  · rfl

theorem cast_self (buffer : Buffer) : Tensor.Casting.cast buffer.type buffer = buffer :=
  if_pos rfl

theorem cast_of_isInteger (hinteger : IsInteger buffer.type) (target : ElementType) :
    Tensor.Casting.cast target buffer =
      ⟨target, buffer.elements.map fun element =>
        toElement target (ofElement buffer.type element)⟩ := by
  obtain ⟨source, elements⟩ := buffer
  change IsInteger source at hinteger
  by_cases hsame : source = target
  · subst hsame
    rw [Tensor.Casting.cast, if_pos rfl, List.map_id'' (toElement_ofElement hinteger)]
  · rw [Tensor.Casting.cast, if_neg hsame]

theorem cast_cast (hinteger : IsInteger buffer.type) (hmiddle : IsInteger middle)
    (htarget : IsInteger target) (hwidth : target.width ≤ middle.width) :
    Tensor.Casting.cast target (Tensor.Casting.cast middle buffer) =
      Tensor.Casting.cast target buffer := by
  have hthrough : ∀ element : buffer.type.Element,
      toElement target (ofElement middle (toElement middle (ofElement buffer.type element))) =
        toElement target (ofElement buffer.type element) := by
    intro element
    obtain ⟨value, hvalue⟩ := exists_integer hinteger element
    rw [hvalue, toElement_through hmiddle htarget hwidth]
  rw [cast_of_isInteger hinteger middle, cast_of_isInteger hmiddle target,
    cast_of_isInteger hinteger target, List.map_map]
  exact congrArg (Buffer.mk target) (List.map_congr_left fun element _ => hthrough element)

theorem exists_wrapped_elements {source : ElementType} (htarget : IsInteger target)
    {elements : List source.Element} {values : List Int}
    (hvalues : List.Forall₂ (fun element value => ofElement source element = .integer value)
      elements values) :
    ∃ wrapped, HoldsIntegers ⟨target, elements.map fun element =>
        toElement target (ofElement source element)⟩ wrapped ∧
      List.Forall₂ (Wraps target) values wrapped := by
  induction hvalues with
  | nil => exact ⟨[], .nil, .nil⟩
  | @cons element value elements values hvalue _ ih =>
      obtain ⟨first, helement, hfirst⟩ := exists_wraps htarget value
      obtain ⟨others, hothers, hwraps⟩ := ih
      refine ⟨first :: others, .cons ?_ hothers, .cons hfirst hwraps⟩
      change ofElement target (toElement target (ofElement source element)) = .integer first
      rw [hvalue, helement]

theorem holdsIntegers_cast (hinteger : IsInteger buffer.type) (htarget : IsInteger target)
    {values : List Int} (hvalues : HoldsIntegers buffer values) :
    ∃ wrapped, HoldsIntegers (Tensor.Casting.cast target buffer) wrapped ∧
      List.Forall₂ (Wraps target) values wrapped := by
  rw [cast_of_isInteger hinteger target]
  exact exists_wrapped_elements htarget hvalues

theorem cast_truths (hinteger : IsInteger buffer.type) (htarget : IsInteger target) :
    Tensor.Casting.cast target (Tensor.Casting.cast .bool buffer) =
      ⟨target, buffer.elements.map fun element =>
        toElement target (.truth (toTruth (ofElement buffer.type element)))⟩ := by
  have hother : ElementType.bool ≠ target := by
    cases htarget <;> decide
  rw [cast_of_isInteger hinteger .bool, Tensor.Casting.cast, if_neg hother, List.map_map]
  rfl

theorem holdsIntegers_cast_truths (hinteger : IsInteger buffer.type) (htarget : IsInteger target)
    {values : List Int} (hvalues : HoldsIntegers buffer values) :
    HoldsIntegers (Tensor.Casting.cast target (Tensor.Casting.cast .bool buffer))
      (values.map fun value => if value = 0 then 0 else 1) := by
  rw [cast_truths hinteger htarget, HoldsIntegers, List.forall₂_map_left_iff,
    List.forall₂_map_right_iff]
  refine hvalues.imp fun element value hvalue => ?_
  dsimp only
  rw [ofElement_truth htarget, hvalue]
  by_cases hzero : value = 0
  · simp [toTruth, hzero]
  · simp [toTruth, hzero]

end

/-- What conversions make of an array of integers. -/
structure CastsModularly (array : TypedArray) (values : List Int) : Prop where
  shape_eq : ∀ target, (array.cast target).shape = array.shape
  type_eq : ∀ target, (array.cast target).type = target
  wrapped : ∀ {target}, IsInteger target → ∃ wrapped,
    HoldsIntegers (array.cast target).buffer wrapped ∧ List.Forall₂ (Wraps target) values wrapped
  through : ∀ {middle target}, IsInteger middle → IsInteger target →
    target.width ≤ middle.width → (array.cast middle).cast target = array.cast target
  back : ∀ {middle}, IsInteger middle → array.type.width ≤ middle.width →
    (array.cast middle).cast array.type = array
  truths : ∀ {target}, IsInteger target →
    HoldsIntegers ((array.cast .bool).cast target).buffer
      (values.map fun value => if value = 0 then 0 else 1)

/-- Conversions between integer types are reductions modulo powers of two, and compose as such. -/
theorem cast_integers {array : TypedArray} (hinteger : IsInteger array.type) :
    ∃ values, HoldsIntegers array.buffer values ∧ CastsModularly array values := by
  obtain ⟨values, hvalues⟩ := exists_holdsIntegers hinteger
  refine ⟨values, hvalues, ?_⟩
  constructor
  case shape_eq => exact fun _ => rfl
  case type_eq => exact fun target => type_cast target array.buffer
  case wrapped => exact fun htarget => holdsIntegers_cast hinteger htarget hvalues
  case through =>
    intro middle target hmiddle htarget hwidth
    exact congrArg (TypedArray.mk array.shape) (cast_cast hinteger hmiddle htarget hwidth)
  case back =>
    intro middle hmiddle hwidth
    have hback := cast_cast hinteger hmiddle hinteger hwidth
    exact congrArg (TypedArray.mk array.shape) (hback.trans (cast_self array.buffer))
  case truths => exact fun htarget => holdsIntegers_cast_truths hinteger htarget hvalues

def outlying : TypedArray :=
  ⟨[3], ⟨.int16, [300, -1, -32768]⟩⟩

theorem cast_integers_outlying :
    IsInteger outlying.type ∧
      (outlying.cast .int64).cast .uint8 = ⟨[3], ⟨.uint8, [44, 255, 0]⟩⟩ ∧
      (outlying.cast .int32).cast .int16 = outlying := by
  obtain ⟨values, _, hcasts⟩ := cast_integers (show IsInteger outlying.type from .int16)
  exact ⟨.int16, hcasts.through .int64 .uint8 (by decide), hcasts.back .int32 (by decide)⟩

end Apportion.Proofs.Tensor.IntegerCasts
