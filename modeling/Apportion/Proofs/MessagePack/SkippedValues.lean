import Apportion.Proofs.MessagePack.Delimiting

namespace Apportion.Proofs.MessagePack.SkippedValues

open Apportion.Bytes
open Apportion.MessagePack.Heads
open Apportion.MessagePack.Readers
open Apportion.Proofs.MessagePack.Spellings
open Apportion.Proofs.MessagePack.Delimiting

def standsAlone : Head → Bool
  | .nothing | .boolean _ | .integer _ | .float64 _ | .float32 _ => true
  | .text _ | .binary _ | .array _ | .map _ | .extension _ => false

/-- The bytes are a value of any kind that is nested at most so deep, in any of its forms. An array,
a map and an extension are one level each. -/
inductive IsValue : Nat → List UInt8 → Prop
  | alone {depth : Nat} {head : Head} {bytes : List UInt8} (hspelled : Spelled head bytes)
      (halone : standsAlone head = true) : IsValue depth bytes
  | string {depth : Nat} {content bytes : List UInt8} (hform : StringForm content bytes) :
      IsValue depth bytes
  | extension {depth : Nat} {kind : UInt8} {content head : List UInt8}
      (hhead : Spelled (.extension content.length) head) :
      IsValue (depth + 1) (head ++ kind :: content)
  | array {depth : Nat} {head : List UInt8} {items : List (List UInt8)}
      (hhead : Spelled (.array items.length) head) (hitems : ∀ item ∈ items, IsValue depth item) :
      IsValue (depth + 1) (head ++ items.flatten)
  | map {depth : Nat} {head : List UInt8} {entries : List (List UInt8 × List UInt8)}
      (hhead : Spelled (.map entries.length) head)
      (hkeys : ∀ entry ∈ entries, IsValue depth entry.1)
      (hvalues : ∀ entry ∈ entries, IsValue depth entry.2) :
      IsValue (depth + 1) (head ++ entries.flatMap fun entry => entry.1 ++ entry.2)

def passing (skip : List UInt8 → Option (List UInt8)) : Reader Unit := fun bytes =>
  orMalformed (skip bytes) >>= fun rest => .ok ((), rest)

theorem passing_eq_bind {skip : List UInt8 → Option (List UInt8)}
    {next : Head → List UInt8 → Option (List UInt8)}
    (hskip : ∀ bytes, skip bytes = (readHead bytes).bind fun parts => next parts.1 parts.2) :
    passing skip = fun bytes =>
      orMalformed (readHead bytes) >>= fun parts => passing (next parts.1) parts.2 := by
  funext bytes
  rw [passing, hskip]
  cases readHead bytes with
  | none => rfl
  | some parts => rfl

theorem passing_skipMany_succ (skip : List UInt8 → Option (List UInt8)) (count : Nat) :
    passing (skipMany skip (count + 1)) = fun bytes =>
      passing skip bytes >>= fun parts => passing (skipMany skip count) parts.2 := by
  funext bytes
  rw [passing, skipMany, passing]
  cases skip bytes with
  | none => rfl
  | some rest => rfl

theorem delimited_skipMany {skip : List UInt8 → Option (List UInt8)} {items : List (List UInt8)}
    (hitems : ∀ item ∈ items, Delimited (passing skip) item ()) :
    Delimited (passing (skipMany skip items.length)) items.flatten () := by
  induction items with
  | nil => exact delimited_nothing ()
  | cons item items ih =>
      have hothers := ih fun other hmem => hitems other (by simp [hmem])
      rw [List.length_cons, List.flatten_cons, passing_skipMany_succ]
      exact (hitems item (by simp)).bind hothers

theorem delimited_passing_split (content : List UInt8) :
    Delimited (passing fun bytes => (split? content.length bytes).map Prod.snd) content () where
  whole rest := by
    rw [passing, split?_append]
    rfl
  cut count hcount := by
    rw [passing, split?_eq_none (by rw [List.length_take]; omega)]
    rfl

def skipBehind (depth : Nat) (head : Head) (body : List UInt8) : Option (List UInt8) :=
  match head with
  | .text length | .binary length => (split? length body).map Prod.snd
  | .extension length => if depth = 0 then none else (split? (length + 1) body).map Prod.snd
  | .array count =>
      match depth with
      | 0 => none
      | depth + 1 => skipMany (skipValue depth) count body
  | .map count =>
      match depth with
      | 0 => none
      | depth + 1 => skipMany (skipValue depth) (2 * count) body
  | _ => some body

theorem skipBehind_alone {head : Head} (halone : standsAlone head = true) (depth : Nat) :
    skipBehind depth head = some := by
  funext body
  cases head <;> simp_all [standsAlone, skipBehind]

theorem skipValue_eq (depth : Nat) (bytes : List UInt8) :
    skipValue depth bytes =
      (readHead bytes).bind fun parts => skipBehind depth parts.1 parts.2 := by
  unfold skipValue
  cases readHead bytes with
  | none => rfl
  | some parts => rfl

theorem delimited_behind {depth : Nat} {head : Head} {first second : List UInt8}
    (hhead : Spelled head first) (hbody : Delimited (passing (skipBehind depth head)) second ()) :
    Delimited (passing (skipValue depth)) (first ++ second) () := by
  rw [passing_eq_bind (skipValue_eq depth)]
  exact (delimited_head hhead).bind hbody

theorem delimited_skipValue {depth : Nat} {bytes : List UInt8} (hvalue : IsValue depth bytes) :
    Delimited (passing (skipValue depth)) bytes () := by
  induction hvalue with
  | @alone depth head bytes hspelled halone =>
      have hbody : Delimited (passing (skipBehind depth head)) [] () := by
        rw [skipBehind_alone halone]
        exact delimited_nothing ()
      have hall := delimited_behind hspelled hbody
      rwa [List.append_nil] at hall
  | string hform =>
      cases hform with
      | text hhead => exact delimited_behind hhead (delimited_passing_split _)
      | binary hhead => exact delimited_behind hhead (delimited_passing_split _)
  | @extension depth kind content head hhead =>
      exact delimited_behind hhead (delimited_passing_split (kind :: content))
  | array hhead _ ih => exact delimited_behind hhead (delimited_skipMany ih)
  | @map depth head entries hhead _ _ hkeys hvalues =>
      -- A map is passed over as an array of twice as many items.
      have hitems : ∀ item ∈ entries.flatMap fun entry => [entry.1, entry.2],
          Delimited (passing (skipValue depth)) item () := by
        intro item hmem
        obtain ⟨entry, hentry, hitem⟩ := List.mem_flatMap.mp hmem
        rcases List.mem_pair.mp hitem with rfl | rfl
        · exact hkeys entry hentry
        · exact hvalues entry hentry
      have hskipped := delimited_skipMany hitems
      have hlength : (entries.flatMap fun entry => [entry.1, entry.2]).length =
          2 * entries.length := by
        simp [List.length_flatMap, Nat.mul_comm]
      have hflatten : (entries.flatMap fun entry => [entry.1, entry.2]).flatten =
          entries.flatMap fun entry => entry.1 ++ entry.2 := by
        simp [List.flatMap, List.flatten_flatten, Function.comp_def]
      rw [hlength, hflatten] at hskipped
      exact delimited_behind hhead hskipped

end Apportion.Proofs.MessagePack.SkippedValues
