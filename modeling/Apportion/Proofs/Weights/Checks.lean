import Apportion.Proofs.Outcomes
import Apportion.Weights.Quantization

namespace Apportion.Proofs.Weights.Checks

open Apportion.Number.Arithmetic
open Apportion.Sparse.Universe
open Apportion.Weights.Refusal
open Apportion.Weights.Normalization
open Apportion.Weights.Quantization
open Apportion.Proofs.Outcomes

theorem findSome?_zipIdx_eq_none_iff {β γ : Type} (fault : β × Nat → Option γ) (values : List β) :
    values.zipIdx.findSome? fault = none ↔
      ∀ position value, values[position]? = some value → fault (value, position) = none := by
  rw [List.findSome?_eq_none_iff]
  constructor
  · intro hnone position value hvalue
    exact hnone (value, position) (List.mem_zipIdx_iff_getElem?.mpr hvalue)
  · rintro hnone ⟨value, position⟩ hmem
    exact hnone position value (List.mem_zipIdx_iff_getElem?.mp hmem)

/-- The value at the position is of a kind, and no value before it is. -/
structure FirstAt {β : Type} (kind : β → Prop) (values : List β) (position : Nat) (value : β) :
    Prop where
  at_position : values[position]? = some value
  holds : kind value
  before : ∀ earlier < position, ∀ other, values[earlier]? = some other → ¬kind other

theorem FirstAt.unique {β : Type} {kind : β → Prop} {values : List β} {position position' : Nat}
    {value value' : β} (hfirst : FirstAt kind values position value)
    (hfirst' : FirstAt kind values position' value') : position = position' ∧ value = value' := by
  have hsame : position = position' := by
    rcases Nat.lt_trichotomy position position' with hlt | hsame | hlt
    · exact absurd hfirst.holds (hfirst'.before position hlt value hfirst.at_position)
    · exact hsame
    · exact absurd hfirst'.holds (hfirst.before position' hlt value' hfirst'.at_position)
  subst hsame
  exact ⟨rfl, Option.some.inj (hfirst.at_position.symm.trans hfirst'.at_position)⟩

theorem firstAt_of_findSome?_zipIdx {β γ : Type} {fault : β × Nat → Option γ} {kind : β → Prop}
    (hkind : ∀ value position, fault (value, position) = none ↔ ¬kind value) {values : List β}
    {cause : γ} (hfound : values.zipIdx.findSome? fault = some cause) :
    ∃ position value, FirstAt kind values position value ∧
      fault (value, position) = some cause := by
  obtain ⟨before, ⟨value, position⟩, after, hsplit, hfault, hbefore⟩ :=
    List.findSome?_eq_some_iff.mp hfound
  have hvalue : ∀ index : Nat, values.zipIdx[index]? = values[index]?.map (·, index) := by
    intro index
    rw [List.getElem?_zipIdx, Nat.zero_add]
  obtain ⟨rfl, hposition⟩ : before.length = position ∧ values[before.length]? = some value := by
    have hat := hvalue before.length
    rw [hsplit, List.getElem?_append_right (Nat.le_refl _), Nat.sub_self] at hat
    obtain ⟨found, hfound, hpair⟩ := Option.map_eq_some_iff.mp hat.symm
    cases hpair
    exact ⟨rfl, hfound⟩
  refine ⟨before.length, value, ⟨hposition, ?_, ?_⟩, hfault⟩
  · refine Classical.not_not.mp fun hnot => ?_
    rw [(hkind value before.length).mpr hnot] at hfault
    cases hfault
  · intro earlier hearlier other hother
    have hat := hvalue earlier
    rw [hsplit, List.getElem?_append_left hearlier, hother] at hat
    exact (hkind other earlier).mp (hbefore _ (List.mem_of_getElem? hat))

theorem findSome?_zipIdx_eq_some_iff {β γ : Type} {fault : β × Nat → Option γ} {kind : β → Prop}
    (hkind : ∀ value position, fault (value, position) = none ↔ ¬kind value) {values : List β}
    {cause : γ} :
    values.zipIdx.findSome? fault = some cause ↔
      ∃ position value, FirstAt kind values position value ∧
        fault (value, position) = some cause := by
  constructor
  · exact firstAt_of_findSome?_zipIdx hkind
  · rintro ⟨position, value, hfirst, hfault⟩
    cases hfound : values.zipIdx.findSome? fault with
    | none =>
        rw [findSome?_zipIdx_eq_none_iff] at hfound
        rw [hfound position value hfirst.at_position] at hfault
        cases hfault
    | some other =>
        obtain ⟨position', value', hfirst', hother⟩ := firstAt_of_findSome?_zipIdx hkind hfound
        obtain ⟨rfl, rfl⟩ := hfirst.unique hfirst'
        exact hother.symm.trans hfault

theorem find?_eq_some_iff_firstAt {β : Type} {p : β → Bool} {values : List β} {value : β} :
    values.find? p = some value ↔ ∃ position, FirstAt (p · = true) values position value := by
  rw [List.find?_eq_some_iff_getElem]
  constructor
  · rintro ⟨hholds, position, hposition, rfl, hbefore⟩
    refine ⟨position, List.getElem?_eq_getElem hposition, hholds, ?_⟩
    intro earlier hearlier other hother
    obtain ⟨_, rfl⟩ := List.getElem?_eq_some_iff.mp hother
    simpa using hbefore earlier hearlier
  · rintro ⟨position, hat, hholds, hbefore⟩
    obtain ⟨hposition, rfl⟩ := List.getElem?_eq_some_iff.mp hat
    refine ⟨hholds, position, hposition, rfl, ?_⟩
    intro earlier hearlier
    have hlt := Nat.lt_trans hearlier hposition
    simpa using hbefore earlier hearlier _ (List.getElem?_eq_getElem hlt)

theorem forall_getElem?_iff {β : Type} (holds : β → Prop) (values : List β) :
    (∀ (position : Nat) value, values[position]? = some value → holds value) ↔
      ∀ value ∈ values, holds value := by
  constructor
  · intro hall value hmem
    obtain ⟨position, hposition⟩ := List.mem_iff_getElem?.mp hmem
    exact hall position value hposition
  · intro hall position value hvalue
    exact hall value (List.mem_of_getElem? hvalue)

theorem requireSameLength_eq_ok_iff {β γ : Type} {leftName rightName : String} {left : List β}
    {right : List γ} :
    requireSameLength leftName left rightName right = .ok () ↔ left.length = right.length := by
  unfold requireSameLength
  split <;> simp_all

variable {α : Type} [Scalar α]

theorem weightFault_eq_none_iff {weight : α} {position : Nat} :
    weightFault (weight, position) = none ↔ Scalar.isFinite weight = true ∧ ¬weight < 0 := by
  unfold weightFault
  cases hfinite : Scalar.isFinite weight
  · simp
  · by_cases hneg : weight < 0 <;> simp [hneg]

theorem requireUsable_eq_ok_iff {weights : List α} :
    requireUsable weights = .ok () ↔
      ∀ weight ∈ weights, Scalar.isFinite weight = true ∧ ¬weight < 0 := by
  rw [← forall_getElem?_iff]
  unfold requireUsable
  cases hfault : weights.zipIdx.findSome? weightFault with
  | none =>
      rw [findSome?_zipIdx_eq_none_iff] at hfault
      simpa only [weightFault_eq_none_iff, true_iff] using hfault
  | some fault =>
      have hnot := mt (findSome?_zipIdx_eq_none_iff weightFault weights).mpr (by simp [hfault])
      simpa only [weightFault_eq_none_iff, reduceCtorEq, false_iff] using hnot

theorem requireUsable_eq_error_iff {weights : List α} {cause : WeightError α} :
    requireUsable weights = .error cause ↔ weights.zipIdx.findSome? weightFault = some cause := by
  unfold requireUsable
  cases weights.zipIdx.findSome? weightFault <;> simp

theorem emissionFault_eq_none_iff {weight : α} {position : Nat} :
    emissionFault (weight, position) = none ↔ Scalar.isFinite weight = true ∧ ¬weight < 0 := by
  unfold emissionFault
  by_cases hneg : weight < 0
  · simp [hneg]
  · cases hfinite : Scalar.isFinite weight <;> simp [hneg]

omit [Scalar α] in
theorem uidFault_eq_none_iff {uid : Int} {position : Nat} :
    (uidFault (uid, position) : Option (WeightError α)) = none ↔ 0 ≤ uid := by
  unfold uidFault
  by_cases hneg : uid < 0
  · simp [hneg]
  · simpa [hneg] using Int.not_lt.mp hneg

theorem requireEmittable_eq_ok_iff {uids : List Int} {weights : List α} :
    requireEmittable uids weights = .ok () ↔
      uids.length = weights.length ∧
        (∀ weight ∈ weights, Scalar.isFinite weight = true ∧ ¬weight < 0) ∧
          ∀ uid ∈ uids, 0 ≤ uid := by
  rw [requireEmittable, check_bind_eq_ok_iff, mapError_eq_ok_iff, requireSameLength_eq_ok_iff]
  refine and_congr_right fun _ => ?_
  rw [← forall_getElem?_iff, ← forall_getElem?_iff (0 ≤ ·)]
  cases hweight : weights.zipIdx.findSome? emissionFault with
  | some fault =>
      have hnot := mt (findSome?_zipIdx_eq_none_iff emissionFault weights).mpr (by simp [hweight])
      simp only [emissionFault_eq_none_iff] at hnot
      simp [hnot]
  | none =>
      rw [findSome?_zipIdx_eq_none_iff] at hweight
      simp only [emissionFault_eq_none_iff] at hweight
      cases huid : uids.zipIdx.findSome? (uidFault (α := α)) with
      | some fault =>
          have hnot := mt (findSome?_zipIdx_eq_none_iff (uidFault (α := α)) uids).mpr
            (by simp [huid])
          simp only [uidFault_eq_none_iff] at hnot
          simp [hnot]
      | none =>
          rw [findSome?_zipIdx_eq_none_iff] at huid
          simp only [uidFault_eq_none_iff] at huid
          exact iff_of_true rfl ⟨hweight, huid⟩

theorem quantize_eq_error_iff {width : IntegerWidth} {uids : List Int} {weights : List α}
    {cause : WeightError α} :
    quantize width uids weights = .error cause ↔ requireEmittable uids weights = .error cause := by
  unfold quantize
  cases requireEmittable uids weights with
  | error other => simp
  | ok checked => simp

theorem requireEmittable_eq_error_iff {uids : List Int} {weights : List α} {cause : WeightError α} :
    requireEmittable uids weights = .error cause ↔
      uids.length ≠ weights.length ∧
          .sparse (.lengthMismatch "uids" uids.length "weights" weights.length) = cause ∨
        uids.length = weights.length ∧
          (weights.zipIdx.findSome? emissionFault = some cause ∨
            weights.zipIdx.findSome? emissionFault = none ∧
              uids.zipIdx.findSome? uidFault = some cause) := by
  have hlengths : ∀ fault,
      requireSameLength "uids" uids "weights" weights = .error fault ↔
        uids.length ≠ weights.length ∧
          .lengthMismatch "uids" uids.length "weights" weights.length = fault := by
    intro fault
    unfold requireSameLength
    split <;> simp_all
  rw [requireEmittable, check_bind_eq_error_iff, mapError_eq_error_iff, mapError_eq_ok_iff,
    requireSameLength_eq_ok_iff]
  simp only [hlengths]
  refine or_congr ?_ (and_congr_right fun _ => ?_)
  · constructor
    · rintro ⟨_, ⟨hlength, rfl⟩, rfl⟩
      exact ⟨hlength, rfl⟩
    · rintro ⟨hlength, rfl⟩
      exact ⟨_, ⟨hlength, rfl⟩, rfl⟩
  cases weights.zipIdx.findSome? emissionFault with
  | some fault => simp
  | none => cases uids.zipIdx.findSome? (uidFault (α := α)) <;> simp

theorem requireEmittable_eq_error {uids : List Int} {weights : List α}
    (hlength : uids.length = weights.length)
    (hfinite : ∀ weight ∈ weights, Scalar.isFinite weight = true)
    (hnegative : ∃ weight ∈ weights, weight < 0) :
    ∃ position weight, weights[position]? = some weight ∧ weight < 0 ∧
      requireEmittable uids weights = .error (.negativeWeight position weight) := by
  cases hfault : weights.zipIdx.findSome? emissionFault with
  | none =>
      obtain ⟨weight, hmem, hneg⟩ := hnegative
      obtain ⟨position, hposition⟩ := List.mem_iff_getElem?.mp hmem
      rw [findSome?_zipIdx_eq_none_iff] at hfault
      exact absurd hneg (emissionFault_eq_none_iff.mp (hfault position weight hposition)).2
  | some fault =>
      obtain ⟨⟨weight, position⟩, hmem, hreason⟩ := List.exists_of_findSome?_eq_some hfault
      have hposition : weights[position]? = some weight := List.mem_zipIdx_iff_getElem?.mp hmem
      have hweight := hfinite weight (List.mem_of_getElem? hposition)
      simp only [emissionFault, hweight] at hreason
      split at hreason
      · rename_i hneg
        cases hreason
        exact ⟨position, weight, hposition, hneg,
          requireEmittable_eq_error_iff.mpr (.inr ⟨hlength, .inl hfault⟩)⟩
      · cases hreason

theorem normalizeCapped_eq_ok_iff {weights shares : List α} {limit : α} :
    normalizeCapped weights limit = .ok shares ↔
      (0 < limit ∧ limit ≤ 1) ∧
        (∀ weight ∈ weights, Scalar.isFinite weight = true ∧ ¬weight < 0) ∧
          cappedShares limit weights = shares := by
  unfold normalizeCapped
  split
  · rename_i hlimit
    rw [check_bind_eq_ok_iff, requireUsable_eq_ok_iff]
    simp [hlimit]
  · rename_i hlimit
    simp [hlimit]

end Apportion.Proofs.Weights.Checks
