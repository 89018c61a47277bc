import Mathlib.Data.List.Basic
import Apportion.Weights.Normalization

namespace Apportion.Proofs.Weights.CapPasses

open Apportion.Number.Arithmetic
open Apportion.Weights.Normalization

variable {α : Type} [Scalar α]

/-- What the capped shares leave over for the others. -/
def freeMass (limit : α) (shares : List (Share α)) : α :=
  1 - limit * Scalar.ofNat (shares.countP (·.capped))

def freeBase (shares : List (Share α)) : α :=
  total ((shares.filter (!·.capped)).map (·.base))

def freeCount (shares : List (Share α)) : Nat :=
  shares.countP (!·.capped)

def spreadValue (limit : α) (shares : List (Share α)) (share : Share α) : α :=
  if share.capped then limit
  else if 0 < freeBase shares then share.base * freeMass limit shares / freeBase shares
  else freeMass limit shares / Scalar.ofNat (freeCount shares)

def capPass (limit : α) (shares : List (Share α)) : List (Share α) :=
  spread limit (shares.map (·.mark limit))

omit [Scalar α] in
theorem length_sub_countP_capped (shares : List (Share α)) :
    shares.length - shares.countP (·.capped) = freeCount shares := by
  have hsplit := shares.length_eq_countP_add_countP (·.capped)
  have hfree : shares.countP (fun share => decide ¬share.capped = true) = freeCount shares := by
    unfold freeCount
    congr 1
    funext share
    cases share.capped <;> rfl
  omega

theorem spread_eq (limit : α) (shares : List (Share α)) :
    spread limit shares =
      shares.map fun share => { share with value := spreadValue limit shares share } := by
  simp only [spread, length_sub_countP_capped]
  rfl

theorem mem_spread {limit : α} {shares : List (Share α)} {share : Share α} :
    share ∈ spread limit shares ↔
      ∃ before ∈ shares, { before with value := spreadValue limit shares before } = share := by
  rw [spread_eq, List.mem_map]

@[simp]
theorem length_capPass (limit : α) (shares : List (Share α)) :
    (capPass limit shares).length = shares.length := by
  simp [capPass, spread_eq]

@[simp]
theorem map_base_capPass (limit : α) (shares : List (Share α)) :
    (capPass limit shares).map (·.base) = shares.map (·.base) := by
  simp [capPass, spread_eq, Share.mark, Function.comp_def]

theorem capPasses_succ (limit : α) (passes : Nat) (shares : List (Share α)) :
    capPasses limit (passes + 1) shares =
      if shares.any (·.overflows limit) then capPasses limit passes (capPass limit shares)
      else shares := rfl

theorem capPasses_keeps {limit : α} {keeps : List (Share α) → Prop}
    (hstep : ∀ shares, keeps shares → shares.any (·.overflows limit) = true →
      keeps (capPass limit shares))
    (passes : Nat) {shares : List (Share α)} (hstart : keeps shares) :
    keeps (capPasses limit passes shares) := by
  induction passes generalizing shares with
  | zero => exact hstart
  | succ passes ih =>
      rw [capPasses_succ]
      split
      · rename_i hoverflow
        exact ih (hstep shares hstart hoverflow)
      · exact hstart

theorem freeCount_spread (limit : α) (shares : List (Share α)) :
    freeCount (spread limit shares) = freeCount shares := by
  simp [freeCount, spread_eq, List.countP_map, Function.comp_def]

theorem countP_capped_spread (limit : α) (shares : List (Share α)) :
    (spread limit shares).countP (·.capped) = shares.countP (·.capped) := by
  simp [spread_eq, List.countP_map, Function.comp_def]

theorem freeMass_spread (limit : α) (shares : List (Share α)) :
    freeMass limit (spread limit shares) = freeMass limit shares := by
  rw [freeMass, freeMass, countP_capped_spread]

theorem freeBase_spread (limit : α) (shares : List (Share α)) :
    freeBase (spread limit shares) = freeBase shares := by
  simp [freeBase, spread_eq, List.filter_map, Function.comp_def]

theorem value_of_mem_spread {limit : α} {shares : List (Share α)} {share : Share α}
    (hmem : share ∈ spread limit shares) :
    share.value = spreadValue limit (spread limit shares) share := by
  obtain ⟨before, _, rfl⟩ := mem_spread.mp hmem
  show spreadValue limit shares before = _
  simp only [spreadValue, freeMass_spread, freeBase_spread, freeCount_spread]

theorem freeCount_map_mark (limit : α) (shares : List (Share α)) :
    freeCount (shares.map (·.mark limit)) + shares.countP (·.overflows limit) =
      freeCount shares := by
  unfold freeCount
  induction shares with
  | nil => rfl
  | cons share shares ih =>
      simp only [List.map_cons, List.countP_cons, ← ih]
      have hshare : (if (!(share.mark limit).capped) = true then 1 else 0) +
          (if share.overflows limit = true then 1 else 0) =
            if (!share.capped) = true then 1 else 0 := by
        cases hcapped : share.capped <;> cases hover : share.overflows limit <;>
          simp_all [Share.mark, Share.overflows]
      omega

theorem freeCount_capPass_lt {limit : α} {shares : List (Share α)}
    (hoverflow : shares.any (·.overflows limit) = true) :
    freeCount (capPass limit shares) < freeCount shares := by
  have hsome : 0 < shares.countP (·.overflows limit) := by
    rw [List.countP_pos_iff]
    exact List.any_eq_true.mp hoverflow
  rw [capPass, freeCount_spread]
  have hcount := freeCount_map_mark limit shares
  omega

/-- When there are as many passes as free shares, no share overflows in the end. -/
theorem any_overflows_capPasses {limit : α} {passes : Nat} {shares : List (Share α)}
    (hpasses : freeCount shares ≤ passes) :
    (capPasses limit passes shares).any (·.overflows limit) = false := by
  induction passes generalizing shares with
  | zero =>
      have hnone : ∀ share ∈ shares, share.capped = true := by
        simpa [freeCount, List.countP_eq_zero] using hpasses
      simp only [capPasses, List.any_eq_false]
      intro share hmem
      simp [Share.overflows, hnone share hmem]
  | succ passes ih =>
      rw [capPasses_succ]
      split
      · rename_i hoverflow
        have hfewer := freeCount_capPass_lt hoverflow
        exact ih (by omega)
      · rename_i hoverflow
        simpa using hoverflow

theorem capPasses_of_any_eq_false {limit : α} {shares : List (Share α)}
    (hnone : shares.any (·.overflows limit) = false) (passes : Nat) :
    capPasses limit passes shares = shares := by
  cases passes with
  | zero => rfl
  | succ passes => rw [capPasses_succ, if_neg (by simp [hnone])]

theorem capPasses_succ_last (limit : α) (passes : Nat) (shares : List (Share α)) :
    capPasses limit (passes + 1) shares =
      if (capPasses limit passes shares).any (·.overflows limit) then
        capPass limit (capPasses limit passes shares)
      else capPasses limit passes shares := by
  induction passes generalizing shares with
  | zero => rfl
  | succ passes ih =>
      rw [capPasses_succ, capPasses_succ limit passes shares]
      split
      · exact ih (capPass limit shares)
      · rfl

@[simp]
theorem length_capPasses (limit : α) (passes : Nat) (shares : List (Share α)) :
    (capPasses limit passes shares).length = shares.length :=
  @capPasses_keeps α _ limit (fun later => later.length = shares.length)
    (fun later hlength _ => (length_capPass limit later).trans hlength) passes shares rfl

def firstShares (base : List α) : List (Share α) :=
  base.map fun share => ⟨share, share, false⟩

/-- The shares after so many passes, up to all that there are. There are none where equal shares are
given at once. -/
def sharesAfter (limit : α) (weights : List α) (passes : Nat) : List (Share α) :=
  let (scaled, sum) := boundedTotal weights
  if sum == 0 then []
  else if limit * Scalar.ofNat weights.length ≤ 1 then []
  else capPasses limit passes (firstShares (scaled.map (· / sum)))

def lastShares (limit : α) (weights : List α) : List (Share α) :=
  sharesAfter limit weights weights.length

@[simp]
theorem length_boundedTotal (weights : List α) :
    (boundedTotal weights).1.length = weights.length := by
  simp only [boundedTotal]
  split
  · rfl
  · exact List.length_map _

theorem applyLimit_eq_map_value {limit : α} {base : List α}
    (horder : ∀ share ∈ base, share ≤ limit → ¬limit < share) :
    applyLimit limit base = (capPasses limit base.length (firstShares base)).map (·.value) := by
  unfold applyLimit
  split
  · rename_i hall
    have hnone : (firstShares base).any (·.overflows limit) = false := by
      rw [firstShares, List.any_map, List.any_eq_false]
      intro share hmem
      have hle : share ≤ limit := of_decide_eq_true (List.all_eq_true.mp hall share hmem)
      simpa [Share.overflows] using horder share hmem hle
    rw [capPasses_of_any_eq_false hnone, firstShares, List.map_map]
    exact (List.map_id base).symm
  · rfl

theorem cappedShares_cases (limit : α) (weights : List α) :
    (cappedShares limit weights = equalShares weights.length ∧ lastShares limit weights = []) ∨
      ∃ base, base = (boundedTotal weights).1.map (· / (boundedTotal weights).2) ∧
        ((boundedTotal weights).2 == 0) = false ∧
        cappedShares limit weights = applyLimit limit base ∧
        lastShares limit weights = capPasses limit weights.length (firstShares base) := by
  unfold cappedShares lastShares sharesAfter
  cases hzero : (boundedTotal weights).2 == 0 with
  | true => exact .inl ⟨if_pos hzero, if_pos hzero⟩
  | false =>
      have hsome : ¬((boundedTotal weights).2 == 0) = true := by simp [hzero]
      by_cases hfull : limit * Scalar.ofNat weights.length ≤ 1
      · exact .inl ⟨(if_neg hsome).trans (if_pos hfull), (if_neg hsome).trans (if_pos hfull)⟩
      · exact .inr ⟨_, rfl, rfl, (if_neg hsome).trans (if_neg hfull),
          (if_neg hsome).trans (if_neg hfull)⟩

@[simp]
theorem length_cappedShares (limit : α) (weights : List α) :
    (cappedShares limit weights).length = weights.length := by
  rcases cappedShares_cases limit weights with ⟨hequal, -⟩ | ⟨base, rfl, -, hshares, -⟩
  · rw [hequal, equalShares, List.length_replicate]
  · rw [hshares, applyLimit]
    split
    · simp
    · simp

theorem sharesAfter_cases (limit : α) (weights : List α) :
    (∀ passes, sharesAfter limit weights passes = []) ∨
      ∀ passes, sharesAfter limit weights passes = capPasses limit passes
        (firstShares ((boundedTotal weights).1.map (· / (boundedTotal weights).2))) := by
  unfold sharesAfter
  cases hzero : (boundedTotal weights).2 == 0 with
  | true => exact .inl fun _ => if_pos hzero
  | false =>
      have hsome : ¬((boundedTotal weights).2 == 0) = true := by simp [hzero]
      by_cases hfull : limit * Scalar.ofNat weights.length ≤ 1
      · exact .inl fun _ => (if_neg hsome).trans (if_pos hfull)
      · exact .inr fun _ => (if_neg hsome).trans (if_neg hfull)

section Limited

variable {limit : α} {weights : List α} (hsum : ((boundedTotal weights).2 == 0) = false)

include hsum

theorem cappedShares_eq_equalShares (hfull : limit * Scalar.ofNat weights.length ≤ 1) :
    cappedShares limit weights = equalShares weights.length :=
  (if_neg (Bool.eq_false_iff.mp hsum)).trans (if_pos hfull)

variable (hroom : ¬limit * Scalar.ofNat weights.length ≤ 1)

include hroom

theorem cappedShares_eq_applyLimit :
    cappedShares limit weights =
      applyLimit limit ((boundedTotal weights).1.map (· / (boundedTotal weights).2)) :=
  (if_neg (Bool.eq_false_iff.mp hsum)).trans (if_neg hroom)

theorem sharesAfter_eq (pass : Nat) :
    sharesAfter limit weights pass = capPasses limit pass
      (firstShares ((boundedTotal weights).1.map (· / (boundedTotal weights).2))) :=
  (if_neg (Bool.eq_false_iff.mp hsum)).trans (if_neg hroom)

theorem cappedShares_eq_map_value (horder : ∀ {share bound : α}, share ≤ bound → ¬bound < share) :
    cappedShares limit weights = (sharesAfter limit weights weights.length).map (·.value) := by
  rw [cappedShares_eq_applyLimit hsum hroom, sharesAfter_eq hsum hroom,
    applyLimit_eq_map_value fun _ _ => horder, List.length_map, length_boundedTotal]

end Limited

end Apportion.Proofs.Weights.CapPasses
