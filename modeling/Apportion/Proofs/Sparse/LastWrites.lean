import Apportion.Proofs.Weights.ProcessingSteps

namespace Apportion.Proofs.Sparse.LastWrites

open Apportion.Sparse.Universe
open Apportion.Sparse.Scatter
open Apportion.Proofs.Outcomes
open Apportion.Proofs.Weights.Checks
open Apportion.Proofs.Weights.ProcessingSteps

variable {β : Type}

def pairsAt (index : Int) (pairs : List (Int × β)) : List (Int × β) :=
  pairs.filter fun pair => decide (pair.1 = index)

/-- The value of the last pair with the index, and `zero` if no pair has it. -/
def lastValue (zero : β) (pairs : List (Int × β)) (index : Int) : β :=
  ((pairsAt index pairs).getLast?.map Prod.snd).getD zero

def lastValues (zero : β) (size : Nat) (pairs : List (Int × β)) : List β :=
  (List.range size).map fun position : Nat => lastValue zero pairs position

/-- The second list holds the pairs of the first in an order that may differ, but not among the
pairs with one index. -/
def Reordered (pairs others : List (Int × β)) : Prop :=
  ∀ index, pairsAt index others = pairsAt index pairs

/-- Why pairs cannot be written out in a universe of `n` positions. The size is looked at first,
then the lengths, and the positions last. -/
inductive Unplaceable (n : Int) (indices : List Int) (values : List β) : SparseError → Prop
  | size (hn : n < 0) : Unplaceable n indices values (.negativeSize n)
  | lengths (hn : 0 ≤ n) (hlength : indices.length ≠ values.length) :
      Unplaceable n indices values
        (.lengthMismatch "indices" indices.length "values" values.length)
  | outside {position : Nat} {index : Int} (hn : 0 ≤ n) (hlength : indices.length = values.length)
      (hfirst : FirstAt (fun index => index < 0 ∨ n ≤ index) indices position index) :
      Unplaceable n indices values (.outOfRange index n.toNat)

/-- The outcomes of writing pairs out: an error for each reason not to, and otherwise the last
values, which stay the same when the pairs are reordered. -/
structure WrittenOut (zero : β) (n : Int) (indices : List Int) (values : List β) : Prop where
  error_iff : ∀ cause, scatter zero n indices values = .error cause ↔
    Unplaceable n indices values cause
  ok_iff : ∀ dense, scatter zero n indices values = .ok dense ↔
    (∀ cause, ¬Unplaceable n indices values cause) ∧
      dense = lastValues zero n.toNat (indices.zip values)
  reordered : ∀ dense others, scatter zero n indices values = .ok dense →
    Reordered (indices.zip values) others →
      scatter zero n (others.map Prod.fst) (others.map Prod.snd) = .ok dense

@[simp]
theorem lastValue_nil (zero : β) (index : Int) : lastValue zero [] index = zero := rfl

theorem lastValue_cons (zero : β) (pair : Int × β) (pairs : List (Int × β)) (index : Int) :
    lastValue zero (pair :: pairs) index =
      lastValue (if pair.1 = index then pair.2 else zero) pairs index := by
  unfold lastValue pairsAt
  by_cases hindex : pair.1 = index
  · rw [List.filter_cons_of_pos (by simpa using hindex), List.getLast?_cons, if_pos hindex]
    cases (pairs.filter fun pair => decide (pair.1 = index)).getLast? <;> rfl
  · rw [List.filter_cons_of_neg (by simpa using hindex), if_neg hindex]

@[simp]
theorem length_lastValues (zero : β) (size : Nat) (pairs : List (Int × β)) :
    (lastValues zero size pairs).length = size := by
  simp [lastValues]

theorem getElem?_lastValues (zero : β) {size position : Nat} (hposition : position < size)
    (pairs : List (Int × β)) :
    (lastValues zero size pairs)[position]? = some (lastValue zero pairs position) := by
  simp [lastValues, hposition]

theorem lastValues_reordered (zero : β) (size : Nat) {pairs others : List (Int × β)}
    (hreordered : Reordered pairs others) :
    lastValues zero size others = lastValues zero size pairs := by
  simp only [lastValues, lastValue, hreordered _]

theorem map_lastValues {γ : Type} (change : β → γ) (zero : β) (size : Nat)
    (pairs : List (Int × β)) :
    (lastValues zero size pairs).map change =
      lastValues (change zero) size (pairs.map (Prod.map id change)) := by
  have hpairsAt : ∀ index, pairsAt index (pairs.map (Prod.map id change)) =
      (pairsAt index pairs).map (Prod.map id change) := fun _ => List.filter_map
  have hlast : ∀ index, lastValue (change zero) (pairs.map (Prod.map id change)) index =
      change (lastValue zero pairs index) := by
    intro index
    rw [lastValue, hpairsAt, List.getLast?_map, lastValue]
    cases (pairsAt index pairs).getLast? <;> rfl
  simp only [lastValues, List.map_map, Function.comp_def, hlast]

theorem Reordered.mem_iff {pairs others : List (Int × β)} (hreordered : Reordered pairs others)
    {pair : Int × β} : pair ∈ others ↔ pair ∈ pairs := by
  have hat : ∀ list : List (Int × β), pair ∈ list ↔ pair ∈ pairsAt pair.1 list := by
    intro list
    simp [pairsAt]
  rw [hat others, hreordered, ← hat pairs]

/-- Each write replaces what the dense vector held at its position, so that the last one stays. -/
theorem getElem?_place {pairs : List (Int × β)} (hpairs : ∀ pair ∈ pairs, 0 ≤ pair.1)
    (dense : List β) (position : Nat) :
    (place dense pairs)[position]? =
      dense[position]?.map fun held => lastValue held pairs position := by
  induction pairs generalizing dense with
  | nil => simp
  | cons pair pairs ih =>
      obtain ⟨hpair, hrest⟩ := List.forall_mem_cons.mp hpairs
      have hindex : pair.1.toNat = position ↔ pair.1 = position := by omega
      rw [place_cons, ih hrest, List.getElem?_set]
      simp only [lastValue_cons, hindex]
      by_cases hsame : pair.1 = position
      · by_cases hinside : position < dense.length <;> simp [hsame, hinside]
      · simp [hsame]

theorem place_replicate {pairs : List (Int × β)} (hpairs : ∀ pair ∈ pairs, 0 ≤ pair.1)
    (zero : β) (size : Nat) :
    place (List.replicate size zero) pairs = lastValues zero size pairs := by
  refine List.ext_getElem? fun position => ?_
  rw [getElem?_place hpairs, List.getElem?_replicate]
  by_cases hposition : position < size
  · rw [if_pos hposition, getElem?_lastValues zero hposition, Option.map_some]
  · simp [lastValues, hposition]

section Outcome

variable {zero : β} {n : Int} {indices : List Int} {values : List β}

theorem not_inUniverse_toNat_iff (hn : 0 ≤ n) {index : Int} :
    (!inUniverse n.toNat index) = true ↔ index < 0 ∨ n ≤ index := by
  rw [Bool.not_eq_true', ← Bool.not_eq_true, inUniverse_iff, Int.toNat_of_nonneg hn]
  omega

theorem forall_not_unplaceable_iff :
    (∀ cause, ¬Unplaceable n indices values cause) ↔
      0 ≤ n ∧ indices.length = values.length ∧ ∀ index ∈ indices, 0 ≤ index ∧ index < n := by
  constructor
  · intro hnone
    have hn : 0 ≤ n := Int.not_lt.mp fun hneg => hnone _ (.size hneg)
    have hlength : indices.length = values.length :=
      Classical.not_not.mp fun hmismatch => hnone _ (.lengths hn hmismatch)
    have hall : indices.find? (!inUniverse n.toNat ·) = none := by
      rw [Option.eq_none_iff_forall_ne_some]
      intro index hfound
      obtain ⟨position, hfirst⟩ := find?_eq_some_iff_firstAt.mp hfound
      simp only [not_inUniverse_toNat_iff hn] at hfirst
      exact hnone _ (.outside hn hlength hfirst)
    refine ⟨hn, hlength, fun index hmem => ?_⟩
    have hinside := mt (not_inUniverse_toNat_iff hn).mpr (List.find?_eq_none.mp hall index hmem)
    omega
  · rintro ⟨hn, hlength, hinside⟩ cause hcause
    cases hcause with
    | size hneg => omega
    | lengths _ hmismatch => exact hmismatch hlength
    | outside _ _ hfirst =>
        have := hinside _ (List.mem_of_getElem? hfirst.at_position)
        have := hfirst.holds
        omega

theorem scatter_eq_lastValues (hplaceable : ∀ cause, ¬Unplaceable n indices values cause) :
    scatter zero n indices values = .ok (lastValues zero n.toNat (indices.zip values)) := by
  obtain ⟨hn, hlength, hinside⟩ := forall_not_unplaceable_iff.mp hplaceable
  rw [scatter_eq_ok hn hlength hinside, place_replicate]
  intro pair hmem
  exact (hinside pair.1 (List.of_mem_zip hmem).1).1

theorem scatter_eq_error {cause : SparseError} (hcause : Unplaceable n indices values cause) :
    scatter zero n indices values = .error cause := by
  cases hcause with
  | size hn => rw [scatter, positionCount, if_pos hn, error_bind]
  | lengths hn hlength =>
      rw [scatter, positionCount, if_neg (Int.not_lt.mpr hn), ok_bind, requireSameLength,
        if_neg hlength, error_bind]
  | outside hn hlength hfirst =>
      simp only [← not_inUniverse_toNat_iff hn] at hfirst
      rw [scatter, positionCount, if_neg (Int.not_lt.mpr hn), ok_bind,
        requireSameLength_eq_ok_iff.mpr hlength, ok_bind,
        find?_eq_some_iff_firstAt.mpr ⟨_, hfirst⟩]

theorem scatter_eq_error_iff {cause : SparseError} :
    scatter zero n indices values = .error cause ↔ Unplaceable n indices values cause := by
  constructor
  · intro herror
    refine Classical.byContradiction fun hnot => ?_
    have hplaceable : ∀ other, ¬Unplaceable n indices values other := by
      intro other hother
      have hsame := Except.error.inj ((scatter_eq_error hother).symm.trans herror)
      exact hnot (hsame ▸ hother)
    rw [scatter_eq_lastValues hplaceable] at herror
    cases herror
  · exact scatter_eq_error

theorem scatter_eq_ok_iff {dense : List β} :
    scatter zero n indices values = .ok dense ↔
      (∀ cause, ¬Unplaceable n indices values cause) ∧
        dense = lastValues zero n.toNat (indices.zip values) := by
  constructor
  · intro hok
    have hplaceable : ∀ cause, ¬Unplaceable n indices values cause := by
      intro cause hcause
      rw [scatter_eq_error hcause] at hok
      cases hok
    rw [scatter_eq_lastValues hplaceable] at hok
    exact ⟨hplaceable, (Except.ok.inj hok).symm⟩
  · rintro ⟨hplaceable, rfl⟩
    exact scatter_eq_lastValues hplaceable

theorem scatter_reordered {dense : List β} {others : List (Int × β)}
    (hok : scatter zero n indices values = .ok dense)
    (hreordered : Reordered (indices.zip values) others) :
    scatter zero n (others.map Prod.fst) (others.map Prod.snd) = .ok dense := by
  obtain ⟨hplaceable, rfl⟩ := scatter_eq_ok_iff.mp hok
  obtain ⟨hn, -, hinside⟩ := forall_not_unplaceable_iff.mp hplaceable
  have hothers : ∀ index ∈ others.map Prod.fst, 0 ≤ index ∧ index < n := by
    intro index hmem
    obtain ⟨pair, hpair, rfl⟩ := List.mem_map.mp hmem
    exact hinside pair.1 (List.of_mem_zip (hreordered.mem_iff.mp hpair)).1
  rw [scatter_eq_lastValues (forall_not_unplaceable_iff.mpr ⟨hn, by simp, hothers⟩),
    ← List.zip_of_prod rfl rfl, lastValues_reordered zero _ hreordered]

end Outcome

/-- A sparse vector is written out with the last value of each position, or refused for the first
reason that there is. -/
theorem scatter_writtenOut (zero : β) (n : Int) (indices : List Int) (values : List β) :
    WrittenOut zero n indices values where
  error_iff _ := scatter_eq_error_iff
  ok_iff _ := scatter_eq_ok_iff
  reordered _ _ hok hreordered := scatter_reordered hok hreordered

/-- Of the positions outside the universe the first one is reported, though the list starts with
pairs that could be written. -/
example : scatter (0 : Int) 3 [2, 0, 2, 3, -1] [7, 5, 9, 1, 1] = .error (.outOfRange 3 3) :=
  rfl

end Apportion.Proofs.Sparse.LastWrites
