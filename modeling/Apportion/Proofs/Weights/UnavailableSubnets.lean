import Apportion.Proofs.Weights.ProcessingSteps
import Apportion.Weights.Dense

namespace Apportion.Proofs.Weights.UnavailableSubnets

open Apportion.Number.Arithmetic
open Apportion.Sparse.Universe
open Apportion.Sparse.Availability
open Apportion.Weights.Refusal
open Apportion.Weights.Normalization
open Apportion.Weights.Dense
open Apportion.Proofs.Outcomes
open Apportion.Proofs.Weights.Checks
open Apportion.Proofs.Weights.ProcessingSteps

/-- The position is one of the subnets, and in a universe of `n` positions. -/
def Reachable (n : Int) (subnets : List Int) (uid : Int) : Prop :=
  uid ∈ subnets ∧ 0 ≤ uid ∧ uid < n

instance (n : Int) (subnets : List Int) : DecidablePred (Reachable n subnets) :=
  fun uid => inferInstanceAs (Decidable (uid ∈ subnets ∧ 0 ≤ uid ∧ uid < n))

section Pairs

variable {β : Type}

def reachablePairs (n : Int) (subnets : List Int) (pairs : List (Int × β)) : List (Int × β) :=
  pairs.filter fun pair => decide (Reachable n subnets pair.1)

/-- The second list is the first with further entries put in anywhere, all of the given kind. -/
inductive Padded (extra : β → Prop) : List β → List β → Prop where
  | nil : Padded extra [] []
  | keep (entry : β) {entries padded : List β} (hpadded : Padded extra entries padded) :
      Padded extra (entry :: entries) (entry :: padded)
  | insert {entry : β} (hextra : extra entry) {entries padded : List β}
      (hpadded : Padded extra entries padded) : Padded extra entries (entry :: padded)

theorem Padded.filter_eq {extra : β → Prop} {entries padded : List β}
    (hpadded : Padded extra entries padded) {stays : β → Bool}
    (hextra : ∀ entry, extra entry → stays entry = false) :
    padded.filter stays = entries.filter stays := by
  induction hpadded with
  | nil => rfl
  | keep entry _ ih => rw [List.filter_cons, List.filter_cons, ih]
  | insert hentry _ ih => rw [List.filter_cons, hextra _ hentry, if_neg Bool.false_ne_true, ih]

theorem reachablePairs_padded {n : Int} {subnets : List Int} {pairs padded : List (Int × β)}
    (hpadded : Padded (fun pair => ¬Reachable n subnets pair.1) pairs padded) :
    reachablePairs n subnets padded = reachablePairs n subnets pairs :=
  hpadded.filter_eq fun _ hunreachable => decide_eq_false hunreachable

theorem reachablePairs_eq_self {n : Int} {subnets uids : List Int} {values : List β}
    (hall : ∀ uid ∈ uids, Reachable n subnets uid) :
    reachablePairs n subnets (uids.zip values) = uids.zip values := by
  refine List.filter_eq_self.mpr fun pair hmem => decide_eq_true ?_
  exact hall pair.1 (List.of_mem_zip hmem).1

theorem isAvailable_eq_decide {n : Int} (hn : 0 ≤ n) (subnets : List Int) (uid : Int) :
    isAvailable n.toNat subnets uid = decide (Reachable n subnets uid) := by
  rw [Bool.eq_iff_iff, isAvailable, Bool.and_eq_true, inUniverse_iff, List.contains_iff_mem,
    Int.toNat_of_nonneg hn, decide_eq_true_iff, Reachable, and_comm]

theorem foldl_add (size : Nat) (subnets : List Int) (pairs : List (Int × β))
    (restricted : Restricted β) :
    pairs.foldl (Restricted.add size subnets) restricted = {
      uids := restricted.uids ++
        (pairs.filter fun pair => isAvailable size subnets pair.1).map Prod.fst
      values := restricted.values ++
        (pairs.filter fun pair => isAvailable size subnets pair.1).map Prod.snd
      dropped := restricted.dropped ++
        (pairs.filter fun pair => !isAvailable size subnets pair.1).map Prod.fst
      warnings := restricted.warnings ++
        (pairs.filter fun pair => !isAvailable size subnets pair.1).map fun pair =>
          ⟨pair.1, size⟩ } := by
  induction pairs generalizing restricted with
  | nil => simp
  | cons pair pairs ih =>
      rw [List.foldl_cons, ih, Restricted.add]
      cases havailable : isAvailable size subnets pair.1 with
      | true => simp [havailable]
      | false => simp [havailable]

theorem restrict_eq_ok {n : Int} {uids : List Int} {values : List β} (hn : 0 ≤ n)
    (hlength : uids.length = values.length) (subnets : List Int) :
    restrict n uids values subnets = .ok {
      uids := (reachablePairs n subnets (uids.zip values)).map Prod.fst
      values := (reachablePairs n subnets (uids.zip values)).map Prod.snd
      dropped := ((uids.zip values).filter fun pair =>
        !decide (Reachable n subnets pair.1)).map Prod.fst
      warnings := ((uids.zip values).filter fun pair =>
        !decide (Reachable n subnets pair.1)).map fun pair => ⟨pair.1, n.toNat⟩ } := by
  have hsize : positionCount n = .ok n.toNat :=
    positionCount_eq_ok_iff.mpr (Int.toNat_of_nonneg hn).symm
  have hsame : requireSameLength "uids" uids "values" values = .ok () :=
    requireSameLength_eq_ok_iff.mpr hlength
  rw [restrict, hsize, hsame]
  simp only [ok_bind, pure_eq_ok, foldl_add, isAvailable_eq_decide hn, reachablePairs,
    Restricted.empty, List.nil_append]

end Pairs

section Vectors

variable {α : Type} [Scalar α]

/-- The dense vector of root weights, without the warnings. -/
def rootVector (n : Int) (uids : List Int) (weights : List α) (subnets : List Int) :
    Except (WeightError α) (List α) :=
  (denseRootWeights n uids weights subnets).map Prod.fst

theorem normalize_ne_sparse (weights : List α) (cause : SparseError) :
    Weights.Normalization.normalize weights ≠ .error (.sparse cause) := by
  intro herror
  rw [Weights.Normalization.normalize, check_bind_eq_error_iff,
    requireUsable_eq_error_iff] at herror
  rcases herror with hfault | ⟨-, hshares⟩
  · obtain ⟨entry, -, hreason⟩ := List.exists_of_findSome?_eq_some hfault
    unfold weightFault at hreason
    split at hreason
    · cases hreason
    · split at hreason <;> cases hreason
  · cases hshares

theorem denseWeights_ne_sparse {n : Int} {uids : List Int} {weights : List α} (hn : 0 ≤ n)
    (hlength : uids.length = weights.length) (hinside : ∀ uid ∈ uids, 0 ≤ uid ∧ uid < n)
    (cause : SparseError) : denseWeights n uids weights ≠ .error (.sparse cause) := by
  rw [denseWeights, scatter_eq_ok hn hlength hinside]
  exact normalize_ne_sparse _ cause

theorem rootVector_eq {n : Int} {uids : List Int} {weights : List α} (hn : 0 ≤ n)
    (hlength : uids.length = weights.length) (subnets : List Int) :
    rootVector n uids weights subnets =
      denseWeights n ((reachablePairs n subnets (uids.zip weights)).map Prod.fst)
        ((reachablePairs n subnets (uids.zip weights)).map Prod.snd) := by
  rw [rootVector, denseRootWeights, restrict_eq_ok hn hlength, mapError_ok, ok_bind]
  cases denseWeights n ((reachablePairs n subnets (uids.zip weights)).map Prod.fst)
    ((reachablePairs n subnets (uids.zip weights)).map Prod.snd) with
  | error cause => rfl
  | ok dense => rfl

theorem rootVector_ne_sparse {n : Int} {uids : List Int} {weights : List α} (hn : 0 ≤ n)
    (hlength : uids.length = weights.length) (subnets : List Int) (cause : SparseError) :
    rootVector n uids weights subnets ≠ .error (.sparse cause) := by
  rw [rootVector_eq hn hlength]
  refine denseWeights_ne_sparse hn (by simp) ?_ cause
  intro uid hmem
  obtain ⟨pair, hpair, rfl⟩ := List.mem_map.mp hmem
  exact (of_decide_eq_true (List.mem_filter.mp hpair).2).2

theorem denseRootWeights_congr {n : Int} {uids : List Int} {weights : List α} (hn : 0 ≤ n)
    (hlength : uids.length = weights.length) {subnets others : List Int}
    (hsame : ∀ uid, uid ∈ others ↔ uid ∈ subnets) :
    denseRootWeights n uids weights others = denseRootWeights n uids weights subnets := by
  have hreachable : ∀ uid, Reachable n others uid ↔ Reachable n subnets uid := by
    intro uid
    rw [Reachable, Reachable, hsame]
  rw [denseRootWeights, denseRootWeights, restrict_eq_ok hn hlength, restrict_eq_ok hn hlength]
  simp only [reachablePairs, hreachable]

/-- Root weights give the dense vector of the reachable pairs alone, so that no other pair can
change the vector or the error, and none is reported as out of range. Of the subnets only matters
which they are. -/
theorem rootVector_reachable {n : Int} {uids : List Int} {weights : List α} (hn : 0 ≤ n)
    (hlength : uids.length = weights.length) (subnets : List Int) :
    rootVector n uids weights subnets =
        denseWeights n ((reachablePairs n subnets (uids.zip weights)).map Prod.fst)
          ((reachablePairs n subnets (uids.zip weights)).map Prod.snd) ∧
      (∀ index size,
        rootVector n uids weights subnets ≠ .error (.sparse (.outOfRange index size))) ∧
      (∀ (others : List Int) (values : List α), others.length = values.length →
        Padded (fun pair => ¬Reachable n subnets pair.1) (uids.zip weights) (others.zip values) →
          rootVector n others values subnets = rootVector n uids weights subnets) ∧
      (∀ others : List Int, (∀ uid, uid ∈ others ↔ uid ∈ subnets) →
        denseRootWeights n uids weights others = denseRootWeights n uids weights subnets) ∧
      ((∀ uid ∈ uids, Reachable n subnets uid) →
        rootVector n uids weights subnets = denseWeights n uids weights) := by
  refine ⟨rootVector_eq hn hlength subnets, ?_, ?_, ?_, ?_⟩
  · intro index size
    exact rootVector_ne_sparse hn hlength subnets _
  · intro others values hothers hpadded
    rw [rootVector_eq hn hothers, rootVector_eq hn hlength, reachablePairs_padded hpadded]
  · intro others hsame
    exact denseRootWeights_congr hn hlength hsame
  · intro hall
    rw [rootVector_eq hn hlength, reachablePairs_eq_self hall,
      List.map_fst_zip (Nat.le_of_eq hlength), List.map_snd_zip (Nat.le_of_eq hlength.symm)]

end Vectors

theorem rootVector_reachable_padded :
    rootVector 4 [9, 1, 0, 2, -1, 1] [0 / 0, 7, 1 / 0, 50, -3, 50] [2, 1, 1] =
        rootVector 4 [1, 2, 1] [(7 : Float), 50, 50] [1, 2] ∧
      rootVector 4 [1, 2, 1] [(7 : Float), 50, 50] [1, 2] =
        denseWeights 4 [1, 2, 1] [(7 : Float), 50, 50] := by
  have hpadded : Padded (fun pair : Int × Float => ¬Reachable 4 [2, 1, 1] pair.1)
      [(1, 7), (2, 50), (1, 50)] [(9, 0 / 0), (1, 7), (0, 1 / 0), (2, 50), (-1, -3), (1, 50)] := by
    refine .insert (by decide) (.keep _ (.insert (by decide) (.keep _ (.insert ?_ (.keep _ .nil)))))
    decide
  have hn : (0 : Int) ≤ 4 := by decide
  have hlength : ([1, 2, 1] : List Int).length = [(7 : Float), 50, 50].length := rfl
  obtain ⟨-, -, hinsert, -, -⟩ := rootVector_reachable hn hlength [2, 1, 1]
  obtain ⟨-, -, -, hsubnets, hall⟩ := rootVector_reachable hn hlength [1, 2]
  have hsame := hsubnets [2, 1, 1] fun uid => by simp [or_comm]
  constructor
  · refine (hinsert [9, 1, 0, 2, -1, 1] [0 / 0, 7, 1 / 0, 50, -3, 50] rfl hpadded).trans ?_
    exact congrArg (Except.map Prod.fst) hsame
  · exact hall (by decide)

end Apportion.Proofs.Weights.UnavailableSubnets
