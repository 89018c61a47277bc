import Apportion.Proofs.Weights.UnavailableSubnets

namespace Apportion.Proofs.Sparse.AvailableParts

open Apportion.Sparse.Availability
open Apportion.Proofs.Weights.UnavailableSubnets

/-- The third list is put together from the first two, each of them in its order. -/
inductive Interleaved {β : Type} : List β → List β → List β → Prop where
  | nil : Interleaved [] [] []
  | left (entry : β) {lefts rights all : List β} (hrest : Interleaved lefts rights all) :
      Interleaved (entry :: lefts) rights (entry :: all)
  | right (entry : β) {lefts rights all : List β} (hrest : Interleaved lefts rights all) :
      Interleaved lefts (entry :: rights) (entry :: all)

/-- A sparse vector split into the pairs on available positions of a universe of `n` and the other
positions, with one warning for each of those. -/
structure Parted {β : Type} (n : Int) (available uids : List Int) (values : List β)
    (restricted : Restricted β) : Prop where
  keptUids : restricted.uids = (reachablePairs n available (uids.zip values)).map Prod.fst
  keptValues : restricted.values = (reachablePairs n available (uids.zip values)).map Prod.snd
  dropped : restricted.dropped = uids.filter fun uid => !decide (Reachable n available uid)
  /-- There is no other way to part the pairs in their order. -/
  only : ∀ kept left, Interleaved kept left (uids.zip values) →
    (∀ pair ∈ kept, Reachable n available pair.1) →
      (∀ pair ∈ left, ¬Reachable n available pair.1) →
        kept = restricted.uids.zip restricted.values ∧ left.map Prod.fst = restricted.dropped
  warned : restricted.warnings = restricted.dropped.map fun uid => ⟨uid, n.toNat⟩
  named : restricted.warnings.map Warning.message =
    restricted.dropped.map fun uid => s!"subnet unavailable: dropping weight for uid {uid}"
  length : restricted.uids.length + restricted.dropped.length = uids.length
  paired : restricted.uids.length = restricted.values.length
  interleaved : Interleaved restricted.uids restricted.dropped uids
  again : restrict n restricted.uids restricted.values available =
    .ok { restricted with dropped := [], warnings := [] }

section Interleaving

variable {β γ : Type} {lefts rights all : List β}

theorem Interleaved.length_add (hinterleaved : Interleaved lefts rights all) :
    lefts.length + rights.length = all.length := by
  induction hinterleaved with
  | nil => rfl
  | left entry _ ih =>
      rw [List.length_cons, List.length_cons, ← ih]
      omega
  | right entry _ ih =>
      rw [List.length_cons, List.length_cons, ← ih]
      omega

theorem Interleaved.map (change : β → γ) (hinterleaved : Interleaved lefts rights all) :
    Interleaved (lefts.map change) (rights.map change) (all.map change) := by
  induction hinterleaved with
  | nil => exact .nil
  | left entry _ ih => exact .left (change entry) ih
  | right entry _ ih => exact .right (change entry) ih

theorem interleaved_filter (stays : β → Bool) (entries : List β) :
    Interleaved (entries.filter stays) (entries.filter (!stays ·)) entries := by
  induction entries with
  | nil => exact .nil
  | cons entry entries ih =>
      cases hstays : stays entry with
      | true =>
          rw [List.filter_cons_of_pos hstays, List.filter_cons_of_neg (by simp [hstays])]
          exact .left entry ih
      | false =>
          rw [List.filter_cons_of_neg (by simp [hstays]),
            List.filter_cons_of_pos (by simp [hstays])]
          exact .right entry ih

theorem Interleaved.filter_eq {stays : β → Bool} (hinterleaved : Interleaved lefts rights all)
    (hlefts : ∀ entry ∈ lefts, stays entry = true)
    (hrights : ∀ entry ∈ rights, stays entry = false) :
    all.filter stays = lefts ∧ all.filter (!stays ·) = rights := by
  induction hinterleaved with
  | nil => exact ⟨rfl, rfl⟩
  | left entry _ ih =>
      obtain ⟨hentry, hothers⟩ := List.forall_mem_cons.mp hlefts
      obtain ⟨hleft, hright⟩ := ih hothers hrights
      rw [List.filter_cons_of_pos hentry, List.filter_cons_of_neg (by simp [hentry]), hleft]
      exact ⟨rfl, hright⟩
  | right entry _ ih =>
      obtain ⟨hentry, hothers⟩ := List.forall_mem_cons.mp hrights
      obtain ⟨hleft, hright⟩ := ih hlefts hothers
      rw [List.filter_cons_of_neg (by simp [hentry]), List.filter_cons_of_pos (by simp [hentry]),
        hright]
      exact ⟨hleft, rfl⟩

end Interleaving

section Restricting

variable {β : Type} {n : Int} {available uids : List Int} {values : List β}

theorem reachablePairs_reachablePairs (n : Int) (available : List Int) (pairs : List (Int × β)) :
    reachablePairs n available (reachablePairs n available pairs) =
      reachablePairs n available pairs := by
  simp [reachablePairs]

theorem map_fst_filter_not_reachable (hlength : uids.length = values.length) :
    ((uids.zip values).filter fun pair => !decide (Reachable n available pair.1)).map Prod.fst =
      uids.filter fun uid => !decide (Reachable n available uid) := by
  calc
    _ = ((uids.zip values).map Prod.fst).filter fun uid => !decide (Reachable n available uid) :=
      List.filter_map.symm
    _ = _ := by rw [List.map_fst_zip (Nat.le_of_eq hlength)]

theorem interleaved_reachable (n : Int) (available : List Int)
    (hlength : uids.length = values.length) :
    Interleaved ((reachablePairs n available (uids.zip values)).map Prod.fst)
      (uids.filter fun uid => !decide (Reachable n available uid)) uids := by
  have hpairs := (interleaved_filter (fun pair : Int × β => decide (Reachable n available pair.1))
    (uids.zip values)).map Prod.fst
  rwa [map_fst_filter_not_reachable hlength, List.map_fst_zip (Nat.le_of_eq hlength)] at hpairs

theorem restrict_reachablePairs (hn : 0 ≤ n) (pairs : List (Int × β)) :
    restrict n ((reachablePairs n available pairs).map Prod.fst)
        ((reachablePairs n available pairs).map Prod.snd) available =
      .ok ⟨(reachablePairs n available pairs).map Prod.fst,
        (reachablePairs n available pairs).map Prod.snd, [], []⟩ := by
  have hnone : (reachablePairs n available pairs).filter
      (fun pair => !decide (Reachable n available pair.1)) = [] := by
    rw [List.filter_eq_nil_iff]
    intro pair hmem
    simpa using (List.mem_filter.mp hmem).2
  rw [restrict_eq_ok hn (by simp), ← List.zip_of_prod rfl rfl, reachablePairs_reachablePairs, hnone]
  rfl

theorem map_warning_filter (hlength : uids.length = values.length) :
    (((uids.zip values).filter fun pair => !decide (Reachable n available pair.1)).map fun pair =>
        (⟨pair.1, n.toNat⟩ : Warning)) =
      (uids.filter fun uid => !decide (Reachable n available uid)).map fun uid =>
        ⟨uid, n.toNat⟩ := by
  rw [← map_fst_filter_not_reachable hlength, List.map_map]
  rfl

/-- Every sparse vector is split exactly by what is available, in the order of its pairs. -/
theorem restrict_parted (hn : 0 ≤ n) (hlength : uids.length = values.length)
    (available : List Int) :
    ∃ restricted, restrict n uids values available = .ok restricted ∧
      Parted n available uids values restricted := by
  have hinterleaved := interleaved_reachable n available hlength
  refine ⟨_, restrict_eq_ok hn hlength available, ?_⟩
  rw [map_fst_filter_not_reachable hlength, map_warning_filter hlength]
  constructor
  case keptUids => rfl
  case keptValues => rfl
  case dropped => rfl
  case only =>
    intro kept left hparts hkept hleft
    obtain ⟨rfl, rfl⟩ := hparts.filter_eq (fun pair hmem => decide_eq_true (hkept pair hmem))
      (fun pair hmem => decide_eq_false (hleft pair hmem))
    exact ⟨List.zip_of_prod rfl rfl, map_fst_filter_not_reachable hlength⟩
  case warned => rfl
  case named =>
    rw [List.map_map]
    rfl
  case length => exact hinterleaved.length_add
  case paired => rw [List.length_map, List.length_map]
  case interleaved => exact hinterleaved
  case again => exact restrict_reachablePairs hn _

end Restricting

/-- Two positions outside the universe are dropped though they are listed as available, and one of
the others because it is not. -/
theorem restrict_parted_repeated :
    restrict 4 [2, 5, -1, 2, 0, 3] [10, 20, 30, 40, 50, 60] [5, 2, -1, 0, 2] =
        .ok (⟨[2, 2, 0], [10, 40, 50], [5, -1, 3], [⟨5, 4⟩, ⟨-1, 4⟩, ⟨3, 4⟩]⟩ :
          Restricted Int) ∧
      Parted 4 [5, 2, -1, 0, 2] [2, 5, -1, 2, 0, 3] [10, 20, 30, 40, 50, 60]
        (⟨[2, 2, 0], [10, 40, 50], [5, -1, 3], [⟨5, 4⟩, ⟨-1, 4⟩, ⟨3, 4⟩]⟩ :
          Restricted Int) := by
  have hrestrict : restrict 4 [2, 5, -1, 2, 0, 3] [10, 20, 30, 40, 50, 60] [5, 2, -1, 0, 2] =
      .ok (⟨[2, 2, 0], [10, 40, 50], [5, -1, 3], [⟨5, 4⟩, ⟨-1, 4⟩, ⟨3, 4⟩]⟩ : Restricted Int) := by
    rfl
  have hn : (0 : Int) ≤ 4 := by decide
  have hlength : ([2, 5, -1, 2, 0, 3] : List Int).length =
      ([10, 20, 30, 40, 50, 60] : List Int).length := rfl
  obtain ⟨restricted, hresult, hparted⟩ := restrict_parted hn hlength [5, 2, -1, 0, 2]
  obtain rfl := Except.ok.inj (hrestrict.symm.trans hresult)
  exact ⟨hrestrict, hparted⟩

end Apportion.Proofs.Sparse.AvailableParts
