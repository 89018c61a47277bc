import Mathlib.Algebra.BigOperators.Ring.List
import Mathlib.Algebra.Order.BigOperators.Group.List
import Mathlib.Tactic.FieldSimp
import Mathlib.Tactic.Linarith
import Apportion.Proofs.Number.ExactArithmetic
import Apportion.Proofs.Weights.CapPasses

/-!
Capping shares, read exactly, fills them up to a common level: a share is its weight times one
factor, or the limit if that is less. Where the positive weights cannot hold all the mass under the
limit, each of them gets the limit and the zero weights divide the rest evenly.
-/

namespace Apportion.Proofs.Weights.WaterFilling

open Apportion.Weights.Normalization
open Apportion.Proofs.Number.ExactArithmetic
open Apportion.Proofs.Weights.CapPasses

def positiveCount (values : List Rat) : Nat :=
  values.countP (0 < ·)

/-- What each zero weight gets when the positive ones cannot hold all the mass. -/
def evenRest (limit : Rat) (weights : List Rat) : Rat :=
  (1 - positiveCount weights * limit) / (weights.length - positiveCount weights)

/-- Every free share is its base share times the factor, and no capped one would be less than the
limit. -/
structure Level (limit factor : Rat) (shares : List (Share Rat)) : Prop where
  one_le : 1 ≤ factor
  value_free : ∀ share ∈ shares, share.capped = false → share.value = factor * share.base
  value_capped : ∀ share ∈ shares, share.capped = true → share.value = limit
  limit_le : ∀ share ∈ shares, share.capped = true → limit ≤ factor * share.base

/-- The shares of positive weights are the limit, and the others divide the rest evenly. -/
structure EvenTail (limit : Rat) (base : List Rat) (shares : List (Share Rat)) : Prop where
  lacking : positiveCount base * limit < 1
  values : shares.map (·.value) = base.map fun b => if 0 < b then limit else evenRest limit base

/-- What every pass keeps: the base shares, the whole mass, and one of the two forms. -/
structure Filling (limit : Rat) (base : List Rat) (shares : List (Share Rat)) : Prop where
  map_base : shares.map (·.base) = base
  sum_value : (shares.map (·.value)).sum = 1
  form : (∃ factor, Level limit factor shares) ∨ EvenTail limit base shares

theorem overflows_iff {limit : Rat} {share : Share Rat} :
    share.overflows limit = true ↔ share.capped = false ∧ limit < share.value := by
  simp only [Share.overflows, Bool.and_eq_true, Bool.not_eq_true', decide_eq_true_eq]

theorem freeMass_eq (limit : Rat) (shares : List (Share Rat)) :
    freeMass limit shares = 1 - limit * shares.countP (·.capped) := rfl

theorem freeBase_eq (shares : List (Share Rat)) :
    freeBase shares = ((shares.filter (!·.capped)).map (·.base)).sum :=
  total_eq_sum _

theorem spreadValue_eq (limit : Rat) (shares : List (Share Rat)) (share : Share Rat) :
    spreadValue limit shares share =
      if share.capped then limit
      else if 0 < freeBase shares then share.base * freeMass limit shares / freeBase shares
      else freeMass limit shares / (freeCount shares : Rat) := rfl

theorem map_value_spread (limit : Rat) (shares : List (Share Rat)) :
    (spread limit shares).map (·.value) = shares.map (spreadValue limit shares) := by
  simp [spread_eq, Function.comp_def]

theorem sum_ite_capped {α : Type} (limit : Rat) (value : Share α → Rat)
    (shares : List (Share α)) :
    (shares.map fun share => if share.capped then limit else value share).sum =
      limit * shares.countP (·.capped) + ((shares.filter (!·.capped)).map value).sum := by
  induction shares with
  | nil => simp
  | cons share shares ih =>
      rw [List.map_cons, List.sum_cons, ih]
      cases hcapped : share.capped
      · simp [hcapped]
        ring
      · simp [hcapped]
        ring

theorem sum_spread {limit : Rat} {shares : List (Share Rat)} (hfree : 0 < freeCount shares) :
    ((spread limit shares).map (·.value)).sum = 1 := by
  rw [map_value_spread, funext (spreadValue_eq limit shares), sum_ite_capped]
  split
  · rename_i hbase
    have hsum : ((shares.filter (!·.capped)).map fun share =>
        share.base * freeMass limit shares / freeBase shares).sum = freeMass limit shares := by
      simp only [mul_div_assoc]
      rw [List.sum_map_mul_right, ← freeBase_eq]
      field_simp
    rw [hsum, freeMass_eq]
    ring
  · have hcount : ((shares.filter (!·.capped)).length : Rat) = freeCount shares := by
      rw [freeCount, List.countP_eq_length_filter]
    have hpositive : (0 : Rat) < freeCount shares := by exact_mod_cast hfree
    rw [List.map_const', List.sum_replicate, nsmul_eq_mul, hcount,
      mul_div_cancel₀ _ hpositive.ne', freeMass_eq]
    ring

/-- What the capped shares leave over lifts the others above their present level. -/
theorem factor_mul_freeBase_lt {limit factor : Rat} {shares : List (Share Rat)}
    (hlevel : Level limit factor shares) (hsum : (shares.map (·.value)).sum = 1)
    (hoverflow : shares.any (·.overflows limit) = true) :
    factor * freeBase (shares.map (·.mark limit)) < freeMass limit (shares.map (·.mark limit)) := by
  have hlower : ((shares.map (·.mark limit)).map fun share =>
      if share.capped then limit else factor * share.base).sum < 1 := by
    rw [← hsum, List.map_map]
    obtain ⟨share, hmem, hover⟩ := List.any_eq_true.mp hoverflow
    apply List.sum_lt_sum
    · intro share hmem
      cases hcapped : share.capped
      · cases hover : share.overflows limit
        · simp [Share.mark, hcapped, hover, hlevel.value_free share hmem hcapped]
        · simpa [Share.mark, hover] using (overflows_iff.mp hover).2.le
      · simp [Share.mark, hcapped, hlevel.value_capped share hmem hcapped]
    · refine ⟨share, hmem, ?_⟩
      simpa [Share.mark, hover] using (overflows_iff.mp hover).2
  rw [sum_ite_capped, List.sum_map_mul_left, ← freeBase_eq] at hlower
  rw [freeMass_eq]
  linarith

theorem limit_le_of_mark {limit factor : Rat} {shares : List (Share Rat)}
    (hlevel : Level limit factor shares) {share : Share Rat} (hmem : share ∈ shares)
    (hcapped : (share.mark limit).capped = true) : limit ≤ factor * share.base := by
  cases hbefore : share.capped
  · have hover : share.overflows limit = true := by
      simpa [Share.mark, hbefore] using hcapped
    rw [← hlevel.value_free share hmem hbefore]
    exact (overflows_iff.mp hover).2.le
  · exact hlevel.limit_le share hmem hbefore

theorem level_spread {limit factor : Rat} {marked : List (Share Rat)}
    (hbase : ∀ share ∈ marked, 0 ≤ share.base) (hone : 1 ≤ factor)
    (hreach : ∀ share ∈ marked, share.capped = true → limit ≤ factor * share.base)
    (hfree : 0 < freeBase marked) (hraise : factor * freeBase marked < freeMass limit marked) :
    Level limit (freeMass limit marked / freeBase marked) (spread limit marked) := by
  have hfactor : factor ≤ freeMass limit marked / freeBase marked :=
    ((lt_div_iff₀ hfree).mpr hraise).le
  refine ⟨hone.trans hfactor, ?_, ?_, ?_⟩
  · intro share hmem hcapped
    obtain ⟨before, -, rfl⟩ := mem_spread.mp hmem
    simp only at hcapped ⊢
    rw [spreadValue_eq, if_neg (by simp [hcapped]), if_pos hfree]
    ring
  · intro share hmem hcapped
    obtain ⟨before, -, rfl⟩ := mem_spread.mp hmem
    simp only at hcapped ⊢
    rw [spreadValue_eq, if_pos hcapped]
  · intro share hmem hcapped
    obtain ⟨before, hbefore, rfl⟩ := mem_spread.mp hmem
    exact (hreach before hbefore hcapped).trans
      (mul_le_mul_of_nonneg_right hfactor (hbase before hbefore))

/-- Where no free share has weight, those that reach the limit at some level have weight. -/
theorem capped_iff_of_not_freeBase {limit factor : Rat} {marked : List (Share Rat)}
    (hlimit : 0 < limit) (hbase : ∀ share ∈ marked, 0 ≤ share.base) (hone : 1 ≤ factor)
    (hreach : ∀ share ∈ marked, share.capped = true → limit ≤ factor * share.base)
    (hfree : ¬0 < freeBase marked) {share : Share Rat} (hmem : share ∈ marked) :
    share.capped = true ↔ 0 < share.base := by
  constructor
  · intro hcapped
    have hpositive : 0 < factor * share.base := hlimit.trans_le (hreach share hmem hcapped)
    exact pos_of_mul_pos_right hpositive (zero_le_one.trans hone)
  · intro hpositive
    by_contra hcapped
    apply hfree
    rw [freeBase_eq]
    refine hpositive.trans_le (List.single_le_sum ?_ _ ?_)
    · intro b hb
      obtain ⟨other, hother, rfl⟩ := List.mem_map.mp hb
      exact hbase other (List.mem_of_mem_filter hother)
    · refine List.mem_map.mpr ⟨share, List.mem_filter.mpr ⟨hmem, ?_⟩, rfl⟩
      simpa using hcapped

theorem evenTail_spread {limit : Rat} {marked : List (Share Rat)}
    (hcapped : ∀ share ∈ marked, share.capped = true ↔ 0 < share.base)
    (hmass : 0 < freeMass limit marked) (hfree : ¬0 < freeBase marked) :
    EvenTail limit (marked.map (·.base)) (spread limit marked) := by
  have hcount : marked.countP (·.capped) = positiveCount (marked.map (·.base)) := by
    rw [positiveCount, List.countP_map]
    refine List.countP_congr fun share hmem => ?_
    simpa using hcapped share hmem
  have hrest : freeMass limit marked / (freeCount marked : Rat) =
      evenRest limit (marked.map (·.base)) := by
    have hle : marked.countP (·.capped) ≤ marked.length := List.countP_le_length
    rw [freeMass_eq, evenRest, ← length_sub_countP_capped marked, Nat.cast_sub hle,
      List.length_map, hcount, mul_comm]
  refine ⟨?_, ?_⟩
  · rw [freeMass_eq, hcount] at hmass
    linarith
  · rw [map_value_spread, List.map_map]
    refine List.map_congr_left fun share hmem => ?_
    rw [spreadValue_eq, if_neg hfree, hrest, Function.comp_apply]
    simp only [hcapped share hmem]

/-- The rest that falls on a zero weight stays below the limit. -/
theorem evenRest_le {limit : Rat} {base : List Rat} (hroom : 1 < limit * base.length)
    (hlacking : positiveCount base * limit < 1) : evenRest limit base ≤ limit := by
  have hle : positiveCount base ≤ base.length := List.countP_le_length
  have hlt : (positiveCount base : Rat) < base.length := by
    refine lt_of_le_of_ne (by exact_mod_cast hle) fun heq => ?_
    rw [heq] at hlacking
    linarith
  rw [evenRest, div_le_iff₀ (by linarith)]
  linarith

theorem not_overflows_of_evenTail {limit : Rat} {base : List Rat} {shares : List (Share Rat)}
    (hroom : 1 < limit * base.length) (htail : EvenTail limit base shares) :
    ¬shares.any (·.overflows limit) = true := by
  intro hoverflow
  obtain ⟨share, hmem, hover⟩ := List.any_eq_true.mp hoverflow
  have habove := (overflows_iff.mp hover).2
  have hvalue : share.value ∈ shares.map (·.value) := List.mem_map_of_mem hmem
  rw [htail.values] at hvalue
  obtain ⟨b, -, hb⟩ := List.mem_map.mp hvalue
  have hrest := evenRest_le hroom htail.lacking
  split at hb <;> linarith

theorem freeBase_nonneg {shares : List (Share Rat)}
    (hbase : ∀ share ∈ shares, 0 ≤ share.base) : 0 ≤ freeBase shares := by
  rw [freeBase_eq]
  refine List.sum_nonneg fun b hb => ?_
  obtain ⟨share, hshare, rfl⟩ := List.mem_map.mp hb
  exact hbase share (List.mem_of_mem_filter hshare)

theorem freeCount_pos {limit : Rat} {shares : List (Share Rat)}
    (hroom : 1 < limit * shares.length) (hmass : 0 < freeMass limit shares) :
    0 < freeCount shares := by
  by_contra hnone
  have hsub := length_sub_countP_capped shares
  have hle : shares.countP (·.capped) ≤ shares.length := List.countP_le_length
  have hall : shares.countP (·.capped) = shares.length := by omega
  rw [freeMass_eq, hall] at hmass
  linarith

theorem filling_pass {limit : Rat} {base : List Rat} {shares : List (Share Rat)}
    (hlimit : 0 < limit) (hbase : ∀ b ∈ base, 0 ≤ b) (hroom : 1 < limit * base.length)
    (hfilling : Filling limit base shares) (hoverflow : shares.any (·.overflows limit) = true) :
    Filling limit base (capPass limit shares) := by
  obtain ⟨factor, hlevel⟩ | htail := hfilling.form
  · have hraise := factor_mul_freeBase_lt hlevel hfilling.sum_value hoverflow
    have hreach : ∀ share ∈ shares.map (·.mark limit), share.capped = true →
        limit ≤ factor * share.base := by
      intro share hmem hcapped
      obtain ⟨before, hbefore, rfl⟩ := List.mem_map.mp hmem
      have hlimitLe := limit_le_of_mark hlevel hbefore hcapped
      exact hlimitLe
    have hmarked : (shares.map (·.mark limit)).map (·.base) = base := by
      rw [← hfilling.map_base, List.map_map]
      rfl
    have hpass : (capPass limit shares).map (·.base) = base := by
      rw [map_base_capPass, hfilling.map_base]
    unfold capPass at hpass ⊢
    generalize shares.map (·.mark limit) = marked at *
    have hnonneg : ∀ share ∈ marked, 0 ≤ share.base := by
      intro share hmem
      exact hbase _ (hmarked ▸ List.mem_map_of_mem hmem)
    have hmass : 0 < freeMass limit marked :=
      (mul_nonneg (zero_le_one.trans hlevel.one_le) (freeBase_nonneg hnonneg)).trans_lt hraise
    have hcount : 0 < freeCount marked := by
      refine freeCount_pos ?_ hmass
      rw [← hmarked, List.length_map] at hroom
      exact hroom
    refine ⟨hpass, sum_spread hcount, ?_⟩
    by_cases hfree : 0 < freeBase marked
    · exact .inl ⟨_, level_spread hnonneg hlevel.one_le hreach hfree hraise⟩
    · refine .inr (hmarked ▸ evenTail_spread ?_ hmass hfree)
      intro share hmem
      exact capped_iff_of_not_freeBase hlimit hnonneg hlevel.one_le hreach hfree hmem
  · exact absurd hoverflow (not_overflows_of_evenTail hroom htail)

/-- What the limit makes of base shares that add up to one. -/
structure Limited (limit : Rat) (base shares : List Rat) : Prop where
  sum : shares.sum = 1
  level : 1 ≤ positiveCount base * limit →
    ∃ factor, 1 ≤ factor ∧ shares = base.map fun b => min limit (factor * b)
  tail : positiveCount base * limit < 1 →
    shares = base.map fun b => if 0 < b then limit else evenRest limit base

theorem sum_min_le (limit factor : Rat) {base : List Rat}
    (hbase : ∀ b ∈ base, 0 ≤ b) :
    (base.map fun b => min limit (factor * b)).sum ≤ positiveCount base * limit := by
  induction base with
  | nil => simp [positiveCount]
  | cons b base ih =>
      have htail := ih fun c hc => hbase c (List.mem_cons_of_mem _ hc)
      have hnonneg := hbase b List.mem_cons_self
      rw [List.map_cons, List.sum_cons]
      unfold positiveCount at htail ⊢
      rw [List.countP_cons]
      by_cases hb : 0 < b
      · have hmin := min_le_left limit (factor * b)
        simp only [hb, decide_true, if_true]
        push_cast
        linarith
      · have hzero : b = 0 := le_antisymm (not_lt.mp hb) hnonneg
        simp only [hzero, mul_zero, lt_irrefl, decide_false, Bool.false_eq_true, if_false]
        have hmin := min_le_right limit (0 : Rat)
        push_cast
        linarith

theorem Limited.of_level {limit factor : Rat} {base shares : List Rat}
    (hbase : ∀ b ∈ base, 0 ≤ b) (hone : 1 ≤ factor) (hsum : shares.sum = 1)
    (hshares : shares = base.map fun b => min limit (factor * b)) : Limited limit base shares := by
  refine ⟨hsum, fun _ => ⟨factor, hone, hshares⟩, fun hlacking => ?_⟩
  have hle := sum_min_le limit factor hbase
  rw [← hshares, hsum] at hle
  exact absurd hlacking (not_lt.mpr hle)

theorem limited_of_filling {limit : Rat} {base : List Rat} {shares : List (Share Rat)}
    (hbase : ∀ b ∈ base, 0 ≤ b) (hfilling : Filling limit base shares)
    (hend : shares.any (·.overflows limit) = false) :
    Limited limit base (shares.map (·.value)) := by
  obtain ⟨factor, hlevel⟩ | htail := hfilling.form
  · refine Limited.of_level hbase hlevel.one_le hfilling.sum_value ?_
    rw [← hfilling.map_base, List.map_map]
    refine List.map_congr_left fun share hmem => ?_
    cases hcapped : share.capped
    · have hover : ¬limit < share.value := by
        intro habove
        exact (List.any_eq_false.mp hend) share hmem (overflows_iff.mpr ⟨hcapped, habove⟩)
      rw [Function.comp_apply, ← hlevel.value_free share hmem hcapped,
        min_eq_right (not_lt.mp hover)]
    · rw [Function.comp_apply, hlevel.value_capped share hmem hcapped,
        min_eq_left (hlevel.limit_le share hmem hcapped)]
  · refine ⟨hfilling.sum_value, fun henough => ?_, fun _ => htail.values⟩
    exact absurd htail.lacking (not_lt.mpr henough)

theorem limited_applyLimit {limit : Rat} {base : List Rat} (hlimit : 0 < limit)
    (hbase : ∀ b ∈ base, 0 ≤ b) (hsum : base.sum = 1) (hroom : 1 < limit * base.length) :
    Limited limit base (applyLimit limit base) := by
  unfold applyLimit
  split
  · rename_i hall
    refine Limited.of_level hbase le_rfl hsum ?_
    conv_lhs => rw [← List.map_id base]
    refine List.map_congr_left fun b hb => ?_
    have hle : b ≤ limit := of_decide_eq_true (List.all_eq_true.mp hall b hb)
    rw [one_mul, min_eq_right hle, id]
  · set start : List (Share Rat) := base.map fun b => ⟨b, b, false⟩ with hstart
    have hfirst : Filling limit base start := by
      refine ⟨?_, ?_, .inl ⟨1, le_rfl, ?_, ?_, ?_⟩⟩
      · simp [hstart, Function.comp_def]
      · simpa [hstart, Function.comp_def] using hsum
      · intro share hmem _
        obtain ⟨b, -, rfl⟩ := List.mem_map.mp hmem
        exact (one_mul b).symm
      · intro share hmem hcapped
        obtain ⟨b, -, rfl⟩ := List.mem_map.mp hmem
        exact absurd hcapped Bool.false_ne_true
      · intro share hmem hcapped
        obtain ⟨b, -, rfl⟩ := List.mem_map.mp hmem
        exact absurd hcapped Bool.false_ne_true
    have hcount : freeCount start ≤ base.length := by
      rw [← List.length_map (fun b : Rat => (⟨b, b, false⟩ : Share Rat))]
      exact List.countP_le_length
    refine limited_of_filling hbase ?_ (any_overflows_capPasses hcount)
    refine capPasses_keeps (fun shares hfilling hoverflow => ?_) base.length hfirst
    exact filling_pass hlimit hbase hroom hfilling hoverflow

end Apportion.Proofs.Weights.WaterFilling
