import Mathlib.Algebra.BigOperators.Group.List.Basic
import Mathlib.Algebra.Order.Field.Basic
import Mathlib.Data.List.Perm.Subperm
import Mathlib.Tactic.Linarith

/-!
# Noisy-or

Independent reasons combine to `1 - (1 - w₁) * ... * (1 - wₙ)`.  `doubt` is what the
reasons leave over of an initial doubt.  It never becomes negative and
never grows (`doubt_nonneg`, `doubt_le`), and more or stronger reasons leave less of it
(`doubt_anti`).
-/

namespace AttributionChain.NoisyOr

section Fields

variable {K : Type} [Field K]

/-- What is left of an initial doubt after a list of weighted reasons. -/
def doubt (start : K) (weights : List K) : K :=
  weights.foldl (fun rest weight => rest * (1 - weight)) start

@[simp] theorem doubt_cons (start weight : K) (weights : List K) :
    doubt start (weight :: weights) = doubt (start * (1 - weight)) weights := rfl

theorem doubt_eq_mul (start : K) (weights : List K) :
    doubt start weights = start * (weights.map (1 - ·)).prod := by
  induction weights generalizing start with
  | nil => simp [doubt]
  | cons weight weights ih => rw [doubt_cons, ih, List.map_cons, List.prod_cons, mul_assoc]

theorem doubt_perm {weights others : List K} (h : weights.Perm others) (start : K) :
    doubt start weights = doubt start others := by
  rw [doubt_eq_mul, doubt_eq_mul, (h.map _).prod_eq]

theorem doubt_append (start : K) (front back : List K) :
    doubt start (front ++ back) = doubt start front * (back.map (1 - ·)).prod := by
  rw [doubt_eq_mul, doubt_eq_mul, List.map_append, List.prod_append, mul_assoc]

/-- The reasons of a kind and the others. -/
theorem doubt_filter {α : Type} (start : K) (weight : α → K) (kind : α → Bool) (items : List α) :
    doubt start (items.map weight) = doubt start ((items.filter kind).map weight) *
      ((items.filter fun item => !kind item).map fun item => 1 - weight item).prod := by
  have hperm : items.Perm (items.filter kind ++ items.filter fun item => !kind item) :=
    (List.filter_append_perm kind items).symm
  rw [doubt_perm (hperm.map weight), List.map_append, doubt_append, List.map_map]
  rfl

end Fields

section Ordered

variable {K α : Type} [Field K] [LinearOrder K] [IsStrictOrderedRing K]

theorem doubt_nonneg {start : K} (hstart : 0 ≤ start) {weights : List K}
    (hweights : ∀ weight ∈ weights, weight ≤ 1) : 0 ≤ doubt start weights := by
  induction weights generalizing start with
  | nil => exact hstart
  | cons weight weights ih =>
    rw [doubt_cons]
    apply ih
    · exact mul_nonneg hstart (sub_nonneg.mpr (hweights weight (List.mem_cons_self ..)))
    · intro other hother
      exact hweights other (List.mem_cons_of_mem _ hother)

/-- The initial doubt and the reasons may be stronger, and there may be more reasons. -/
theorem doubt_anti_of_sublist {items others : List α} (hsub : items.Sublist others)
    {start less : K} (hless : 0 ≤ less) (hstart : less ≤ start) {weight stronger : α → K}
    (hweight : ∀ item ∈ items, weight item ≤ stronger item)
    (hbounds : ∀ item ∈ others, 0 ≤ stronger item ∧ stronger item ≤ 1) :
    doubt less (others.map stronger) ≤ doubt start (items.map weight) := by
  induction hsub generalizing start less with
  | slnil => exact hstart
  | @cons items others extra _ ih =>
    rw [List.map_cons, doubt_cons]
    obtain ⟨hpos, hone⟩ := hbounds extra (List.mem_cons_self ..)
    have hshrinks : less * (1 - stronger extra) ≤ less :=
      mul_le_of_le_one_right hless (by linarith)
    apply ih
    · exact mul_nonneg hless (by linarith)
    · exact hshrinks.trans hstart
    · exact hweight
    · intro item hitem
      exact hbounds item (List.mem_cons_of_mem _ hitem)
  | @cons_cons items others item _ ih =>
    rw [List.map_cons, List.map_cons, doubt_cons, doubt_cons]
    obtain ⟨hpos, hone⟩ := hbounds item (List.mem_cons_self ..)
    have hle := hweight item (List.mem_cons_self ..)
    apply ih
    · exact mul_nonneg hless (by linarith)
    · exact mul_le_mul hstart (by linarith) (by linarith) (hless.trans hstart)
    · intro other hother
      exact hweight other (List.mem_cons_of_mem _ hother)
    · intro other hother
      exact hbounds other (List.mem_cons_of_mem _ hother)

theorem doubt_le {start : K} (hstart : 0 ≤ start) {weights : List K}
    (hweights : ∀ weight ∈ weights, 0 ≤ weight ∧ weight ≤ 1) : doubt start weights ≤ start := by
  have h : doubt start (weights.map id) ≤ doubt start (([] : List K).map id) :=
    doubt_anti_of_sublist (List.nil_sublist weights) hstart le_rfl (by simp) hweights
  rwa [List.map_id] at h

/-- **More and stronger reasons leave less doubt.** -/
theorem doubt_anti {items others : List α} (hnodup : items.Nodup) (hsub : items ⊆ others)
    {start less : K} (hless : 0 ≤ less) (hstart : less ≤ start) {weight stronger : α → K}
    (hweight : ∀ item ∈ items, weight item ≤ stronger item)
    (hbounds : ∀ item ∈ others, 0 ≤ stronger item ∧ stronger item ≤ 1) :
    doubt less (others.map stronger) ≤ doubt start (items.map weight) := by
  obtain ⟨reordered, hperm, hsublist⟩ := List.subperm_of_subset hnodup hsub
  rw [← doubt_perm (hperm.map weight)]
  apply doubt_anti_of_sublist hsublist hless hstart _ hbounds
  intro item hitem
  exact hweight item (hperm.mem_iff.mp hitem)

/-- One reason alone leaves at least as much. -/
theorem doubt_le_of_mem {start : K} (hstart : 0 ≤ start) {weights : List K}
    (hweights : ∀ weight ∈ weights, 0 ≤ weight ∧ weight ≤ 1) {weight : K}
    (hmem : weight ∈ weights) : doubt start weights ≤ start * (1 - weight) := by
  have h : doubt start (weights.map id) ≤ doubt start ([weight].map id) :=
    doubt_anti_of_sublist (List.singleton_sublist.mpr hmem) hstart le_rfl (by simp) hweights
  rwa [List.map_id] at h

end Ordered

end AttributionChain.NoisyOr
