import Mathlib

/-!
# States that only take joins

A state is seen through a map into a complete lattice, and a step joins to what is seen what the step
brings.  What is seen after a run is then the join of all that its steps bring: neither their order
nor how often a step is taken matters.

* `Joins`           the steps do nothing else to what is seen;
* `Joins.foldl`     what is seen after a run;
* `Joins.congr`     runs of the same steps look the same;
* `iSup_mem_concat` what is brought by the steps of a list and by one more.
-/

namespace Kit

variable {σ α L : Type*} [CompleteLattice L]

def Joins (seen : σ → L) (step : σ → α → σ) (brings : α → L) : Prop :=
  ∀ s a, seen (step s a) = seen s ⊔ brings a

variable {seen : σ → L} {step : σ → α → σ} {brings : α → L} {s : σ} {as bs : List α}

theorem iSup_mem_concat (brings : α → L) (as : List α) (a : α) :
    ⨆ x ∈ as ++ [a], brings x = (⨆ x ∈ as, brings x) ⊔ brings a := by
  simp only [List.mem_append, List.mem_singleton, iSup_or, iSup_sup_eq, iSup_iSup_eq_left]

theorem Joins.foldl (h : Joins seen step brings) (s : σ) (as : List α) :
    seen (as.foldl step s) = seen s ⊔ ⨆ a ∈ as, brings a := by
  induction as generalizing s with
  | nil => simp
  | cons a as ih =>
    rw [List.foldl_cons, ih, h, sup_assoc]
    congr 1
    simp only [List.mem_cons, iSup_or, iSup_sup_eq, iSup_iSup_eq_left]

theorem Joins.congr (h : Joins seen step brings) (hmem : ∀ a, a ∈ as ↔ a ∈ bs) :
    seen (as.foldl step s) = seen (bs.foldl step s) := by
  rw [h.foldl, h.foldl]
  simp only [hmem]

end Kit
