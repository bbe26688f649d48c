import Mathlib.Data.List.Chain
import Mathlib.Data.List.Pairwise

/-!
# Spans that tile an interval, and lists of overlapping spans over them

A span is a pair of positions, a start and an end.

* `Tiles i spans j`       the spans are not empty, adjoin, and lead from `i` to `j`;
* `Tiles.bounds`          each of them lies between the ends;
* `Tiles.eq_of_end`       no two of them have one end;
* `Follows k c d`         `d` begins in `c`, ends behind it, and repeats `k` positions of it, or all
                          of it where it is shorter;
* `pairwise_inside_iff`   in a list where each span follows the one before, the starts increase
                          strictly exactly when no span lies in another.
-/

namespace Kit

/-! ## tilings -/

section
variable {i j k : Nat} {s t : Nat × Nat} {spans a b : List (Nat × Nat)}

def Tiles : Nat → List (Nat × Nat) → Nat → Prop
  | i, [], j => i = j
  | i, s :: rest, j => s.1 = i ∧ i < s.2 ∧ Tiles s.2 rest j

theorem tiles_append : Tiles i (a ++ b) k ↔ ∃ j, Tiles i a j ∧ Tiles j b k := by
  induction a generalizing i with
  | nil =>
    constructor
    · intro h
      exact ⟨i, rfl, h⟩
    · rintro ⟨j, rfl, h⟩
      exact h
  | cons s a ih =>
    rw [List.cons_append, Tiles, ih]
    constructor
    · rintro ⟨h1, h2, j, ha, hb⟩
      exact ⟨j, ⟨h1, h2, ha⟩, hb⟩
    · rintro ⟨j, ⟨h1, h2, ha⟩, hb⟩
      exact ⟨h1, h2, j, ha, hb⟩

theorem Tiles.le (h : Tiles i spans j) : i ≤ j := by
  induction spans generalizing i with
  | nil => exact le_of_eq h
  | cons s rest ih => exact le_trans (le_of_lt h.2.1) (ih h.2.2)

/-- **Every span of a tiling is not empty and lies between its ends.** -/
theorem Tiles.bounds (h : Tiles i spans j) (hs : s ∈ spans) : i ≤ s.1 ∧ s.1 < s.2 ∧ s.2 ≤ j := by
  induction spans generalizing i with
  | nil => cases hs
  | cons t rest ih =>
    obtain ⟨h1, h2, h3⟩ := h
    rcases List.mem_cons.mp hs with rfl | hs
    · exact ⟨le_of_eq h1.symm, h1 ▸ h2, h3.le⟩
    · obtain ⟨g1, g2, g3⟩ := ih h3 hs
      exact ⟨le_trans (le_of_lt h2) g1, g2, g3⟩

/-- no two spans of a tiling have one end -/
theorem Tiles.eq_of_end (h : Tiles i spans j) (hs : s ∈ spans) (ht : t ∈ spans) (he : s.2 = t.2) :
    s = t := by
  induction spans generalizing i with
  | nil => cases hs
  | cons u rest ih =>
    rcases List.mem_cons.mp hs with hsu | hs'
    · rcases List.mem_cons.mp ht with htu | ht'
      · rw [hsu, htu]
      · obtain ⟨h1, h2, _⟩ := h.2.2.bounds ht'
        rw [hsu] at he
        omega
    · rcases List.mem_cons.mp ht with htu | ht'
      · obtain ⟨h1, h2, _⟩ := h.2.2.bounds hs'
        rw [htu] at he
        omega
      · exact ih h.2.2 hs' ht'

/-- a tiling with a span in it ends where its last span does -/
theorem Tiles.exists_end (h : Tiles i spans j) (hne : spans ≠ []) : ∃ s ∈ spans, s.2 = j := by
  induction spans generalizing i with
  | nil => exact absurd rfl hne
  | cons t rest ih =>
    cases rest with
    | nil => exact ⟨t, List.mem_cons_self .., h.2.2⟩
    | cons u rest =>
      obtain ⟨s, hs, he⟩ := ih h.2.2 (List.cons_ne_nil _ _)
      exact ⟨s, List.mem_cons_of_mem _ hs, he⟩

end

/-! ## overlapping spans -/

section
variable {k : Nat} {c d : Nat × Nat} {l : List (Nat × Nat)}

/-- `d` begins in `c` or where it ends, ends behind it, and repeats `k` positions of it, or all of
it -/
structure Follows (k : Nat) (c d : Nat × Nat) : Prop where
  starts : c.1 ≤ d.1
  ends : c.2 < d.2
  meets : d.1 ≤ c.2
  overlap : min k (c.2 - c.1) ≤ c.2 - d.1

def Inside (c d : Nat × Nat) : Prop := d.1 ≤ c.1 ∧ c.2 ≤ d.2

instance : Decidable (Inside c d) := inferInstanceAs (Decidable (_ ∧ _))

theorem Follows.pairwise (h : l.IsChain (Follows k)) :
    l.Pairwise fun c d => c.1 ≤ d.1 ∧ c.2 < d.2 := by
  have hchain : l.IsChain fun c d => c.1 ≤ d.1 ∧ c.2 < d.2 := by
    apply h.imp
    intro c d hcd
    exact ⟨hcd.starts, hcd.ends⟩
  have htrans : IsTrans (Nat × Nat) fun c d => c.1 ≤ d.1 ∧ c.2 < d.2 :=
    ⟨fun _ _ _ h k => ⟨le_trans h.1 k.1, lt_trans h.2 k.2⟩⟩
  exact List.isChain_iff_pairwise.mp hchain

/-- **Where each span follows the one before, none lies in another exactly when the starts
increase.** -/
theorem pairwise_inside_iff (h : l.IsChain (Follows k)) :
    (l.Pairwise fun c d => ¬Inside c d ∧ ¬Inside d c) ↔ (l.map Prod.fst).IsChain (· < ·) := by
  rw [List.isChain_iff_pairwise, List.pairwise_map]
  constructor
  · intro hp
    refine (hp.and (Follows.pairwise h)).imp ?_
    rintro c d ⟨⟨hcd, _⟩, hstart, hend⟩
    by_contra hlt
    exact hcd ⟨not_lt.mp hlt, le_of_lt hend⟩
  · intro hp
    refine (hp.and (Follows.pairwise h)).imp ?_
    rintro c d ⟨hlt, _, hend⟩
    exact ⟨fun k => absurd hlt (not_lt.mpr k.1), fun k => absurd hend (not_lt.mpr k.2)⟩

end

end Kit
