import Mathlib.Data.List.Dedup
import Mathlib.Data.List.Forall2
import Mathlib.Data.List.Sort

/-!
# Queries

The list forms of a query: select, sort by a key, group by a key and count.

* `sortBy key rows`      the rows in the order of their keys, ties as they stand;
* `groupBy key rows`     the rows of each key (`find?_groupBy`);
* `distinct rows`        the number of different rows.

`sortBy_perm` says when the order of the rows before a sort does not matter, `take_sortBy_perm` when
it does not matter to the first results (`getElem_sortBy_cons` gives an order for which it does), and
`map_filterMap_of_key` which keys a selection that computes a result keeps.  The lemmas on
`List.Forall₂` compare the same query on two tables: rows that it does not select may differ
(`filter_eq_of_forall₂`, `flatMap_eq_of_forall₂`).
-/

namespace Kit

section
variable {α β γ κ : Type*}

def sortBy [LinearOrder κ] (key : α → κ) (rows : List α) : List α :=
  rows.insertionSort fun a b => key a ≤ key b

def groupBy [DecidableEq κ] (key : α → κ) (rows : List α) : List (κ × List α) :=
  (rows.map key).dedup.map fun k => (k, rows.filter fun r => key r = k)

def distinct [DecidableEq κ] (rows : List κ) : Nat := rows.dedup.length

theorem perm_sortBy [LinearOrder κ] (key : α → κ) (rows : List α) : (sortBy key rows).Perm rows :=
  List.perm_insertionSort _ rows

theorem pairwise_sortBy [LinearOrder κ] (key : α → κ) (rows : List α) :
    (sortBy key rows).Pairwise fun a b => key a ≤ key b :=
  List.pairwise_insertionSort (fun a b => key a ≤ key b) rows

/-- **Where no two rows have the same key, sorting forgets the order of the rows.** -/
theorem sortBy_perm [LinearOrder κ] {key : α → κ} {xs ys : List α} (h : xs.Perm ys)
    (hkey : ∀ a ∈ xs, ∀ b ∈ xs, key a = key b → a = b) : sortBy key xs = sortBy key ys := by
  refine List.Perm.eq_of_pairwise ?_ (pairwise_sortBy key xs) (pairwise_sortBy key ys)
    ((perm_sortBy key xs).trans (h.trans (perm_sortBy key ys).symm))
  intro a b ha hb hab hba
  have ha := (perm_sortBy key xs).mem_iff.mp ha
  have hb := h.mem_iff.mpr ((perm_sortBy key ys).mem_iff.mp hb)
  exact hkey a ha b hb (le_antisymm hab hba)

/-- the group of a key -/
theorem find?_groupBy [DecidableEq κ] (key : α → κ) (rows : List α) (k : κ) :
    ((groupBy key rows).find? fun g => decide (g.1 = k)) =
      if k ∈ rows.map key then some (k, rows.filter fun r => key r = k) else none := by
  unfold groupBy
  rw [List.find?_map]
  show (((rows.map key).dedup.find? fun x => decide (x = k)).map fun x =>
    (x, rows.filter fun r => key r = x)) = _
  cases hfind : (rows.map key).dedup.find? fun x => decide (x = k) with
  | none =>
    rw [if_neg]
    · rfl
    · intro hk
      exact List.find?_eq_none.mp hfind k (List.mem_dedup.mpr hk) (decide_eq_true rfl)
  | some x =>
    have hfound := List.find?_some hfind
    have hx := of_decide_eq_true hfound
    have hmem := List.mem_dedup.mp (List.mem_of_find?_eq_some hfind)
    rw [if_pos (hx ▸ hmem), ← hx]
    rfl

/-! ## the first rows of a sort -/

/-- rows with smaller keys stand before a row of a sorted list -/
theorem countP_lt_le_index [LinearOrder κ] {key : α → κ} {rows : List α}
    (h : rows.Pairwise fun a b => key a ≤ key b) {i : Nat} {a : α} (ha : rows[i]? = some a) :
    (rows.countP fun r => decide (key r < key a)) ≤ i := by
  induction rows generalizing i with
  | nil => cases ha
  | cons b rows ih =>
    obtain ⟨hb, hrows⟩ := List.pairwise_cons.mp h
    cases i with
    | zero =>
      cases ha
      refine le_of_eq (List.countP_eq_zero.mpr fun r hr => ?_)
      rw [decide_eq_true_eq, not_lt]
      rcases List.mem_cons.mp hr with rfl | hr
      · exact le_refl _
      · exact hb r hr
    | succ i =>
      have hle := ih hrows ha
      rw [List.countP_cons]
      split <;> omega

/-- **Where rows with the same key give different results, the first `n` results of a sort are the
same for every order of the rows if `n` rows with smaller keys stand before them.** -/
theorem take_sortBy_perm [LinearOrder κ] {key : α → κ} {out : α → β} {xs ys : List α} {n : Nat}
    (h : xs.Perm ys)
    (hties : ∀ a ∈ xs, ∀ b ∈ xs, key a = key b → out a ≠ out b →
      n ≤ xs.countP fun r => decide (key r < key a)) :
    ((sortBy key xs).take n).map out = ((sortBy key ys).take n).map out := by
  have hkeys : (sortBy key xs).map key = (sortBy key ys).map key := by
    refine List.Perm.eq_of_pairwise (fun a b _ _ => le_antisymm)
      (List.pairwise_map.mpr (pairwise_sortBy key xs))
      (List.pairwise_map.mpr (pairwise_sortBy key ys)) ?_
    exact ((perm_sortBy key xs).trans (h.trans (perm_sortBy key ys).symm)).map key
  apply List.ext_getElem?
  intro i
  rw [List.getElem?_map, List.getElem?_map, List.getElem?_take, List.getElem?_take]
  by_cases hi : i < n
  · rw [if_pos hi, if_pos hi]
    have hkey := congrArg (fun l => l[i]?) hkeys
    simp only [List.getElem?_map] at hkey
    cases ha : (sortBy key xs)[i]? with
    | none =>
      rw [ha, Option.map_none] at hkey
      rw [Option.map_eq_none_iff.mp hkey.symm]
    | some a =>
      rw [ha, Option.map_some] at hkey
      obtain ⟨b, hb, hba⟩ := Option.map_eq_some_iff.mp hkey.symm
      rw [hb]
      by_contra hout
      -- two results for one key come behind `n` smaller keys
      have hmem : a ∈ xs := (perm_sortBy key xs).mem_iff.mp (List.mem_of_getElem? ha)
      have hmem' : b ∈ xs :=
        h.mem_iff.mpr ((perm_sortBy key ys).mem_iff.mp (List.mem_of_getElem? hb))
      have hfar := hties a hmem b hmem' hba.symm fun heq => hout (by
        rw [Option.map_some, Option.map_some, heq])
      rw [← (perm_sortBy key xs).countP_eq] at hfar
      have hnear := countP_lt_le_index (pairwise_sortBy key xs) ha
      omega
  · rw [if_neg hi, if_neg hi]

theorem getElem_orderedInsert [LinearOrder κ] {key : α → κ} (a : α) {rows : List α}
    (h : rows.Pairwise fun a b => key a ≤ key b) :
    (rows.orderedInsert (fun a b => key a ≤ key b) a)[rows.countP fun r =>
      decide (key r < key a)]? = some a := by
  induction rows with
  | nil => rfl
  | cons b rows ih =>
    obtain ⟨hb, hrows⟩ := List.pairwise_cons.mp h
    rw [List.orderedInsert_cons, List.countP_cons]
    by_cases hab : key a ≤ key b
    · have hzero : (rows.countP fun r => decide (key r < key a)) = 0 := by
        rw [List.countP_eq_zero]
        intro r hr
        rw [decide_eq_true_eq, not_lt]
        exact le_trans hab (hb r hr)
      rw [if_pos hab, hzero, if_neg fun hlt => absurd (of_decide_eq_true hlt) (not_lt.mpr hab)]
      rfl
    · rw [if_neg hab, if_pos (decide_eq_true (not_le.mp hab)), List.getElem?_cons_succ]
      exact ih hrows

/-- the row that comes first in a table comes first among its equals -/
theorem getElem_sortBy_cons [LinearOrder κ] (key : α → κ) {xs rows : List α} {a : α}
    (h : xs.Perm (a :: rows)) :
    (sortBy key (a :: rows))[xs.countP fun r => decide (key r < key a)]? = some a := by
  have hcount : (xs.countP fun r => decide (key r < key a)) =
      (sortBy key rows).countP fun r => decide (key r < key a) := by
    rw [h.countP_eq, List.countP_cons, if_neg fun hlt => lt_irrefl _ (of_decide_eq_true hlt),
      (perm_sortBy key rows).countP_eq]
    rfl
  rw [hcount]
  exact getElem_orderedInsert a (pairwise_sortBy key rows)

/-- the keys of the results are those of the rows that have one -/
theorem map_filterMap_of_key {f : α → Option β} {g : β → κ} {k : α → κ}
    (h : ∀ a b, f a = some b → g b = k a) (xs : List α) :
    (xs.filterMap f).map g = (xs.filter fun a => (f a).isSome).map k := by
  induction xs with
  | nil => rfl
  | cons a xs ih =>
    rw [List.filterMap_cons, List.filter_cons]
    cases hf : f a with
    | none => exact ih
    | some b =>
      simp only [Option.isSome_some, if_true, List.map_cons, ih, h a b hf]

theorem filter_eq_of_forall₂ {p : α → Bool} {xs ys : List α}
    (h : List.Forall₂ (fun a b => a = b ∨ (p a = false ∧ p b = false)) xs ys) :
    xs.filter p = ys.filter p := by
  induction h with
  | nil => rfl
  | cons hab _ ih =>
    rcases hab with rfl | ⟨ha, hb⟩
    · rw [List.filter_cons, List.filter_cons, ih]
    · rw [List.filter_cons_of_neg (by rw [ha]; exact Bool.false_ne_true),
        List.filter_cons_of_neg (by rw [hb]; exact Bool.false_ne_true), ih]

theorem flatMap_eq_of_forall₂ {f : α → List γ} {g : β → List γ} {xs : List α} {ys : List β}
    (h : List.Forall₂ (fun a b => f a = g b) xs ys) : xs.flatMap f = ys.flatMap g := by
  induction h with
  | nil => rfl
  | cons hab _ ih => rw [List.flatMap_cons, List.flatMap_cons, hab, ih]

end

end Kit
