import GeoRisk.Kit.Query

/-!
# Pages of a sorted query

A sorted query is read page by page, and each page is a query of its own, which may meet the rows in
another order.

* `CleanCut key rows p`      the position `p` does not fall inside a group of rows with one key;
* `take_sortBy_clean`        at a clean cut the first `p` rows are the same rows for every order;
* `pages`                    the first pages, each from its own order of the rows;
* `pages_perm`               clean cuts between the pages: together they are the first rows;
* `mem_take_and_drop`        a cut that is not clean: two orders, one with a row before the cut and one
                             with it behind;
* `sublist_pages`            read in the one order before the cut and in the other behind it, the pages
                             hold the row twice.
-/

namespace Kit

section
variable {α κ : Type*} [LinearOrder κ] {key : α → κ} {rows xs ys : List α} {n p : Nat} {a : α}

/-- the rows that a sort may put in front of `a`, itself among them -/
def through (key : α → κ) (rows : List α) (a : α) : Nat :=
  rows.countP fun r => decide (key r ≤ key a)

/-- the rows that a sort must put in front of `a` -/
def before (key : α → κ) (rows : List α) (a : α) : Nat :=
  rows.countP fun r => decide (key r < key a)

def CleanCut (key : α → κ) (rows : List α) (p : Nat) : Prop :=
  ∀ a ∈ rows, before key rows a < p → through key rows a ≤ p

instance (key : α → κ) (rows : List α) (p : Nat) : Decidable (CleanCut key rows p) :=
  inferInstanceAs (Decidable (∀ a ∈ rows, before key rows a < p → through key rows a ≤ p))

theorem through_perm (h : xs.Perm ys) (a : α) : through key xs a = through key ys a :=
  h.countP_eq _

theorem before_perm (h : xs.Perm ys) (a : α) : before key xs a = before key ys a :=
  h.countP_eq _

theorem CleanCut.perm (hc : CleanCut key xs p) (h : xs.Perm ys) : CleanCut key ys p := by
  intro a ha hp
  rw [← before_perm h] at hp
  rw [← through_perm h]
  exact hc a (h.mem_iff.mpr ha) hp

/-! ## clean cuts -/

/-- the rows of a sorted list up to one of them have no larger keys -/
theorem index_lt_through (h : rows.Pairwise fun a b => key a ≤ key b) {i : Nat}
    (ha : rows[i]? = some a) : i < through key rows a := by
  induction rows generalizing i with
  | nil => cases ha
  | cons b rows ih =>
    obtain ⟨hb, hrows⟩ := List.pairwise_cons.mp h
    unfold through at ih ⊢
    rw [List.countP_cons]
    cases i with
    | zero =>
      cases ha
      rw [if_pos (decide_eq_true (le_refl _))]
      omega
    | succ i =>
      have hlt := ih hrows ha
      rw [if_pos (decide_eq_true (hb a (List.mem_of_getElem? ha)))]
      omega

theorem take_eq_filter {q : α → Bool} (h : ∀ i a, rows[i]? = some a → (i < n ↔ q a = true)) :
    rows.take n = rows.filter q := by
  induction rows generalizing n with
  | nil => rw [List.take_nil, List.filter_nil]
  | cons b rows ih =>
    have hb := h 0 b rfl
    cases n with
    | zero =>
      have hnone : ∀ a ∈ b :: rows, ¬q a = true := by
        intro a ha
        obtain ⟨i, hi⟩ := List.mem_iff_getElem?.mp ha
        exact fun hq => absurd ((h i a hi).mpr hq) (Nat.not_lt_zero i)
      rw [List.take_zero, List.filter_eq_nil_iff.mpr hnone]
    | succ n =>
      rw [List.take_succ_cons, List.filter_cons, if_pos (hb.mp (Nat.succ_pos n))]
      congr 1
      apply ih
      intro i a ha
      rw [← h (i + 1) a ha, Nat.succ_lt_succ_iff]

/-- the rows before a clean cut are those that no order puts behind it -/
theorem take_sortBy_eq_filter (hc : CleanCut key rows p) :
    (sortBy key rows).take p =
      (sortBy key rows).filter fun r => decide (through key rows r ≤ p) := by
  apply take_eq_filter
  intro i a ha
  have hmem : a ∈ rows := (perm_sortBy key rows).mem_iff.mp (List.mem_of_getElem? ha)
  have hbefore := countP_lt_le_index (pairwise_sortBy key rows) ha
  have hthrough := index_lt_through (pairwise_sortBy key rows) ha
  rw [(perm_sortBy key rows).countP_eq] at hbefore
  rw [through_perm (perm_sortBy key rows)] at hthrough
  rw [decide_eq_true_eq]
  constructor
  · intro hi
    exact hc a hmem (lt_of_le_of_lt hbefore hi)
  · intro hle
    exact lt_of_lt_of_le hthrough hle

/-- **At a clean cut every order has the same rows in front.** -/
theorem take_sortBy_clean (h : xs.Perm ys) (hc : CleanCut key xs p) :
    ((sortBy key xs).take p).Perm ((sortBy key ys).take p) := by
  have hthrough : (fun r => decide (through key xs r ≤ p)) =
      fun r => decide (through key ys r ≤ p) := by
    funext r
    rw [through_perm h]
  rw [take_sortBy_eq_filter hc, take_sortBy_eq_filter (hc.perm h), hthrough]
  exact ((perm_sortBy key xs).trans (h.trans (perm_sortBy key ys).symm)).filter _

/-! ## the pages -/

/-- the page behind `k` others -/
def page (key : α → κ) (rows : List α) (limit k : Nat) : List α :=
  ((sortBy key rows).drop (k * limit)).take limit

/-- the first `n` pages; the page behind `k` others is read from `tables k` -/
def pages (key : α → κ) (tables : Nat → List α) (limit : Nat) : Nat → List α
  | 0 => []
  | n + 1 => pages key tables limit n ++ page key (tables n) limit n

theorem take_append_page (key : α → κ) (rows : List α) (limit n : Nat) :
    (sortBy key rows).take (n * limit) ++ page key rows limit n =
      (sortBy key rows).take ((n + 1) * limit) := by
  rw [page, ← List.take_add, Nat.succ_mul]

/-- **Pages between clean cuts are the first rows, whatever the orders they are read in.** -/
theorem pages_perm {tables : Nat → List α} {limit : Nat} (h : ∀ k, rows.Perm (tables k))
    (hc : ∀ k, CleanCut key rows (k * limit)) (n : Nat) :
    (pages key tables limit n).Perm ((sortBy key rows).take (n * limit)) := by
  induction n with
  | zero =>
    rw [Nat.zero_mul, List.take_zero]
    exact List.Perm.refl _
  | succ n ih =>
    -- what was read so far is also what the order of this page has in front
    have hfront := ih.trans (take_sortBy_clean (h n) (hc n))
    rw [pages]
    refine (hfront.append_right _).trans ?_
    rw [take_append_page]
    exact (take_sortBy_clean (h n) (hc (n + 1))).symm

theorem pages_eq_take {tables : Nat → List α} {limit : Nat} {n : Nat}
    (h : ∀ k < n, tables k = rows) :
    pages key tables limit n = (sortBy key rows).take (n * limit) := by
  induction n with
  | zero => rw [Nat.zero_mul, List.take_zero, pages]
  | succ n ih =>
    rw [pages, ih fun k hk => h k (Nat.lt_succ_of_lt hk), h n (Nat.lt_succ_self n),
      take_append_page]

/-- pages that are read from one order from the `m`-th on -/
theorem pages_append_drop {tables : Nat → List α} {limit m : Nat} (h : ∀ k, m ≤ k → tables k = rows)
    (d : Nat) :
    pages key tables limit (m + d) = pages key tables limit m ++
      ((sortBy key rows).drop (m * limit)).take (d * limit) := by
  induction d with
  | zero => rw [Nat.add_zero, Nat.zero_mul, List.take_zero, List.append_nil]
  | succ d ih =>
    rw [← Nat.add_assoc, pages, ih, h _ (Nat.le_add_right m d), List.append_assoc, page,
      Nat.add_mul, ← List.drop_drop, ← List.take_add, Nat.succ_mul]

/-! ## cuts that are not clean -/

/-- a row that is inserted among others stands in front of those with keys that are not smaller -/
theorem getElem_orderedInsert_of_le {i : Nat} {x : α} (h : key a ≤ key x)
    (hx : rows[i]? = some x) :
    (rows.orderedInsert (fun a b => key a ≤ key b) a)[i + 1]? = some x := by
  induction rows generalizing i with
  | nil => cases hx
  | cons b rows ih =>
    rw [List.orderedInsert_cons]
    by_cases hab : key a ≤ key b
    · rw [if_pos hab, List.getElem?_cons_succ]
      exact hx
    · rw [if_neg hab, List.getElem?_cons_succ]
      cases i with
      | zero =>
        cases hx
        exact absurd h hab
      | succ i => exact ih hx

/-- and behind those with smaller keys -/
theorem getElem_orderedInsert_of_lt (hrows : rows.Pairwise fun a b => key a ≤ key b) {i : Nat}
    {x : α} (h : key x < key a) (hx : rows[i]? = some x) :
    (rows.orderedInsert (fun a b => key a ≤ key b) a)[i]? = some x := by
  induction rows generalizing i with
  | nil => cases hx
  | cons b rows ih =>
    obtain ⟨hb, hrows⟩ := List.pairwise_cons.mp hrows
    rw [List.orderedInsert_cons]
    have hab : ¬key a ≤ key b := by
      cases i with
      | zero =>
        cases hx
        exact not_le.mpr h
      | succ i => exact not_le.mpr (lt_of_le_of_lt (hb x (List.mem_of_getElem? hx)) h)
    rw [if_neg hab]
    cases i with
    | zero => exact hx
    | succ i => exact ih hrows hx

/-- the last row of a table comes last among its equals -/
theorem getElem_sortBy_snoc (key : α → κ) (x : α) (rows : List α) :
    (sortBy key (rows ++ [x]))[through key rows x]? = some x := by
  induction rows with
  | nil => rfl
  | cons b rows ih =>
    unfold through at ih ⊢
    rw [List.countP_cons]
    show (List.orderedInsert _ b (sortBy key (rows ++ [x])))[_]? = _
    by_cases hb : key b ≤ key x
    · rw [if_pos (decide_eq_true hb)]
      exact getElem_orderedInsert_of_le hb ih
    · rw [if_neg fun h => hb (of_decide_eq_true h)]
      exact getElem_orderedInsert_of_lt (pairwise_sortBy key _) (not_le.mp hb) ih

/-- **Where a cut is not clean, a row stands before it if it is first in its table, and behind it if
it is last.** -/
theorem mem_take_and_drop (h : xs.Perm (a :: rows)) (hbefore : before key xs a < p)
    (hthrough : p < through key xs a) :
    a ∈ (sortBy key (a :: rows)).take p ∧ a ∈ (sortBy key (rows ++ [a])).drop p := by
  have hlast : p ≤ through key rows a := by
    rw [through_perm h, through, List.countP_cons, if_pos (decide_eq_true (le_refl _))] at hthrough
    exact Nat.le_of_lt_succ hthrough
  constructor
  · refine List.mem_of_getElem? (i := before key xs a) ?_
    rw [List.getElem?_take, if_pos hbefore]
    exact getElem_sortBy_cons key h
  · refine List.mem_of_getElem? (i := through key rows a - p) ?_
    rw [List.getElem?_drop, Nat.add_sub_cancel' hlast]
    exact getElem_sortBy_snoc key a rows

/-- **Pages that are cut where it is not clean hold a row twice, if it comes first in the tables
before the cut and last in those behind it.** -/
theorem sublist_pages {tables : Nat → List α} {limit m n : Nat} (h : xs.Perm (a :: rows))
    (hbefore : before key xs a < m * limit) (hthrough : m * limit < through key xs a)
    (hfirst : ∀ k < m, tables k = a :: rows) (hlast : ∀ k, m ≤ k → tables k = rows ++ [a])
    (hn : xs.length ≤ n * limit) : [a, a].Sublist (pages key tables limit n) := by
  have hlt : m * limit < n * limit :=
    lt_of_lt_of_le hthrough (le_trans List.countP_le_length hn)
  obtain ⟨d, rfl⟩ := Nat.exists_eq_add_of_le (le_of_lt (Nat.lt_of_mul_lt_mul_right hlt))
  obtain ⟨hfront, hback⟩ := mem_take_and_drop h hbefore hthrough
  -- the pages behind the cut reach the end
  have hlength : (sortBy key (rows ++ [a])).length = xs.length := by
    rw [(perm_sortBy key _).length_eq, (List.perm_append_singleton a rows).length_eq, h.length_eq]
  have hend : ((sortBy key (rows ++ [a])).drop (m * limit)).length ≤ d * limit := by
    rw [List.length_drop, hlength]
    rw [Nat.add_mul] at hn
    omega
  rw [pages_append_drop hlast, pages_eq_take hfirst, List.take_of_length_le hend]
  exact (List.singleton_sublist.mpr hfront).append (List.singleton_sublist.mpr hback)

end

end Kit
