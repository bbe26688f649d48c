import Mathlib.Data.List.Nodup

/-!
# Tables keyed by a column

A table is the list of its rows; `key` is the primary-key column.

* `lookup k rows`     the row with key `k`;
* `replace x rows`    the table with the row that has the key of `x` replaced by `x`;
* `amend k f rows`    the table with `f` applied to the row with key `k`;
* `Writes k f`       `f` adds the row with key `k` or changes it;
* `adjoin rows new`  the rows, and behind them those of `new` that are not there yet.

A lookup survives the insertion of rows behind it (`lookup_append`), and after a replacement it
gives the new row for its key (`lookup_replace`) and the old one for every other
(`lookup_replace_ne`).  Writes to different rows commute (`Writes.comm`).  Where keys are unique a
row and its lookup are the same (`lookup_of_mem`); `Numbered` says that they are, and were drawn
from a counter.
-/

namespace Kit

section
variable {α κ : Type*} [DecidableEq κ] (key : α → κ)

def lookup (k : κ) (rows : List α) : Option α := rows.find? fun r => key r = k

def replace (x : α) (rows : List α) : List α := rows.map fun r => if key r = key x then x else r

/-- the table with `f` applied to the row with key `k` -/
def amend (k : κ) (f : α → α) (rows : List α) : List α :=
  rows.map fun r => if key r = k then f r else r

variable {key}

theorem lookup_key {k : κ} {rows : List α} {r : α} (h : lookup key k rows = some r) : key r = k := by
  have := List.find?_some h
  simpa using this

theorem lookup_mem {k : κ} {rows : List α} {r : α} (h : lookup key k rows = some r) : r ∈ rows :=
  List.mem_of_find?_eq_some h

theorem lookup_append {k : κ} {rows : List α} {r : α} (h : lookup key k rows = some r)
    (more : List α) : lookup key k (rows ++ more) = some r := by
  unfold lookup at h ⊢
  rw [List.find?_append, h]
  rfl

theorem lookup_append_ne {k : κ} {x : α} {rows : List α} (h : key x ≠ k) :
    lookup key k (rows ++ [x]) = lookup key k rows := by
  unfold lookup
  rw [List.find?_append, List.find?_singleton, decide_eq_false h, if_neg Bool.false_ne_true,
    Option.or_none]

theorem lookup_replace_ne {x : α} {k : κ} (rows : List α) (h : key x ≠ k) :
    lookup key k (replace key x rows) = lookup key k rows := by
  induction rows with
  | nil => rfl
  | cons r rows ih =>
    unfold lookup replace at ih ⊢
    rw [List.map_cons, List.find?_cons, List.find?_cons]
    by_cases hr : key r = key x
    · rw [if_pos hr, decide_eq_false h, decide_eq_false (hr ▸ h)]
      exact ih
    · rw [if_neg hr]
      by_cases hk : key r = k
      · rw [decide_eq_true hk]
      · rw [decide_eq_false hk]
        exact ih

theorem lookup_replace {x : α} {k : κ} {rows : List α} {r : α} (hk : key x = k)
    (h : lookup key k rows = some r) : lookup key k (replace key x rows) = some x := by
  induction rows with
  | nil => cases h
  | cons s rows ih =>
    unfold lookup replace at ih ⊢
    unfold lookup at h
    rw [List.map_cons, List.find?_cons]
    by_cases hs : key s = key x
    · rw [if_pos hs, decide_eq_true hk]
    · rw [List.find?_cons, decide_eq_false (hk ▸ hs)] at h
      rw [if_neg hs, decide_eq_false (hk ▸ hs)]
      exact ih h

theorem mem_replace {x r : α} {rows : List α} (h : r ∈ replace key x rows) :
    r = x ∨ (r ∈ rows ∧ key r ≠ key x) := by
  obtain ⟨s, hs, he⟩ := List.mem_map.mp h
  split at he
  · exact Or.inl he.symm
  · next hne =>
    rw [← he]
    exact Or.inr ⟨hs, hne⟩

/-- the new row, where there was one with its key -/
theorem mem_replace_self {x r : α} {rows : List α} (h : r ∈ rows) (hk : key r = key x) :
    x ∈ replace key x rows := List.mem_map.mpr ⟨r, h, if_pos hk⟩

theorem mem_replace_of_ne {x r : α} {rows : List α} (h : r ∈ rows) (hk : key r ≠ key x) :
    r ∈ replace key x rows := List.mem_map.mpr ⟨r, h, if_neg hk⟩

/-- what holds of the rows and of the new one holds after a replacement -/
theorem forall_replace {P : α → Prop} {x : α} {rows : List α} (h : ∀ r ∈ rows, P r) (hx : P x) :
    ∀ r ∈ replace key x rows, P r := by
  intro r hr
  rcases mem_replace hr with rfl | ⟨hr, _⟩
  · exact hx
  · exact h r hr

theorem replace_append (x : α) (rows more : List α) :
    replace key x (rows ++ more) = replace key x rows ++ replace key x more := List.map_append

/-- a row with another key than all others replaces none -/
theorem replace_of_ne {x : α} {rows : List α} (h : ∀ r ∈ rows, key r ≠ key x) :
    replace key x rows = rows := by
  unfold replace
  rw [List.map_congr_left (g := id), List.map_id]
  intro r hr
  exact if_neg (h r hr)

/-- a selection that tells the new row from no old one with its key -/
theorem filter_replace {p : α → Bool} {x : α} {rows : List α}
    (h : ∀ r ∈ rows, key r = key x → p r = p x) :
    (replace key x rows).filter p = replace key x (rows.filter p) := by
  induction rows with
  | nil => rfl
  | cons r rows ih =>
    have ih := ih fun y hy => h y (List.mem_cons_of_mem _ hy)
    unfold replace at ih ⊢
    rw [List.map_cons, List.filter_cons, List.filter_cons, ih]
    by_cases hr : key r = key x
    · rw [if_pos hr, h r (List.mem_cons_self ..) hr]
      cases p x with
      | true => rw [if_pos rfl, if_pos rfl, List.map_cons, if_pos hr]
      | false => rfl
    · rw [if_neg hr]
      cases p r with
      | true => rw [if_pos rfl, if_pos rfl, List.map_cons, if_neg hr]
      | false => rfl

/-- a replacement changes a count by the two rows -/
theorem countP_replace {p : α → Bool} {x r : α} {rows : List α} (h : (rows.map key).Nodup)
    (hr : r ∈ rows) (hk : key r = key x) :
    (replace key x rows).countP p + (p r).toNat = rows.countP p + (p x).toNat := by
  induction rows with
  | nil => cases hr
  | cons y rows ih =>
    rw [List.map_cons, List.nodup_cons] at h
    rcases List.mem_cons.mp hr with rfl | hr
    · have hsame : replace key x rows = rows := replace_of_ne fun z hz he =>
        h.1 (hk.trans he.symm ▸ List.mem_map_of_mem hz)
      unfold replace at hsame ⊢
      rw [List.map_cons, if_pos hk, hsame, List.countP_cons, List.countP_cons]
      cases p r <;> cases p x <;> rfl
    · have hne : key y ≠ key x := fun he => h.1 (he.trans hk.symm ▸ List.mem_map_of_mem hr)
      have ih := ih h.2 hr
      unfold replace at ih ⊢
      rw [List.map_cons, if_neg hne, List.countP_cons, List.countP_cons]
      omega

theorem map_replace (x : α) (rows : List α) : (replace key x rows).map key = rows.map key := by
  unfold replace
  rw [List.map_map]
  apply List.map_congr_left
  intro r _
  show key (if key r = key x then x else r) = key r
  split
  · next h => exact h.symm
  · rfl

/-- **Where keys are unique, every row is the one its key finds.** -/
theorem lookup_of_mem {rows : List α} (h : (rows.map key).Nodup) {r : α} (hr : r ∈ rows) :
    lookup key (key r) rows = some r := by
  induction rows with
  | nil => cases hr
  | cons s rows ih =>
    rw [List.map_cons, List.nodup_cons] at h
    unfold lookup
    rw [List.find?_cons]
    rcases List.mem_cons.mp hr with rfl | hr
    · rw [decide_eq_true rfl]
    · have hne : key s ≠ key r := fun e => h.1 (e ▸ List.mem_map_of_mem hr)
      rw [decide_eq_false hne]
      exact ih h.2 hr

omit [DecidableEq κ] in
/-- what only one row meets is found wherever it stands -/
theorem find?_eq_of_unique {p : α → Bool} {rows : List α} {r : α} (hr : r ∈ rows) (hp : p r = true)
    (h : ∀ x ∈ rows, p x = true → x = r) : rows.find? p = some r := by
  cases hfind : rows.find? p with
  | none => exact absurd hp (List.find?_eq_none.mp hfind r hr)
  | some x =>
    have hfound := List.find?_some hfind
    rw [h x (List.mem_of_find?_eq_some hfind) hfound]

/-- where keys are unique it does not matter from which end a row is looked for -/
theorem lookup_reverse {rows : List α} (h : (rows.map key).Nodup) (k : κ) :
    lookup key k rows.reverse = lookup key k rows := by
  cases hl : lookup key k rows with
  | none =>
    have hnone := List.find?_eq_none.mp hl
    exact List.find?_eq_none.mpr fun x hx => hnone x (List.mem_reverse.mp hx)
  | some r =>
    refine find?_eq_of_unique (List.mem_reverse.mpr (lookup_mem hl))
      (decide_eq_true (lookup_key hl)) fun x hx hxk => ?_
    have hkeys := (of_decide_eq_true hxk).trans (lookup_key hl).symm
    exact List.inj_on_of_nodup_map h (List.mem_reverse.mp hx) (lookup_mem hl) hkeys

/-- **Amending the row that is there is replacing it.** -/
theorem amend_eq_replace {k : κ} {f : α → α} {rows : List α} {r : α} (h : (rows.map key).Nodup)
    (hr : lookup key k rows = some r) (hk : key (f r) = k) :
    amend key k f rows = replace key (f r) rows := by
  unfold amend replace
  apply List.map_congr_left
  intro x hx
  rw [hk]
  by_cases hxk : key x = k
  · have hsame : some x = some r := by rw [← lookup_of_mem h hx, hxk, hr]
    rw [if_pos hxk, if_pos hxk, Option.some.inj hsame]
  · rw [if_neg hxk, if_neg hxk]

end

/-! ## writes -/

section
variable {α κ : Type*} [DecidableEq κ] {key : α → κ} {k l : κ} {f g : List α → List α}
  {rows : List α}

/-- a write to the row with key `k`: a new row, or a change to the one that is there -/
inductive Writes (key : α → κ) : κ → (List α → List α) → Prop
  | insert (x : α) : Writes key (key x) fun rows => rows ++ [x]
  | amend (k : κ) (f : α → α) (h : ∀ r, key (f r) = key r) : Writes key k (amend key k f)

theorem map_amend {f : α → α} (h : ∀ r, key (f r) = key r) (k : κ) (rows : List α) :
    (amend key k f rows).map key = rows.map key := by
  unfold amend
  rw [List.map_map]
  apply List.map_congr_left
  intro r _
  show key (if key r = k then f r else r) = key r
  split
  · exact h r
  · rfl

theorem Writes.mem (h : Writes key k f) {r : α} (hr : r ∈ f rows) :
    key r ∈ rows.map key ∨ key r = k := by
  cases h with
  | insert x =>
    rcases List.mem_append.mp hr with hr | hr
    · exact Or.inl (List.mem_map_of_mem hr)
    · exact Or.inr (congrArg key (List.mem_singleton.mp hr))
  | amend k f hf =>
    left
    rw [← map_amend hf k rows]
    exact List.mem_map_of_mem hr

omit [DecidableEq κ] in
/-- a new row has a new key -/
theorem nodup_insert {x : α} (h : (rows.map key).Nodup) (hx : ∀ r ∈ rows, key r ≠ key x) :
    ((rows ++ [x]).map key).Nodup := by
  rw [List.map_append, List.nodup_append]
  refine ⟨h, List.nodup_singleton _, ?_⟩
  intro i hi j hj
  obtain ⟨r, hr, rfl⟩ := List.mem_map.mp hi
  rw [List.mem_singleton.mp hj]
  exact hx r hr

/-- no key is lost -/
theorem Writes.keys (h : Writes key k f) (hl : l ∈ rows.map key) : l ∈ (f rows).map key := by
  cases h with
  | insert x =>
    rw [List.map_append]
    exact List.mem_append_left _ hl
  | amend k f hf =>
    rw [map_amend hf]
    exact hl

theorem amend_append_of_ne {f : α → α} {x : α} (h : key x ≠ k) :
    amend key k f (rows ++ [x]) = amend key k f rows ++ [x] := by
  unfold amend
  rw [List.map_append, List.map_singleton, if_neg h]

theorem amend_comm {f g : α → α} (hf : ∀ r, key (f r) = key r) (hg : ∀ r, key (g r) = key r)
    (hne : k ≠ l) : amend key k f (amend key l g rows) = amend key l g (amend key k f rows) := by
  unfold amend
  rw [List.map_map, List.map_map]
  apply List.map_congr_left
  intro r _
  show (if key (if key r = l then g r else r) = k then f (if key r = l then g r else r)
      else (if key r = l then g r else r)) =
    if key (if key r = k then f r else r) = l then g (if key r = k then f r else r)
      else (if key r = k then f r else r)
  by_cases hl : key r = l
  · have hk : key r ≠ k := fun h => hne (h.symm.trans hl)
    rw [if_pos hl, if_neg (by rw [hg]; exact hk), if_neg hk, if_pos hl]
  · rw [if_neg hl]
    by_cases hk : key r = k
    · rw [if_pos hk, if_neg (by rw [hf]; exact hl)]
    · rw [if_neg hk, if_neg hl]

/-- **Writes to different rows commute**, up to the order of the rows. -/
theorem Writes.comm (hf : Writes key k f) (hg : Writes key l g) (hne : k ≠ l) (rows : List α) :
    (f (g rows)).Perm (g (f rows)) := by
  cases hf with
  | insert x =>
    cases hg with
    | insert y =>
      show (rows ++ [y] ++ [x]).Perm (rows ++ [x] ++ [y])
      rw [List.append_assoc, List.append_assoc]
      exact (List.Perm.swap x y []).append_left rows
    | amend l g hg =>
      rw [amend_append_of_ne hne]
  | amend k f hf =>
    cases hg with
    | insert y =>
      rw [amend_append_of_ne (Ne.symm hne)]
    | amend l g hg =>
      rw [amend_comm hf hg hne]

end

/-! ## keys from a counter -/

section
variable {α : Type*} {key : α → ℕ} {rows rows' : List α} {next next' : ℕ}

/-- the keys are distinct and were drawn from the counter -/
structure Numbered (key : α → ℕ) (rows : List α) (next : ℕ) : Prop where
  nodup : (rows.map key).Nodup
  fresh : ∀ x ∈ rows, key x < next

theorem Numbered.nil : Numbered key [] next := ⟨List.nodup_nil, fun _ hx => by cases hx⟩

/-- only the keys matter, and the counter may grow -/
theorem Numbered.of_map (h : Numbered key rows next) (hm : rows'.map key = rows.map key)
    (hn : next ≤ next') : Numbered key rows' next' := by
  constructor
  · rw [hm]
    exact h.nodup
  · intro x hx
    have hk : key x ∈ rows.map key := by
      rw [← hm]
      exact List.mem_map_of_mem hx
    obtain ⟨y, hy, he⟩ := List.mem_map.mp hk
    exact Nat.lt_of_lt_of_le (he ▸ h.fresh y hy) hn

theorem Numbered.append {x : α} (h : Numbered key rows next) (hx : next ≤ key x)
    (hn : key x < next') : Numbered key (rows ++ [x]) next' := by
  constructor
  · exact nodup_insert h.nodup fun y hy => Nat.ne_of_lt (Nat.lt_of_lt_of_le (h.fresh y hy) hx)
  · intro y hy
    rcases List.mem_append.mp hy with hy | hy
    · exact Nat.lt_of_lt_of_le (h.fresh y hy) (Nat.le_trans hx (Nat.le_of_lt hn))
    · rw [List.mem_singleton.mp hy]
      exact hn

end

/-! ## rows that are not there yet -/

section
variable {α : Type*} [DecidableEq α] {x : α} {rows : List α}

def adjoin : List α → List α → List α
  | rows, [] => rows
  | rows, x :: new => if x ∈ rows then adjoin rows new else adjoin (rows ++ [x]) new

/-- the rows that come behind are new ones -/
theorem adjoin_append (rows new : List α) :
    ∃ added, adjoin rows new = rows ++ added ∧ ∀ x ∈ added, x ∈ new := by
  induction new generalizing rows with
  | nil => exact ⟨[], (List.append_nil _).symm, fun _ h => absurd h List.not_mem_nil⟩
  | cons y new ih =>
    unfold adjoin
    split
    · obtain ⟨added, h, hadded⟩ := ih rows
      exact ⟨added, h, fun x hx => List.mem_cons_of_mem _ (hadded x hx)⟩
    · obtain ⟨added, h, hadded⟩ := ih (rows ++ [y])
      refine ⟨y :: added, by rw [h, List.append_assoc]; rfl, ?_⟩
      intro x hx
      rcases List.mem_cons.mp hx with rfl | hx
      · exact List.mem_cons_self ..
      · exact List.mem_cons_of_mem _ (hadded x hx)

theorem mem_adjoin {new : List α} : x ∈ adjoin rows new ↔ x ∈ rows ∨ x ∈ new := by
  induction new generalizing rows with
  | nil => simp [adjoin]
  | cons y new ih =>
    rw [adjoin]
    split
    · next hin =>
      rw [ih, List.mem_cons]
      constructor
      · rintro (h | h)
        · exact Or.inl h
        · exact Or.inr (Or.inr h)
      · rintro (h | rfl | h)
        · exact Or.inl h
        · exact Or.inl hin
        · exact Or.inr h
    · rw [ih, List.mem_append, List.mem_singleton, List.mem_cons, or_assoc]

theorem nodup_adjoin (h : rows.Nodup) (new : List α) : (adjoin rows new).Nodup := by
  induction new generalizing rows with
  | nil => exact h
  | cons y new ih =>
    unfold adjoin
    split
    · exact ih h
    · next hout =>
      have hsnoc := List.Nodup.concat hout h
      rw [List.concat_eq_append] at hsnoc
      exact ih hsnoc

end

end Kit
