import GeoRisk.Kit.Table

/-!
# Tables that only grow

`Grows R rows rows'`: every row of `rows` stays at its place in `rows'`, changed as `R` allows, and
the new rows are behind them.

* `Grows.refl`, `Grows.trans`    a preorder where `R` is one;
* `Grows.imp`                    a weaker `R`;
* `Grows.append`                 rows behind the others;
* `grows_replace`                a changed row;
* `Grows.mem`                    no row is lost;
* `Grows.map`                    a column that no change touches keeps a prefix;
* `flatMap_replace_perm`         what rows hold, where one of them gets more;
* `eq_of_prefix_between`         what grows and comes back has not changed;
* `mem_of_forall₂`               what the rows of a result were made of.
-/

namespace Kit

inductive Grows {α : Type*} (R : α → α → Prop) : List α → List α → Prop
  | nil (added : List α) : Grows R [] added
  | cons {x y : α} {rows rows' : List α} (hxy : R x y) (h : Grows R rows rows') :
      Grows R (x :: rows) (y :: rows')

section
variable {α : Type*} {R S T : α → α → Prop} {rows rows' rows'' : List α}

theorem Grows.append (h : ∀ x ∈ rows, R x x) (added : List α) : Grows R rows (rows ++ added) := by
  induction rows with
  | nil => exact .nil _
  | cons x rows ih =>
    exact .cons (h x (List.mem_cons_self ..)) (ih fun y hy => h y (List.mem_cons_of_mem _ hy))

theorem Grows.refl (h : ∀ x ∈ rows, R x x) : Grows R rows rows := by
  have happend := Grows.append h []
  rw [List.append_nil] at happend
  exact happend

theorem Grows.trans (h : Grows R rows rows') (k : Grows S rows' rows'')
    (ht : ∀ x y z, R x y → S y z → T x z) : Grows T rows rows'' := by
  induction h generalizing rows'' with
  | nil _ => exact .nil _
  | cons hxy _ ih =>
    cases k with
    | cons hyz k => exact .cons (ht _ _ _ hxy hyz) (ih k)

theorem Grows.imp (h : Grows R rows rows') (hi : ∀ x y, R x y → S x y) : Grows S rows rows' := by
  induction h with
  | nil added => exact .nil added
  | cons hxy _ ih => exact .cons (hi _ _ hxy) ih

theorem Grows.mem (h : Grows R rows rows') {x : α} (hx : x ∈ rows) : ∃ y ∈ rows', R x y := by
  induction h with
  | nil _ => cases hx
  | cons hxy _ ih =>
    rcases List.mem_cons.mp hx with rfl | hx
    · exact ⟨_, List.mem_cons_self .., hxy⟩
    · obtain ⟨y, hy, hxy⟩ := ih hx
      exact ⟨y, List.mem_cons_of_mem _ hy, hxy⟩

/-- a column that no change touches -/
theorem Grows.map {β : Type*} {f : α → β} (h : Grows R rows rows') (hf : ∀ x y, R x y → f y = f x) :
    rows.map f <+: rows'.map f := by
  induction h with
  | nil _ => exact List.nil_prefix
  | cons hxy _ ih =>
    rw [List.map_cons, List.map_cons, hf _ _ hxy, List.cons_prefix_cons]
    exact ⟨rfl, ih⟩

variable {κ : Type*} [DecidableEq κ] {key : α → κ}

/-- one row is changed, as `R` allows -/
theorem grows_replace {x : α} (h : ∀ r ∈ rows, key r = key x → R r x)
    (hR : ∀ r ∈ rows, key r ≠ key x → R r r) : Grows R rows (replace key x rows) := by
  induction rows with
  | nil => exact .nil _
  | cons r rows ih =>
    have hrest := ih (fun y hy => h y (List.mem_cons_of_mem _ hy)) fun y hy =>
      hR y (List.mem_cons_of_mem _ hy)
    refine .cons ?_ hrest
    show R r (if key r = key x then x else r)
    split
    · next hk => exact h r (List.mem_cons_self ..) hk
    · next hk => exact hR r (List.mem_cons_self ..) hk

/-- **Where one row gets more, so does what all rows hold**, up to the order. -/
theorem flatMap_replace_perm {β : Type*} {g : α → List β} {x y : α} {more : List β}
    (hk : (rows.map key).Nodup) (hx : x ∈ rows) (hy : key y = key x) (hg : g y = g x ++ more) :
    ((replace key y rows).flatMap g).Perm (rows.flatMap g ++ more) := by
  induction rows with
  | nil => cases hx
  | cons r rows ih =>
    rw [List.map_cons, List.nodup_cons] at hk
    show ((if key r = key y then y else r) :: replace key y rows).flatMap g |>.Perm _
    rw [List.flatMap_cons, List.flatMap_cons]
    rcases List.mem_cons.mp hx with rfl | hx
    · -- the others have other keys
      have hrest : ∀ r ∈ rows, key r ≠ key y := by
        intro r hr he
        exact hk.1 (hy ▸ he ▸ List.mem_map_of_mem hr)
      rw [if_pos hy.symm, replace_of_ne hrest, hg, List.append_assoc, List.append_assoc]
      exact (List.perm_append_comm).append_left _
    · have hne : key r ≠ key y := by
        intro he
        exact hk.1 (by rw [he, hy]; exact List.mem_map_of_mem hx)
      rw [if_neg hne, List.append_assoc]
      exact (ih hk.2 hx).append_left _

end

/-- a list that is between two equal ones is the same -/
theorem eq_of_prefix_between {α : Type*} {a b c : List α} (hab : a <+: b) (hbc : b <+: c)
    (h : c = a) : b = a ∧ c = b := by
  have hlength : b.length ≤ a.length := by
    rw [← h]
    exact hbc.length_le
  have hba : b = a := (hab.eq_of_length_le hlength).symm
  exact ⟨hba, h.trans hba.symm⟩

theorem mem_of_forall₂ {α β : Type*} {R : α → β → Prop} {xs : List α} {ys : List β}
    (h : List.Forall₂ R xs ys) {y : β} (hy : y ∈ ys) : ∃ x ∈ xs, R x y := by
  induction h with
  | nil => cases hy
  | cons hxy _ ih =>
    rcases List.mem_cons.mp hy with rfl | hy
    · exact ⟨_, List.mem_cons_self, hxy⟩
    · obtain ⟨x, hx, hr⟩ := ih hy
      exact ⟨x, List.mem_cons_of_mem _ hx, hr⟩

end Kit
