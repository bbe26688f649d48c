import GeoRisk.Kit.Growth

/-!
# A table that mirrors a list

The rows of a table are brought in line with a list of items: an item whose name is known refreshes
the row that has it, and any other gets a row with a new key.  What is known is looked up once, before
the first item.

* `Mirror`               how items are written, and that neither key nor name of a row changes;
* `Mirror.sync`          the loop over the items, with the key of the row of each;
* `Mirror.sync_synced`   what it has done (`Synced`), for items with distinct names;
* `Mirror.sync_again`    rows that are in line stay as they are.
-/

namespace Kit

structure Mirror (α ι κ : Type*) where
  key : α → ℕ
  ref : α → κ
  name : ι → κ
  fresh : ℕ → ι → α
  refresh : ι → α → α
  key_fresh : ∀ n i, key (fresh n i) = n
  ref_fresh : ∀ n i, ref (fresh n i) = name i
  key_refresh : ∀ i x, key (refresh i x) = key x
  ref_refresh : ∀ i x, ref (refresh i x) = ref x
  /-- a row that was written is in line -/
  refresh_fresh : ∀ n i, refresh i (fresh n i) = fresh n i
  refresh_refresh : ∀ i x, refresh i (refresh i x) = refresh i x

namespace Mirror
variable {α ι κ : Type*} (m : Mirror α ι κ)

def sync (known : κ → Option ℕ) : ℕ → List α → List ι → ℕ × List α × List (κ × ℕ)
  | next, rows, [] => (next, rows, [])
  | next, rows, i :: items =>
    match known (m.name i) with
    | none =>
      let out := sync known (next + 1) (rows ++ [m.fresh next i]) items
      (out.1, out.2.1, (m.name i, next) :: out.2.2)
    | some k =>
      let out := sync known next (amend m.key k (m.refresh i) rows) items
      (out.1, out.2.1, (m.name i, k) :: out.2.2)

/-- the rows after the loop -/
structure Synced (next : ℕ) (rows : List α) (items : List ι) (next' : ℕ) (rows' : List α)
    (keys : List (κ × ℕ)) : Prop where
  counter : next ≤ next'
  numbered : Numbered m.key rows' next'
  refs : (rows'.map m.ref).Nodup
  grows : Grows (fun x y => m.key y = m.key x ∧ m.ref y = m.ref x) rows rows'
  untouched : ∀ x ∈ rows, (∀ i ∈ items, m.name i ≠ m.ref x) → x ∈ rows'
  origin : ∀ x ∈ rows', m.ref x ∈ rows.map m.ref ∨ ∃ i ∈ items, m.ref x = m.name i
  names : keys.map Prod.fst = items.map m.name
  /-- every item has its row, which is in line with it -/
  mirrored : ∀ i ∈ items, ∃ x ∈ rows', m.ref x = m.name i ∧ m.refresh i x = x ∧
    (m.name i, m.key x) ∈ keys

variable {m} {known : κ → Option ℕ} {next : ℕ} {rows : List α} {items : List ι}

/-- the row that is refreshed -/
theorem refs_amend (i : ι) (k : ℕ) :
    (amend m.key k (m.refresh i) rows).map m.ref = rows.map m.ref := by
  unfold amend
  rw [List.map_map]
  apply List.map_congr_left
  intro x _
  show m.ref (if m.key x = k then m.refresh i x else x) = m.ref x
  split
  · exact m.ref_refresh i x
  · rfl

theorem grows_amend (i : ι) (k : ℕ) :
    Grows (fun x y => m.key y = m.key x ∧ m.ref y = m.ref x) rows
      (amend m.key k (m.refresh i) rows) := by
  induction rows with
  | nil => exact .nil _
  | cons x rows ih =>
    refine .cons ?_ ih
    show m.key (if m.key x = k then m.refresh i x else x) = m.key x ∧
      m.ref (if m.key x = k then m.refresh i x else x) = m.ref x
    split
    · exact ⟨m.key_refresh i x, m.ref_refresh i x⟩
    · exact ⟨rfl, rfl⟩

theorem mem_amend_of_ne {f : α → α} {k : ℕ} {x : α} (hx : x ∈ rows) (hk : m.key x ≠ k) :
    x ∈ amend m.key k f rows := List.mem_map.mpr ⟨x, hx, if_neg hk⟩

theorem mem_amend_self {f : α → α} {x : α} (hx : x ∈ rows) : f x ∈ amend m.key (m.key x) f rows :=
  List.mem_map.mpr ⟨x, hx, if_pos rfl⟩

/-- one item, and then the others -/
theorem Synced.cons {i : ι} {next₁ next' k : ℕ} {rows₁ rows' : List α} {keys : List (κ × ℕ)}
    {x : α} (h : m.Synced next₁ rows₁ items next' rows' keys)
    (hnd : ((i :: items).map m.name).Nodup) (hle : next ≤ next₁)
    (hgrows : Grows (fun x y => m.key y = m.key x ∧ m.ref y = m.ref x) rows rows₁)
    (hother : ∀ y ∈ rows, m.ref y ≠ m.name i → y ∈ rows₁)
    (hrefs : ∀ y ∈ rows₁, m.ref y ∈ rows.map m.ref ∨ m.ref y = m.name i)
    (hx : x ∈ rows₁) (hk : m.key x = k) (href : m.ref x = m.name i) (hline : m.refresh i x = x) :
    m.Synced next rows (i :: items) next' rows' ((m.name i, k) :: keys) := by
  rw [List.map_cons, List.nodup_cons] at hnd
  have hnew : ∀ j ∈ items, m.name j ≠ m.name i := fun j hj he =>
    hnd.1 (he ▸ List.mem_map_of_mem hj)
  refine ⟨Nat.le_trans hle h.counter, h.numbered, h.refs, ?_, ?_, ?_, ?_, ?_⟩
  · exact hgrows.trans h.grows fun a b c hab hbc => ⟨hbc.1.trans hab.1, hbc.2.trans hab.2⟩
  · intro y hy hnone
    rw [List.forall_mem_cons] at hnone
    exact h.untouched y (hother y hy hnone.1.symm) hnone.2
  · intro y hy
    rcases h.origin y hy with hin | ⟨j, hj, he⟩
    · obtain ⟨z, hz, he⟩ := List.mem_map.mp hin
      rw [← he]
      rcases hrefs z hz with hin | he
      · exact Or.inl hin
      · exact Or.inr ⟨i, List.mem_cons_self, he⟩
    · exact Or.inr ⟨j, List.mem_cons_of_mem _ hj, he⟩
  · rw [List.map_cons, List.map_cons, h.names]
  · rw [List.forall_mem_cons]
    constructor
    · -- no later item has the name of this row
      refine ⟨x, h.untouched x hx fun j hj => href ▸ hnew j hj, href, hline, ?_⟩
      rw [hk]
      exact List.mem_cons_self
    · intro j hj
      obtain ⟨y, hy, href', hline', hmem⟩ := h.mirrored j hj
      exact ⟨y, hy, href', hline', List.mem_cons_of_mem _ hmem⟩

variable [DecidableEq κ]

/-- a row that is changed is found under its name as before -/
theorem lookup_amend (i : ι) (k : ℕ) (r : κ) :
    (lookup m.ref r (amend m.key k (m.refresh i) rows)).map m.key =
      (lookup m.ref r rows).map m.key := by
  induction rows with
  | nil => rfl
  | cons x rows ih =>
    have hx : m.ref (if m.key x = k then m.refresh i x else x) = m.ref x ∧
        m.key (if m.key x = k then m.refresh i x else x) = m.key x := by
      split
      · exact ⟨m.ref_refresh i x, m.key_refresh i x⟩
      · exact ⟨rfl, rfl⟩
    unfold lookup amend at ih ⊢
    rw [List.map_cons, List.find?_cons, List.find?_cons, hx.1]
    by_cases hr : m.ref x = r
    · rw [decide_eq_true hr]
      exact congrArg some hx.2
    · rw [decide_eq_false hr]
      exact ih

/-- **Items with distinct names are mirrored, and nothing else is touched.** -/
theorem sync_synced (hk : Numbered m.key rows next) (hrefs : (rows.map m.ref).Nodup)
    (hnd : (items.map m.name).Nodup)
    (hknown : ∀ i ∈ items, known (m.name i) = (lookup m.ref (m.name i) rows).map m.key) :
    m.Synced next rows items (m.sync known next rows items).1 (m.sync known next rows items).2.1
      (m.sync known next rows items).2.2 := by
  induction items generalizing next rows with
  | nil =>
    exact ⟨Nat.le_refl _, hk, hrefs, .refl fun x _ => ⟨rfl, rfl⟩, fun x hx _ => hx,
      fun x hx => Or.inl (List.mem_map_of_mem hx), rfl, fun i hi => absurd hi List.not_mem_nil⟩
  | cons i items ih =>
    have hnd' := hnd
    rw [List.map_cons, List.nodup_cons] at hnd'
    have hne : ∀ j ∈ items, m.name i ≠ m.name j := fun j hj he =>
      hnd'.1 (he ▸ List.mem_map_of_mem hj)
    have hi := hknown i List.mem_cons_self
    unfold sync
    cases hl : lookup m.ref (m.name i) rows with
    | none =>
      rw [hl, Option.map_none] at hi
      rw [hi]
      simp only
      have hfresh : ∀ y ∈ rows, m.ref y ≠ m.name i := fun y hy he => by
        have hsome := lookup_of_mem hrefs hy
        rw [he, hl] at hsome
        cases hsome
      have hrows : ((rows ++ [m.fresh next i]).map m.ref).Nodup :=
        nodup_insert hrefs fun y hy => m.ref_fresh next i ▸ hfresh y hy
      have hnumbered : Numbered m.key (rows ++ [m.fresh next i]) (next + 1) := by
        refine hk.append (Nat.le_of_eq (m.key_fresh _ _).symm) ?_
        rw [m.key_fresh]
        exact Nat.lt_succ_self _
      have h := ih hnumbered hrows hnd'.2 fun j hj => by
        rw [hknown j (List.mem_cons_of_mem _ hj), lookup_append_ne (m.ref_fresh next i ▸ hne j hj)]
      refine h.cons hnd (Nat.le_succ _) (.append (fun _ _ => ⟨rfl, rfl⟩) _)
        (fun y hy _ => List.mem_append_left _ hy) (fun y hy => ?_)
        (List.mem_append_right _ (List.mem_singleton_self _)) (m.key_fresh _ _) (m.ref_fresh _ _)
        (m.refresh_fresh _ _)
      rcases List.mem_append.mp hy with hy | hy
      · exact Or.inl (List.mem_map_of_mem hy)
      · rw [List.mem_singleton.mp hy]
        exact Or.inr (m.ref_fresh _ _)
    | some x =>
      rw [hl, Option.map_some] at hi
      rw [hi]
      simp only
      have hx := lookup_mem hl
      have href := lookup_key hl
      have hkeys : (amend m.key (m.key x) (m.refresh i) rows).map m.key = rows.map m.key :=
        map_amend (m.key_refresh i) _ _
      have hnumbered : Numbered m.key (amend m.key (m.key x) (m.refresh i) rows) next :=
        hk.of_map hkeys (Nat.le_refl _)
      have hrows : ((amend m.key (m.key x) (m.refresh i) rows).map m.ref).Nodup := by
        rw [refs_amend]
        exact hrefs
      have h := ih hnumbered hrows hnd'.2 fun j hj => by
        rw [hknown j (List.mem_cons_of_mem _ hj), lookup_amend]
      refine h.cons hnd (Nat.le_refl _) (grows_amend i _) (fun y hy hyne => ?_) (fun y hy => ?_)
        (mem_amend_self hx) (m.key_refresh i x) ((m.ref_refresh i x).trans href)
        (m.refresh_refresh i x)
      · refine mem_amend_of_ne hy fun he => hyne ?_
        have hsame : some y = some x := by
          rw [← lookup_of_mem hk.nodup hy, ← lookup_of_mem hk.nodup hx, he]
        cases hsame
        exact href
      · left
        rw [← refs_amend (m := m) i (m.key x)]
        exact List.mem_map_of_mem hy

/-- **Rows that are in line with all items stay as they are.** -/
theorem sync_again (hk : Numbered m.key rows next) (hrefs : (rows.map m.ref).Nodup)
    (hknown : ∀ i ∈ items, known (m.name i) = (lookup m.ref (m.name i) rows).map m.key)
    (hline : ∀ i ∈ items, ∃ x ∈ rows, m.ref x = m.name i ∧ m.refresh i x = x) :
    (m.sync known next rows items).1 = next ∧ (m.sync known next rows items).2.1 = rows := by
  induction items with
  | nil => exact ⟨rfl, rfl⟩
  | cons i items ih =>
    rw [List.forall_mem_cons] at hknown hline
    obtain ⟨x, hx, href, hxline⟩ := hline.1
    have hl : lookup m.ref (m.name i) rows = some x := href ▸ lookup_of_mem hrefs hx
    have hsame : amend m.key (m.key x) (m.refresh i) rows = rows := by
      unfold amend
      rw [List.map_congr_left (g := id), List.map_id]
      intro y hy
      by_cases he : m.key y = m.key x
      · have hyx : some y = some x := by
          rw [← lookup_of_mem hk.nodup hy, ← lookup_of_mem hk.nodup hx, he]
        cases hyx
        rw [if_pos rfl]
        exact hxline
      · rw [if_neg he]
        rfl
    unfold sync
    rw [hknown.1, hl, Option.map_some]
    simp only
    rw [hsame]
    exact ih hknown.2 hline.2

end Mirror

end Kit
