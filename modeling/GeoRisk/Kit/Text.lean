import Mathlib.Data.List.Chain
import Mathlib.Data.List.Infix
import Mathlib.Data.List.DropRight
import Mathlib.Data.List.TakeWhile

/-!
# Searching, slicing, trimming and folding lists

The list forms of the string operations of a scripting language.

* `findAt n h`      position of the leftmost occurrence of `n` in `h` (the empty list is found
                    at `0`);
* `slice l i j`     the elements from position `i` up to, not including, `j`;
* `trim p l`        `l` without the elements of `p` at its two ends;
* `foldRuns p c l`  every maximal run of elements of `p` replaced by one `c`;
* `pieces p l`      the maximal runs of elements that are not in `p`.

`findAt_eq_some` says exactly which position is returned, `findAt_isSome` when there is one;
`slice_findAt` reads the occurrence back.  Trimming and folding keep the pieces, and a trimmed and
folded list is its pieces put together again (`intercalate_pieces`).
-/

namespace Kit

section find
variable {α : Type*} [DecidableEq α]

/-- position of the leftmost occurrence of `needle` -/
def findAt (needle : List α) : List α → Option Nat
  | [] => if needle = [] then some 0 else none
  | c :: cs => if needle <+: c :: cs then some 0 else (findAt needle cs).map (· + 1)

theorem findAt_append (u needle v : List α) :
    ∃ i, findAt needle (u ++ needle ++ v) = some i ∧ i ≤ u.length := by
  induction u with
  | nil =>
    refine ⟨0, ?_, le_refl _⟩
    have hp : needle <+: needle ++ v := List.prefix_append ..
    cases h : needle ++ v with
    | nil =>
      rw [List.append_eq_nil_iff] at h
      rw [List.nil_append, h.1, h.2]
      rfl
    | cons c cs =>
      rw [List.nil_append, h, findAt, if_pos (h ▸ hp)]
  | cons c u ih =>
    obtain ⟨i, hi, hle⟩ := ih
    rw [List.cons_append, List.cons_append, findAt]
    split
    · exact ⟨0, rfl, Nat.zero_le _⟩
    · exact ⟨i + 1, by rw [hi]; rfl, by rw [List.length_cons]; omega⟩

theorem findAt_spec {needle hay : List α} {i : Nat} (h : findAt needle hay = some i) :
    ∃ u v, hay = u ++ needle ++ v ∧ u.length = i := by
  induction hay generalizing i with
  | nil =>
    rw [findAt] at h
    split at h
    · next hn => cases h; exact ⟨[], [], by rw [hn]; rfl, rfl⟩
    · cases h
  | cons c cs ih =>
    rw [findAt] at h
    split at h
    · next hp =>
      cases h
      obtain ⟨v, hv⟩ := hp
      exact ⟨[], v, by rw [List.nil_append, hv], rfl⟩
    · obtain ⟨j, hj, rfl⟩ := Option.map_eq_some_iff.mp h
      obtain ⟨u, v, hcs, hu⟩ := ih hj
      exact ⟨c :: u, v, by rw [hcs]; rfl, by rw [List.length_cons, hu]⟩

/-- **`findAt` returns the leftmost occurrence, and nothing else.** -/
theorem findAt_eq_some {needle hay : List α} {i : Nat} :
    findAt needle hay = some i ↔
      (∃ u v, hay = u ++ needle ++ v ∧ u.length = i) ∧
        ∀ u v, hay = u ++ needle ++ v → i ≤ u.length := by
  constructor
  · intro h
    refine ⟨findAt_spec h, fun u v huv => ?_⟩
    obtain ⟨j, hj, hle⟩ := findAt_append u needle v
    rw [← huv, h] at hj
    cases hj
    exact hle
  · rintro ⟨⟨u, v, huv, hu⟩, hmin⟩
    obtain ⟨j, hj, hle⟩ := findAt_append u needle v
    rw [← huv] at hj
    obtain ⟨u', v', huv', hu'⟩ := findAt_spec hj
    have := hmin u' v' huv'
    have hij : j = i := by omega
    rw [hj, hij]

theorem findAt_isSome {needle hay : List α} : (findAt needle hay).isSome ↔ needle <:+: hay := by
  constructor
  · intro h
    obtain ⟨i, hi⟩ := Option.isSome_iff_exists.mp h
    obtain ⟨u, v, huv, _⟩ := findAt_spec hi
    exact ⟨u, v, huv.symm⟩
  · rintro ⟨u, v, huv⟩
    obtain ⟨i, hi, _⟩ := findAt_append u needle v
    rw [← huv, hi]
    rfl

theorem findAt_self (l : List α) : findAt l l = some 0 := by
  rw [findAt_eq_some]
  exact ⟨⟨[], [], by simp, rfl⟩, fun _ _ _ => Nat.zero_le _⟩

end find

section slice
variable {α : Type*}

def slice (l : List α) (i j : Nat) : List α := (l.drop i).take (j - i)

theorem slice_append (u m v : List α) :
    slice (u ++ m ++ v) u.length (u.length + m.length) = m := by
  unfold slice
  rw [List.append_assoc, List.drop_left, Nat.add_sub_cancel_left, List.take_left]

theorem slice_ne_nil {l : List α} {i j : Nat} (hij : i < j) (hj : j ≤ l.length) :
    slice l i j ≠ [] := by
  intro h
  have hlength := congrArg List.length h
  unfold slice at hlength
  rw [List.length_take, List.length_drop, List.length_nil] at hlength
  omega

theorem slice_zero (l : List α) (j : Nat) : slice l 0 j = l.take j := by
  simp [slice]

/-- the occurrence that `findAt` reports is there -/
theorem slice_findAt [DecidableEq α] {needle hay : List α} {i : Nat}
    (h : findAt needle hay = some i) : slice hay i (i + needle.length) = needle := by
  obtain ⟨u, v, rfl, rfl⟩ := findAt_spec h
  exact slice_append u needle v

end slice

section trim
variable {α : Type*} (p : α → Bool)

def trim (l : List α) : List α := (l.dropWhile p).rdropWhile p

theorem trim_isInfix (l : List α) : trim p l <:+: l :=
  (List.rdropWhile_prefix p _).isInfix.trans (List.dropWhile_suffix p).isInfix

theorem trim_eq_self {l : List α} (hhead : ∀ c ∈ l.head?, p c = false)
    (hlast : ∀ c ∈ l.getLast?, p c = false) : trim p l = l := by
  unfold trim
  have h1 : l.dropWhile p = l := by
    cases l with
    | nil => rfl
    | cons c cs => rw [List.dropWhile_cons_of_neg]; simp [hhead c rfl]
  rw [h1, List.rdropWhile_eq_self_iff]
  intro hne
  rw [hlast _ (List.getLast?_eq_some_getLast hne)]
  exact Bool.false_ne_true

theorem trim_head {l : List α} {c : α} (h : c ∈ (trim p l).head?) : p c = false := by
  unfold trim at h
  have hp := List.rdropWhile_prefix p (l.dropWhile p)
  have hc : c ∈ (l.dropWhile p).head? := by
    obtain ⟨t, ht⟩ := hp
    cases hr : (l.dropWhile p).rdropWhile p with
    | nil => rw [hr] at h; cases h
    | cons d ds =>
      rw [hr] at h ht
      rw [← ht]
      exact h
  cases hd : l.dropWhile p with
  | nil => rw [hd] at hc; cases hc
  | cons d ds =>
    have hne : l.dropWhile p ≠ [] := by rw [hd]; exact List.cons_ne_nil _ _
    have := List.head_dropWhile_not p hne
    rw [hd] at hc
    cases hc
    simpa [hd] using this

theorem trim_getLast {l : List α} {c : α} (h : c ∈ (trim p l).getLast?) : p c = false := by
  unfold trim at h
  have hne : (l.dropWhile p).rdropWhile p ≠ [] := by
    intro e
    rw [e] at h
    cases h
  have := List.rdropWhile_last_not p (l.dropWhile p) hne
  rw [List.getLast?_eq_some_getLast hne] at h
  cases h
  simpa using this

theorem trim_trim (l : List α) : trim p (trim p l) = trim p l :=
  trim_eq_self p (fun _ h => trim_head p h) (fun _ h => trim_getLast p h)

/-- what does not see an element of `p` at either end does not see trimming -/
theorem apply_trim {β : Type*} {g : List α → β} (hcons : ∀ x l, p x = true → g (x :: l) = g l)
    (hconcat : ∀ l x, p x = true → g (l ++ [x]) = g l) (l : List α) : g (trim p l) = g l := by
  have hleft : ∀ m : List α, g (m.dropWhile p) = g m := by
    intro m
    induction m with
    | nil => rfl
    | cons x m ih =>
      cases hx : p x with
      | true => rw [List.dropWhile_cons_of_pos hx, ih, hcons x m hx]
      | false => rw [List.dropWhile_cons_of_neg (Bool.eq_false_iff.mp hx)]
  have hright : ∀ m : List α, g (m.rdropWhile p) = g m := by
    intro m
    induction m using List.reverseRecOn with
    | nil => rw [List.rdropWhile_nil]
    | append_singleton m x ih =>
      cases hx : p x with
      | true => rw [List.rdropWhile_concat_pos p m x hx, ih, hconcat m x hx]
      | false => rw [List.rdropWhile_concat_neg p m x (Bool.eq_false_iff.mp hx)]
  rw [trim, hright, hleft]

theorem filter_trim (l : List α) :
    (trim p l).filter (fun x => !p x) = l.filter (fun x => !p x) := by
  refine apply_trim p (g := List.filter fun x => !p x) ?_ ?_ l
  · intro x l hx
    exact List.filter_cons_of_neg (by simp [hx])
  · intro l x hx
    rw [List.filter_append, List.filter_cons_of_neg (by simp [hx]), List.filter_nil,
      List.append_nil]

/-- trimming drops elements of `p` only -/
theorem mem_trim {x : α} (hx : p x = false) (l : List α) : x ∈ trim p l ↔ x ∈ l := by
  have h : x ∈ (trim p l).filter (fun y => !p y) ↔ x ∈ l.filter (fun y => !p y) := by
    rw [filter_trim]
  simpa [List.mem_filter, hx] using h

end trim

section fold
variable {α : Type*} (p : α → Bool) (c : α)

/-- `foldRuns` after an element of `p` (`true`) or not (`false`) -/
def foldRunsFrom : Bool → List α → List α
  | _, [] => []
  | inRun, x :: xs =>
    if p x then (if inRun then foldRunsFrom true xs else c :: foldRunsFrom true xs)
    else x :: foldRunsFrom false xs

def foldRuns (l : List α) : List α := foldRunsFrom p c false l

theorem mem_foldRunsFrom {x : α} {b : Bool} {l : List α} (h : x ∈ foldRunsFrom p c b l) :
    x = c ∨ (x ∈ l ∧ p x = false) := by
  induction l generalizing b with
  | nil => cases h
  | cons y l ih =>
    have htail : ∀ {b}, x ∈ foldRunsFrom p c b l → x = c ∨ (x ∈ y :: l ∧ p x = false) :=
      fun h => (ih h).imp id fun h => ⟨List.mem_cons_of_mem _ h.1, h.2⟩
    rw [foldRunsFrom] at h
    cases hy : p y with
    | true =>
      rw [hy, if_pos rfl] at h
      split at h
      · exact htail h
      · rcases List.mem_cons.mp h with h | h
        · exact Or.inl h
        · exact htail h
    | false =>
      rw [hy, if_neg Bool.false_ne_true] at h
      rcases List.mem_cons.mp h with h | h
      · exact Or.inr ⟨h ▸ List.mem_cons_self .., h ▸ hy⟩
      · exact htail h

/-- the elements of `p` in the list are single `c`s, no two of them adjacent -/
def Single (l : List α) : Prop :=
  (∀ x ∈ l, p x = true → x = c) ∧ l.IsChain fun x y => ¬(p x = true ∧ p y = true)

variable {p c}

theorem Single.of_isInfix {l m : List α} (h : Single p c l) (hm : m <:+: l) : Single p c m :=
  ⟨fun x hx => h.1 x (hm.subset hx), List.IsChain.infix h.2 hm⟩

theorem foldRunsFrom_single (b : Bool) (l : List α) :
    Single p c (foldRunsFrom p c b l) ∧
      (b = true → ∀ x ∈ (foldRunsFrom p c b l).head?, p x = false) := by
  induction l generalizing b with
  | nil => simp [foldRunsFrom, Single]
  | cons y l ih =>
    rw [foldRunsFrom]
    cases hy : p y with
    | true =>
      obtain ⟨⟨hm, hch⟩, hhd⟩ := ih true
      cases b with
      | true => exact ⟨⟨hm, hch⟩, hhd⟩
      | false =>
        refine ⟨⟨?_, ?_⟩, fun h => by cases h⟩
        · intro x hx hpx
          rcases List.mem_cons.mp hx with h | h
          · exact h
          · exact hm x h hpx
        · refine List.isChain_cons.mpr ⟨fun z hz hpz => ?_, hch⟩
          rw [hhd rfl z hz] at hpz
          cases hpz.2
    | false =>
      obtain ⟨⟨hm, hch⟩, _⟩ := ih false
      refine ⟨⟨?_, ?_⟩, fun _ x hx => ?_⟩
      · intro x hx hpx
        rcases List.mem_cons.mp hx with h | h
        · rw [h, hy] at hpx; cases hpx
        · exact hm x h hpx
      · refine List.isChain_cons.mpr ⟨fun z _ hpz => ?_, hch⟩
        rw [hy] at hpz
        cases hpz.1
      · cases hx
        exact hy

theorem foldRuns_single (l : List α) : Single p c (foldRuns p c l) :=
  (foldRunsFrom_single false l).1

theorem foldRunsFrom_eq_self {l : List α} (h : Single p c l) {b : Bool}
    (hb : b = true → ∀ x ∈ l.head?, p x = false) : foldRunsFrom p c b l = l := by
  induction l generalizing b with
  | nil => rfl
  | cons y l ih =>
    obtain ⟨hm, hch⟩ := h
    have htail : Single p c l := ⟨fun x hx => hm x (List.mem_cons_of_mem _ hx), hch.tail⟩
    rw [foldRunsFrom]
    cases hy : p y with
    | true =>
      cases b with
      | true => rw [hb rfl y rfl] at hy; cases hy
      | false =>
        have hl : foldRunsFrom p c true l = l := by
          refine ih htail fun _ x hx => ?_
          have := (List.isChain_cons.mp hch).1 x hx
          simpa [hy] using this
        simp [hl, hm y (List.mem_cons_self ..) hy]
    | false =>
      have hl : foldRunsFrom p c false l = l := ih htail (fun hf => by cases hf)
      simp [hl]

theorem foldRuns_eq_self {l : List α} (h : Single p c l) : foldRuns p c l = l :=
  foldRunsFrom_eq_self h (fun hf => by cases hf)

theorem filter_foldRunsFrom (hc : p c = true) (b : Bool) (l : List α) :
    (foldRunsFrom p c b l).filter (fun x => !p x) = l.filter (fun x => !p x) := by
  induction l generalizing b with
  | nil => rfl
  | cons y l ih =>
    rw [foldRunsFrom]
    cases hy : p y with
    | true => cases b <;> simp [hy, hc, ih]
    | false => simp [hy, ih]

theorem filter_foldRuns (hc : p c = true) (l : List α) :
    (foldRuns p c l).filter (fun x => !p x) = l.filter (fun x => !p x) :=
  filter_foldRunsFrom hc false l

theorem foldRunsFrom_sublist {l : List α} (h : ∀ x ∈ l, p x = true → x = c) (b : Bool) :
    List.Sublist (foldRunsFrom p c b l) l := by
  induction l generalizing b with
  | nil => exact List.Sublist.refl _
  | cons y l ih =>
    have ih' := ih (fun x hx => h x (List.mem_cons_of_mem _ hx))
    rw [foldRunsFrom]
    cases hy : p y with
    | true =>
      have hyc := h y (List.mem_cons_self ..) hy
      cases b with
      | true => exact (ih' true).cons y
      | false => simpa [hyc] using ih' true
    | false => simpa using ih' false

theorem foldRuns_sublist {l : List α} (h : ∀ x ∈ l, p x = true → x = c) :
    List.Sublist (foldRuns p c l) l := foldRunsFrom_sublist h false

end fold

section pieces
variable {α : Type*} {p : α → Bool} {c : α}

/-- by the first element of `p` -/
theorem sep_induction {motive : List α → Prop}
    (free : ∀ u, (∀ x ∈ u, p x = false) → motive u)
    (sep : ∀ u x v, (∀ y ∈ u, p y = false) → p x = true → motive v → motive (u ++ x :: v))
    (l : List α) : motive l := by
  have h : ∀ u, (∀ x ∈ u, p x = false) → motive (u ++ l) := by
    induction l with
    | nil =>
      intro u hu
      rw [List.append_nil]
      exact free u hu
    | cons x l ih =>
      intro u hu
      cases hx : p x with
      | true => exact sep u x l hu hx (ih [] fun y hy => by cases hy)
      | false =>
        rw [← List.singleton_append, ← List.append_assoc]
        refine ih (u ++ [x]) fun y hy => ?_
        rcases List.mem_append.mp hy with hy | hy
        · exact hu y hy
        · exact List.mem_singleton.mp hy ▸ hx
  exact h [] fun y hy => by cases hy

variable (p) in
def pieces (l : List α) : List (List α) := (l.splitOnP p).filter fun w => !w.isEmpty

theorem pieces_append_cons (u : List α) {x : α} (hx : p x = true) (v : List α) :
    pieces p (u ++ x :: v) = pieces p u ++ pieces p v := by
  unfold pieces
  rw [List.splitOnP_append_cons u v hx, List.filter_append]

theorem pieces_nil : pieces p [] = [] := rfl

theorem pieces_cons {x : α} (hx : p x = true) (l : List α) : pieces p (x :: l) = pieces p l :=
  pieces_append_cons [] hx l

theorem pieces_concat (l : List α) {x : α} (hx : p x = true) : pieces p (l ++ [x]) = pieces p l := by
  rw [pieces_append_cons l hx, pieces_nil, List.append_nil]

theorem pieces_free {u : List α} (hu : ∀ x ∈ u, p x = false) (hne : u ≠ []) :
    pieces p u = [u] := by
  unfold pieces
  rw [List.splitOnP_eq_singleton hu]
  exact List.filter_cons_of_pos (by simp [hne])

theorem mem_pieces_free {u w : List α} (hu : ∀ x ∈ u, p x = false) (hw : w ∈ pieces p u) :
    w = u := by
  cases u with
  | nil => cases hw
  | cons y u =>
    rw [pieces_free hu (List.cons_ne_nil y u)] at hw
    exact List.mem_singleton.mp hw

theorem flatten_pieces_free {u : List α} (hu : ∀ x ∈ u, p x = false) :
    (pieces p u).flatten = u := by
  cases u with
  | nil => rfl
  | cons y u => rw [pieces_free hu (List.cons_ne_nil y u), List.flatten_singleton]

theorem mem_pieces_isInfix {w l : List α} (hw : w ∈ pieces p l) : w <:+: l := by
  induction l using sep_induction (p := p) with
  | free u hu => exact mem_pieces_free hu hw ▸ List.infix_rfl
  | sep u x v hu hx ih =>
    rw [pieces_append_cons u hx v] at hw
    rcases List.mem_append.mp hw with hw | hw
    · exact mem_pieces_free hu hw ▸ (List.prefix_append ..).isInfix
    · exact List.infix_append_of_infix_right ((ih hw).trans (List.suffix_cons x v).isInfix)

/-- without the elements of `p` the pieces stand next to each other -/
theorem flatten_pieces (l : List α) : (pieces p l).flatten = l.filter fun x => !p x := by
  have hfilter : ∀ u : List α, (∀ x ∈ u, p x = false) → (u.filter fun x => !p x) = u :=
    fun u hu => List.filter_eq_self.mpr fun x hx => by rw [hu x hx]; rfl
  induction l using sep_induction (p := p) with
  | free u hu => rw [flatten_pieces_free hu, hfilter u hu]
  | sep u x v hu hx ih =>
    rw [pieces_append_cons u hx v, List.flatten_append, flatten_pieces_free hu, ih,
      List.filter_append, hfilter u hu,
      List.filter_cons_of_neg (by rw [hx]; exact Bool.false_ne_true)]

theorem pieces_trim (l : List α) : pieces p (trim p l) = pieces p l :=
  apply_trim p (fun _ l hx => pieces_cons hx l) (fun l _ hx => pieces_concat l hx) l

/-- elements outside `p` end a run -/
theorem foldRunsFrom_append {u : List α} (hu : ∀ x ∈ u, p x = false) (b : Bool) (v : List α) :
    foldRunsFrom p c b (u ++ v) = u ++ foldRunsFrom p c (b && u.isEmpty) v := by
  induction u generalizing b with
  | nil => rw [List.nil_append, List.nil_append, List.isEmpty_nil, Bool.and_true]
  | cons x u ih =>
    have hx : p x = false := hu x (List.mem_cons_self ..)
    rw [List.cons_append, foldRunsFrom, hx, if_neg Bool.false_ne_true,
      ih (fun y hy => hu y (List.mem_cons_of_mem _ hy)), List.isEmpty_cons, Bool.and_false,
      Bool.false_and, List.cons_append]

theorem pieces_foldRuns (hc : p c = true) (l : List α) :
    pieces p (foldRuns p c l) = pieces p l := by
  have h : ∀ b, pieces p (foldRunsFrom p c b l) = pieces p l := by
    induction l using sep_induction (p := p) with
    | free u hu =>
      intro b
      rw [← List.append_nil u, foldRunsFrom_append hu]
      rfl
    | sep u x v hu hx ih =>
      intro b
      rw [foldRunsFrom_append hu, foldRunsFrom, if_pos hx, pieces_append_cons u hx v]
      split
      · next hb =>
        have hnil : u = [] := List.isEmpty_iff.mp (Bool.and_eq_true_iff.mp hb).2
        rw [hnil]
        exact ih true
      · rw [pieces_append_cons u hc, ih true]
  exact h false

/-- changing the elements of `p` among each other -/
theorem pieces_map {f : α → α} (hf : ∀ x, p x = false → f x = x)
    (hp : ∀ x, p x = true → p (f x) = true) (l : List α) : pieces p (l.map f) = pieces p l := by
  have hmap : ∀ u : List α, (∀ x ∈ u, p x = false) → u.map f = u := by
    intro u hu
    rw [List.map_congr_left (g := id) fun x hx => hf x (hu x hx), List.map_id]
  induction l using sep_induction (p := p) with
  | free u hu => rw [hmap u hu]
  | sep u x v hu hx ih =>
    rw [List.map_append, List.map_cons, hmap u hu, pieces_append_cons u (hp x hx), ih,
      pieces_append_cons u hx]

/-- **A list with single inner elements of `p` is its pieces put together.** -/
theorem intercalate_pieces {l : List α} (hl : Single p c l)
    (hhead : ∀ x ∈ l.head?, p x = false) (hlast : ∀ x ∈ l.getLast?, p x = false) :
    [c].intercalate (pieces p l) = l := by
  induction l using sep_induction (p := p) with
  | free u hu =>
    cases u with
    | nil => rfl
    | cons y u => rw [pieces_free hu (List.cons_ne_nil y u), List.intercalate_singleton]
  | sep u x v hu hx ih =>
    have hxc : x = c := hl.1 x (by simp) hx
    cases u with
    | nil =>
      rw [hhead x rfl] at hx
      cases hx
    | cons y u =>
      have hv : v ≠ [] := by
        rintro rfl
        rw [hlast x (by rw [List.getLast?_concat]; rfl)] at hx
        cases hx
      have hsub : v <:+: (y :: u) ++ x :: v :=
        List.infix_append_of_infix_right (List.suffix_cons x v).isInfix
      have hchain := (List.isChain_append.mp hl.2).2.1
      have hih := ih (hl.of_isInfix hsub)
        (fun z hz => by
          have := (List.isChain_cons.mp hchain).1 z hz
          rw [hx] at this
          simpa using this)
        (fun z hz => hlast z (by
          rw [List.getLast?_append_of_ne_nil _ (List.cons_ne_nil x v), List.getLast?_cons]
          rw [List.getLast?_eq_some_getLast hv] at hz ⊢
          exact hz))
      have hne : pieces p v ≠ [] := by
        intro hnil
        rw [hnil, List.intercalate_nil] at hih
        exact hv hih.symm
      rw [pieces_append_cons _ hx, pieces_free hu (List.cons_ne_nil y u), List.singleton_append,
        List.intercalate_cons_of_ne_nil hne, hih, hxc, List.append_assoc]
      rfl

/-- **Trimming and folding puts the pieces together.** -/
theorem trim_foldRuns (hc : p c = true) (l : List α) :
    trim p (foldRuns p c l) = [c].intercalate (pieces p l) := by
  have hsingle := (foldRuns_single (c := c) l).of_isInfix (trim_isInfix p (foldRuns p c l))
  rw [← pieces_foldRuns hc, ← pieces_trim]
  exact (intercalate_pieces hsingle (fun _ h => trim_head p h) fun _ h => trim_getLast p h).symm

end pieces

end Kit
