import Mathlib.Data.List.Basic
import Mathlib.Data.List.Induction
import Mathlib.Data.Option.Basic

/-!
# Runs of a partial step function

A component is given by `fire : σ → α → Option σ`: the action `a` fires in the state `s` and
leads to `t` when `fire s a = some t`, and cannot happen there otherwise.  `exec fire s as` fires
the actions `as` one after the other.

* `exec_append`, `exec_snoc`   runs compose;
* `exec_invariant`             what every step preserves, every run preserves;
* `exec_history`               the same for what depends on the run so far;
* `Along G fire s as`          every step of the run meets the side condition `G`;
* `exec_invariant_along`       the invariant rule for such runs;
* `forall_prefix_iff_along`    the same with an exact side condition;
* `Reach init fire s`          `s` ends some run from a state of `init`.

`bind_eq_ok` takes a sequence of steps that may raise apart.
-/

namespace Kit

theorem bind_eq_ok.{u, v} {ε : Type u} {α β : Type v} {x : Except ε α} {f : α → Except ε β} {b : β} :
    (x >>= f) = .ok b ↔ ∃ a, x = .ok a ∧ f a = .ok b := by
  cases x with
  | error e =>
    constructor
    · intro h; cases h
    · rintro ⟨a, h, _⟩; cases h
  | ok a =>
    constructor
    · intro h; exact ⟨a, rfl, h⟩
    · rintro ⟨a', h, hf⟩; cases h; exact hf

theorem eq_ok_of_toOption {ε α : Type*} {x : Except ε α} {a : α} (h : x.toOption = some a) :
    x = .ok a := by
  cases x with
  | error e => cases h
  | ok b =>
    cases h
    rfl

section
variable {σ α : Type*} (fire : σ → α → Option σ)

def exec : σ → List α → Option σ
  | s, [] => some s
  | s, a :: as => (fire s a).bind fun t => exec t as

theorem exec_cons (s : σ) (a : α) (as : List α) :
    exec fire s (a :: as) = (fire s a).bind fun t => exec fire t as := rfl

theorem exec_cons_eq_some {s u : σ} {a : α} {as : List α} :
    exec fire s (a :: as) = some u ↔ ∃ t, fire s a = some t ∧ exec fire t as = some u := by
  rw [exec_cons, Option.bind_eq_some_iff]

theorem exec_append (s : σ) (as bs : List α) :
    exec fire s (as ++ bs) = (exec fire s as).bind fun t => exec fire t bs := by
  induction as generalizing s with
  | nil => rfl
  | cons a as ih =>
    rw [List.cons_append, exec_cons, exec_cons]
    cases h : fire s a with
    | none => rfl
    | some t => exact ih t

theorem exec_append_eq_some {s u : σ} {as bs : List α} :
    exec fire s (as ++ bs) = some u ↔ ∃ t, exec fire s as = some t ∧ exec fire t bs = some u := by
  rw [exec_append, Option.bind_eq_some_iff]

theorem exec_snoc {s t u : σ} {as : List α} {a : α} (h : exec fire s as = some t)
    (ha : fire t a = some u) : exec fire s (as ++ [a]) = some u := by
  rw [exec_append_eq_some]
  refine ⟨t, h, ?_⟩
  rw [exec_cons_eq_some]
  exact ⟨u, ha, rfl⟩

/-- **What every step preserves, every run preserves.** -/
theorem exec_invariant {I : σ → Prop} (hI : ∀ s a t, I s → fire s a = some t → I t)
    {s u : σ} {as : List α} (h : exec fire s as = some u) (hs : I s) : I u := by
  induction as generalizing s with
  | nil => cases h; exact hs
  | cons a as ih =>
    obtain ⟨t, ha, ht⟩ := (exec_cons_eq_some fire).mp h
    exact ih ht (hI s a t hs ha)

/-- **The invariant rule with the history of the run: what holds at its start and follows a step
holds at its end.** -/
theorem exec_history {I : List α → σ → Prop} {s u : σ} (h0 : I [] s)
    (hI : ∀ as t a v, exec fire s as = some t → I as t → fire t a = some v → I (as ++ [a]) v)
    {as : List α} (h : exec fire s as = some u) : I as u := by
  induction as using List.reverseRecOn generalizing u with
  | nil => cases h; exact h0
  | append_singleton as a ih =>
    obtain ⟨t, ht, hu⟩ := (exec_append_eq_some fire).mp h
    obtain ⟨v, hv, hnil⟩ := (exec_cons_eq_some fire).mp hu
    cases hnil
    exact hI as t a u ht (ih ht) hv

def Along (G : σ → α → Prop) : σ → List α → Prop
  | _, [] => True
  | s, a :: as => G s a ∧ ∀ t, fire s a = some t → Along G t as

theorem Along.left {G : σ → α → Prop} {s : σ} {as bs : List α}
    (h : Along fire G s (as ++ bs)) : Along fire G s as := by
  induction as generalizing s with
  | nil => trivial
  | cons a as ih => exact ⟨h.1, fun t ha => ih (h.2 t ha)⟩

/-- a condition on the actions that the side condition follows from -/
theorem Along.of_forall {G : σ → α → Prop} {as : List α} (h : ∀ a ∈ as, ∀ s, G s a) (s : σ) :
    Along fire G s as := by
  induction as generalizing s with
  | nil => trivial
  | cons a as ih =>
    exact ⟨h a (List.mem_cons_self ..) s,
      fun t _ => ih (fun b hb => h b (List.mem_cons_of_mem _ hb)) t⟩

/-- a condition on the actions alone joins one on the steps -/
theorem Along.and_of_forall {P : α → Prop} {G : σ → α → Prop} {s : σ} {as : List α}
    (h : Along fire G s as) (hP : ∀ a ∈ as, P a) : Along fire (fun s a => P a ∧ G s a) s as := by
  induction as generalizing s with
  | nil => trivial
  | cons a as ih =>
    exact ⟨⟨hP a (List.mem_cons_self ..), h.1⟩,
      fun t ha => ih (h.2 t ha) fun b hb => hP b (List.mem_cons_of_mem _ hb)⟩

/-- **The invariant rule for runs whose steps all meet a side condition.** -/
theorem exec_invariant_along {I : σ → Prop} {G : σ → α → Prop}
    (hI : ∀ s a t, I s → G s a → fire s a = some t → I t)
    {s u : σ} {as : List α} (h : exec fire s as = some u) (hG : Along fire G s as) (hs : I s) :
    I u := by
  induction as generalizing s with
  | nil => cases h; exact hs
  | cons a as ih =>
    obtain ⟨t, ha, ht⟩ := (exec_cons_eq_some fire).mp h
    exact ih ht (hG.2 t ha) (hI s a t hs hG.1 ha)

/-! ## what a run puts out -/

/-- what holds of each entry of a log in the light of those before it, when one is added -/
theorem forall_entry_snoc {P : List α → α → Prop} {log : List α} {x : α}
    (h : ∀ before e after, log = before ++ e :: after → P before e) (hx : P log x)
    {before : List α} {e : α} {after : List α} (heq : log ++ [x] = before ++ e :: after) :
    P before e := by
  rcases List.eq_nil_or_concat after with rfl | ⟨after, y, rfl⟩
  · obtain ⟨rfl, hxe⟩ := List.append_inj' heq rfl
    exact List.head_eq_of_cons_eq hxe ▸ hx
  · rw [List.concat_eq_append, ← List.cons_append, ← List.append_assoc] at heq
    obtain ⟨hlog, _⟩ := List.append_inj' heq rfl
    exact h before e after hlog

/-- the outputs of the steps of a run, oldest first -/
def trace {β : Type*} (out : σ → α → List β) : σ → List α → List β
  | _, [] => []
  | s, a :: as => out s a ++ ((fire s a).elim [] fun t => trace out t as)

/-- **The invariant rule for what a run puts out**, under a side condition on its steps. -/
theorem trace_invariant_along {β : Type*} {out : σ → α → List β} {I : List β → σ → Prop}
    {G : σ → α → Prop} (hI : ∀ ys s a t, I ys s → G s a → fire s a = some t → I (ys ++ out s a) t)
    {s u : σ} {as : List α} {ys : List β} (h : exec fire s as = some u) (hG : Along fire G s as)
    (hs : I ys s) : I (ys ++ trace fire out s as) u := by
  induction as generalizing s ys with
  | nil =>
    cases h
    rw [trace, List.append_nil]
    exact hs
  | cons a as ih =>
    obtain ⟨t, ha, ht⟩ := (exec_cons_eq_some fire).mp h
    rw [trace, ha, Option.elim_some, ← List.append_assoc]
    exact ih ht (hG.2 t ha) (hI ys s a t hs hG.1 ha)

/-- **Where the side condition of a step says exactly that the step keeps `I`, the states of a run
satisfy `I` exactly when its steps meet the condition.**  `J` is what every step keeps. -/
theorem forall_prefix_iff_along {I J : σ → Prop} {G : σ → α → Prop}
    (hJ : ∀ s a t, J s → fire s a = some t → J t)
    (hI : ∀ s a t, J s → I s → fire s a = some t → (I t ↔ G s a))
    {s u : σ} {as : List α} (h : exec fire s as = some u) (hj : J s) (hi : I s) :
    (∀ bs t, bs <+: as → exec fire s bs = some t → I t) ↔ Along fire G s as := by
  constructor
  · induction as generalizing s with
    | nil => intro _; trivial
    | cons a as ih =>
      intro hall
      obtain ⟨t, ha, ht⟩ := (exec_cons_eq_some fire).mp h
      have hit : I t := hall [a] t ⟨as, rfl⟩ ((exec_cons_eq_some fire).mpr ⟨t, ha, rfl⟩)
      refine ⟨(hI s a t hj hi ha).mp hit, ?_⟩
      intro t' ha'
      rw [ha] at ha'
      cases ha'
      apply ih ht (hJ s a t hj ha) hit
      rintro bs v ⟨cs, rfl⟩ hv
      exact hall (a :: bs) v ⟨cs, rfl⟩ ((exec_cons_eq_some fire).mpr ⟨t, ha, hv⟩)
  · rintro hG bs v ⟨cs, rfl⟩ hv
    have hboth : J v ∧ I v := by
      refine exec_invariant_along fire (I := fun t => J t ∧ I t) ?_ hv (hG.left fire) ⟨hj, hi⟩
      intro s a t hs hg ha
      exact ⟨hJ s a t hs.1 ha, (hI s a t hs.1 hs.2 ha).mpr hg⟩
    exact hboth.2

/-- a side condition that can be evaluated can be evaluated along a run -/
instance decidableAlong {G : σ → α → Prop} [∀ s a, Decidable (G s a)] :
    ∀ s as, Decidable (Along fire G s as)
  | _, [] => .isTrue trivial
  | s, a :: as =>
    have : Decidable (∀ t, fire s a = some t → Along fire G t as) :=
      match _h : fire s a with
      | none => .isTrue fun _ e => nomatch e
      | some t =>
        match decidableAlong t as with
        | .isTrue ht => .isTrue fun _ e => Option.some.inj e ▸ ht
        | .isFalse hf => .isFalse fun k => hf (k t rfl)
    inferInstanceAs (Decidable (G s a ∧ ∀ t, fire s a = some t → Along fire G t as))

def Reach (init : σ → Prop) (s : σ) : Prop :=
  ∃ s₀ as, init s₀ ∧ exec fire s₀ as = some s

theorem Reach.start {init : σ → Prop} {s : σ} (h : init s) : Reach fire init s :=
  ⟨s, [], h, rfl⟩

theorem Reach.step {init : σ → Prop} {s t : σ} {a : α} (h : Reach fire init s)
    (ha : fire s a = some t) : Reach fire init t := by
  obtain ⟨s₀, as, h0, hs⟩ := h
  exact ⟨s₀, as ++ [a], h0, exec_snoc fire hs ha⟩

theorem Reach.run {init : σ → Prop} {s t : σ} {as : List α} (h : Reach fire init s)
    (ht : exec fire s as = some t) : Reach fire init t := by
  obtain ⟨s₀, bs, h0, hs⟩ := h
  exact ⟨s₀, bs ++ as, h0, (exec_append_eq_some fire).mpr ⟨s, hs, ht⟩⟩

/-- **An inductive invariant holds in every reachable state.** -/
theorem Reach.invariant {init I : σ → Prop} (h0 : ∀ s, init s → I s)
    (hI : ∀ s a t, I s → fire s a = some t → I t) {s : σ} (h : Reach fire init s) : I s := by
  obtain ⟨s₀, as, hi, hs⟩ := h
  exact exec_invariant fire hI hs (h0 s₀ hi)

end

end Kit
