import GeoRisk.Queue.Ticks
import GeoRisk.Record.Gate

/-!
# The daily budget

The guard reads the recorded cost, once before each document.  What the provider was paid is
recorded when an attempt returns and is committed, with six decimals; an attempt that raises is
rolled back with its rows.  The second pass of a document is submitted without another look at the
budget.

* `InDay`                all clocks show one day;
* `SecondBelow`, `Paid`  a second pass fits below the budget; what an attempt cost is recorded, or was
                         nothing;
* `Accounted`            what was paid is covered by the rows, and every submission was below the
                         budget;
* `charged_lt_budget`    the budget bounds what is paid in every run whose attempts are all paid
                         for by rows and ask again below the budget only.
-/

namespace GeoRisk
open Kit

/-- the clocks of the step show the day of `now` -/
def InDay (now : DateTime) : QueueAct → Prop
  | .round env => env.checkedAt.date = now.date ∧ env.call.now.date = now.date
  | _ => True

/-- where the document is submitted a second time, what is recorded for the day and the first pass
are below the budget -/
def SecondBelow (U : Unicode) (w : Worker) (env : Round) (x : Settings × RawDocument) : Prop :=
  1 < (attempt U w.session.current env.call x.2).asked.length →
    spentTodayUsd w.session.current.extractions env.checkedAt +
      cost ((attempt U w.session.current env.call x.2).calls.take 1) < x.1.dailyBudgetUsd

instance (U : Unicode) (w : Worker) (env : Round) (x : Settings × RawDocument) :
    Decidable (SecondBelow U w env x) := inferInstanceAs (Decidable (_ → _))

/-- an attempt that is kept has no cost that the column rounds down, one that is not kept cost
nothing, a second pass is below the budget, and a tick does not lose its rows -/
def Paid (U : Unicode) (w : Worker) : QueueAct → Prop
  | .round env => ∀ x ∈ w.handed env,
    (Kept U w env x → ∀ c ∈ (attempt U w.session.current env.call x.2).calls,
      c.costUsd ≤ numericTo 6 c.costUsd) ∧
    (¬Kept U w env x → cost (attempt U w.session.current env.call x.2).calls ≤ 0) ∧
    SecondBelow U w env x
  | a => Durable w a

instance (now : DateTime) (a : QueueAct) : Decidable (InDay now a) :=
  match a with
  | .round env => inferInstanceAs (Decidable (env.checkedAt.date = _ ∧ _))
  | .record _ | .start _ | .finish _ _ | .crash => .isTrue trivial

instance (U : Unicode) (w : Worker) (a : QueueAct) : Decidable (Paid U w a) :=
  match a with
  | .round env => inferInstanceAs (Decidable (∀ x ∈ w.handed env, _))
  | .record act => inferInstanceAs (Decidable (Durable w (.record act)))
  | .start settings => inferInstanceAs (Decidable (Durable w (.start settings)))
  | .finish t c => inferInstanceAs (Decidable (Durable w (.finish t c)))
  | .crash => inferInstanceAs (Decidable (Durable w .crash))

/-- what was paid is recorded, and every submission was below the budget -/
structure Accounted (now : DateTime) (w : Worker) : Prop where
  saved : Saved w
  charged : w.charged ≤ spentTodayUsd w.session.current.extractions now
  below : ∀ x ∈ w.sent, x.charged < x.dailyBudgetUsd

section
variable {U : Unicode} {now : DateTime} {w w' : Worker}

theorem accounted_idle (s : Store) (now : DateTime) : Accounted now (.idle s now) := by
  refine ⟨?_, le_refl _, ?_⟩
  · intro _
    rfl
  · intro h hm
    cases hm

theorem spentTodayUsd_congr {rows : List Extraction} {a b : DateTime} (h : a.date = b.date) :
    spentTodayUsd rows a = spentTodayUsd rows b := by
  unfold spentTodayUsd
  rw [startOfDay_eq h]

theorem cost_le_spent {env : Round} {document : RawDocument} {after : Store} {res : PipelineResult}
    (hnow : env.call.now.date = now.date)
    (hok : (attempt U w.session.current env.call document).result = .ok (after, res))
    (hpaid : ∀ c ∈ (attempt U w.session.current env.call document).calls,
      c.costUsd ≤ numericTo 6 c.costUsd) :
    spentTodayUsd w.session.current.extractions now +
        cost (attempt U w.session.current env.call document).calls ≤
      spentTodayUsd after.extractions now := by
  obtain ⟨⟨rows, hrows, hspec⟩, _⟩ := rows_of_ok hok
  have hdate : ∀ x ∈ rows, x.createdAt.date = now.date := by
    intro x hx
    rw [hspec.createdAt x hx]
    exact hnow
  rw [hrows, spentTodayUsd_append, spentTodayUsd_of_date hdate, hspec.costs]
  exact add_le_add (le_refl _) (List.sum_le_sum hpaid)

/-- **Both passes of a document are submitted below the budget.** -/
theorem below_handed {env : Round} {settings : Settings} {document : RawDocument}
    (h : Accounted now w) (hday : env.checkedAt.date = now.date)
    (hx : w.handed env = some (settings, document)) (hsecond : SecondBelow U w env (settings, document)) :
    ∀ x ∈ w.sent ++
      submissions document.id settings w.charged (attempt U w.session.current env.call document),
      x.charged < x.dailyBudgetUsd := by
  obtain ⟨rest, tick, _, hspent⟩ := handed_spec hx
  have hcharged := h.charged
  rw [← spentTodayUsd_congr hday] at hcharged
  intro x hm
  rcases List.mem_append.mp hm with hm | hm
  · exact h.below x hm
  · obtain ⟨⟨request, k⟩, hk, rfl⟩ := List.mem_map.mp hm
    have hk := List.getElem?_eq_some_iff.mp (List.mem_zipIdx_iff_getElem?.mp hk)
    have hlen : (attempt U w.session.current env.call document).asked.length ≤ 2 :=
      processDocument_asked _ _ U document
    show w.charged + cost (List.take k _) < settings.dailyBudgetUsd
    rcases Nat.eq_zero_or_pos k with rfl | hpos
    · rw [List.take_zero, cost, List.map_nil, List.sum_nil, add_zero]
      exact lt_of_le_of_lt hcharged hspent
    · have hone : k = 1 := by
        have := hk.1
        omega
      subst hone
      exact lt_of_le_of_lt (add_le_add hcharged (le_refl _)) (hsecond hk.1)

theorem accounted_round {env : Round} (h : Accounted now w) (hday : InDay now (.round env))
    (hpaid : Paid U w (.round env)) (he : RoundEffect U w env w') : Accounted now w' := by
  have hsaved := saved_round h.saved he
  cases he with
  | passed r ids tick hr _ => exact ⟨hsaved, h.charged, h.below⟩
  | raised settings document rest tick tick' hx hr hk =>
    have hcost := (hpaid _ hx).2.1 hk
    refine ⟨hsaved, ?_, below_handed h hday.1 hx (hpaid _ hx).2.2⟩
    exact le_trans (add_le_of_nonpos_right hcost) h.charged
  | uncommitted settings document rest tick hx hr hk heach =>
    have hcost := (hpaid _ hx).2.1 hk
    refine ⟨hsaved, ?_, below_handed h hday.1 hx (hpaid _ hx).2.2⟩
    -- the rollback returns to the rows there were
    show _ ≤ spentTodayUsd w.session.committed.extractions now
    rw [← h.saved.of_running hr heach]
    exact le_trans (add_le_of_nonpos_right hcost) h.charged
  | kept settings document rest tick tick' after res session hx hr hk hok hcur hcom =>
    refine ⟨hsaved, ?_, below_handed h hday.1 hx (hpaid _ hx).2.2⟩
    simp only
    rw [hcur]
    exact le_trans (add_le_add h.charged (le_refl _))
      (cost_le_spent hday.2 hok ((hpaid _ hx).1 hk))

/-- **An attempt that its rows pay for keeps the account.** -/
theorem accounted_step {a : QueueAct} (h : Accounted now w) (hday : InDay now a) (hpaid : Paid U w a)
    (ha : queueFire U w a = some w') : Accounted now w' := by
  have hsaved := saved_step h.saved ha
  cases queueFire_cases ha with
  | recorded act s hr hs =>
    refine ⟨hsaved, ?_, h.below⟩
    show w.charged ≤ spentTodayUsd s.extractions now
    rw [elsewhere_extractions hs, ← h.saved (by simp [hr])]
    exact h.charged
  | began settings ids tick hr _ => exact ⟨hsaved, h.charged, h.below⟩
  | round env w' he => exact accounted_round h hday hpaid he
  | ended a session ticks hs =>
    have hd : Durable w a := by
      cases a <;> first | exact hpaid | trivial
    refine ⟨hsaved, ?_, h.below⟩
    show w.charged ≤ spentTodayUsd session.current.extractions now
    rw [current_of_ended h.saved hd hs]
    exact h.charged

/-- **In every run within a day whose attempts are all paid for by rows and ask again below the budget
only, whenever a document is submitted the provider has been paid less than the budget.** -/
theorem charged_lt_budget (U : Unicode) {s : Store} {now : DateTime} {as : List QueueAct}
    {w : Worker} (hrun : exec (queueFire U) (.idle s now) as = some w)
    (hday : ∀ a ∈ as, InDay now a) (hpaid : Along (queueFire U) (Paid U) (.idle s now) as) :
    ∀ x ∈ w.sent, x.charged < x.dailyBudgetUsd := by
  have hall := hpaid.and_of_forall (queueFire U) hday
  have h : Accounted now w := by
    refine exec_invariant_along (queueFire U) ?_ hrun hall (accounted_idle s now)
    intro w a w' h hg ha
    exact accounted_step h hg.1 hg.2 ha
  exact h.below

end

/-! ## three runs -/

namespace Sample

def settings : Settings := ⟨1, 1 / 100, true⟩

def round (call : CallEnv) : Round := ⟨⟨0⟩, .taken, call, true⟩

def tickWith (settings : Settings) (call : CallEnv) : List QueueAct :=
  [.start settings, .round (round call), .finish ⟨0⟩ true]

def tick (call : CallEnv) : List QueueAct := tickWith settings call

def arrivals : List QueueAct := [.record (.source source), .record (.document (document text))]

/-- the call is charged, and its row is refused -/
def dropped : CallEnv := { env .moderate with refuses := fun site => site = .extractions }

/-- the first pass fails and is charged -/
def weak : CallEnv := { env .moderate with
  provider := fun r =>
    if r.model = defaultModel then
      .ok { call .moderate with result := none, error := some (txt "no parsable output") }
    else .ok (call .moderate) }

end Sample

/-- a document whose paid call left no row is submitted again beyond the budget -/
theorem dropped_exceeds_budget :
    ¬ ∀ (U : Unicode) (s : Store) (now : DateTime) (as : List QueueAct) (w : Worker),
      exec (queueFire U) (.idle s now) as = some w → (∀ a ∈ as, InDay now a) →
      ∀ x ∈ w.sent, x.charged < x.dailyBudgetUsd := by
  intro h
  have hrun : (exec (queueFire Unicode.latin) (.idle Store.empty ⟨0⟩)
      (Sample.arrivals ++ Sample.tick Sample.dropped ++ Sample.tick Sample.dropped)).map
        (fun w => w.sent.all fun x => decide (x.charged < x.dailyBudgetUsd)) = some false := by
    decide +kernel
  obtain ⟨w, hw, hbelow⟩ := Option.map_eq_some_iff.mp hrun
  rw [List.all_eq_false] at hbelow
  obtain ⟨x, hx, hnot⟩ := hbelow
  exact hnot (decide_eq_true (h _ _ _ _ w hw (by decide +kernel) x hx))

/-- the second pass is submitted although the first has cost the whole budget -/
example : (exec (queueFire Unicode.latin) (.idle Store.empty ⟨0⟩)
    (Sample.arrivals ++ Sample.tick Sample.weak)).map
      (fun w => w.sent.map fun x => (x.model, x.charged)) =
    some [(defaultModel, 0), (escalationModel, 1 / 100)] := by decide +kernel

/-- a second pass below the budget -/
theorem charged_lt_budget_published :
    ∃ w, exec (queueFire Unicode.latin) (.idle Store.empty ⟨0⟩)
        (Sample.arrivals ++ Sample.tickWith ⟨1, 1, true⟩ Sample.weak) = some w ∧
      w.sent.length = 2 ∧ ∀ x ∈ w.sent, x.charged < x.dailyBudgetUsd := by
  have hrun : (exec (queueFire Unicode.latin) (.idle Store.empty ⟨0⟩)
      (Sample.arrivals ++ Sample.tickWith ⟨1, 1, true⟩ Sample.weak)).map (·.sent.length) =
        some 2 := by
    decide +kernel
  obtain ⟨w, hw, hlen⟩ := Option.map_eq_some_iff.mp hrun
  exact ⟨w, hw, hlen, charged_lt_budget _ hw (by decide +kernel) (by decide +kernel)⟩

end GeoRisk
