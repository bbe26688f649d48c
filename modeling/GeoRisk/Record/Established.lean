import GeoRisk.Record.Gate

/-!
# What the product shows

* `review_of_reach`    the review state of every record of a reachable store, and that only a
                       decision takes a record out of review;
* `Hidden`, `Clears`   a record that is not established; a decision that establishes it;
* `rejected_iff`       after a rejection a record stays hidden exactly as long as no decision
                       approves or edits it: merges never bring it back.
-/

namespace GeoRisk
open Kit

section
variable {U : Unicode} {s t : Store}

/-! ## the review state in every reachable store -/

theorem reviewOk_step {a : Act} (h : ∀ e ∈ s.events, ReviewOk e) (ha : fire U s a = some t) :
    ∀ e ∈ t.events, ReviewOk e := by
  intro f hf
  cases origin_of_mem ha hf with
  | kept hf => exact h f hf
  | created document r id clusterId _ hg => exact newEvent_reviewOk id clusterId hg
  | merged document r existing hmem _ _ => exact mergeEvent_reviewOk (h existing hmem)
  | decided e id input verb changes hmem _ => exact decided_reviewOk verb changes

theorem reviewOk_of_reach (h : Reachable U s) : ∀ e ∈ s.events, ReviewOk e :=
  h.invariant (fire U) (fun _ h0 => by subst h0; exact fun _ he => absurd he (List.not_mem_nil))
    fun _ _ _ => reviewOk_step

theorem pending_step {a : Act} {i : Nat} {e : Event} (h : Reachable U s)
    (hdec : ∀ j input, a ≠ .decide j input) (ha : fire U s a = some t)
    (he : s.event? i = some e) (hp : e.reviewStatus = .pending) :
    ∃ f, t.event? i = some f ∧ f.reviewStatus = .pending := by
  obtain ⟨f, hf, hc⟩ := fire_event (keyed_of_reach h) he ha
  refine ⟨f, hf, ?_⟩
  cases hc with
  | same => exact hp
  | merged _ _ _ r => exact mergeEvent_pending (reviewOk_of_reach h e (lookup_mem he)) hp
  | decided input ha _ _ _ => exact absurd ha (hdec i input)

/-- **In every reachable store the review fields of a record agree, it is established, listed or
rejected and only one of them, and only a decision takes it out of review.** -/
theorem review_of_reach (h : Reachable U s) :
    (∀ e ∈ s.events, ReviewOk e ∧
      ((isEstablished e = true ∧ pendingQuery e = false ∧ e.reviewStatus ≠ .rejected) ∨
        (isEstablished e = false ∧ pendingQuery e = true ∧ e.reviewStatus ≠ .rejected) ∨
        (isEstablished e = false ∧ pendingQuery e = false ∧ e.reviewStatus = .rejected))) ∧
    ∀ a t i e, (∀ j input, a ≠ .decide j input) → fire U s a = some t → s.event? i = some e →
      e.reviewStatus = .pending → ∃ f, t.event? i = some f ∧ f.reviewStatus = .pending :=
  ⟨fun e he => ⟨reviewOk_of_reach h e he, (reviewOk_of_reach h e he).partition⟩,
    fun _ _ _ _ hdec ha he hp => pending_step h hdec ha he hp⟩

end

def Sample.flagged : List Act :=
  [.source Sample.source, .document (Sample.document Sample.text), .process 1 (Sample.env .severe)]

theorem review_flagged :
    ∃ s, exec (fire Unicode.latin) Store.empty Sample.flagged = some s ∧
      s.events.map (·.reviewStatus) = [.pending] ∧ ∀ e ∈ s.events, ReviewOk e := by
  have h : (exec (fire Unicode.latin) Store.empty Sample.flagged).map
      (fun s => s.events.map (·.reviewStatus)) = some [.pending] := by decide +kernel
  obtain ⟨s, hs, hev⟩ := Option.map_eq_some_iff.mp h
  exact ⟨s, hs, hev, fun e he => ((review_of_reach ⟨_, _, rfl, hs⟩).1 e he).1⟩

/-! ## rejected records -/

/-- the record is not established -/
def Hidden (i : Nat) (s : Store) : Prop := ∃ e, s.event? i = some e ∧ isEstablished e = false

/-- the call is a decision, accepted at `s`, that approves or edits the record -/
def Clears (i : Nat) (s : Store) (a : Act) : Prop :=
  ∃ input e verb changes, a = .decide i input ∧ s.event? i = some e ∧
    validateDecision e input = .ok (verb, changes) ∧ verb ≠ .reject

section
variable {U : Unicode} {s t u : Store} {i : Nat}

theorem mergeEvent_hidden {e : Event} {r : Report} (h : isEstablished e = false) :
    isEstablished (mergeEvent U e r) = false := by
  unfold isEstablished at h ⊢
  rcases mergeEvent_status (U := U) (e := e) (r := r) with hs | hs
  · rw [hs]
    exact h
  · rw [hs]
    decide

/-- **Whatever the call, a hidden record is hidden afterwards exactly when it does not clear it.** -/
theorem hidden_step {a : Act} (hk : Keyed s) (hh : Hidden i s) (ha : fire U s a = some t) :
    Hidden i t ↔ ¬Clears i s a := by
  obtain ⟨e, he, hest⟩ := hh
  constructor
  · rintro ⟨f, hf, hfest⟩ ⟨input, g, verb, changes, rfl, hg, hv, hne⟩
    have hput := fire_decide_accepted hg hv ha
    rw [hf] at hput
    cases hput
    rw [(isEstablished_decided verb changes).mpr hne] at hfest
    cases hfest
  · intro hno
    obtain ⟨f, hf, hc⟩ := fire_event hk he ha
    refine ⟨f, hf, ?_⟩
    cases hc with
    | same => exact hest
    | merged _ _ _ r => exact mergeEvent_hidden hest
    | decided input ha' verb changes hv =>
      rw [Bool.eq_false_iff]
      intro hshow
      exact hno ⟨input, e, verb, changes, ha', he, hv, (isEstablished_decided verb changes).mp hshow⟩

/-- the run law: hidden in every state from here on exactly when no step clears the record -/
theorem hidden_run (hr : Reachable U s) (hh : Hidden i s) {as : List Act}
    (hrun : exec (fire U) s as = some u) :
    (∀ bs v, bs <+: as → exec (fire U) s bs = some v → Hidden i v) ↔
      Along (fire U) (fun v a => ¬Clears i v a) s as := by
  apply forall_prefix_iff_along (fire U) (fun v a w hv ha => Reach.step (fire U) hv ha) ?_ hrun hr hh
  intro v a w hv hhid ha
  exact hidden_step (keyed_of_reach hv) hhid ha

/-- **After a recorded rejection a record stays hidden exactly as long as no later decision
approves or edits it.** -/
theorem rejected_iff (hr : Reachable U s) {input : DecisionInput} {e : Event}
    {changes : List (Edited × Edited)} (he : s.event? i = some e)
    (hv : validateDecision e input = .ok (.reject, changes))
    (ht : fire U s (.decide i input) = some t) {as : List Act}
    (hrun : exec (fire U) t as = some u) :
    (∀ bs v, bs <+: as → exec (fire U) t bs = some v → Hidden i v) ↔
      Along (fire U) (fun v a => ¬Clears i v a) t as := by
  refine hidden_run (hr.step _ ht) ⟨_, fire_decide_accepted he hv ht, ?_⟩ hrun
  rw [Bool.eq_false_iff]
  exact fun h => (isEstablished_decided .reject changes).mp h rfl

end

namespace Sample

def decision (verb : Text) : DecisionInput where
  reviewer := txt "analyst"
  decision := verb
  reason := txt "checked against the notice"
  decidedAt := ⟨1⟩

theorem reject_valid (e : Event) :
    validateDecision e (decision (txt "reject")) = .ok (.reject, []) := rfl

def rejected : List Act := published ++ [.decide 4 (decision (txt "reject"))]

/-- a second notice of the same disruption, more severe -/
def laterNotice : List Act := [.document (document text), .process 6 (env .severe)]

end Sample

/-- a rejected record that is approved later is established -/
theorem rejected_then_approved :
    ¬ ∀ (U : Unicode) (s t u : Store) (i : Nat) (input : DecisionInput) (e : Event)
      (changes : List (Edited × Edited)) (as : List Act), Reachable U s → s.event? i = some e →
      validateDecision e input = .ok (.reject, changes) → fire U s (.decide i input) = some t →
      exec (fire U) t as = some u → Hidden i u := by
  intro h
  have hrun : (exec (fire Unicode.latin) Store.empty (Sample.rejected ++
      [.decide 4 (Sample.decision (txt "approve"))])).map
        (fun s => (s.event? 4).map isEstablished) = some (some true) := by decide +kernel
  obtain ⟨u, hu, hest⟩ := Option.map_eq_some_iff.mp hrun
  rw [Sample.rejected, List.append_assoc] at hu
  obtain ⟨s, hs, hu⟩ := (exec_append_eq_some _).mp hu
  obtain ⟨t, ht, hu⟩ := (exec_cons_eq_some _).mp hu
  obtain ⟨e, he, _⟩ := Option.map_eq_some_iff.mp ht
  obtain ⟨f, hf, hhid⟩ := h _ s t u 4 _ e [] _ ⟨_, _, rfl, hs⟩ he (Sample.reject_valid e) ht hu
  rw [hf] at hest
  rw [Option.map_some, hhid] at hest
  cases hest

theorem rejected_iff_merged :
    ∃ s t u, exec (fire Unicode.latin) Store.empty Sample.published = some s ∧
      fire Unicode.latin s (.decide 4 (Sample.decision (txt "reject"))) = some t ∧
      exec (fire Unicode.latin) t Sample.laterNotice = some u ∧
      u.events.map (·.documents.length) = [2] ∧
      ((∀ bs v, bs <+: Sample.laterNotice → exec (fire Unicode.latin) t bs = some v →
          Hidden 4 v) ↔
        Along (fire Unicode.latin) (fun v a => ¬Clears 4 v a) t Sample.laterNotice) := by
  have hrun : (exec (fire Unicode.latin) Store.empty (Sample.rejected ++ Sample.laterNotice)).map
      (fun u => u.events.map (·.documents.length)) = some [2] := by decide +kernel
  obtain ⟨u, hu, hdocs⟩ := Option.map_eq_some_iff.mp hrun
  rw [Sample.rejected, List.append_assoc] at hu
  obtain ⟨s, hs, hu⟩ := (exec_append_eq_some _).mp hu
  obtain ⟨t, ht, hu⟩ := (exec_cons_eq_some _).mp hu
  obtain ⟨e, he, _⟩ := Option.map_eq_some_iff.mp ht
  exact ⟨s, t, u, hs, ht, hu, hdocs,
    rejected_iff ⟨_, _, rfl, hs⟩ he (Sample.reject_valid e) ht hu⟩

end GeoRisk
