import GeoRisk.Review.Decision

/-!
# The review state of an event

Three writers set severity, confidence, flag and status of an event: its creation, a merge and a
human decision.  `ReviewOk` is what they keep between them.

* `newEvent_reviewOk`, `mergeEvent_reviewOk`, `decided_reviewOk`    each writer keeps it;
* `ReviewOk.partition`    an event is established, or listed for review, or rejected, and only one
                          of the three;
* `mergeEvent_pending`    a merge never takes a record out of review.
-/

namespace GeoRisk

/-- flag, status, severity and confidence agree -/
structure ReviewOk (e : Event) : Prop where
  severity : e.severity.alwaysReview = true → e.requiresHumanReview = true
  confidence : ∀ c ∈ e.confidence, c < reviewThreshold → e.requiresHumanReview = true
  pending : e.reviewStatus = .pending → e.requiresHumanReview = true
  notRequired : e.reviewStatus = .notRequired → e.requiresHumanReview = false
  rejected : e.reviewStatus = .rejected → e.requiresHumanReview = true

section
variable {U : Unicode} {e : Event} {r : Report}

/-- a flag that nothing keeps set may be cleared -/
theorem reviewOk_of_unkept (hk : flagMustStay e.severity e.confidence = [])
    (hp : e.reviewStatus ≠ .pending) (hr : e.reviewStatus ≠ .rejected)
    (hf : e.requiresHumanReview = false) : ReviewOk e := by
  obtain ⟨hs, hc⟩ := flagMustStay_eq_nil.mp hk
  refine ⟨fun h => ?_, fun c hm hlt => ?_, fun h => absurd h hp, fun _ => hf, fun h => absurd h hr⟩
  · rw [hs] at h
    cases h
  · exact absurd hlt (not_lt.mpr (hc c hm))

/-- a set flag is compatible with everything but `not_required` -/
theorem reviewOk_of_flag (hf : e.requiresHumanReview = true)
    (hn : e.reviewStatus ≠ .notRequired) : ReviewOk e :=
  ⟨fun _ => hf, fun _ _ _ => hf, fun _ => hf, fun h => absurd h hn, fun _ => hf⟩

theorem newEvent_reviewOk {document : RawDocument} (id clusterId : Nat)
    (h : Gated U document r) : ReviewOk (newEvent id clusterId r) := by
  obtain ⟨flags, hc, hf⟩ := h.assessed
  cases hq : r.requiresHumanReview with
  | true =>
    refine reviewOk_of_flag hq ?_
    simp [newEvent, hq]
  | false =>
    refine reviewOk_of_unkept ?_ ?_ ?_ hq
    · -- what would keep the flag would have set it
      rw [flagMustStay_eq_nil]
      constructor
      · show r.event.severity.alwaysReview = false
        rw [Bool.eq_false_iff]
        intro hs
        have : (assess r.event r.verification flags).requiresHumanReview = true :=
          assess_flag_of_severity hs
        rw [← hf, hq] at this
        cases this
      · intro c hm
        cases hm
        rw [hc]
        by_contra hlt
        have := assess_flag_of_low (not_le.mp hlt)
        rw [← hf, hq] at this
        cases this
    · simp [newEvent, hq]
    · simp [newEvent, hq]

/-- **The review state of an update, whatever changes were applied before it.** -/
theorem applyReview_reviewOk {d : Consolidation} (hd : d.relation = .update)
    (hpending : e.reviewStatus = .pending → e.requiresHumanReview = true) :
    ReviewOk (applyReview U r d e) := by
  unfold applyReview
  rw [if_pos hd]
  simp only
  cases hn : mergeNeedsReview d e (e.confidence.map (min · r.confidence)) with
  | true =>
    refine reviewOk_of_flag rfl ?_
    rw [if_pos rfl]
    exact ReviewStatus.noConfusion
  | false =>
    -- no review is needed: nothing keeps the flag, and the old status cannot be one that an
    -- update sends back
    unfold mergeNeedsReview at hn
    simp only [Bool.or_eq_false_iff, Bool.and_eq_false_iff, Bool.not_eq_false',
      List.isEmpty_iff, decide_eq_false_iff_not] at hn
    obtain ⟨⟨⟨hdn, hkept⟩, hcleared⟩, hpend⟩ := hn
    have hchg : d.changesContent = true := by
      rcases Consolidation.relation_eq_update.mp hd with h | h
      · exact h
      · rw [hdn] at h
        cases h
    have hnot : e.reviewStatus ∉ [ReviewStatus.approved, .edited, .rejected] := by
      rcases hcleared with h | ⟨h, _⟩
      · exact h
      · rw [hchg] at h
        cases h
    refine reviewOk_of_unkept hkept ?_ ?_ rfl
    · rw [if_neg Bool.false_ne_true]
      intro hp
      rcases hpend with h | h
      · exact h hp
      · rw [hpending hp] at h
        cases h
    · rw [if_neg Bool.false_ne_true]
      intro hr
      exact hnot (by rw [hr]; decide)

theorem linkDocument_reviewOk {relation : DocumentRelation} (h : ReviewOk e) :
    ReviewOk (linkDocument r relation e) :=
  ⟨h.severity, h.confidence, h.pending, h.notRequired, h.rejected⟩

theorem mergeEvent_reviewOk (h : ReviewOk e) : ReviewOk (mergeEvent U e r) := by
  by_cases hd : (consolidation U e r).relation = .update
  · refine linkDocument_reviewOk (applyReview_reviewOk hd ?_)
    obtain ⟨_, hs, hf, _⟩ := applyContent_keeps r (consolidation U e r) e
    rw [hs, hf]
    exact h.pending
  · rw [mergeEvent_eq_of_duplicate hd]
    exact linkDocument_reviewOk h

/-- **A merge never takes a record out of review.** -/
theorem mergeEvent_pending (h : ReviewOk e) (hp : e.reviewStatus = .pending) :
    (mergeEvent U e r).reviewStatus = .pending := by
  by_cases hd : (consolidation U e r).relation = .update
  · obtain ⟨_, hs, hf, _⟩ := applyContent_keeps r (consolidation U e r) e
    show (applyReview U r _ (applyContent r (consolidation U e r) e)).reviewStatus = .pending
    unfold applyReview
    rw [if_pos hd]
    simp only
    have hn : mergeNeedsReview (consolidation U e r) (applyContent r (consolidation U e r) e)
        ((applyContent r (consolidation U e r) e).confidence.map (min · r.confidence)) = true := by
      simp [mergeNeedsReview, hs, hf, hp, h.pending hp]
    rw [if_pos hn]
  · rw [mergeEvent_eq_of_duplicate hd]
    exact hp

/-- a duplicate, or an update that brings nothing to a cleared record, keeps the status; every
other merge sends the record to review -/
theorem mergeEvent_status :
    (mergeEvent U e r).reviewStatus = e.reviewStatus ∨
      (mergeEvent U e r).reviewStatus = .pending := by
  by_cases hd : (consolidation U e r).relation = .update
  · obtain ⟨_, hs, _⟩ := applyContent_keeps r (consolidation U e r) e
    show (applyReview U r _ (applyContent r (consolidation U e r) e)).reviewStatus = _ ∨
      (applyReview U r _ (applyContent r (consolidation U e r) e)).reviewStatus = _
    unfold applyReview
    rw [if_pos hd]
    simp only
    split
    · exact Or.inr rfl
    · exact Or.inl hs
  · rw [mergeEvent_eq_of_duplicate hd]
    exact Or.inl rfl

theorem decided_reviewOk {id : Nat} {input : DecisionInput} (verb : ReviewVerb)
    (changes : List (Edited × Edited)) : ReviewOk (decided e id input verb changes) := by
  -- an approval and an edit differ in the status only
  have h : ∀ status, status ≠ .pending → status ≠ .rejected → status ≠ .notRequired →
      ∀ f : Event, f.reviewStatus = status → f.requiresHumanReview =
        !(flagMustStay f.severity f.confidence).isEmpty → ReviewOk f := by
    intro status hp hr hn f hs hf
    cases hk : (flagMustStay f.severity f.confidence).isEmpty with
    | true =>
      rw [hk] at hf
      exact reviewOk_of_unkept (List.isEmpty_iff.mp hk) (hs ▸ hp) (hs ▸ hr) hf
    | false =>
      rw [hk] at hf
      exact reviewOk_of_flag hf (hs ▸ hn)
  cases verb with
  | reject => exact reviewOk_of_flag rfl ReviewStatus.noConfusion
  | approve => exact h .approved (by decide) (by decide) (by decide) _ rfl rfl
  | edit => exact h .edited (by decide) (by decide) (by decide) _ rfl rfl

/-- **Established, listed for review, or rejected: exactly one of the three.** -/
theorem ReviewOk.partition (h : ReviewOk e) :
    (isEstablished e = true ∧ pendingQuery e = false ∧ e.reviewStatus ≠ .rejected) ∨
      (isEstablished e = false ∧ pendingQuery e = true ∧ e.reviewStatus ≠ .rejected) ∨
      (isEstablished e = false ∧ pendingQuery e = false ∧ e.reviewStatus = .rejected) := by
  unfold isEstablished pendingQuery
  cases hs : e.reviewStatus with
  | pending =>
    rw [h.pending hs]
    decide
  | approved => simp [establishedReviewStatuses]
  | rejected => simp [establishedReviewStatuses]
  | edited => simp [establishedReviewStatuses]
  | notRequired => simp [establishedReviewStatuses]

end

end GeoRisk
