import GeoRisk.Record.Gate

/-!
# The stored confidence against the model's own

`assess` lowers the model's confidence and then rounds what is left to three decimals.  The rounding
is the one step that can raise it.

* `score_le`            the confidence before rounding is never above the model's own;
* `RoundsUp`            nothing lowers the model's confidence, and rounding raises it;
* `Lifted`              nothing caps the score, and it lies within half a thousandth of the
                        threshold;
* `lowered_iff`         the stored confidence is at most the model's own, and a score below the
                        threshold is stored below it, exactly where neither is the case.
-/

namespace GeoRisk
open Kit

section
variable {event : ExtractedEvent} {verification : VerificationReport} {flags : AssessFlags}

/-- the model's confidence under the ceilings of the evidence -/
def capped (event : ExtractedEvent) (verification : VerificationReport) (flags : AssessFlags) : ℚ :=
  let c := event.confidence
  let c := if 0 < verification.failed then min c failedCitationCeiling else c
  let c := if verification.checked = 0 then min c failedCitationCeiling else c
  if flags.sourceStoresFullText then c else min c noQuotableTextCeiling

/-- what is taken off for the material fields left empty -/
def penalty (event : ExtractedEvent) : ℚ := missingFieldPenalty * (missingFields event).length

theorem score_eq : score event verification flags = max 0 (min 1
    (if flags.conflictingSources then
      min (capped event verification flags - penalty event) (reviewThreshold - 1 / 100)
    else capped event verification flags - penalty event)) := rfl

theorem ite_min_le {p : Prop} [Decidable p] (c k : ℚ) : (if p then min c k else c) ≤ c := by
  split
  · exact min_le_left _ _
  · exact le_refl _

theorem capped_le (event : ExtractedEvent) (verification : VerificationReport)
    (flags : AssessFlags) : capped event verification flags ≤ event.confidence := by
  unfold capped
  simp only
  split
  · exact le_trans (ite_min_le _ _) (ite_min_le _ _)
  · exact le_trans (min_le_left _ _) (le_trans (ite_min_le _ _) (ite_min_le _ _))

theorem capped_le_of_uncited (event : ExtractedEvent) (flags : AssessFlags)
    (h : 0 < verification.failed ∨ verification.checked = 0) :
    capped event verification flags ≤ failedCitationCeiling := by
  unfold capped
  simp only
  have hc : (if verification.checked = 0 then
      min (if 0 < verification.failed then min event.confidence failedCitationCeiling
        else event.confidence) failedCitationCeiling
      else if 0 < verification.failed then min event.confidence failedCitationCeiling
        else event.confidence) ≤ failedCitationCeiling := by
    split
    · exact min_le_right _ _
    · next hchecked =>
      rw [if_pos (h.resolve_right hchecked)]
      exact min_le_right _ _
  split
  · exact hc
  · exact le_trans (min_le_left _ _) hc

theorem capped_le_of_metadata (event : ExtractedEvent) (verification : VerificationReport)
    (h : flags.sourceStoresFullText = false) :
    capped event verification flags ≤ noQuotableTextCeiling := by
  unfold capped
  simp only [h]
  exact min_le_right _ _

/-- where the evidence sets no ceiling, or none below the confidence -/
theorem capped_eq_of_lt
    (hcited : 0 < verification.failed ∨ verification.checked = 0 →
      event.confidence < failedCitationCeiling)
    (hquotable : flags.sourceStoresFullText = false → event.confidence < noQuotableTextCeiling) :
    capped event verification flags = event.confidence := by
  have hfailed : (if 0 < verification.failed then min event.confidence failedCitationCeiling
      else event.confidence) = event.confidence := by
    split
    · next h => exact min_eq_left (le_of_lt (hcited (Or.inl h)))
    · rfl
  have hchecked : (if verification.checked = 0 then min event.confidence failedCitationCeiling
      else event.confidence) = event.confidence := by
    split
    · next h => exact min_eq_left (le_of_lt (hcited (Or.inr h)))
    · rfl
  unfold capped
  simp only [hfailed, hchecked]
  split
  · rfl
  · next h => exact min_eq_left (le_of_lt (hquotable (by simpa using h)))

theorem penalty_nonneg (event : ExtractedEvent) : 0 ≤ penalty event := by
  unfold penalty missingFieldPenalty
  positivity

theorem le_penalty (h : missingFields event ≠ []) : 1 / 20 ≤ penalty event := by
  have hlen : 1 ≤ ((missingFields event).length : ℚ) := by
    exact_mod_cast List.length_pos_iff.mpr h
  unfold penalty missingFieldPenalty
  linarith

/-- the score is what the ceilings and the penalty leave, or 0 -/
theorem score_le_max (event : ExtractedEvent) (verification : VerificationReport)
    (flags : AssessFlags) :
    score event verification flags ≤
      max 0 (capped event verification flags - penalty event) := by
  rw [score_eq]
  refine max_le_max (le_refl _) (le_trans (min_le_right _ _) ?_)
  exact ite_min_le _ _

/-- **The confidence before rounding is never above the model's own.** -/
theorem score_le : score event verification flags ≤ event.confidence := by
  refine le_trans (score_le_max _ _ _) (max_le event.confidence_range.1 ?_)
  linarith [capped_le event verification flags, penalty_nonneg event]

theorem score_le_of_conflict (event : ExtractedEvent) (verification : VerificationReport)
    (h : flags.conflictingSources = true) :
    score event verification flags ≤ reviewThreshold - 1 / 100 := by
  rw [score_eq, if_pos h]
  refine max_le (by norm_num [reviewThreshold]) ?_
  exact le_trans (min_le_right _ _) (min_le_right _ _)

theorem score_le_of_capped {k : ℚ} (hk : 0 ≤ k) (h : capped event verification flags ≤ k) :
    score event verification flags ≤ k :=
  le_trans (score_le_max _ _ _) (max_le hk (by linarith [penalty_nonneg event]))

/-- where nothing caps it, the score is what the penalty leaves -/
theorem score_eq_of_uncapped (event : ExtractedEvent)
    (hcited : verification.failed = 0 ∧ verification.checked ≠ 0)
    (hquotable : flags.sourceStoresFullText = true) (hagreed : flags.conflictingSources = false) :
    score event verification flags = max 0 (min 1 (event.confidence - penalty event)) := by
  have hcapped : capped event verification flags = event.confidence := by
    apply capped_eq_of_lt
    · rintro (h | h)
      · exact absurd hcited.1 (Nat.ne_of_gt h)
      · exact absurd h hcited.2
    · intro h
      rw [hquotable] at h
      cases h
  rw [score_eq, hcapped, hagreed]
  rfl

/-! ## rounding up -/

/-- nothing lowers the confidence of the model, and rounding raises it -/
structure RoundsUp (event : ExtractedEvent) (verification : VerificationReport)
    (flags : AssessFlags) : Prop where
  up : event.confidence < roundTo 3 event.confidence
  complete : missingFields event = []
  cited : 0 < verification.failed ∨ verification.checked = 0 →
    event.confidence < failedCitationCeiling
  quotable : flags.sourceStoresFullText = false → event.confidence < noQuotableTextCeiling
  agreed : flags.conflictingSources = true → event.confidence < reviewThreshold - 1 / 100

theorem RoundsUp.score_eq_confidence (h : RoundsUp event verification flags) :
    score event verification flags = event.confidence := by
  have hpenalty : penalty event = 0 := by
    unfold penalty
    rw [h.complete]
    norm_num
  rw [score_eq, capped_eq_of_lt h.cited h.quotable, hpenalty, sub_zero]
  have hagreed : (if flags.conflictingSources then
      min event.confidence (reviewThreshold - 1 / 100) else event.confidence) =
        event.confidence := by
    split
    · next hc => exact min_eq_left (le_of_lt (h.agreed hc))
    · rfl
  rw [hagreed, min_eq_right event.confidence_range.2, max_eq_right event.confidence_range.1]

/-- a bound of three decimals on the score that the model's confidence reaches is kept -/
theorem not_lt_of_score_le {k : ℚ} (thousandths : ℤ) (hk : k = (thousandths : ℚ) / 10 ^ 3)
    (hscore : score event verification flags ≤ k) (hevent : k ≤ event.confidence) :
    ¬event.confidence < (assess event verification flags).confidence := by
  rw [hk] at hscore hevent
  exact not_lt.mpr (le_trans (roundTo_le hscore) hevent)

/-- **The stored confidence is above the model's own exactly where rounding alone decides.** -/
theorem confidence_lt_iff :
    event.confidence < (assess event verification flags).confidence ↔
      RoundsUp event verification flags := by
  constructor
  · intro hlt
    have hround : (assess event verification flags).confidence ≤
        score event verification flags + 1 / 2000 := by
      have h := roundTo_le_add 3 (score event verification flags)
      norm_num at h
      exact h
    refine ⟨?_, ?_, ?_, ?_, ?_⟩
    · exact lt_of_lt_of_le hlt (roundTo_mono 3 score_le)
    · by_contra hmissing
      have hpen := le_penalty hmissing
      have hmax := score_le_max event verification flags
      rcases le_max_iff.mp hmax with h0 | hle
      · exact not_lt_of_score_le 0 (by norm_num) h0 event.confidence_range.1 hlt
      · have hcap := capped_le event verification flags
        linarith
    · intro huncited
      by_contra hge
      have hcap := score_le_of_capped (by norm_num [failedCitationCeiling])
        (capped_le_of_uncited event flags huncited)
      exact not_lt_of_score_le 350 (by norm_num [failedCitationCeiling]) hcap (not_lt.mp hge) hlt
    · intro hmetadata
      by_contra hge
      have hcap := score_le_of_capped (by norm_num [noQuotableTextCeiling])
        (capped_le_of_metadata event verification hmetadata)
      exact not_lt_of_score_le 500 (by norm_num [noQuotableTextCeiling]) hcap (not_lt.mp hge) hlt
    · intro hconflict
      by_contra hge
      have hcap := score_le_of_conflict event verification hconflict
      exact not_lt_of_score_le 590 (by norm_num [reviewThreshold]) hcap (not_lt.mp hge) hlt
  · intro h
    show event.confidence < roundTo 3 (score event verification flags)
    rw [h.score_eq_confidence]
    exact h.up

/-! ## lifting over the threshold -/

/-- nothing caps the score, and it lies within half a thousandth of the threshold -/
structure Lifted (event : ExtractedEvent) (verification : VerificationReport)
    (flags : AssessFlags) : Prop where
  cited : verification.failed = 0 ∧ verification.checked ≠ 0
  quotable : flags.sourceStoresFullText = true
  agreed : flags.conflictingSources = false
  near : reviewThreshold - 1 / 2000 ≤
    event.confidence - missingFieldPenalty * (missingFields event).length
  below : event.confidence - missingFieldPenalty * (missingFields event).length < reviewThreshold

/-- the threshold is an even number of thousandths, so a tie below it goes up -/
theorem threshold_le_confidence_iff :
    reviewThreshold ≤ (assess event verification flags).confidence ↔
      reviewThreshold - 1 / 2000 ≤ score event verification flags := by
  have h := even_le_roundTo (n := 3) (k := 300) (q := score event verification flags)
  have hthreshold : ((2 * 300 : ℤ) : ℚ) / 10 ^ 3 = reviewThreshold := by
    norm_num [reviewThreshold]
  have hunit : (1 : ℚ) / (2 * 10 ^ 3) = 1 / 2000 := by norm_num
  rw [hthreshold, hunit] at h
  exact h

/-- **A score below the threshold is stored at it exactly where nothing caps it and it is near.** -/
theorem lifted_iff :
    (score event verification flags < reviewThreshold ∧
        reviewThreshold ≤ (assess event verification flags).confidence) ↔
      Lifted event verification flags := by
  rw [threshold_le_confidence_iff]
  have hthreshold : reviewThreshold = 3 / 5 := rfl
  constructor
  · rintro ⟨hlow, hnear⟩
    have hcited : ¬(0 < verification.failed ∨ verification.checked = 0) := by
      intro huncited
      have hcap := score_le_of_capped (by norm_num [failedCitationCeiling])
        (capped_le_of_uncited event flags huncited)
      rw [failedCitationCeiling] at hcap
      linarith
    have hquotable : flags.sourceStoresFullText = true := by
      by_contra hmetadata
      have hcap := score_le_of_capped (by norm_num [noQuotableTextCeiling])
        (capped_le_of_metadata event verification
          (Bool.eq_false_iff.mpr hmetadata))
      rw [noQuotableTextCeiling] at hcap
      linarith
    have hagreed : flags.conflictingSources = false := by
      rw [Bool.eq_false_iff]
      intro hconflict
      have hcap := score_le_of_conflict event verification hconflict
      linarith
    rw [not_or, Nat.not_lt, Nat.le_zero] at hcited
    have hscore := score_eq_of_uncapped event hcited hquotable hagreed
    rw [hscore] at hlow hnear
    refine ⟨hcited, hquotable, hagreed, ?_, ?_⟩
    · rcases le_max_iff.mp hnear with h | h
      · linarith
      · exact le_trans h (min_le_right _ _)
    · have h := lt_of_le_of_lt (le_max_right _ _) hlow
      rcases min_lt_iff.mp h with h | h
      · linarith
      · exact h
  · intro h
    rw [score_eq_of_uncapped event h.cited h.quotable h.agreed]
    have hnear := h.near
    have hbelow := h.below
    unfold penalty
    rw [min_eq_right (by linarith), max_eq_right (by linarith)]
    exact ⟨hbelow, hnear⟩

/-! ## the claim of the docstring -/

/-- evidence only lowers the confidence, and what is below the threshold is stored below it, where
it keeps the review flag -/
structure Lowered (event : ExtractedEvent) (verification : VerificationReport)
    (flags : AssessFlags) : Prop where
  le : (assess event verification flags).confidence ≤ event.confidence
  nonneg : 0 ≤ (assess event verification flags).confidence
  below : score event verification flags < reviewThreshold →
    (assess event verification flags).confidence < reviewThreshold ∧
      ∀ severity, flagMustStay severity (some (assess event verification flags).confidence) ≠ []

/-- **Evidence only lowers the confidence exactly where the rounding neither raises the model's own
confidence nor lifts the score over the threshold.** -/
theorem lowered_iff :
    Lowered event verification flags ↔
      ¬RoundsUp event verification flags ∧ ¬Lifted event verification flags := by
  rw [← confidence_lt_iff, ← lifted_iff, not_lt, not_and, not_le]
  constructor
  · intro h
    exact ⟨h.le, fun hlow => (h.below hlow).1⟩
  · rintro ⟨hle, hbelow⟩
    refine ⟨hle, assess_range.1, fun hlow => ⟨hbelow hlow, ?_⟩⟩
    intro severity hnil
    have hkept := (flagMustStay_eq_nil.mp hnil).2 _ rfl
    exact absurd (hbelow hlow) (not_lt.mpr hkept)

end

namespace Sample

/-- a complete record with verified quotes, and a confidence of four decimals -/
def graded (confidence : ℚ) (h : 0 ≤ confidence ∧ confidence ≤ 1) : ExtractedEvent :=
  { event .moderate with confidence := confidence, confidence_range := h }

def verified : VerificationReport :=
  verifyEvidence Unicode.latin (event .moderate).evidence (some text)

end Sample

/-- 0.1236 is stored as 0.124 -/
theorem confidence_raised :
    ¬∀ (event : ExtractedEvent) (verification : VerificationReport) (flags : AssessFlags),
      (assess event verification flags).confidence ≤ event.confidence ∧
        0 ≤ (assess event verification flags).confidence ∧
        (score event verification flags < reviewThreshold →
          (assess event verification flags).confidence < reviewThreshold) := by
  intro h
  have hraised := (h (Sample.graded (309 / 2500) (by norm_num)) Sample.verified {}).1
  revert hraised
  decide +kernel

/-- 0.5996 is stored as the threshold itself -/
example : (assess (Sample.graded (1499 / 2500) (by norm_num)) Sample.verified {}).confidence =
    reviewThreshold := by
  decide +kernel

end GeoRisk
