import GeoRisk.Processing.Verify

/-!
# Confidence and the review decision

`assess` turns the model's own confidence and the verification report into a stored confidence, a
review flag and the reasons for it; `flag_must_stay` is the part of the review rules that the
database repeats.  Floating-point numbers are rationals here.

* `assess_range`              the stored confidence lies between 0 and 1;
* `assess_flag_of_severity`,
  `assess_flag_of_low`        a high severity, or a stored confidence below the threshold, comes
                              with the flag: rounding cannot lift a score over the threshold;
* `flagMustStay_eq_nil`       when nothing keeps the flag.
-/

namespace GeoRisk
open Kit

def reviewThreshold : ℚ := 3 / 5

def failedCitationCeiling : ℚ := 7 / 20

def noQuotableTextCeiling : ℚ := 1 / 2

def missingFieldPenalty : ℚ := 1 / 20

/-- `REVIEW_THRESHOLD` as it is printed -/
def thresholdText : Text := txt "0.6"

structure ConfidenceAssessment where
  confidence : ℚ
  requiresHumanReview : Bool
  reasons : List Text
  deriving Repr

structure AssessFlags where
  sourceStoresFullText : Bool := true
  conflictingSources : Bool := false
  isUpdateWithoutGroundedChange : Bool := false
  deriving Repr

section
variable (event : ExtractedEvent) (verification : VerificationReport) (flags : AssessFlags)

/-- the material fields left empty -/
def missingFields : List Text :=
  (if event.locations.isEmpty then [txt "locations"] else []) ++
  (if event.actors.isEmpty then [txt "actors"] else []) ++
  (if event.affectedSectors.isEmpty then [txt "affected_sectors"] else [])

def score : ℚ :=
  let c := event.confidence
  let c := if 0 < verification.failed then min c failedCitationCeiling else c
  let c := if verification.checked = 0 then min c failedCitationCeiling else c
  let c := if flags.sourceStoresFullText then c else min c noQuotableTextCeiling
  let c := c - missingFieldPenalty * (missingFields event).length
  let c := if flags.conflictingSources then min c (reviewThreshold - 1 / 100) else c
  max 0 (min 1 c)

/-- the reasons found on the way to the score -/
def evidenceReasons : List Text :=
  (if 0 < verification.failed then
    [natText verification.failed ++ txt " of " ++ natText verification.checked ++
      txt " citations failed verification"] else []) ++
  (if verification.checked = 0 then [txt "no evidence quotes were supplied"] else []) ++
  (if flags.sourceStoresFullText then []
    else [txt "source terms permit metadata only, so quotes cannot be verified"]) ++
  (if missingFields event = [] then []
    else [txt "no " ++ join (txt ", ") (missingFields event) ++ txt " extracted"]) ++
  (if flags.conflictingSources then [txt "sources conflict on a material field"] else []) ++
  (if flags.isUpdateWithoutGroundedChange then
    [txt "classified as an update but the change note is not grounded in new evidence"] else [])

/-- the review decision of `assess` -/
def needsHuman : Bool :=
  decide (score event verification flags < reviewThreshold) || event.severity.alwaysReview ||
    decide (0 < verification.failed) || decide (verification.checked = 0) ||
    flags.conflictingSources || flags.isUpdateWithoutGroundedChange

def assess : ConfidenceAssessment :=
  let found := evidenceReasons event verification flags
  let low := score event verification flags
  { confidence := roundTo 3 low
    requiresHumanReview := needsHuman event verification flags
    reasons := found ++
      (if low < reviewThreshold ∧ found = [] then
        [txt "confidence " ++ fixed2 low ++ txt " is below " ++ thresholdText] else []) ++
      (if event.severity.alwaysReview then
        [txt "severity is " ++ event.severity.value ++ txt ", which always requires review"]
        else []) }

def flagMustStay (severity : Severity) (confidence : Option ℚ) : List Text :=
  (if severity.alwaysReview then
    [txt "severity is '" ++ severity.value ++
      txt ("': high-impact records always carry the review flag" ++
        " (ck_events_high_severity_requires_review)")] else []) ++
  (match confidence with
  | none => []
  | some c =>
    if c < reviewThreshold then
      [txt "confidence " ++ fixed2 c ++ txt " is below " ++ thresholdText ++
        txt " (ck_events_low_confidence_requires_review)"] else [])

theorem score_range : 0 ≤ score event verification flags ∧ score event verification flags ≤ 1 :=
  ⟨le_max_left _ _, max_le (by norm_num) (min_le_left _ _)⟩

variable {event verification flags}

/-- **The stored confidence is between 0 and 1.** -/
theorem assess_range :
    0 ≤ (assess event verification flags).confidence ∧
      (assess event verification flags).confidence ≤ 1 := by
  obtain ⟨h0, h1⟩ := score_range event verification flags
  constructor
  · have := le_roundTo (n := 3) (k := 0) (q := score event verification flags) (by simpa using h0)
    simpa [assess] using this
  · have := roundTo_le (n := 3) (k := 1000) (q := score event verification flags)
      (by norm_num; exact h1)
    norm_num at this
    exact this

theorem assess_flag_of_severity (h : event.severity.alwaysReview = true) :
    (assess event verification flags).requiresHumanReview = true := by
  show needsHuman event verification flags = true
  simp [needsHuman, h]

/-- **A stored confidence below the threshold comes with the review flag.** -/
theorem assess_flag_of_low
    (h : (assess event verification flags).confidence < reviewThreshold) :
    (assess event verification flags).requiresHumanReview = true := by
  have hlow : score event verification flags < reviewThreshold := by
    by_contra hge
    -- the threshold has three decimals, so a score that reaches it still does when rounded
    have h600 : ((600 : ℤ) : ℚ) / 10 ^ 3 = reviewThreshold := by norm_num [reviewThreshold]
    have := le_roundTo (n := 3) (k := 600) (q := score event verification flags)
      (by rw [h600]; exact not_lt.mp hge)
    rw [h600] at this
    exact absurd h (not_lt.mpr this)
  show needsHuman event verification flags = true
  simp [needsHuman, hlow]

theorem flagMustStay_eq_nil {severity : Severity} {confidence : Option ℚ} :
    flagMustStay severity confidence = [] ↔
      severity.alwaysReview = false ∧ ∀ c ∈ confidence, reviewThreshold ≤ c := by
  unfold flagMustStay
  cases severity.alwaysReview with
  | true => simp
  | false =>
    cases confidence with
    | none => simp
    | some c =>
      by_cases hc : c < reviewThreshold
      · simp [hc]
      · simpa [hc] using not_lt.mp hc

end

end GeoRisk
