import GeoRisk.Processing.Pipeline

/-!
# The labelled set

Documents that are invented, each with the result that a correct extraction has and the outcome that
the pipeline should reach.

* `EvalDocument`, `EvalScenario`    a document, and documents that are run in order;
* `LabelledSet`                     scenarios whose measured documents have distinct keys;
* `phase4Core`                      the set of the repository.
-/

namespace GeoRisk

/-- `EVAL_LABEL_TYPES`, and `__setup__` -/
inductive EvalLabel
  | relation (r : DocumentRelation)
  | insufficientEvidence
  | setup
  deriving DecidableEq, Repr

def EvalLabel.value : EvalLabel → Text
  | relation r => r.value
  | insufficientEvidence => txt "insufficient_evidence"
  | setup => txt "__setup__"

/-- a value of `expected` or `actual` -/
inductive EvalValue
  | none
  | bool (b : Bool)
  | text (t : Text)
  deriving DecidableEq, Repr

/-- what should be, or was, reached: the value of each key -/
abbrev Outcome := List (Text × EvalValue)

structure EvalDocument where
  key : Text
  labelType : EvalLabel
  title : Text
  text : Text
  result : ExtractionResult
  expected : Outcome
  /-- measured, or there to set up the state for a later document -/
  scored : Bool := true
  notes : Text := []

structure EvalScenario where
  key : Text
  documents : List EvalDocument
  /-- all documents get one vector -/
  sameCluster : Bool := false

def scoredDocuments (scenarios : List EvalScenario) : List EvalDocument :=
  scenarios.flatMap fun x => x.documents.filter (·.scored)

/-- what is evaluated, under a name and a version -/
structure LabelledSet where
  name : Text
  version : Text
  description : Text
  scenarios : List EvalScenario
  distinct : ((scoredDocuments scenarios).map (·.key)).Nodup
  named : ∀ d ∈ scoredDocuments scenarios, d.key ≠ []

/-- the five keys that are measured -/
def outcomeOf (relation outcome : EvalValue) (eventCreated : Bool)
    (requiresHumanReview severity : EvalValue) : Outcome :=
  [(txt "relation", relation), (txt "outcome", outcome),
    (txt "event_created", .bool eventCreated),
    (txt "requires_human_review", requiresHumanReview), (txt "severity", severity)]

/-! ## the set of the repository -/

namespace Phase4

/-- `_event` -/
def event (title : Bounded 8 200) (summary : Bounded 20 1200) (severity : Severity)
    (severityRationale : Bounded 10 600) (quotes : List EvidenceQuote)
    (hquotes : 1 ≤ quotes.length ∧ quotes.length ≤ 25) (confidence : ℚ)
    (hconfidence : 0 ≤ confidence ∧ confidence ≤ 1) : ExtractedEvent where
  eventType := .portDisruption
  eventDate := Date.ofCivil 2026 9 1
  title := title
  summary := summary
  severity := severity
  severityRationale := severityRationale
  locations := [⟨⟨txt "Example Port", by decide +kernel, by decide +kernel, by decide +kernel⟩, .port,
    some (txt "GB"), by intro c hc; cases hc; decide, .facility⟩]
  locations_length := by decide +kernel
  actors := [⟨⟨txt "Example Port Authority", by decide +kernel, by decide +kernel,
    by decide +kernel⟩, .portAuthority, .authorityIssuingNotice⟩]
  actors_length := by decide +kernel
  affectedSectors := [.portsTerminals, .maritimeShipping]
  affectedSectors_length := by decide +kernel
  evidence := quotes
  evidence_length := hquotes
  confidence := confidence
  confidence_range := hconfidence

theorem consistent_some (event : ExtractedEvent) :
    (some event).isSome = (true && !false) ∧
      (some event = none → ∃ r ∈ (none : Option (Bounded 0 500)), r.text ≠ []) := by
  refine ⟨rfl, fun h => ?_⟩
  cases h

/-- `_result` -/
def result (event : ExtractedEvent) : ExtractionResult :=
  ⟨true, false, none, some event, consistent_some event⟩

def closureText : Text :=
  txt "NOTICE TO MARINERS. The port of Example is closed to all traffic following a " ++
    txt "channel obstruction identified during a routine survey. Vessels should expect " ++
    txt "delays of up to 72 hours. The Example Port Authority will issue a further update " ++
    txt "at 0600 local time."

def summaryName : Text := txt "summary"
def severityName : Text := txt "severity"

/-- the fields that the quotes support -/
def summaryField : Bounded 1 64 :=
  ⟨summaryName, by decide +kernel, by decide +kernel, by decide +kernel⟩
def severityField : Bounded 1 64 :=
  ⟨severityName, by decide +kernel, by decide +kernel, by decide +kernel⟩

def closureQuotes : List EvidenceQuote :=
  [⟨summaryField,
      ⟨txt "closed to all traffic following a channel obstruction", by decide +kernel,
        by decide +kernel, by decide +kernel⟩⟩,
    ⟨severityField,
      ⟨txt "delays of up to 72 hours", by decide +kernel, by decide +kernel, by decide +kernel⟩⟩]

def closureRationale : Bounded 10 600 :=
  ⟨txt "The source reports a closure with delays of up to 72 hours.", by decide +kernel,
    by decide +kernel, by decide +kernel⟩

def closureTitle : Bounded 8 200 :=
  ⟨txt "Example Port closed after channel obstruction", by decide +kernel, by decide +kernel,
    by decide +kernel⟩

def closureSummary : Bounded 20 1200 :=
  ⟨txt "The notice reports Example Port closed to all traffic " ++
    txt "following a channel obstruction, with delays of up to 72 " ++ txt "hours expected.",
    by decide +kernel, by decide +kernel, by decide +kernel⟩

def followUpSummary : Bounded 20 1200 :=
  ⟨txt ("The notice reports the closure continues, with delays now expected up to" ++
    " ten days."), by decide +kernel, by decide +kernel, by decide +kernel⟩

theorem confident_range : (0 : ℚ) ≤ 9 / 10 ∧ (9 / 10 : ℚ) ≤ 1 := by norm_num

section
variable (U : Unicode)

/-- `_closure` -/
def closure (key : Text) (severity : Severity) (confidence : ℚ)
    (hconfidence : 0 ≤ confidence ∧ confidence ≤ 1) (outcome : Text) : EvalScenario where
  key := key
  documents := [{
    key := key
    labelType := .relation .newEvent
    title := closureTitle.text
    text := normaliseText U closureText
    result := result (event closureTitle closureSummary severity closureRationale closureQuotes
      (by decide +kernel) confidence hconfidence)
    expected := outcomeOf (.text (txt "new_event")) (.text outcome) true
      (.bool (decide (outcome = txt "needs_review"))) (.text severity.value) }]

def newEventModerate : EvalScenario :=
  closure U (txt "new_event_moderate") .moderate (9 / 10) confident_range (txt "published")
def newEventSevere : EvalScenario :=
  closure U (txt "new_event_severe") .severe (9 / 10) confident_range (txt "needs_review")
def newEventLowConfidence : EvalScenario :=
  closure U (txt "new_event_low_confidence") .moderate (11 / 20) (by norm_num)
    (txt "needs_review")

def followUpText : Text :=
  txt "Example Port remains closed to all traffic following the channel obstruction. " ++
    txt "The Example Port Authority now expects delays of up to ten days. Vessels are " ++
    txt "being held at Example Anchorage."

def followUpTitle : Bounded 8 200 :=
  ⟨txt "Example Port closure extended", by decide +kernel, by decide +kernel, by decide +kernel⟩

def remainsClosed : EvidenceQuote :=
  ⟨summaryField,
    ⟨txt "Example Port remains closed to all traffic", by decide +kernel, by decide +kernel,
      by decide +kernel⟩⟩

/-- `_SETUP` -/
def setupClosure : EvalDocument where
  key := txt "_setup_closure"
  labelType := .setup
  title := closureTitle.text
  text := normaliseText U closureText
  result := result (event closureTitle closureSummary .moderate closureRationale closureQuotes
    (by decide +kernel) (9 / 10) confident_range)
  expected := outcomeOf (.text (txt "new_event")) (.text (txt "published")) true (.bool false)
    (.text (txt "moderate"))
  scored := false
  notes :=
    txt "Sets up the event the update/duplicate document reports against; not itself measured."

def update : EvalScenario where
  key := txt "update"
  sameCluster := true
  documents := [setupClosure U, {
    key := txt "update"
    labelType := .relation .update
    title := txt "Example Port closure extended"
    text := normaliseText U followUpText
    result := result (event followUpTitle followUpSummary .high
      ⟨txt "The source now reports delays of up to ten days.", by decide +kernel,
        by decide +kernel, by decide +kernel⟩
      [remainsClosed, ⟨severityField,
        ⟨txt "now expects delays of up to ten days", by decide +kernel, by decide +kernel,
          by decide +kernel⟩⟩]
      (by decide +kernel) (9 / 10) confident_range)
    expected := outcomeOf (.text (txt "update")) (.text (txt "needs_review")) true (.bool true)
      (.text (txt "high"))
    notes := txt "Trigger 4: severity escalates to 'high', which always routes to review." }]

def duplicate : EvalScenario where
  key := txt "duplicate"
  sameCluster := true
  documents := [setupClosure U, {
    key := txt "duplicate"
    labelType := .relation .duplicate
    title := txt "Example Port closure corroborated"
    text := normaliseText U followUpText
    result := result (event followUpTitle followUpSummary .moderate closureRationale
      [remainsClosed] (by decide +kernel) (9 / 10) confident_range)
    expected := outcomeOf (.text (txt "duplicate")) (.text (txt "published")) true (.bool false)
      (.text (txt "moderate"))
    notes := txt "Corroborates the setup document's facts; changes nothing on the record." }]

/-- what is expected where no event is -/
def noEvent (outcome : Text) : Outcome := outcomeOf .none (.text outcome) false .none .none

def background : EvalScenario where
  key := txt "background"
  documents := [{
    key := txt "background"
    labelType := .relation .background
    title := txt "Unrelated grid maintenance notice"
    text := normaliseText U
      (txt "Scheduled maintenance on the Northern Grid interconnector will reduce transfer " ++
        txt "capacity by 400 MW between 3 and 5 October. Operators have been notified.")
    result := ⟨false, false, some ⟨txt ("This is routine grid maintenance, not a reported" ++
      " disruption."), by decide +kernel, by decide +kernel, by decide +kernel⟩, none,
      ⟨rfl, fun _ => ⟨_, rfl, by decide +kernel⟩⟩⟩
    expected := noEvent (txt "background")
    notes := txt "Out of niche: NG-1's boundary, not a disruption report at all." }]

def insufficientEvidence : EvalScenario where
  key := txt "insufficient_evidence"
  documents := [{
    key := txt "insufficient_evidence"
    labelType := .insufficientEvidence
    title := txt "Thin, hedged report"
    text := normaliseText U
      (txt "Local reports suggest there may have been some disruption at a port in the region " ++
        txt "earlier this week. Officials have not confirmed whether operations were affected. " ++
        txt "Shipping sources indicated that conditions were being monitored.")
    result := ⟨true, true, some ⟨txt ("No confirmed facts: location, port, and impact are all" ++
      " unnamed or hedged."), by decide +kernel, by decide +kernel, by decide +kernel⟩, none,
      ⟨rfl, fun _ => ⟨_, rfl, by decide +kernel⟩⟩⟩
    expected := noEvent (txt "abstained")
    notes := txt "Correct abstention is a success (CONSTRAINTS.md Section 6), not a " ++
      txt "failure to measure down." }]

/-- `SCENARIOS` -/
def scenarios : List EvalScenario :=
  [newEventModerate U, newEventSevere U, newEventLowConfidence U, update U, duplicate U,
    background U, insufficientEvidence U]

/-- the keys do not depend on the normal form of the texts -/
theorem keys_scenarios : (scoredDocuments (scenarios U)).map (·.key) =
    [txt "new_event_moderate", txt "new_event_severe", txt "new_event_low_confidence",
      txt "update", txt "duplicate", txt "background", txt "insufficient_evidence"] := rfl

end

end Phase4

def phase4Core (U : Unicode) : LabelledSet where
  name := txt "phase4-core"
  version := txt "v1"
  description := txt ("ADR-0006's labelled set: synthetic documents covering every " ++
    "EVAL_LABEL_TYPES value.")
  scenarios := Phase4.scenarios U
  distinct := by
    rw [Phase4.keys_scenarios]
    decide
  named := by
    intro d hd
    have hkey := List.mem_map_of_mem (f := (·.key)) hd
    rw [Phase4.keys_scenarios] at hkey
    intro hnil
    rw [hnil] at hkey
    exact absurd hkey (by decide +kernel)

end GeoRisk
