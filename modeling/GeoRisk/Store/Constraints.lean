import GeoRisk.Kit.Rounding
import GeoRisk.Kit.Text
import GeoRisk.Store.Tables

/-!
# Table constraints

What PostgreSQL checks before it keeps a row: the `CheckConstraint`s, the column lengths and the keys
that `models/event.py` and `models/llmops.py` declare.  A column with a closed vocabulary has one by
its type here, and a `nullable=False` column is no `Option`.

* `btrim`, `isoAlpha2`     the two functions on strings that the checks use;
* `Event.Storable`         `events`, with the keys of its child tables;
* `EventLocation.Storable`, `EventEvidence.Storable`, `ReviewDecision.Storable`,
  `Extraction.Storable`    a row of the table;
* `NulFree`                texts that a `text` or `jsonb` column can hold.
-/

namespace GeoRisk
open Kit

/-- `btrim(·)`: spaces only -/
def btrim (s : Text) : Text := trim (fun c => decide (c = ' ')) s

/-- `· ~ '^[A-Z]{2}$'` -/
def isoAlpha2 (s : Text) : Bool :=
  decide (s.length = 2) && s.all fun c => decide ('A' ≤ c) && decide (c ≤ 'Z')

/-- a row of `event_locations` -/
structure EventLocation.Storable (l : EventLocation) : Prop where
  locationType_length : l.locationType.value.length ≤ 32
  countryCode_length : ∀ c ∈ l.countryCode, c.length ≤ 2
  country_code_is_iso_alpha2 : ∀ c ∈ l.countryCode, isoAlpha2 c = true
  locationPrecision_length : l.locationPrecision.value.length ≤ 32
  geoSource_length : l.geoSource.length ≤ 128

/-- a row of `event_evidence` -/
structure EventEvidence.Storable (e : EventEvidence) : Prop where
  fieldSupported_length : e.fieldSupported.length ≤ 64
  quote_not_blank : 0 < (btrim e.quote).length
  offsets_ordered : ∀ i ∈ e.quoteCharStart, ∀ j ∈ e.quoteCharEnd, i < j
  verificationMethod_length : e.verificationMethod.length ≤ 64

/-- a row of `review_decisions` -/
structure ReviewDecision.Storable (d : ReviewDecision) : Prop where
  reviewer_length : d.reviewer.length ≤ 200
  decision_length : d.decision.value.length ≤ 32
  reason_not_blank : 0 < (btrim d.reason).length

/-- a row of `events` with the rows that hang on it; `event_actors`, `event_sectors` and
`event_documents` have composite keys -/
structure Event.Storable (e : Event) : Prop where
  eventType_length : e.eventType.value.length ≤ 64
  severity_length : e.severity.value.length ≤ 32
  /-- the column keeps three decimals, and checks what it keeps -/
  confidence_scale : ∀ c ∈ e.confidence, numericTo 3 c = c
  confidence_in_unit_interval : ∀ c ∈ e.confidence, 0 ≤ c ∧ c ≤ 1
  high_severity_requires_review :
    e.severity = .high ∨ e.severity = .severe → e.requiresHumanReview = true
  low_confidence_requires_review :
    ∀ c ∈ e.confidence, (3 : ℚ) / 5 ≤ c ∨ e.requiresHumanReview = true
  reviewStatus_length : e.reviewStatus.value.length ≤ 32
  status_length : e.status.value.length ≤ 32
  locations : ∀ l ∈ e.locations, l.Storable
  actors : e.actors.Nodup ∧ ∀ a ∈ e.actors, a.role.value.length ≤ 32
  sectors : e.sectors.Nodup ∧ ∀ x ∈ e.sectors, x.value.length ≤ 32
  documents : (e.documents.map (·.documentId)).Nodup ∧
    ∀ d ∈ e.documents, d.relation.value.length ≤ 32
  evidence : ∀ x ∈ e.evidence, x.Storable

/-- the table `entities` -/
structure EntitiesStorable (rows : List Entity) : Prop where
  canonical_name_entity_type : rows.Nodup
  entityType_length : ∀ x ∈ rows, x.entityType.value.length ≤ 32

/-- a row of `extractions` -/
structure Extraction.Storable (x : Extraction) : Prop where
  promptVersion_length : x.promptVersion.length ≤ 32
  modelName_length : x.modelName.length ≤ 128
  outcome_length : x.outcome.value.length ≤ 32
  failed_le_checked : x.citationsFailed ≤ x.citationsChecked
  published_requires_valid_schema_and_citations :
    x.eventId = none ∨ (x.schemaValid = true ∧ x.citationValid = some true)

/-- the character that no text of the database has -/
def nul : Char := Char.ofNat 0

def NulFree (texts : List Text) : Prop := ∀ t ∈ texts, nul ∉ t

instance (texts : List Text) : Decidable (NulFree texts) :=
  inferInstanceAs (Decidable (∀ t ∈ texts, nul ∉ t))

theorem NulFree.append {xs ys : List Text} : NulFree (xs ++ ys) ↔ NulFree xs ∧ NulFree ys :=
  List.forall_mem_append

/-- a string that is stripped of all white space has no spaces at its ends -/
theorem btrim_eq_self {p : Char → Bool} (hp : ∀ c, p c = false → c ≠ ' ') {s : Text}
    (h : trim p s = s) : btrim s = s := by
  apply trim_eq_self
  · intro c hc
    rw [← h] at hc
    exact decide_eq_false (hp c (trim_head p hc))
  · intro c hc
    rw [← h] at hc
    exact decide_eq_false (hp c (trim_getLast p hc))

/-! ## the vocabularies fit their columns -/

theorem EventType.value_length (x : EventType) : x.value.length ≤ 64 := by cases x <;> decide
theorem Severity.value_length (x : Severity) : x.value.length ≤ 32 := by cases x <;> decide
theorem Sector.value_length (x : Sector) : x.value.length ≤ 32 := by cases x <;> decide
theorem EntityType.value_length (x : EntityType) : x.value.length ≤ 32 := by cases x <;> decide
theorem ActorRole.value_length (x : ActorRole) : x.value.length ≤ 32 := by cases x <;> decide
theorem LocationType.value_length (x : LocationType) : x.value.length ≤ 32 := by cases x <;> decide
theorem LocationPrecision.value_length (x : LocationPrecision) : x.value.length ≤ 32 := by
  cases x <;> decide
theorem EventStatus.value_length (x : EventStatus) : x.value.length ≤ 32 := by cases x <;> decide
theorem DocumentRelation.value_length (x : DocumentRelation) : x.value.length ≤ 32 := by
  cases x <;> decide
theorem ReviewStatus.value_length (x : ReviewStatus) : x.value.length ≤ 32 := by cases x <;> decide
theorem ReviewVerb.value_length (x : ReviewVerb) : x.value.length ≤ 32 := by cases x <;> decide
theorem OutcomeLabel.value_length (x : OutcomeLabel) : x.value.length ≤ 32 := by cases x <;> decide

end GeoRisk
