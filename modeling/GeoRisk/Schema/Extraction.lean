import GeoRisk.Schema.Taxonomy
import GeoRisk.Text.Calendar
import Mathlib.Data.Rat.Defs
import Mathlib.Algebra.Order.Ring.Rat

/-!
# The extraction schema

The Pydantic models of `schemas.py`.  A value that passes validation is a structure whose fields
carry the checks, so that a result that breaks them cannot be built.

* `stripWhitespace`      `str_strip_whitespace`: Unicode `White_Space`, which is narrower than
                         `str.strip` by the four information separators;
* `EvidenceQuote`, `ExtractedLocation`, `ExtractedActor`, `ExtractedEvent`;
* `ExtractionResult`     with `_outcome_is_internally_consistent`;
* `producedEvent_iff`    the three outcomes are told apart by the two flags alone.
-/

namespace GeoRisk
open Kit

/-- Unicode `White_Space` -/
def isWhiteSpace (c : Char) : Bool := isSpace c && !inRanges [(0x1C, 0x1F)] c

/-- `str_strip_whitespace` -/
def stripWhitespace (s : Text) : Text := trim isWhiteSpace s

/-- a string field with `str_strip_whitespace`, `min_length` and `max_length` -/
structure Bounded (lo hi : Nat) where
  text : Text
  stripped : stripWhitespace text = text
  min_length : lo ≤ text.length
  max_length : text.length ≤ hi
  deriving DecidableEq

/-- the validated field, if the input passes -/
def Bounded.parse (lo hi : Nat) (s : Text) : Option (Bounded lo hi) :=
  if h : lo ≤ (stripWhitespace s).length ∧ (stripWhitespace s).length ≤ hi then
    some ⟨stripWhitespace s, trim_trim _ s, h.1, h.2⟩
  else none

theorem Bounded.parse_text {lo hi : Nat} (b : Bounded lo hi) :
    Bounded.parse lo hi b.text = some b := by
  obtain ⟨t, hs, h1, h2⟩ := b
  unfold parse
  simp only [hs]
  rw [dif_pos ⟨h1, h2⟩]

structure EvidenceQuote where
  fieldSupported : Bounded 1 64
  quote : Bounded 8 1000
  deriving DecidableEq

structure ExtractedLocation where
  name : Bounded 1 200
  locationType : LocationType
  /-- two characters before `value.upper()`, which may lengthen them -/
  countryCode : Option Text
  countryCode_length : ∀ c ∈ countryCode, 2 ≤ c.length
  precision : LocationPrecision

structure ExtractedActor where
  name : Bounded 1 200
  entityType : EntityType
  role : ActorRole
  deriving DecidableEq

structure ExtractedEvent where
  eventType : EventType
  eventDate : Date
  title : Bounded 8 200
  summary : Bounded 20 1200
  severity : Severity
  severityRationale : Bounded 10 600
  locations : List ExtractedLocation
  locations_length : locations.length ≤ 20
  actors : List ExtractedActor
  actors_length : actors.length ≤ 20
  affectedSectors : List Sector
  affectedSectors_length : affectedSectors.length ≤ 12
  evidence : List EvidenceQuote
  evidence_length : 1 ≤ evidence.length ∧ evidence.length ≤ 25
  confidence : ℚ
  confidence_range : 0 ≤ confidence ∧ confidence ≤ 1

/-- what the model returns for one document -/
structure ExtractionResult where
  inNiche : Bool
  abstained : Bool
  abstentionReason : Option (Bounded 0 500)
  event : Option ExtractedEvent
  /-- `_outcome_is_internally_consistent` -/
  consistent : event.isSome = (inNiche && !abstained) ∧
    (event = none → ∃ r ∈ abstentionReason, r.text ≠ [])

namespace ExtractionResult

def producedEvent (r : ExtractionResult) : Bool := r.inNiche && !r.abstained && r.event.isSome

theorem producedEvent_iff (r : ExtractionResult) : r.producedEvent = r.event.isSome := by
  unfold producedEvent
  rw [r.consistent.1, Bool.and_self]

/-- a result out of niche, and one that abstains, has none -/
theorem event_eq_none {r : ExtractionResult} (h : r.inNiche = false ∨ r.abstained = true) :
    r.event = none := by
  rw [← Option.not_isSome_iff_eq_none, r.consistent.1]
  rcases h with h | h
  · rw [h, Bool.false_and]
    exact Bool.false_ne_true
  · rw [h, Bool.not_true, Bool.and_false]
    exact Bool.false_ne_true

end ExtractionResult

end GeoRisk
