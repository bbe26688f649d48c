import GeoRisk.Kit.Table
import GeoRisk.Processing.Extract
import GeoRisk.Processing.Cluster

/-!
# The tables

The rows of the database and the `Store` that holds them.  Keys are numbers drawn from one counter.
The rows that belong to one event (`locations`, `actors`, `sectors`, `documents`, `evidence`,
`review_decisions`) are kept inside it, as its ORM relationships present them.  An entity is
identified by its unique pair of name and type.

* `Source`, `IngestionRun`, `RawDocument`, `DocumentChunk`    what was fetched;
* `Prompt`, `Extraction`                                      telemetry of the model calls;
* `Entity`, `Event` and its parts                             the published record;
* `Store.latestActiveEvent`                                   the event that a cluster's next
                                                              document merges into.
-/

namespace GeoRisk
open Kit

structure Source where
  id : Nat
  slug : Text
  name : Text
  publisher : Text
  feedUrl : Text
  retrievalMethod : Text
  pollIntervalSeconds : Nat := 1800
  enabled : Bool := false
  storeFullText : Bool := false
  lastEtag : Option Text := none
  lastModifiedHeader : Option Text := none
  lastFetchedAt : Option DateTime := none
  lastSuccessAt : Option DateTime := none
  consecutiveFailures : Nat := 0
  disabledReason : Option Text := none
  deriving DecidableEq, Repr

structure IngestionRun where
  id : Nat
  sourceId : Nat
  startedAt : DateTime
  finishedAt : Option DateTime := none
  status : RunStatus
  itemsSeen : Nat := 0
  itemsNew : Nat := 0
  itemsDuplicate : Nat := 0
  itemsFailed : Nat := 0
  httpRequests : Nat := 0
  errorMessage : Option Text := none
  deriving DecidableEq, Repr

structure RawDocument where
  id : Nat
  sourceId : Nat
  fetchRunId : Option Nat := none
  sourceUid : Option Text := none
  url : Text
  canonicalUrl : Option Text := none
  title : Option Text := none
  publishedAt : Option DateTime := none
  retrievedAt : DateTime
  retrievalMethod : Text
  httpStatus : Option Nat := none
  contentType : Option Text := none
  etag : Option Text := none
  lastModified : Option Text := none
  rawBody : Option Text := none
  cleanText : Option Text
  rawHash : Text
  contentHash : Text
  language : Option Text := none
  isTombstoned : Bool := false
  deriving DecidableEq, Repr

structure DocumentChunk where
  documentId : Nat
  chunkIndex : Nat
  text : Text
  charStart : Nat
  charEnd : Nat
  embedding : Option Vector
  embeddingModel : Text
  embeddingDim : Nat
  deriving Repr

structure Prompt where
  id : Nat
  name : Text
  version : Text
  deriving DecidableEq, Repr

structure Extraction where
  documentId : Nat
  eventId : Option Nat
  promptId : Nat
  promptVersion : Text
  modelName : Text
  outcome : OutcomeLabel
  schemaValid : Bool
  citationValid : Option Bool
  citationsChecked : Nat
  citationsFailed : Nat
  inputTokens : Nat
  outputTokens : Nat
  cacheWriteTokens : Nat
  cacheReadTokens : Nat
  costUsd : ℚ
  latencyMs : Nat
  rawOutput : Option ExtractionResult
  validationErrors : Option Text
  createdAt : DateTime

structure Entity where
  canonicalName : Text
  entityType : EntityType
  deriving DecidableEq, Repr

structure EventLocation where
  name : Text
  locationType : LocationType
  countryCode : Option Text
  locationPrecision : LocationPrecision
  geoSource : Text
  deriving DecidableEq, Repr

structure EventActor where
  entity : Entity
  role : ActorRole
  deriving DecidableEq, Repr

structure EventDocument where
  documentId : Nat
  relation : DocumentRelation
  deriving DecidableEq, Repr

structure EventEvidence where
  documentId : Nat
  fieldSupported : Text
  quote : Text
  quoteCharStart : Option Nat
  quoteCharEnd : Option Nat
  verified : Bool
  verificationMethod : Text
  verifiedAt : DateTime
  deriving DecidableEq, Repr

/-- a field of an event that a reviewer may correct, with its value -/
inductive Edited
  | title (value : Text)
  | eventType (value : EventType)
  | eventDate (value : Date)
  | severity (value : Severity)
  deriving DecidableEq, Repr

structure ReviewDecision where
  id : Nat
  reviewer : Text
  decision : ReviewVerb
  reason : Text
  /-- the value before and after each edit -/
  changes : List (Edited × Edited)
  decidedAt : DateTime
  deriving DecidableEq, Repr

structure Event where
  eventId : Nat
  clusterId : Option Nat
  eventType : EventType
  eventDate : Date
  title : Text
  summary : Text
  severity : Severity
  severityRationale : Option Text
  confidence : Option ℚ
  requiresHumanReview : Bool
  reviewStatus : ReviewStatus
  status : EventStatus
  changeNote : Option Text
  firstSeenAt : Option DateTime
  lastUpdatedAt : Option DateTime
  createdAt : DateTime
  locations : List EventLocation := []
  actors : List EventActor := []
  sectors : List Sector := []
  documents : List EventDocument := []
  evidence : List EventEvidence := []
  reviewDecisions : List ReviewDecision := []
  deriving DecidableEq, Repr

structure Store where
  /-- the next unused key -/
  nextId : Nat := 0
  sources : List Source := []
  runs : List IngestionRun := []
  documents : List RawDocument := []
  chunks : List DocumentChunk := []
  clusters : List EventCluster := []
  events : List Event := []
  entities : List Entity := []
  prompts : List Prompt := []
  extractions : List Extraction := []

/-- the order of `_latest_active_event`: last update first, unknown ones last, then creation -/
def Event.laterThan (a b : Event) : Bool :=
  match a.lastUpdatedAt, b.lastUpdatedAt with
  | some s, some t => decide (t < s) || (decide (s = t) && decide (b.createdAt < a.createdAt))
  | some _, none => true
  | none, some _ => false
  | none, none => decide (b.createdAt < a.createdAt)

namespace Store

def empty : Store := {}

def source? (s : Store) (id : Nat) : Option Source := lookup Source.id id s.sources
def document? (s : Store) (id : Nat) : Option RawDocument := lookup RawDocument.id id s.documents
def event? (s : Store) (id : Nat) : Option Event := lookup Event.eventId id s.events

def putEvent (s : Store) (e : Event) : Store := { s with events := replace Event.eventId e s.events }
def putSource (s : Store) (x : Source) : Store := { s with sources := replace Source.id x s.sources }

/-- the first of the latest elements -/
def latestOf : Option Event → List Event → Option Event
  | best, [] => best
  | none, e :: es => latestOf (some e) es
  | some b, e :: es => latestOf (some (if e.laterThan b then e else b)) es

def latestActiveEvent (s : Store) (clusterId : Nat) : Option Event :=
  latestOf none (s.events.filter fun e =>
    decide (e.clusterId = some clusterId) && decide (e.status = .active))

theorem latestOf_mem {best : Option Event} {es : List Event} {e : Event}
    (h : latestOf best es = some e) : best = some e ∨ e ∈ es := by
  induction es generalizing best with
  | nil => exact Or.inl h
  | cons x es ih =>
    cases best with
    | none =>
      rcases ih h with h | h
      · cases h; exact Or.inr (List.mem_cons_self ..)
      · exact Or.inr (List.mem_cons_of_mem _ h)
    | some b =>
      rcases ih h with h | h
      · split at h
        · cases h; exact Or.inr (List.mem_cons_self ..)
        · cases h; exact Or.inl rfl
      · exact Or.inr (List.mem_cons_of_mem _ h)

theorem latestActiveEvent_mem {s : Store} {c : Nat} {e : Event}
    (h : s.latestActiveEvent c = some e) : e ∈ s.events := by
  rcases latestOf_mem h with h | h
  · cases h
  · exact List.mem_of_mem_filter h

end Store

end GeoRisk
