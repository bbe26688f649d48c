import GeoRisk.Kit.Run
import GeoRisk.Processing.Consolidate
import GeoRisk.Store.Tables

/-!
# Events from reports

A `Report` is a verified extraction of one document.  It becomes a new event (`newEvent`) or is
folded into an existing one (`mergeEvent`, the body of `_merge_into_existing` on the event and its
rows).

* `snapshot`                what the report is compared against;
* `applyContent`            the grounded changes;
* `applyReview`             the review state of an update;
* `linkDocument`            the document, its evidence and the time of the last update;
* `mergeEvent_eq_of_duplicate`    a duplicate changes nothing but these;
* `mergeEvent_links`, `mergeEvent_rows`, `mergeEvent_fixed`, `mergeEvent_severity`
                            the merged event, part by part.
-/

namespace GeoRisk
open Kit

/-- a verified extraction of one document, with the confidence it was scored -/
structure Report where
  documentId : Nat
  sourceName : Text
  /-- `document.published_at or datetime.now(UTC)` -/
  published : DateTime
  event : ExtractedEvent
  verification : VerificationReport
  confidence : ℚ
  requiresHumanReview : Bool
  now : DateTime

def geoSource : Text := txt "extraction"

def ExtractedLocation.row (l : ExtractedLocation) : EventLocation :=
  ⟨l.name.text, l.locationType, l.countryCode, l.precision, geoSource⟩

def ExtractedActor.entity (a : ExtractedActor) : Entity := ⟨a.name.text, a.entityType⟩
def ExtractedActor.row (a : ExtractedActor) : EventActor := ⟨a.entity, a.role⟩

/-- the rows with those of the actors that are not there yet -/
def addActors : List EventActor → List ExtractedActor → List EventActor
  | rows, [] => rows
  | rows, a :: rest =>
    if a.row ∈ rows then addActors rows rest else addActors (rows ++ [a.row]) rest

def fromKeys : List Sector → List Sector → List Sector
  | kept, [] => kept
  | kept, x :: xs => if x ∈ kept then fromKeys kept xs else fromKeys (kept ++ [x]) xs

/-- one row of `_attach_evidence` -/
def evidenceRow (documentId : Nat) (now : DateTime) (q : VerifiedQuote) : EventEvidence :=
  ⟨documentId, q.fieldSupported, q.quote, q.charStart, q.charEnd, q.verified, q.method, now⟩

/-- `_attach_evidence` -/
def Report.evidence (r : Report) : List EventEvidence :=
  r.verification.quotes.map (evidenceRow r.documentId r.now)

/-- the event that `process_document` creates -/
def newEvent (eventId clusterId : Nat) (r : Report) : Event where
  eventId := eventId
  clusterId := some clusterId
  eventType := r.event.eventType
  eventDate := r.event.eventDate
  title := r.event.title.text
  summary := r.event.summary.text
  severity := r.event.severity
  severityRationale := some r.event.severityRationale.text
  confidence := some r.confidence
  requiresHumanReview := r.requiresHumanReview
  reviewStatus := if r.requiresHumanReview then .pending else .notRequired
  status := .active
  changeNote := none
  firstSeenAt := some r.published
  lastUpdatedAt := some r.published
  createdAt := r.now
  locations := r.event.locations.map ExtractedLocation.row
  actors := addActors [] r.event.actors
  sectors := fromKeys [] r.event.affectedSectors
  documents := [⟨r.documentId, .newEvent⟩]
  evidence := r.evidence

section
variable (U : Unicode)

def snapshot (e : Event) : EventSnapshot where
  eventType := e.eventType
  eventDate := e.eventDate
  severity := e.severity
  locationNames := e.locations.map fun l => key U l.name
  actorNames := e.actors.map fun a => key U a.entity.canonicalName
  sectors := e.sectors

/-- what the report means for the event -/
def consolidation (e : Event) (r : Report) : Consolidation :=
  compare U (snapshot U e) r.event r.verification.quotes

/-- one step of the loop over `decision.applied` -/
def applyChange (r : Report) (e : Event) : FieldChange → Event
  | .severity _ after _ =>
    { e with severity := after, severityRationale := some r.event.severityRationale.text }
  | _ => e

def applyContent (r : Report) (d : Consolidation) (e : Event) : Event :=
  let e := d.applied.foldl (applyChange r) e
  { e with
    locations := e.locations ++
      (r.event.locations.filter fun l => l.name.text ∈ d.newLocations).map ExtractedLocation.row
    actors := addActors e.actors (r.event.actors.filter fun a => a.name.text ∈ d.newActors)
    sectors := e.sectors ++ d.newSectors }

/-- whether an update must be looked at, given the event with its new content and confidence -/
def mergeNeedsReview (d : Consolidation) (e : Event) (confidence : Option ℚ) : Bool :=
  d.needsReview || !(flagMustStay e.severity confidence).isEmpty ||
    (decide (e.reviewStatus ∈ [.approved, .edited, .rejected]) &&
      (d.changesContent || d.needsReview)) ||
    (decide (e.reviewStatus = .pending) && e.requiresHumanReview)

def applyReview (r : Report) (d : Consolidation) (e : Event) : Event :=
  if d.relation = .update then
    let confidence := e.confidence.map (min · r.confidence)
    let needsReview := mergeNeedsReview d e confidence
    { e with
      confidence := confidence
      requiresHumanReview := needsReview
      reviewStatus := if needsReview then .pending else e.reviewStatus
      changeNote := changeNote U d r.sourceName (some r.published.date) r.verification.quotes }
  else e

def linkDocument (r : Report) (relation : DocumentRelation) (e : Event) : Event :=
  { e with
    lastUpdatedAt :=
      if e.lastUpdatedAt.all fun t => decide (t < r.published) then some r.published
      else e.lastUpdatedAt
    documents := e.documents ++ [⟨r.documentId, relation⟩]
    evidence := e.evidence ++ r.evidence }

/-- `_merge_into_existing`, on the event -/
def mergeEvent (e : Event) (r : Report) : Event :=
  let d := consolidation U e r
  linkDocument r d.relation (applyReview U r d (applyContent r d e))

variable {U} {e : Event} {r : Report}

/-! ## a merge without changes -/

theorem applyContent_eq_self {d : Consolidation} (h : d.changesContent = false) :
    applyContent r d e = e := by
  obtain ⟨ha, hl, hn, hs⟩ := Consolidation.of_changesContent_false h
  have hf1 : (r.event.locations.filter fun l => decide (l.name.text ∈ d.newLocations)) = [] := by
    rw [hl, List.filter_eq_nil_iff]
    intro l _
    simp
  have hf2 : (r.event.actors.filter fun a => decide (a.name.text ∈ d.newActors)) = [] := by
    rw [hn, List.filter_eq_nil_iff]
    intro a _
    simp
  unfold applyContent
  simp only [ha, hf1, hf2, hs, List.foldl_nil, List.map_nil, List.append_nil, addActors]

theorem applyReview_eq_self {d : Consolidation} (h : d.relation ≠ .update) :
    applyReview U r d e = e := if_neg h

/-- **A duplicate only links its document.** -/
theorem mergeEvent_eq_of_duplicate (h : (consolidation U e r).relation ≠ .update) :
    mergeEvent U e r = linkDocument r (consolidation U e r).relation e := by
  show linkDocument r (consolidation U e r).relation (applyReview U r (consolidation U e r)
    (applyContent r (consolidation U e r) e)) = _
  rw [applyContent_eq_self (Consolidation.of_relation_ne_update h).1, applyReview_eq_self h]

/-! ## what a merge keeps -/

theorem fromKeys_eq (kept xs : List Sector) : fromKeys kept xs = adjoin kept xs := by
  induction xs generalizing kept with
  | nil => rfl
  | cons x xs ih => rw [fromKeys, adjoin, ih, ih]

theorem addActors_eq (rows : List EventActor) (actors : List ExtractedActor) :
    addActors rows actors = adjoin rows (actors.map (·.row)) := by
  induction actors generalizing rows with
  | nil => rfl
  | cons a rest ih => rw [addActors, List.map_cons, adjoin, ih, ih]

theorem mem_fromKeys {kept xs : List Sector} {x : Sector} :
    x ∈ fromKeys kept xs ↔ x ∈ kept ∨ x ∈ xs := by
  rw [fromKeys_eq]
  exact mem_adjoin

theorem mem_addActors {rows : List EventActor} {actors : List ExtractedActor} {x : EventActor} :
    x ∈ addActors rows actors ↔ x ∈ rows ∨ ∃ a ∈ actors, a.row = x := by
  rw [addActors_eq, mem_adjoin, List.mem_map]

/-- the rows that come behind are those of the actors -/
theorem addActors_append (rows : List EventActor) (actors : List ExtractedActor) :
    ∃ added, addActors rows actors = rows ++ added ∧ ∀ x ∈ added, ∃ a ∈ actors, a.row = x := by
  obtain ⟨added, h, hadded⟩ := adjoin_append rows (actors.map (·.row))
  rw [addActors_eq]
  exact ⟨added, h, fun x hx => List.mem_map.mp (hadded x hx)⟩

theorem prefix_addActors (rows : List EventActor) (actors : List ExtractedActor) :
    rows <+: addActors rows actors := by
  obtain ⟨added, h, _⟩ := addActors_append rows actors
  rw [h]
  exact List.prefix_append _ _

/-- applied changes write the severity and its rationale, and nothing else -/
theorem foldl_applyChange (r : Report) (changes : List FieldChange) (e : Event) :
    ∃ severity rationale, changes.foldl (applyChange r) e =
      { e with severity := severity, severityRationale := rationale } := by
  induction changes generalizing e with
  | nil => exact ⟨e.severity, e.severityRationale, rfl⟩
  | cons c rest ih =>
    obtain ⟨s, t, h⟩ := ih (applyChange r e c)
    rw [List.foldl_cons, h]
    cases c <;> exact ⟨s, t, rfl⟩

theorem applyContent_keeps (r : Report) (d : Consolidation) (e : Event) :
    (applyContent r d e).eventId = e.eventId ∧
      (applyContent r d e).reviewStatus = e.reviewStatus ∧
      (applyContent r d e).requiresHumanReview = e.requiresHumanReview ∧
      (applyContent r d e).confidence = e.confidence ∧
      (applyContent r d e).documents = e.documents ∧
      (applyContent r d e).evidence = e.evidence := by
  obtain ⟨s, t, h⟩ := foldl_applyChange r d.applied e
  unfold applyContent
  rw [h]
  exact ⟨rfl, rfl, rfl, rfl, rfl, rfl⟩

/-- an update writes the confidence, the review state and the note -/
theorem applyReview_eq (U : Unicode) (r : Report) (d : Consolidation) (e : Event) :
    ∃ confidence flag status note, applyReview U r d e =
      { e with confidence := confidence, requiresHumanReview := flag, reviewStatus := status,
               changeNote := note } := by
  unfold applyReview
  split
  · exact ⟨_, _, _, _, rfl⟩
  · exact ⟨e.confidence, e.requiresHumanReview, e.reviewStatus, e.changeNote, rfl⟩

/-- **What a merge writes: the rows that its decision adds, the severity, the review state and the
links.** -/
theorem mergeEvent_eq (U : Unicode) (e : Event) (r : Report) :
    ∃ severity rationale confidence flag status note, mergeEvent U e r =
      linkDocument r (consolidation U e r).relation { e with
        locations := e.locations ++ (r.event.locations.filter fun l =>
          l.name.text ∈ (consolidation U e r).newLocations).map ExtractedLocation.row
        actors := addActors e.actors (r.event.actors.filter fun a =>
          a.name.text ∈ (consolidation U e r).newActors)
        sectors := e.sectors ++ (consolidation U e r).newSectors
        severity := severity
        severityRationale := rationale
        confidence := confidence
        requiresHumanReview := flag
        reviewStatus := status
        changeNote := note } := by
  obtain ⟨confidence, flag, status, note, h⟩ := applyReview_eq U r (consolidation U e r)
    (applyContent r (consolidation U e r) e)
  obtain ⟨severity, rationale, hc⟩ := foldl_applyChange r (consolidation U e r).applied e
  refine ⟨severity, rationale, confidence, flag, status, note, ?_⟩
  unfold mergeEvent
  simp only
  rw [h]
  unfold applyContent
  rw [hc]

/-- **A merge adds one document and its quotes, and keeps the others.** -/
theorem mergeEvent_links (U : Unicode) (e : Event) (r : Report) :
    (mergeEvent U e r).eventId = e.eventId ∧
      (mergeEvent U e r).documents =
        e.documents ++ [⟨r.documentId, (consolidation U e r).relation⟩] ∧
      (mergeEvent U e r).evidence = e.evidence ++ r.evidence := by
  obtain ⟨severity, rationale, confidence, flag, status, note, h⟩ := mergeEvent_eq U e r
  rw [h]
  exact ⟨rfl, rfl, rfl⟩

/-- **The child rows after a merge: those of the record, and those that its decision adds.** -/
theorem mergeEvent_rows (U : Unicode) (e : Event) (r : Report) :
    (mergeEvent U e r).locations = e.locations ++
        (r.event.locations.filter fun l =>
          l.name.text ∈ (consolidation U e r).newLocations).map ExtractedLocation.row ∧
      (mergeEvent U e r).actors = addActors e.actors
        (r.event.actors.filter fun a => a.name.text ∈ (consolidation U e r).newActors) ∧
      (mergeEvent U e r).sectors = e.sectors ++ (consolidation U e r).newSectors ∧
      (mergeEvent U e r).reviewDecisions = e.reviewDecisions := by
  obtain ⟨severity, rationale, confidence, flag, status, note, h⟩ := mergeEvent_eq U e r
  rw [h]
  exact ⟨rfl, rfl, rfl, rfl⟩

/-- what a record says beside its severity is never rewritten -/
theorem mergeEvent_fixed (U : Unicode) (e : Event) (r : Report) :
    (mergeEvent U e r).eventType = e.eventType ∧ (mergeEvent U e r).eventDate = e.eventDate ∧
      (mergeEvent U e r).title = e.title ∧ (mergeEvent U e r).summary = e.summary ∧
      (mergeEvent U e r).clusterId = e.clusterId ∧ (mergeEvent U e r).status = e.status := by
  obtain ⟨severity, rationale, confidence, flag, status, note, h⟩ := mergeEvent_eq U e r
  rw [h]
  exact ⟨rfl, rfl, rfl, rfl, rfl, rfl⟩

/-- **The severity after a merge is the reported one if a verified quote supports it.** -/
theorem mergeEvent_severity (U : Unicode) (e : Event) (r : Report) :
    (mergeEvent U e r).severity =
      if truthy (quoteFor U r.verification.quotes .severity) then r.event.severity
      else e.severity := by
  obtain ⟨confidence, flag, status, note, h⟩ := applyReview_eq U r (consolidation U e r)
    (applyContent r (consolidation U e r) e)
  unfold mergeEvent
  simp only
  rw [h]
  show ((consolidation U e r).applied.foldl (applyChange r) e).severity = _
  unfold consolidation compare severityChange
  simp only
  cases truthy (quoteFor U r.verification.quotes .severity) with
  | false => rfl
  | true =>
    by_cases hs : r.event.severity = (snapshot U e).severity
    · simp only [if_true, ne_eq, hs, not_true, if_false]
      rfl
    · simp only [if_true, ne_eq, hs, not_false_eq_true]
      rfl

end

end GeoRisk
