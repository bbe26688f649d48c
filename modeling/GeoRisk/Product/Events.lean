import Mathlib.Data.Char
import Mathlib.Data.List.Lex
import Mathlib.Data.Prod.Lex
import GeoRisk.Kit.Query
import GeoRisk.Review.Decision
import GeoRisk.Store.Constraints
import GeoRisk.Text.Format

/-!
# Listing and searching events

`list_events` and `search_events`.  A query is a selection of rows of the tables, which the database
returns in some order, sorted and cut.

* `ReadEnv`         what the database and the interpreter contribute: the order of rows that a query
                    leaves open, their case mappings, the printed form of a key;
* `evidenceCounts`  `_evidence_counts`: counted over the evidence of all events;
* `summaryOut`      one event as it is served;
* `listEvents`      filters, total and page;
* `like`, `ilike`   pattern matching of the database;
* `searchEvents`    hits, with the part that matched.

A parameter of a statement may hold no NUL: the driver refuses it, nothing handles its exception,
and the request ends as `internalServerError`.
-/

namespace GeoRisk
open Kit

/-- what the database and the interpreter contribute to a read -/
structure ReadEnv where
  /-- the order in which the database returns the rows that a query selects -/
  scan : ∀ {α : Type}, List α → List α
  scan_perm : ∀ {α : Type} (rows : List α), (scan rows).Perm rows
  /-- the order of the database on texts -/
  collate : Text → Text → Bool
  /-- `lower` and `upper` of the database -/
  sqlLower : Text → Text
  sqlUpper : Text → Text
  /-- a text of the database holds no NUL -/
  nul_not_mem_sqlUpper : ∀ t, nul ∉ sqlUpper t
  /-- `str.lower` and `str.upper` -/
  lower : Text → Text
  upper : Text → Text
  /-- `str` of a key -/
  idText : Nat → Text
  idText_injective : Function.Injective idText

/-- `HTTPException` -/
structure HttpError where
  statusCode : Nat
  detail : Text
  deriving DecidableEq, Repr

/-- the answer to a request whose exception nothing handles -/
def internalServerError : HttpError := ⟨500, txt "Internal Server Error"⟩

def maxPageSize : Nat := 100

/-! ## one event -/

structure LocationOut where
  name : Text
  locationType : LocationType
  countryCode : Option Text
  precision : LocationPrecision
  deriving DecidableEq, Repr

structure EventSummaryOut where
  eventId : Nat
  eventType : EventType
  eventDate : Date
  title : Text
  severity : Severity
  confidence : Option ℚ
  requiresHumanReview : Bool
  humanApproved : Bool
  reviewStatus : ReviewStatus
  status : EventStatus
  evidenceCount : Nat
  locations : List LocationOut
  affectedSectors : List Text
  deriving DecidableEq, Repr

/-- `sorted` on strings -/
def sortedTexts (texts : List Text) : List Text := sortBy id texts

def EventLocation.out (l : EventLocation) : LocationOut :=
  ⟨l.name, l.locationType, l.countryCode, l.locationPrecision⟩

def summaryOut (e : Event) (evidenceCount : Nat) : EventSummaryOut where
  eventId := e.eventId
  eventType := e.eventType
  eventDate := e.eventDate
  title := e.title
  severity := e.severity
  confidence := e.confidence
  requiresHumanReview := e.requiresHumanReview
  humanApproved := isHumanApprovedDespiteFlag e
  reviewStatus := e.reviewStatus
  status := e.status
  evidenceCount := evidenceCount
  locations := e.locations.map EventLocation.out
  affectedSectors := sortedTexts (e.sectors.map Sector.value)

/-- the rows of `event_evidence`, with their `event_id` -/
def Store.evidenceRows (s : Store) : List (Nat × EventEvidence) :=
  s.events.flatMap fun e => e.evidence.map fun x => (e.eventId, x)

/-- `_evidence_counts` -/
def evidenceCounts (s : Store) (eventIds : List Nat) : List (Nat × Nat) :=
  if eventIds = [] then []
  else (groupBy Prod.fst (s.evidenceRows.filter fun r => decide (r.1 ∈ eventIds))).map
    fun g => (g.1, g.2.length)

/-- `counts.get(event_id, 0)` -/
def countOf (counts : List (Nat × Nat)) (eventId : Nat) : Nat :=
  ((lookup Prod.fst eventId counts).map Prod.snd).getD 0

/-- the events as they are served, with the counts of their evidence -/
def summariesOut (s : Store) (events : List Event) : List EventSummaryOut :=
  let counts := evidenceCounts s (events.map Event.eventId)
  events.map fun e => summaryOut e (countOf counts e.eventId)

/-! ## the list -/

/-- the query parameters of `list_events`, in the ranges that the route accepts -/
structure EventFilter where
  eventType : Option Text := none
  severity : Option Text := none
  country : Option Text := none
  dateFrom : Option Date := none
  dateTo : Option Date := none
  includePendingReview : Bool := false
  limit : Nat := 25
  offset : Nat := 0
  limit_range : 1 ≤ limit ∧ limit ≤ maxPageSize := by decide

structure EventPage where
  total : Nat
  limit : Nat
  offset : Nat
  items : List EventSummaryOut
  deriving DecidableEq, Repr

/-- a parameter that is absent or empty filters nothing -/
def given (parameter : Option Text) (p : Text → Bool) : Bool :=
  match parameter with
  | none | some [] => true
  | some t => p t

/-- the `WHERE` clause of `list_events` -/
def EventFilter.selects (env : ReadEnv) (q : EventFilter) (e : Event) : Bool :=
  (q.includePendingReview || isEstablished e) &&
  given q.eventType (fun t => decide (e.eventType.value = t)) &&
  given q.severity (fun t => decide (e.severity.value = t)) &&
  q.dateFrom.all (fun d => decide (d.ordinal ≤ e.eventDate.ordinal)) &&
  q.dateTo.all (fun d => decide (e.eventDate.ordinal ≤ d.ordinal)) &&
  given q.country (fun t => e.locations.any fun l =>
    l.countryCode.any fun c => decide (env.sqlUpper c = env.upper t))

/-- `ORDER BY event_date DESC, created_at DESC` -/
def latestFirst (e : Event) : ℤ ×ₗ ℤ := toLex (-e.eventDate.ordinal, -e.createdAt.micros)

/-- a list of strings as it is printed -/
def listText (values : List Text) : Text :=
  let quote := Char.ofNat 39
  ['['] ++ join (txt ", ") (values.map fun v => quote :: v ++ [quote]) ++ [']']

def listEvents (env : ReadEnv) (s : Store) (q : EventFilter) : Except HttpError EventPage :=
  if given q.eventType (fun t => (EventType.ofText? t).isSome) = false then
    .error ⟨422, txt "unknown event_type; expected one of " ++
      listText (sortedTexts (EventType.all.map EventType.value))⟩
  else if given q.severity (fun t => (Severity.ofText? t).isSome) = false then
    .error ⟨422, txt "unknown severity; expected one of " ++
      listText (Severity.all.map Severity.value)⟩
  else if given q.country (fun t => decide (nul ∉ env.upper t)) = false then
    .error internalServerError
  else
    let selected := s.events.filter (q.selects env)
    let events := ((sortBy latestFirst (env.scan selected)).drop q.offset).take q.limit
    .ok ⟨selected.length, q.limit, q.offset, summariesOut s events⟩

/-! ## the search -/

/-- `LIKE`, with the backslash as escape character -/
def like : Text → Text → Bool
  | [], t => decide (t = [])
  | '%' :: p, t => t.tails.any fun u => like p u
  | '_' :: p, t =>
    match t with
    | [] => false
    | _ :: u => like p u
  | '\\' :: c :: p, t =>
    match t with
    | [] => false
    | x :: u => decide (x = c) && like p u
  | c :: p, t =>
    match t with
    | [] => false
    | x :: u => decide (x = c) && like p u

def ilike (env : ReadEnv) (pattern t : Text) : Bool := like (env.sqlLower pattern) (env.sqlLower t)

/-- the query parameters of `search_events`, in the ranges that the route accepts -/
structure SearchQuery where
  q : Text
  includePendingReview : Bool := false
  limit : Nat := 25
  q_range : 2 ≤ q.length ∧ q.length ≤ 200
  limit_range : 1 ≤ limit ∧ limit ≤ maxPageSize := by decide

inductive SearchPart
  | title
  | summary
  | evidence
  deriving DecidableEq, Repr

structure SearchHit where
  event : EventSummaryOut
  matchedOn : SearchPart
  deriving DecidableEq, Repr

structure SearchResults where
  query : Text
  total : Nat
  items : List SearchHit
  deriving DecidableEq, Repr

/-- the `WHERE` clause of `search_events` -/
def SearchQuery.selects (env : ReadEnv) (x : SearchQuery) (e : Event) : Bool :=
  let pattern := ['%'] ++ x.q ++ ['%']
  (ilike env pattern e.title || ilike env pattern e.summary ||
    e.evidence.any fun v => ilike env pattern v.quote) &&
  (x.includePendingReview || isEstablished e)

/-- `needle in text` -/
def isIn (needle t : Text) : Bool := (findAt needle t).isSome

def matchedOn (env : ReadEnv) (q : Text) (e : Event) : SearchPart :=
  let needle := env.lower q
  if isIn needle (env.lower e.title) then .title
  else if isIn needle (env.lower e.summary) then .summary
  else .evidence

def searchEvents (env : ReadEnv) (s : Store) (x : SearchQuery) : Except HttpError SearchResults :=
  if nul ∈ x.q then .error internalServerError
  else
    let selected := s.events.filter (x.selects env)
    let events := (sortBy (fun e : Event => -e.eventDate.ordinal) (env.scan selected)).take x.limit
    let counts := evidenceCounts s (events.map Event.eventId)
    let hits := events.map fun e =>
      SearchHit.mk (summaryOut e (countOf counts e.eventId)) (matchedOn env x.q e)
    .ok ⟨x.q, hits.length, hits⟩

end GeoRisk
