import GeoRisk.Product.Events

/-!
# The daily briefing

`build_briefing`: the records first seen or updated on a day, with their verified quotes.

* `dayBounds`        the half-open day;
* `verifiedQuotes`   `_verified_quotes`: evidence joined with documents and sources, the most telling
                     field first;
* `briefingItem`     an established record with its quotes, or nothing without a quote;
* `buildBriefing`    the items in their order, and what was left out.
-/

namespace GeoRisk
open Kit

def maxQuotesPerItem : Nat := 3

structure BriefingQuote where
  fieldSupported : Text
  quote : Text
  sourceName : Text
  sourceUrl : Text
  publishedAt : Option DateTime
  deriving DecidableEq, Repr

/-- `"new"` or `"updated"` -/
inductive ItemKind
  | new
  | updated
  deriving DecidableEq, Repr

structure BriefingItem where
  eventId : Nat
  kind : ItemKind
  title : Text
  eventType : EventType
  eventDate : Date
  severity : Severity
  confidence : Option ℚ
  locations : List Text
  sectors : List Text
  quotes : List BriefingQuote
  changeNote : Option Text
  humanApproved : Bool
  deriving DecidableEq, Repr

def generatedFrom : Text := txt "established records and verified quotes only; no model call"

def briefingDisclaimer : Text := txt (
  "This briefing lists records assembled from public and official sources. Every line" ++
  " is a field of an established record or a verbatim quote verified against the text" ++
  " retrieved at ingestion time. It contains no generated analysis. Coverage is not" ++
  " comprehensive, and the absence of an event here is not evidence that nothing" ++
  " happened.")

structure Briefing where
  day : Date
  generatedFrom : Text := GeoRisk.generatedFrom
  items : List BriefingItem
  withheldPendingReview : Nat
  excludedNoVerifiedEvidence : Nat
  disclaimer : Text := briefingDisclaimer
  deriving DecidableEq, Repr

def Briefing.isPartial (b : Briefing) : Bool := decide (b.withheldPendingReview ≠ 0)

/-! ## the day -/

/-- midnight UTC -/
def Date.midnight (d : Date) : DateTime := ⟨d.ordinal * DateTime.microsPerDay⟩

/-- `date.max` -/
def Date.max : Date := Date.ofCivil 9999 12 31

/-- `_day_bounds`; no instant is after the last day -/
def dayBounds (day : Date) : Except Text (DateTime × DateTime) :=
  if Date.max.ordinal ≤ day.ordinal then .error (txt "date value out of range")
  else .ok (day.midnight, ⟨day.midnight.micros + DateTime.microsPerDay⟩)

/-- `_in_window` -/
def inWindow (value : Option DateTime) (bounds : DateTime × DateTime) : Bool :=
  value.any fun t => decide (bounds.1 ≤ t) && decide (t < bounds.2)

/-- the `WHERE` clauses of the candidates -/
def isCandidate (bounds : DateTime × DateTime) (e : Event) : Bool :=
  (inWindow e.firstSeenAt bounds || inWindow e.lastUpdatedAt bounds) &&
    decide (e.reviewStatus ≠ .rejected)

/-! ## the quotes -/

def quoteFieldPriority : List Text :=
  [txt "summary", txt "event_type", txt "severity", txt "event_date", txt "locations",
    txt "affected_sectors", txt "actors", txt "title"]

/-- `_quote_rank` -/
def quoteRank (fieldSupported : Text) : ℕ ×ₗ Text :=
  match quoteFieldPriority.findIdx? (· = fieldSupported) with
  | some i => toLex (i, [])
  | none => toLex (quoteFieldPriority.length, fieldSupported)

/-- the evidence of an event, joined with documents and sources -/
def evidenceJoin (s : Store) (eventId : Nat) : List (EventEvidence × RawDocument × Source) :=
  (s.evidenceRows.filter fun r => decide (r.1 = eventId) && r.2.verified).filterMap fun r =>
    (s.document? r.2.documentId).bind fun d => (s.source? d.sourceId).map fun x => (r.2, d, x)

def quoteOut (r : EventEvidence × RawDocument × Source) : BriefingQuote where
  fieldSupported := r.1.fieldSupported
  quote := r.1.quote
  sourceName := r.2.2.name
  sourceUrl := match r.2.1.canonicalUrl with
    | none | some [] => r.2.1.url
    | some url => url
  publishedAt := r.2.1.publishedAt

/-- `_verified_quotes` -/
def verifiedQuotes (env : ReadEnv) (s : Store) (eventId : Nat) : List BriefingQuote :=
  ((sortBy (fun r : EventEvidence × RawDocument × Source =>
    toLex (quoteRank r.1.fieldSupported, r.1.quote))
      (env.scan (evidenceJoin s eventId))).take maxQuotesPerItem).map quoteOut

/-! ## the briefing -/

def briefingItem (env : ReadEnv) (s : Store) (bounds : DateTime × DateTime) (e : Event) :
    Option BriefingItem :=
  let quotes := verifiedQuotes env s e.eventId
  if quotes = [] then none
  else some {
    eventId := e.eventId
    kind := if inWindow e.firstSeenAt bounds then .new else .updated
    title := e.title
    eventType := e.eventType
    eventDate := e.eventDate
    severity := e.severity
    confidence := e.confidence
    locations := sortedTexts (e.locations.map (·.name))
    sectors := sortedTexts (e.sectors.map Sector.value)
    quotes := quotes
    changeNote := e.changeNote
    humanApproved := isHumanApprovedDespiteFlag e }

/-- `_SEVERITY_RANK` -/
def Severity.rank (s : Severity) : Nat := Severity.all.findIdx (· = s)

/-- severity downwards, date, title, key -/
def itemKey (env : ReadEnv) (i : BriefingItem) : ℤ ×ₗ ℤ ×ₗ Text ×ₗ Text :=
  toLex (-(i.severity.rank : ℤ), toLex (i.eventDate.ordinal, toLex (i.title, env.idText i.eventId)))

def buildBriefing (env : ReadEnv) (s : Store) (day : Date) : Except Text Briefing := do
  let bounds ← dayBounds day
  let candidates := env.scan (s.events.filter (isCandidate bounds))
  let established := candidates.filter isEstablished
  return {
    day := day
    items := sortBy (itemKey env) (established.filterMap (briefingItem env s bounds))
    withheldPendingReview := candidates.countP fun e => !isEstablished e
    excludedNoVerifiedEvidence := established.countP fun e =>
      (briefingItem env s bounds e).isNone }

section
variable {env : ReadEnv} {s : Store} {bounds : DateTime × DateTime} {e : Event} {i : BriefingItem}

theorem briefingItem_id (h : briefingItem env s bounds e = some i) : i.eventId = e.eventId := by
  unfold briefingItem at h
  simp only at h
  split at h
  · cases h
  · cases h
    rfl

variable (env s bounds e) in
theorem briefingItem_eq_none :
    briefingItem env s bounds e = none ↔ verifiedQuotes env s e.eventId = [] := by
  unfold briefingItem
  simp only
  split
  · next h => exact ⟨fun _ => h, fun _ => rfl⟩
  · next h => exact ⟨fun hnone => (nomatch hnone), fun hnil => absurd hnil h⟩

theorem briefingItem_quotes (h : briefingItem env s bounds e = some i) :
    i.quotes = verifiedQuotes env s e.eventId ∧ i.quotes ≠ [] ∧
      (i.kind = .new ↔ inWindow e.firstSeenAt bounds = true) := by
  unfold briefingItem at h
  simp only at h
  split at h
  · cases h
  · next hne =>
    cases h
    refine ⟨rfl, hne, ?_⟩
    show (if inWindow e.firstSeenAt bounds = true then ItemKind.new else ItemKind.updated) = .new ↔ _
    split
    · next hin => exact ⟨fun _ => hin, fun _ => rfl⟩
    · next hout => exact ⟨fun hk => (nomatch hk), fun hin => absurd hin hout⟩

/-- the rows behind the quotes of an event -/
theorem mem_evidenceJoin {r : EventEvidence × RawDocument × Source} {eventId : Nat}
    (h : r ∈ evidenceJoin s eventId) :
    (eventId, r.1) ∈ s.evidenceRows ∧ r.1.verified = true ∧
      s.document? r.1.documentId = some r.2.1 ∧ s.source? r.2.1.sourceId = some r.2.2 := by
  unfold evidenceJoin at h
  obtain ⟨row, hrow, hjoin⟩ := List.mem_filterMap.mp h
  obtain ⟨hmem, hsel⟩ := List.mem_filter.mp hrow
  obtain ⟨hid, hverified⟩ := Bool.and_eq_true_iff.mp hsel
  obtain ⟨d, hd, hjoin⟩ := Option.bind_eq_some_iff.mp hjoin
  obtain ⟨x, hx, rfl⟩ := Option.map_eq_some_iff.mp hjoin
  rw [← of_decide_eq_true hid]
  exact ⟨hmem, hverified, hd, hx⟩

variable (env s) in
/-- the quotes of an event come from its joined rows, three at most -/
theorem verifiedQuotes_spec (eventId : Nat) :
    (∀ q ∈ verifiedQuotes env s eventId, ∃ r ∈ evidenceJoin s eventId, q = quoteOut r) ∧
      (verifiedQuotes env s eventId).length ≤ maxQuotesPerItem ∧
      (verifiedQuotes env s eventId = [] ↔ evidenceJoin s eventId = []) := by
  unfold verifiedQuotes
  set key := fun r : EventEvidence × RawDocument × Source =>
    toLex (quoteRank r.1.fieldSupported, r.1.quote)
  have hperm : (sortBy key (env.scan (evidenceJoin s eventId))).Perm (evidenceJoin s eventId) :=
    (List.perm_insertionSort _ _).trans (env.scan_perm _)
  refine ⟨?_, ?_, ?_⟩
  · intro q hq
    obtain ⟨r, hr, rfl⟩ := List.mem_map.mp hq
    exact ⟨r, hperm.mem_iff.mp (List.mem_of_mem_take hr), rfl⟩
  · rw [List.length_map]
    exact List.length_take_le _ _
  · rw [List.map_eq_nil_iff, List.take_eq_nil_iff, or_iff_right (by decide)]
    constructor
    · intro h
      exact List.nil_perm.mp (h ▸ hperm)
    · intro h
      exact List.perm_nil.mp (hperm.trans (by rw [h]))

/-- **Two stores, read in any order of rows, brief alike if their established candidates are the same
and give the same items, and as many candidates are withheld.** -/
theorem buildBriefing_congr {env' : ReadEnv} {t : Store} {day : Date}
    (htext : env'.idText = env.idText) (hkeys : (s.events.map Event.eventId).Nodup)
    (h : ∀ bounds, dayBounds day = .ok bounds →
      (s.events.filter (isCandidate bounds)).filter isEstablished =
        (t.events.filter (isCandidate bounds)).filter isEstablished ∧
      (∀ e ∈ s.events.filter (isCandidate bounds), isEstablished e = true →
        briefingItem env s bounds e = briefingItem env' t bounds e) ∧
      ((s.events.filter (isCandidate bounds)).countP fun e => !isEstablished e) =
        (t.events.filter (isCandidate bounds)).countP fun e => !isEstablished e) :
    buildBriefing env s day = buildBriefing env' t day := by
  unfold buildBriefing
  cases hbounds : dayBounds day with
  | error e => rfl
  | ok bounds =>
    obtain ⟨hsame, hitems, hwithheld⟩ := h bounds hbounds
    have hscan := env.scan_perm (s.events.filter (isCandidate bounds))
    have hscan' := env'.scan_perm (t.events.filter (isCandidate bounds))
    have hperm : ((env.scan (s.events.filter (isCandidate bounds))).filter isEstablished).Perm
        ((env'.scan (t.events.filter (isCandidate bounds))).filter isEstablished) := by
      refine (hscan.filter _).trans ?_
      rw [hsame]
      exact (hscan'.filter _).symm
    have hmem : ∀ e ∈ (env.scan (s.events.filter (isCandidate bounds))).filter isEstablished,
        e ∈ s.events.filter (isCandidate bounds) ∧ isEstablished e = true := by
      intro e he
      obtain ⟨he, hest⟩ := List.mem_filter.mp he
      exact ⟨hscan.mem_iff.mp he, hest⟩
    have hitem : ∀ e ∈ (env.scan (s.events.filter (isCandidate bounds))).filter isEstablished,
        briefingItem env s bounds e = briefingItem env' t bounds e :=
      fun e he => hitems e (hmem e he).1 (hmem e he).2
    have hkey : itemKey env' = itemKey env := by
      unfold itemKey
      rw [htext]
    -- no two items have one key, so the order of the candidates is forgotten
    have hsorted : sortBy (itemKey env)
        (((env.scan (s.events.filter (isCandidate bounds))).filter isEstablished).filterMap
          (briefingItem env s bounds)) =
        sortBy (itemKey env')
          (((env'.scan (t.events.filter (isCandidate bounds))).filter isEstablished).filterMap
            (briefingItem env' t bounds)) := by
      rw [List.filterMap_congr hitem, hkey]
      refine sortBy_perm (hperm.filterMap _) fun i hi j hj hij => ?_
      obtain ⟨e, he, hie⟩ := List.mem_filterMap.mp hi
      obtain ⟨f, hf, hjf⟩ := List.mem_filterMap.mp hj
      have hid : i.eventId = j.eventId := env.idText_injective (congrArg (fun k => k.2.2.2) hij)
      rw [briefingItem_id hie, briefingItem_id hjf] at hid
      have hsame : some e = some f := by
        rw [← lookup_of_mem hkeys (List.mem_of_mem_filter (hmem e he).1),
          ← lookup_of_mem hkeys (List.mem_of_mem_filter (hmem f hf).1), hid]
      rw [Option.some.inj hsame, hjf] at hie
      exact (Option.some.inj hie).symm
    have hcount : ((env.scan (s.events.filter (isCandidate bounds))).countP fun e =>
        !isEstablished e) =
        (env'.scan (t.events.filter (isCandidate bounds))).countP fun e => !isEstablished e := by
      rw [hscan.countP_eq, hscan'.countP_eq]
      exact hwithheld
    have hexcluded : (((env.scan (s.events.filter (isCandidate bounds))).filter
        isEstablished).countP fun e => (briefingItem env s bounds e).isNone) =
        ((env'.scan (t.events.filter (isCandidate bounds))).filter isEstablished).countP fun e =>
          (briefingItem env' t bounds e).isNone := by
      rw [← hperm.countP_eq]
      exact List.countP_congr fun e he => by rw [hitem e he]
    show (Except.ok _ : Except Text Briefing) = .ok _
    rw [hsorted, hcount, hexcluded]

end

end GeoRisk
