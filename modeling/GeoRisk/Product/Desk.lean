import GeoRisk.Product.Account
import GeoRisk.Product.Detail
import GeoRisk.Product.Locations
import GeoRisk.Record.Established
import GeoRisk.Review.Steps

/-!
# The review desk

The queue, the page of a record with its form, and the two ways to send a decision: `post_decision`
takes JSON and `review_submit` the form of the page.

* `reviewReasons`, `pendingQueue`    what waits for a human, and why;
* `DecisionRequest.parse`            `DecisionIn`, with the errors of its fields;
* `postDecision`, `reviewSubmit`     a decision over either way, with the answer of the database to
                                     the flush of its rows;
* `OutOfSight`, `InSight`            the record is on no page, or on all of them;
* `Announced`                        what the page tells the reviewer about a recorded decision;
* `announced_of_decision`            it is so.
-/

namespace GeoRisk
open Kit

/-! ## the queue -/

/-- `review_reasons` without its last resort -/
def reviewTriggers (e : Event) : List Text :=
  (if e.severity.alwaysReview then
    [txt "severity is '" ++ e.severity.value ++
      txt ("': high-impact claims always require review" ++
        " (CONSTRAINTS.md Section 6, trigger 4)")] else []) ++
  (match e.confidence with
  | none => []
  | some c =>
    if c < reviewThreshold then
      [txt "confidence " ++ fixed2 c ++ txt " is below the " ++ thresholdText ++
        txt " review threshold (trigger 1)"] else [])

def reviewReasons (e : Event) : List Text :=
  if reviewTriggers e = [] ∧ e.requiresHumanReview = true then
    [txt "flagged for review by the pipeline"]
  else reviewTriggers e

structure ReviewItemOut where
  event : EventSummaryOut
  reasons : List Text
  deriving DecidableEq, Repr

structure ReviewQueue where
  total : Nat
  items : List ReviewItemOut
  deriving DecidableEq, Repr

def pendingQueue (env : ReadEnv) (s : Store) (limit : Nat) : ReviewQueue :=
  let selected := s.events.filter pendingQuery
  let events := (sortBy (fun e : Event => e.createdAt.micros) (env.scan selected)).take limit
  let counts := evidenceCounts s (events.map Event.eventId)
  ⟨selected.length, events.map fun e =>
    ⟨summaryOut e (countOf counts e.eventId), reviewReasons e⟩⟩

/-! ## a decision -/

/-- what is sent: the body of `post_decision` -/
structure DecisionRequest where
  reviewer : Text
  decision : Text
  reason : Text
  edits : Option Edits := none

/-- `DecisionIn` -/
structure DecisionIn where
  reviewer : Text
  decision : ReviewVerb
  reason : Text
  edits : Option Edits
  reviewer_length : 1 ≤ reviewer.length ∧ reviewer.length ≤ 200
  reason_length : 1 ≤ reason.length ∧ reason.length ≤ 2000

/-- the errors of a request: the fields with their messages, or a status with its detail -/
inductive RequestError
  | invalid (errors : List (Text × Text))
  | http (e : HttpError)
  deriving DecidableEq, Repr

/-- how a request ends that is not decided -/
inductive Undecided
  | refused (error : RequestError)
  /-- the flush raises, and nothing handles it -/
  | raised (message : Text)
  deriving DecidableEq, Repr

def lengthError (name : Text) (max : Nat) (t : Text) : List (Text × Text) :=
  if t.length < 1 then [(name, txt "String should have at least 1 character")]
  else if max < t.length then
    [(name, txt "String should have at most " ++ natText max ++ txt " characters")]
  else []

/-- the errors of the fields, in their order -/
def DecisionRequest.errors (r : DecisionRequest) : List (Text × Text) :=
  lengthError (txt "reviewer") 200 r.reviewer ++
  (if (ReviewVerb.ofText? r.decision).isNone then
    [(txt "decision", txt "Input should be 'approve', 'reject' or 'edit'")] else []) ++
  lengthError (txt "reason") 2000 r.reason

def DecisionRequest.parse (r : DecisionRequest) : Except RequestError DecisionIn :=
  match ReviewVerb.ofText? r.decision with
  | none => .error (.invalid r.errors)
  | some verb =>
    if h : (1 ≤ r.reviewer.length ∧ r.reviewer.length ≤ 200) ∧
        (1 ≤ r.reason.length ∧ r.reason.length ≤ 2000) then
      .ok ⟨r.reviewer, verb, r.reason, r.edits, h.1, h.2⟩
    else .error (.invalid r.errors)

def editableFields : List Text :=
  [txt "event_date", txt "event_type", txt "severity", txt "title"]

/-- `str` of a `ReviewError`; `repr` prints a string with its quotes -/
def ReviewError.message (repr : Text → Text) : ReviewError → Text
  | decision => txt "decision must be one of " ++ listText [txt "approve", txt "edit", txt "reject"]
  | blankReviewer => txt "reviewer must not be blank: a decision has to be attributable"
  | longReviewer => txt "reviewer must be at most " ++ natText reviewerMax ++ txt " characters"
  | blankReason => txt "reason must not be blank: a decision without one is not auditable"
  | unknownFields names =>
    txt "cannot edit " ++ ['['] ++ join (txt ", ") ((sortedTexts names).map repr) ++ [']'] ++
      txt "; editable fields are " ++ listText editableFields ++ ['.'] ++
      (if txt "summary" ∈ names then
        txt " The summary is not editable; reject the record instead." else [])
  | title => txt "title must be " ++ natText titleMin ++ ['-'] ++ natText titleMax ++
      txt " characters"
  | eventType value => txt "event_type " ++ repr value ++ txt " is not in the closed taxonomy"
  | severity => txt "severity must be one of " ++ listText (Severity.all.map Severity.value)
  | eventDate => txt "event_date must be an ISO date, e.g. 2026-09-01"
  | noChange => txt "an edit must change at least one field; use approve instead"
  | unexpectedEdits => txt "edits are only accepted with decision 'edit'"

/-- the arguments of `apply_decision` -/
def DecisionIn.input (p : DecisionIn) (now : DateTime) : DecisionInput :=
  ⟨p.reviewer, p.decision.value, p.reason, p.edits, now⟩

/-- the fields of the form -/
structure DecisionForm where
  reviewer : Text := []
  decision : Text := []
  reason : Text := []
  editTitle : Text := []
  editEventType : Text := []
  editEventDate : Text := []
  editSeverity : Text := []
  deriving DecidableEq, Repr

/-- the fields that the form can edit -/
def formFields : List Text :=
  [txt "title", txt "event_type", txt "event_date", txt "severity"]

theorem nodup_formFields : formFields.Nodup := by decide

/-- the edits of the form, which count for an edit only -/
def DecisionForm.edits (f : DecisionForm) : Option Edits :=
  if f.decision = txt "edit" then some {
    items := [(txt "title", .str f.editTitle), (txt "event_type", .str f.editEventType),
      (txt "event_date", .str f.editEventDate), (txt "severity", .str f.editSeverity)]
    nodup := nodup_formFields }
  else none

def DecisionForm.request (f : DecisionForm) : DecisionRequest :=
  ⟨f.reviewer, f.decision, f.reason, f.edits⟩

/-- `_message` -/
def RequestError.message : RequestError → Text
  | http e => e.detail
  | invalid [] => []
  | invalid ((field, message) :: _) => field ++ txt ": " ++ message

section
variable (repr : Text → Text) (flush : Event → ReviewDecision → Option Text) (env : ReadEnv)
  (s : Store) (eventId : Nat)

/-- `record_decision`; `flush` is the answer of the database -/
def decideRequest (payload : DecisionIn) (now : DateTime) :
    Except Undecided (Store × DecisionResult) :=
  match s.event? eventId with
  | none => .error (.refused (.http eventNotFound))
  | some e =>
    match (runDecision flush s.nextId (payload.input now)).run e with
    | .error (.review err) _ => .error (.refused (.http ⟨422, err.message repr⟩))
    | .error (.database message) _ => .error (.raised message)
    | .ok result after => .ok ({ s.putEvent after with nextId := s.nextId + 1 }, result)

def postDecision (request : DecisionRequest) (now : DateTime) :
    Except Undecided (Store × DecisionResult) :=
  match request.parse with
  | .error error => .error (.refused error)
  | .ok payload => decideRequest repr flush s eventId payload now

/-- `decision_history`; the rows of an event stand as they were created -/
def decisionHistory : List ReviewDecision :=
  sortBy (fun d : ReviewDecision => d.decidedAt.micros)
    ((s.event? eventId).elim [] (·.reviewDecisions))

def getHistory : Except HttpError (List ReviewDecision) :=
  match s.event? eventId with
  | none => .error eventNotFound
  | some _ => .ok (decisionHistory s eventId)

/-! ## the page -/

structure ReviewPage where
  event : EventDetailOut
  reasons : List Text
  history : List ReviewDecision
  error : Option Text := none
  outcome : Option DecisionResult := none
  form : DecisionForm := {}

/-- `_review_context` -/
def reviewContext : Except HttpError ReviewPage :=
  match s.event? eventId with
  | none => .error eventNotFound
  | some e => .ok {
      event := buildEventDetail env s e
      reasons := reviewReasons e
      history := decisionHistory s eventId }

/-- the page behind the form, and the tables after it -/
def reviewSubmit (form : DecisionForm) (now : DateTime) : Except HttpError (Store × ReviewPage) := do
  let context ← reviewContext env s eventId
  match postDecision repr flush s eventId form.request now with
  | .error (.refused error) =>
    return (s, { context with error := some error.message, form := form })
  | .error (.raised _) => throw internalServerError
  | .ok (after, outcome) =>
    let refreshed ← reviewContext env after eventId
    return (after, { refreshed with outcome := some outcome })

end

/-! ## what readers see -/

/-- no page of the product shows the record -/
structure OutOfSight (env : ReadEnv) (s : Store) (eventId : Nat) : Prop where
  feed : ∀ q page, q.includePendingReview = false → listEvents env s q = .ok page →
    ∀ i ∈ page.items, i.eventId ≠ eventId
  search : ∀ x results, x.includePendingReview = false → searchEvents env s x = .ok results →
    ∀ hit ∈ results.items, hit.event.eventId ≠ eventId
  locations : ∀ r ∈ locationRows s false, r.1 ≠ eventId
  briefing : ∀ day b, buildBriefing env s day = .ok b → ∀ i ∈ b.items, i.eventId ≠ eventId

/-- feed, locations and the briefing of the day show the record, as human-approved or not -/
structure InSight (env : ReadEnv) (s : Store) (eventId : Nat) (day : Date) (humanApproved : Bool) :
    Prop where
  feed : ∃ offset page, listEvents env s { offset := offset } = .ok page ∧
    ∃ i ∈ page.items, i.eventId = eventId
  marked : ∀ q page, listEvents env s q = .ok page →
    ∀ i ∈ page.items, i.eventId = eventId → i.humanApproved = humanApproved
  locations : ∀ e ∈ s.events, e.eventId = eventId → ∀ l ∈ e.locations,
    (eventId, l) ∈ locationRows s false
  briefing : ∀ b, buildBriefing env s day = .ok b →
    ∃ i ∈ b.items, i.eventId = eventId ∧ i.humanApproved = humanApproved

section
variable {U : Unicode} {env : ReadEnv} {s : Store} {e : Event}

theorem eq_of_eventId (hkeys : (s.events.map Event.eventId).Nodup) {f : Event} (he : e ∈ s.events)
    (hf : f ∈ s.events) (h : f.eventId = e.eventId) : f = e :=
  List.inj_on_of_nodup_map hkeys hf he h

/-- the items of a page are events of the store that the query selects -/
theorem mem_listEvents {q : EventFilter} {page : EventPage} {i : EventSummaryOut}
    (h : listEvents env s q = .ok page) (hi : i ∈ page.items) :
    ∃ f ∈ s.events, q.selects env f = true ∧ ∃ n, i = summaryOut f n := by
  unfold listEvents at h
  split at h
  · cases h
  split at h
  · cases h
  split at h
  · cases h
  · cases h
    obtain ⟨f, hf, rfl⟩ := List.mem_map.mp hi
    obtain ⟨hmem, hsel⟩ := mem_of_page hf
    exact ⟨f, hmem, hsel, _, rfl⟩

/-- the hits of a search are events of the store that the query selects -/
theorem mem_searchEvents {x : SearchQuery} {results : SearchResults} {hit : SearchHit}
    (h : searchEvents env s x = .ok results) (hhit : hit ∈ results.items) :
    ∃ f ∈ s.events, x.selects env f = true ∧ hit.event.eventId = f.eventId := by
  unfold searchEvents at h
  split at h
  · cases h
  · cases h
    obtain ⟨f, hf, rfl⟩ := List.mem_map.mp hhit
    obtain ⟨hmem, hsel⟩ := mem_of_page (i := 0) hf
    exact ⟨f, hmem, hsel, rfl⟩

theorem established_of_selects {q : EventFilter} (hq : q.includePendingReview = false)
    (h : q.selects env e = true) : isEstablished e = true := by
  unfold EventFilter.selects at h
  simp only [hq, Bool.false_or, Bool.and_eq_true] at h
  exact h.1.1.1.1.1

theorem outOfSight_of_not_established (hkeys : (s.events.map Event.eventId).Nodup)
    (he : e ∈ s.events) (hn : isEstablished e = false) : OutOfSight env s e.eventId := by
  have hnone : ∀ f ∈ s.events, isEstablished f = true → f.eventId ≠ e.eventId := by
    intro f hf hest h
    rw [eq_of_eventId hkeys he hf h, hn] at hest
    cases hest
  refine ⟨fun q page hq hpage i hi => ?_, fun x results hx hresults hit hhit => ?_,
    fun r hr => ?_, fun day b hb i hi => ?_⟩
  · obtain ⟨f, hf, hsel, n, rfl⟩ := mem_listEvents hpage hi
    exact hnone f hf (established_of_selects hq hsel)
  · obtain ⟨f, hf, hsel, hid⟩ := mem_searchEvents hresults hhit
    unfold SearchQuery.selects at hsel
    simp only [hx, Bool.false_or, Bool.and_eq_true] at hsel
    rw [hid]
    exact hnone f hf hsel.2
  · obtain ⟨_, hany⟩ := List.mem_filter.mp hr
    obtain ⟨f, hf, hcounts⟩ := List.any_eq_true.mp hany
    obtain ⟨hid, hcounts⟩ := Bool.and_eq_true_iff.mp hcounts
    unfold countsLocation at hcounts
    rw [Bool.false_or, Bool.and_eq_true] at hcounts
    rw [← of_decide_eq_true hid]
    exact hnone f hf hcounts.2
  · cases hbounds : dayBounds day with
    | error err =>
      unfold buildBriefing at hb
      rw [hbounds] at hb
      cases hb
    | ok bounds =>
      obtain ⟨f, hf, hest, hitem⟩ := (mem_items hbounds hb).mp hi
      rw [briefingItem_id hitem]
      exact hnone f (List.mem_of_mem_filter hf) hest

/-- the feed reaches every established record -/
theorem feed_reaches (he : e ∈ s.events) (hest : isEstablished e = true) :
    ∃ offset page, listEvents env s { offset := offset } = .ok page ∧
      ∃ i ∈ page.items, i.eventId = e.eventId := by
  have hsel : ∀ offset, EventFilter.selects env { offset := offset } e = true := by
    intro offset
    unfold EventFilter.selects
    rw [hest]
    rfl
  have hmem : e ∈ sortBy latestFirst (env.scan (s.events.filter
      (EventFilter.selects env { offset := 0 }))) := by
    rw [(perm_sortBy _ _).mem_iff, (env.scan_perm _).mem_iff, List.mem_filter]
    exact ⟨he, hsel 0⟩
  obtain ⟨n, hn⟩ := List.mem_iff_getElem?.mp hmem
  refine ⟨n, _, rfl, ?_⟩
  have hpage : e ∈ ((sortBy latestFirst (env.scan (s.events.filter
      (EventFilter.selects env { offset := n })))).drop n).take 25 := by
    rw [List.mem_iff_getElem?]
    refine ⟨0, ?_⟩
    rw [List.getElem?_take_of_lt (by decide), List.getElem?_drop, Nat.add_zero]
    exact hn
  exact ⟨_, List.mem_map_of_mem hpage, rfl⟩

theorem inSight_of_established (env : ReadEnv) (hkeys : (s.events.map Event.eventId).Nodup)
    (he : e ∈ s.events)
    (hest : isEstablished e = true) (hquotes : evidenceJoin s e.eventId ≠ []) {day : Date}
    (hday : onDay day e.lastUpdatedAt = true) :
    InSight env s e.eventId day (isHumanApprovedDespiteFlag e) := by
  have hrejected : e.reviewStatus ≠ .rejected := by
    intro h
    unfold isEstablished at hest
    rw [h] at hest
    cases hest
  refine ⟨feed_reaches he hest, fun q page hpage i hi hid => ?_, fun f hf hid l hl => ?_,
    fun b hb => ?_⟩
  · obtain ⟨f, hf, _, n, rfl⟩ := mem_listEvents hpage hi
    rw [← eq_of_eventId hkeys he hf hid]
    rfl
  · rw [← hid]
    refine List.mem_filter.mpr ⟨List.mem_flatMap.mpr ⟨f, hf, List.mem_map_of_mem hl⟩, ?_⟩
    refine List.any_eq_true.mpr ⟨e, he, ?_⟩
    unfold countsLocation
    rw [hest, decide_eq_true hid.symm, decide_eq_true hrejected]
    rfl
  · cases hbounds : dayBounds day with
    | error err =>
      unfold buildBriefing at hb
      rw [hbounds] at hb
      cases hb
    | ok bounds =>
      have hin : e ∈ recordsOf s day := by
        refine List.mem_filter.mpr ⟨he, ?_⟩
        rw [hday, Bool.or_true, decide_eq_true hrejected]
        rfl
      cases hitem : briefingItem env s bounds e with
      | none =>
        have hnil := (briefingItem_eq_none env s bounds e).mp hitem
        exact absurd ((verifiedQuotes_spec env s e.eventId).2.2.mp hnil) hquotes
      | some i =>
        refine ⟨i, (mem_items hbounds hb).mpr ⟨e, hin, hest, hitem⟩, briefingItem_id hitem, ?_⟩
        unfold briefingItem at hitem
        simp only at hitem
        split at hitem
        · cases hitem
        · cases hitem
          rfl

/-! ## what a decision does -/

/-- what the page says about a recorded decision: the record stays out, or it appears marked as
human-approved, or it appears like any other -/
inductive Notice
  | hidden
  | marked
  | plain
  deriving DecidableEq

def DecisionResult.notice (r : DecisionResult) : Notice :=
  if r.decision = .reject then .hidden else if r.flagKeptBecause ≠ [] then .marked else .plain

/-- it is as the page says -/
def Announced (env : ReadEnv) (s : Store) (r : DecisionResult) (day : Date) : Prop :=
  match r.notice with
  | .hidden => OutOfSight env s r.eventId
  | .marked => InSight env s r.eventId day true
  | .plain => InSight env s r.eventId day false

variable {after : Event} {result : DecisionResult} {id : Nat} {input : DecisionInput}

/-- a record that is not rejected is marked exactly if its flag was kept -/
theorem marked_decided {verb : ReviewVerb} (hv : verb ≠ .reject) (changes : List (Edited × Edited)) :
    isHumanApprovedDespiteFlag (decided e id input verb changes) =
      !(applyVerb (applyEdits e input changes) verb).2.isEmpty := by
  cases verb with
  | reject => exact absurd rfl hv
  | approve => exact Bool.and_true _
  | edit => exact Bool.and_true _

/-- the notice tells the three outcomes apart -/
theorem notice_spec (h : applyDecision e id input = .ok (after, result)) :
    result.eventId = after.eventId ∧ after.eventId = e.eventId ∧
      after.lastUpdatedAt = some input.decidedAt ∧ pendingQuery after = false ∧
      (result.notice = .hidden ↔ isEstablished after = false) ∧
      (result.notice = .marked → isHumanApprovedDespiteFlag after = true) ∧
      (result.notice = .plain → isHumanApprovedDespiteFlag after = false) := by
  obtain ⟨⟨verb, changes⟩, _, h⟩ := bind_eq_ok.mp h
  cases h
  have hid := (decided_links e id input verb changes).1
  refine ⟨hid.symm, hid, rfl, ?_, ?_, ?_, ?_⟩
  · unfold pendingQuery
    rw [decided_status]
    cases verb <;> rfl
  · rw [← Bool.not_eq_true, isEstablished_decided, not_not]
    unfold DecisionResult.notice
    simp only
    split
    · next hv => exact ⟨fun _ => hv, fun _ => rfl⟩
    · next hv =>
      refine ⟨fun hn => ?_, fun hr => absurd hr hv⟩
      split at hn <;> cases hn
  · intro hn
    unfold DecisionResult.notice at hn
    simp only at hn
    split at hn
    · cases hn
    · next hv =>
      split at hn
      · next hkept =>
        rw [marked_decided hv changes, Bool.not_eq_true', List.isEmpty_eq_false_iff]
        exact hkept
      · cases hn
  · intro hn
    unfold DecisionResult.notice at hn
    simp only at hn
    split at hn
    · cases hn
    · next hv =>
      split at hn
      · cases hn
      · next hkept =>
        rw [marked_decided hv changes, Bool.not_eq_false', List.isEmpty_iff]
        exact not_not.mp hkept

/-- **What the page says about a recorded decision is so.** -/
theorem announced_of_decision (h : applyDecision e id input = .ok (after, result))
    (hkeys : (s.events.map Event.eventId).Nodup) (hafter : after ∈ s.events)
    (hquotes : evidenceJoin s after.eventId ≠ []) :
    Announced env s result input.decidedAt.date := by
  obtain ⟨hid, _, hupdated, _, hhidden, hmarked, hplain⟩ := notice_spec h
  have hday : onDay input.decidedAt.date after.lastUpdatedAt = true := by
    rw [hupdated]
    exact decide_eq_true rfl
  unfold Announced
  rw [hid]
  cases hn : result.notice with
  | hidden => exact outOfSight_of_not_established hkeys hafter (hhidden.mp hn)
  | marked =>
    have hest : isEstablished after = true := by
      rw [← Bool.not_eq_false, ← hhidden, hn]
      exact Notice.noConfusion
    have hsight := inSight_of_established env hkeys hafter hest hquotes hday
    rwa [hmarked hn] at hsight
  | plain =>
    have hest : isEstablished after = true := by
      rw [← Bool.not_eq_false, ← hhidden, hn]
      exact Notice.noConfusion
    have hsight := inSight_of_established env hkeys hafter hest hquotes hday
    rwa [hplain hn] at hsight

/-! ## reasons -/

/-- the triggers are what would keep the flag after an approval -/
theorem reviewTriggers_eq_nil :
    reviewTriggers e = [] ↔ flagMustStay e.severity e.confidence = [] := by
  rw [flagMustStay_eq_nil]
  unfold reviewTriggers
  cases e.severity.alwaysReview with
  | true => simp
  | false =>
    cases e.confidence with
    | none => simp
    | some c =>
      by_cases hc : c < reviewThreshold
      · simp [hc]
      · simpa [hc] using not_lt.mp hc

theorem reviewReasons_ne_nil (h : e.requiresHumanReview = true) : reviewReasons e ≠ [] := by
  unfold reviewReasons
  split
  · exact List.cons_ne_nil _ _
  · next hn => exact fun hnil => hn ⟨hnil, h⟩

end

end GeoRisk
