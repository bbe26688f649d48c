import GeoRisk.Processing.Effect

/-!
# Human decisions

`review.py`: a decision is validated as a whole and then applied to the event.

* `validateEdits`             `_validate_edits`: the fields that change, with their value before
                              and after; nothing is touched;
* `applyDecision`             `apply_decision` on the event and its decision rows;
* `isEstablished`             what the product shows;
* `pendingQuery`              what the review queue lists;
* `validateEdit_some`, `mem_validateItems`
                              what an edit changes, and that the changes are those of the edits;
* `validateDecision_ok`       what an accepted decision has passed;
* `validateDecision_changes`  what changes it can carry;
* `applyDecision_ok`          what a decision that is accepted has done.
-/

namespace GeoRisk

/-- `TITLE_MIN`, `TITLE_MAX`, `REVIEWER_MAX` -/
def titleMin : Nat := 8
def titleMax : Nat := 200
def reviewerMax : Nat := 200

/-- `EDITABLE_FIELDS` -/
inductive EditableField
  | title
  | eventType
  | eventDate
  | severity
  deriving DecidableEq, Repr

namespace EditableField

def value : EditableField → Text
  | title => txt "title"
  | eventType => txt "event_type"
  | eventDate => txt "event_date"
  | severity => txt "severity"

def ofText? (t : Text) : Option EditableField :=
  [title, eventType, eventDate, severity].find? fun f => f.value = t

theorem ofText?_value (f : EditableField) : ofText? f.value = some f := by
  cases f <;> decide

theorem value_of_ofText? {t : Text} {f : EditableField} (h : ofText? t = some f) : f.value = t := by
  have := List.find?_some h
  simpa using this

end EditableField

/-- a value of the `edits` mapping -/
inductive EditValue
  | null
  | str (t : Text)
  | date (d : Date)
  /-- anything else, with its `str` -/
  | other (rendered : Text)
  deriving DecidableEq, Repr

/-- `str(raw)` -/
def EditValue.text : EditValue → Text
  | null => txt "None"
  | str t => t
  | date d => d.isoformat
  | other t => t

/-- leave the field unchanged -/
def EditValue.blank : EditValue → Bool
  | null => true
  | str t => decide (strip t = [])
  | _ => false

/-- a mapping: its keys are distinct -/
structure Edits where
  items : List (Text × EditValue)
  nodup : (items.map Prod.fst).Nodup

/-- why a decision is refused, in the order of the checks; each names what its message names -/
inductive ReviewError
  /-- decision must be one of the three -/
  | decision
  /-- reviewer must not be blank -/
  | blankReviewer
  /-- reviewer must be at most 200 characters -/
  | longReviewer
  /-- reason must not be blank -/
  | blankReason
  /-- cannot edit these; if the summary is among them the message says so -/
  | unknownFields (names : List Text)
  /-- title must be 8-200 characters -/
  | title
  /-- the value is not in the closed taxonomy -/
  | eventType (value : Text)
  /-- severity must be one of the levels -/
  | severity
  /-- event_date must be an ISO date -/
  | eventDate
  /-- an edit must change at least one field -/
  | noChange
  /-- edits are only accepted with decision 'edit' -/
  | unexpectedEdits
  deriving DecidableEq, Repr

/-- the event's value of the field of an edit -/
def currentOf (e : Event) : Edited → Edited
  | .title _ => .title e.title
  | .eventType _ => .eventType e.eventType
  | .eventDate _ => .eventDate e.eventDate
  | .severity _ => .severity e.severity

/-- the value before and after an edit, if it is a change -/
def changed (before after : Edited) : Option (Edited × Edited) :=
  if before = after then none else some (before, after)

def validateEdit (e : Event) (field : EditableField) (raw : EditValue) :
    Except ReviewError (Option (Edited × Edited)) :=
  if raw.blank then .ok none
  else
    let value := strip raw.text
    match field with
    | .title =>
      if titleMin ≤ value.length ∧ value.length ≤ titleMax then
        .ok (changed (.title e.title) (.title value))
      else .error .title
    | .eventType =>
      match EventType.ofText? value with
      | some t => .ok (changed (.eventType e.eventType) (.eventType t))
      | none => .error (.eventType value)
    | .severity =>
      match Severity.ofText? value with
      | some s => .ok (changed (.severity e.severity) (.severity s))
      | none => .error .severity
    | .eventDate =>
      match raw with
      | .date d => .ok (changed (.eventDate e.eventDate) (.eventDate d))
      | _ =>
        match Date.fromisoformat value with
        | some d => .ok (changed (.eventDate e.eventDate) (.eventDate d))
        | none => .error .eventDate

def validateItems (e : Event) :
    List (EditableField × EditValue) → Except ReviewError (List (Edited × Edited))
  | [] => .ok []
  | item :: rest => do
    let change ← validateEdit e item.1 item.2
    let changes ← validateItems e rest
    return change.toList ++ changes

def validateEdits (e : Event) (edits : Edits) : Except ReviewError (List (Edited × Edited)) :=
  let unknown := (edits.items.map Prod.fst).filter fun name => (EditableField.ofText? name).isNone
  if unknown ≠ [] then .error (.unknownFields unknown)
  else
    validateItems e (edits.items.filterMap fun item =>
      (EditableField.ofText? item.1).map fun f => (f, item.2))

/-- `setattr` -/
def setField (e : Event) : Edited → Event
  | .title v => { e with title := v }
  | .eventType v => { e with eventType := v }
  | .eventDate v => { e with eventDate := v }
  | .severity v => { e with severity := v }

def Edited.field : Edited → EditableField
  | .title _ => .title
  | .eventType _ => .eventType
  | .eventDate _ => .eventDate
  | .severity _ => .severity

def Edited.isSeverity : Edited → Bool
  | .severity _ => true
  | _ => false

/-- the arguments of `apply_decision` -/
structure DecisionInput where
  reviewer : Text
  decision : Text
  reason : Text
  edits : Option Edits := none
  /-- `decided_at or datetime.now(UTC)` -/
  decidedAt : DateTime

structure DecisionResult where
  decisionId : Nat
  eventId : Nat
  decision : ReviewVerb
  reviewStatus : ReviewStatus
  requiresHumanReview : Bool
  changes : List (Edited × Edited)
  flagKeptBecause : List Text

/-- the checks of `apply_decision`: the verb, reviewer and reason, and the changes -/
def validateDecision (e : Event) (input : DecisionInput) :
    Except ReviewError (ReviewVerb × List (Edited × Edited)) :=
  match ReviewVerb.ofText? input.decision with
  | none => .error .decision
  | some verb =>
    if strip input.reviewer = [] then .error .blankReviewer
    else if reviewerMax < (strip input.reviewer).length then .error .longReviewer
    else if strip input.reason = [] then .error .blankReason
    else if verb = .edit then
      match validateEdits e (input.edits.getD ⟨[], List.nodup_nil⟩) with
      | .error err => .error err
      | .ok changes => if changes = [] then .error .noChange else .ok (verb, changes)
    else if input.edits.any fun edits => !edits.items.isEmpty then .error .unexpectedEdits
    else .ok (verb, [])

/-- the rationale that replaces the model's when a reviewer sets the severity -/
def revisedRationale (input : DecisionInput) : Text :=
  txt "Revised by reviewer " ++ strip input.reviewer ++ txt " on " ++
    input.decidedAt.date.isoformat ++ txt ": " ++ strip input.reason

def applyEdits (e : Event) (input : DecisionInput) (changes : List (Edited × Edited)) : Event :=
  let e := changes.foldl (fun e c => setField e c.2) e
  if changes.any fun c => c.2.isSeverity then
    { e with severityRationale := some (revisedRationale input) }
  else e

def ReviewVerb.status : ReviewVerb → ReviewStatus
  | .reject => .rejected
  | .approve => .approved
  | .edit => .edited

/-- the review state after the decision, with the reasons why the flag was kept -/
def applyVerb (e : Event) : ReviewVerb → Event × List Text
  | .reject => ({ e with reviewStatus := .rejected, requiresHumanReview := true }, [])
  | .approve =>
    let kept := flagMustStay e.severity e.confidence
    ({ e with reviewStatus := .approved, requiresHumanReview := !kept.isEmpty }, kept)
  | .edit =>
    let kept := flagMustStay e.severity e.confidence
    ({ e with reviewStatus := .edited, requiresHumanReview := !kept.isEmpty }, kept)

/-- the row of the decision -/
def decisionRow (id : Nat) (input : DecisionInput) (verb : ReviewVerb)
    (changes : List (Edited × Edited)) : ReviewDecision :=
  ⟨id, strip input.reviewer, verb, strip input.reason, changes, input.decidedAt⟩

def decided (e : Event) (id : Nat) (input : DecisionInput) (verb : ReviewVerb)
    (changes : List (Edited × Edited)) : Event :=
  let after := (applyVerb (applyEdits e input changes) verb).1
  { after with
    lastUpdatedAt := some input.decidedAt
    reviewDecisions := e.reviewDecisions ++ [decisionRow id input verb changes] }

/-- `apply_decision`; `id` is the key of the new row -/
def applyDecision (e : Event) (id : Nat) (input : DecisionInput) :
    Except ReviewError (Event × DecisionResult) := do
  let (verb, changes) ← validateDecision e input
  let after := decided e id input verb changes
  return (after, {
    decisionId := id, eventId := e.eventId, decision := verb
    reviewStatus := after.reviewStatus, requiresHumanReview := after.requiresHumanReview
    changes := changes
    flagKeptBecause := (applyVerb (applyEdits e input changes) verb).2 })

def establishedReviewStatuses : List ReviewStatus := [.notRequired, .approved, .edited]

def isEstablished (e : Event) : Bool := decide (e.reviewStatus ∈ establishedReviewStatuses)

/-- established on the word of a human, with the flag still set -/
def isHumanApprovedDespiteFlag (e : Event) : Bool :=
  e.requiresHumanReview && decide (e.reviewStatus ∈ [ReviewStatus.approved, .edited])

/-- the condition of `pending_queue` -/
def pendingQuery (e : Event) : Bool := decide (e.reviewStatus = .pending) && e.requiresHumanReview

section
variable {e e' : Event} {id : Nat} {input : DecisionInput} {res : DecisionResult}

/-! ## what is accepted -/

theorem changed_eq_some {before after : Edited} {c : Edited × Edited} :
    changed before after = some c ↔ before ≠ after ∧ c = (before, after) := by
  unfold changed
  split
  · next heq => simp [heq]
  · next hne => simp [hne, eq_comm]

/-- what one edit changes: its own field, from the event's value to another one, and a title to the
text of the edit, if that has the right length -/
theorem validateEdit_some {field : EditableField} {raw : EditValue} {c : Edited × Edited}
    (h : validateEdit e field raw = .ok (some c)) :
    c.2.field = field ∧ (c.1 = currentOf e c.2 ∧ c.2 ≠ c.1) ∧ ∀ value, c.2 = .title value →
      value = strip raw.text ∧ titleMin ≤ value.length ∧ value.length ≤ titleMax := by
  unfold validateEdit at h
  split at h
  · cases h
  · cases field with
    | title =>
      simp only at h
      split at h
      · next hlen =>
        obtain ⟨hne, rfl⟩ := changed_eq_some.mp (Except.ok.inj h)
        exact ⟨rfl, ⟨rfl, hne.symm⟩, fun value he => by cases he; exact ⟨rfl, hlen⟩⟩
      · cases h
    | eventType =>
      simp only at h
      split at h
      · obtain ⟨hne, rfl⟩ := changed_eq_some.mp (Except.ok.inj h)
        exact ⟨rfl, ⟨rfl, hne.symm⟩, fun value he => by cases he⟩
      · cases h
    | severity =>
      simp only at h
      split at h
      · obtain ⟨hne, rfl⟩ := changed_eq_some.mp (Except.ok.inj h)
        exact ⟨rfl, ⟨rfl, hne.symm⟩, fun value he => by cases he⟩
      · cases h
    | eventDate =>
      simp only at h
      split at h
      · obtain ⟨hne, rfl⟩ := changed_eq_some.mp (Except.ok.inj h)
        exact ⟨rfl, ⟨rfl, hne.symm⟩, fun value he => by cases he⟩
      · split at h
        · obtain ⟨hne, rfl⟩ := changed_eq_some.mp (Except.ok.inj h)
          exact ⟨rfl, ⟨rfl, hne.symm⟩, fun value he => by cases he⟩
        · cases h

/-- the changes are those of the single edits, none of which is refused -/
theorem mem_validateItems {items : List (EditableField × EditValue)}
    {changes : List (Edited × Edited)} (h : validateItems e items = .ok changes) :
    (∀ item ∈ items, ∃ change, validateEdit e item.1 item.2 = .ok change) ∧
      ∀ c, c ∈ changes ↔ ∃ item ∈ items, validateEdit e item.1 item.2 = .ok (some c) := by
  induction items generalizing changes with
  | nil =>
    cases h
    simp
  | cons item rest ih =>
    obtain ⟨change, h1, h⟩ := Kit.bind_eq_ok.mp h
    obtain ⟨more, h2, h⟩ := Kit.bind_eq_ok.mp h
    cases h
    obtain ⟨hok, hmem⟩ := ih h2
    constructor
    · intro x hx
      rcases List.mem_cons.mp hx with rfl | hx
      · exact ⟨change, h1⟩
      · exact hok x hx
    · intro c
      rw [List.mem_append, hmem c, Option.mem_toList, List.exists_mem_cons_iff, h1]
      simp

/-- **What an accepted decision has passed.** -/
theorem validateDecision_ok {verb : ReviewVerb} {changes : List (Edited × Edited)}
    (h : validateDecision e input = .ok (verb, changes)) :
    ReviewVerb.ofText? input.decision = some verb ∧
      strip input.reviewer ≠ [] ∧ (strip input.reviewer).length ≤ reviewerMax ∧
      strip input.reason ≠ [] ∧
      ((verb = .edit ∧ changes ≠ [] ∧
        validateEdits e (input.edits.getD ⟨[], List.nodup_nil⟩) = .ok changes) ∨
      (verb ≠ .edit ∧ changes = [] ∧ ∀ edits ∈ input.edits, edits.items = [])) := by
  unfold validateDecision at h
  split at h
  · cases h
  · next v hv =>
    split at h
    · cases h
    · next hreviewer =>
      split at h
      · cases h
      · next hlen =>
        split at h
        · cases h
        · next hreason =>
          split at h
          · next hedit =>
            split at h
            · cases h
            · next cs hcs =>
              split at h
              · cases h
              · next hne =>
                cases h
                exact ⟨hv, hreviewer, Nat.not_lt.mp hlen, hreason, Or.inl ⟨hedit, hne, hcs⟩⟩
          · next hedit =>
            split at h
            · cases h
            · next hnone =>
              cases h
              refine ⟨hv, hreviewer, Nat.not_lt.mp hlen, hreason, Or.inr ⟨hedit, rfl, ?_⟩⟩
              intro edits he
              rw [Option.mem_def.mp he] at hnone
              simpa using hnone

/-- the edits behind the changes -/
theorem validateEdits_ok {edits : Edits} {changes : List (Edited × Edited)}
    (h : validateEdits e edits = .ok changes) :
    validateItems e (edits.items.filterMap fun item =>
      (EditableField.ofText? item.1).map fun f => (f, item.2)) = .ok changes := by
  unfold validateEdits at h
  simp only at h
  split at h
  · cases h
  · exact h

/-- **An accepted decision changes fields from the event's values to others, and only an edit
changes any.** -/
theorem validateDecision_changes {verb : ReviewVerb} {changes : List (Edited × Edited)}
    (h : validateDecision e input = .ok (verb, changes)) :
    (∀ c ∈ changes, c.1 = currentOf e c.2 ∧ c.2 ≠ c.1) ∧ (verb ≠ .edit → changes = []) := by
  obtain ⟨_, _, _, _, ⟨hedit, _, hedits⟩ | ⟨_, rfl, _⟩⟩ := validateDecision_ok h
  · refine ⟨?_, fun hne => absurd hedit hne⟩
    intro c hc
    obtain ⟨item, _, hitem⟩ := ((mem_validateItems (validateEdits_ok hedits)).2 c).mp hc
    exact (validateEdit_some hitem).2.1
  · exact ⟨fun c hc => absurd hc (List.not_mem_nil), fun _ => rfl⟩

/-! ## what is applied -/

theorem foldl_setField (changes : List (Edited × Edited)) (e : Event) :
    ∃ title eventType eventDate severity, changes.foldl (fun e c => setField e c.2) e =
      { e with title := title, eventType := eventType, eventDate := eventDate,
               severity := severity } := by
  induction changes generalizing e with
  | nil => exact ⟨e.title, e.eventType, e.eventDate, e.severity, rfl⟩
  | cons c rest ih =>
    obtain ⟨title, eventType, eventDate, severity, h⟩ := ih (setField e c.2)
    rw [List.foldl_cons, h]
    cases c.2 <;> exact ⟨title, eventType, eventDate, severity, rfl⟩

/-- edits write the four fields and the rationale of the severity, and nothing else -/
theorem applyEdits_eq (e : Event) (input : DecisionInput) (changes : List (Edited × Edited)) :
    ∃ title eventType eventDate severity rationale, applyEdits e input changes =
      { e with title := title, eventType := eventType, eventDate := eventDate,
               severity := severity, severityRationale := rationale } := by
  obtain ⟨title, eventType, eventDate, severity, h⟩ := foldl_setField changes e
  unfold applyEdits
  rw [h]
  split
  · exact ⟨title, eventType, eventDate, severity, some (revisedRationale input), rfl⟩
  · exact ⟨title, eventType, eventDate, severity, e.severityRationale, rfl⟩

/-- edits touch neither the links nor the review state -/
theorem applyEdits_keeps (e : Event) (input : DecisionInput) (changes : List (Edited × Edited)) :
    (applyEdits e input changes).eventId = e.eventId ∧
      (applyEdits e input changes).confidence = e.confidence ∧
      (applyEdits e input changes).documents = e.documents ∧
      (applyEdits e input changes).evidence = e.evidence ∧
      (applyEdits e input changes).reviewStatus = e.reviewStatus := by
  obtain ⟨title, eventType, eventDate, severity, rationale, h⟩ := applyEdits_eq e input changes
  rw [h]
  exact ⟨rfl, rfl, rfl, rfl, rfl⟩

/-- **What an accepted decision has done.** -/
theorem applyDecision_ok (h : applyDecision e id input = .ok (e', res)) :
    ∃ verb changes, validateDecision e input = .ok (verb, changes) ∧
      e' = decided e id input verb changes ∧ res.decision = verb := by
  obtain ⟨⟨verb, changes⟩, hv, h⟩ := Kit.bind_eq_ok.mp h
  cases h
  exact ⟨verb, changes, hv, rfl, rfl⟩

theorem decided_links (e : Event) (id : Nat) (input : DecisionInput) (verb : ReviewVerb)
    (changes : List (Edited × Edited)) :
    (decided e id input verb changes).eventId = e.eventId ∧
      (decided e id input verb changes).documents = e.documents ∧
      (decided e id input verb changes).evidence = e.evidence := by
  obtain ⟨h1, _, h3, h4, _⟩ := applyEdits_keeps e input changes
  cases verb <;> exact ⟨h1, h3, h4⟩

/-- a decision leaves the record in its cluster, and active -/
theorem decided_place (e : Event) (id : Nat) (input : DecisionInput) (verb : ReviewVerb)
    (changes : List (Edited × Edited)) :
    (decided e id input verb changes).clusterId = e.clusterId ∧
      (decided e id input verb changes).status = e.status := by
  have hedits : (decided e id input verb changes).clusterId = (applyEdits e input changes).clusterId ∧
      (decided e id input verb changes).status = (applyEdits e input changes).status := by
    cases verb <;> exact ⟨rfl, rfl⟩
  obtain ⟨title, eventType, eventDate, severity, rationale, h⟩ := applyEdits_eq e input changes
  rw [hedits.1, hedits.2, h]
  exact ⟨rfl, rfl⟩

theorem decided_status (e : Event) (id : Nat) (input : DecisionInput) (verb : ReviewVerb)
    (changes : List (Edited × Edited)) :
    (decided e id input verb changes).reviewStatus = verb.status := by
  cases verb <;> rfl

/-- only a decision to reject leaves a record that is not established -/
theorem isEstablished_decided (verb : ReviewVerb) (changes : List (Edited × Edited)) :
    isEstablished (decided e id input verb changes) = true ↔ verb ≠ .reject := by
  unfold isEstablished
  rw [decided_status]
  cases verb <;> decide

end

end GeoRisk
