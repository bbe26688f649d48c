import GeoRisk.Review.Decision

/-!
# A decision, statement by statement

`apply_decision` once more, on the event of the session.  A `ReviewError` leaves the event as the
statements before it have left it.  Where the flush raises, the session is rolled back and its event
expired: the state beside that exception is the event that the flush was given, and nothing reads it.

* `Raised`, `runDecision`      the call, with the answer of the database to its flush;
* `checkDecision_eq`           what comes before "Everything is validated" leaves the event alone;
* `runDecision_eq`             how the call ends;
* `applyDecision_of_run`       a call that returns has done what `applyDecision` says.
-/

namespace GeoRisk
open Kit

/-! ## the statements of `apply_decision` -/

inductive Raised
  /-- `ReviewError` -/
  | review (error : ReviewError)
  /-- the flush raises -/
  | database (message : Text)
  deriving DecidableEq

/-- the session's event is the state, as it is when the call returns or raises -/
abbrev Review (α : Type) := EStateM Raised Event α

def require (condition : Bool) (error : ReviewError) : Review Unit :=
  if condition then pure () else throw (.review error)

/-- `if decision not in REVIEW_DECISIONS: …` -/
def reviewedVerb (input : DecisionInput) : Review ReviewVerb :=
  match ReviewVerb.ofText? input.decision with
  | some verb => pure verb
  | none => throw (.review .decision)

/-- `if decision == "edit": … elif edits: …` -/
def reviewedEdits (input : DecisionInput) (verb : ReviewVerb) :
    Review (List (Edited × Edited)) := do
  if verb = .edit then
    match validateEdits (← get) (input.edits.getD ⟨[], List.nodup_nil⟩) with
    | .error error => throw (.review error)
    | .ok changes =>
      require (!changes.isEmpty) .noChange
      return changes
  else
    require (!input.edits.any fun edits => !edits.items.isEmpty) .unexpectedEdits
    return []

/-- the loop of `setattr` -/
def assign (changes : List (Edited × Edited)) : Review Unit :=
  changes.forM fun change => modify fun event => setField event change.2

/-- the checks, up to "Everything is validated" -/
def checkDecision (input : DecisionInput) : Review (ReviewVerb × List (Edited × Edited)) := do
  let reviewer := strip input.reviewer
  let reason := strip input.reason
  let verb ← reviewedVerb input
  require (!reviewer.isEmpty) .blankReviewer
  require (decide (reviewer.length ≤ reviewerMax)) .longReviewer
  require (!reason.isEmpty) .blankReason
  let changes ← reviewedEdits input verb
  return (verb, changes)

/-- `if "severity" in changes: …` -/
def reviseRationale (input : DecisionInput) (changes : List (Edited × Edited)) : Review Unit :=
  if changes.any fun change => change.2.isSeverity then
    modify fun event => { event with severityRationale := some (revisedRationale input) }
  else pure ()

/-- the review status and the flag, with the reasons why the flag stays -/
def reviewed : ReviewVerb → Review (List Text)
  | .reject => do
    modify fun event => { event with reviewStatus := .rejected }
    modify fun event => { event with requiresHumanReview := true }
    return []
  | verb => do
    modify fun event => { event with reviewStatus := verb.status }
    let event ← get
    let kept := flagMustStay event.severity event.confidence
    modify fun event => { event with requiresHumanReview := !kept.isEmpty }
    return kept

/-- `session.flush()`; the database answers `none` when it keeps the rows -/
def flushRow (flush : Event → ReviewDecision → Option Text) (row : ReviewDecision) :
    Review Unit := do
  match flush (← get) row with
  | some message => throw (.database message)
  | none => modify fun event => { event with reviewDecisions := event.reviewDecisions ++ [row] }

/-- the rest of the call -/
def recordDecision (flush : Event → ReviewDecision → Option Text) (id : Nat) (input : DecisionInput)
    (verb : ReviewVerb) (changes : List (Edited × Edited)) : Review DecisionResult := do
  assign changes
  reviseRationale input changes
  let kept ← reviewed verb
  modify fun event => { event with lastUpdatedAt := some input.decidedAt }
  flushRow flush ⟨id, strip input.reviewer, verb, strip input.reason, changes, input.decidedAt⟩
  let event ← get
  return {
    decisionId := id, eventId := event.eventId, decision := verb
    reviewStatus := event.reviewStatus, requiresHumanReview := event.requiresHumanReview
    changes := changes, flagKeptBecause := kept }

/-- `apply_decision` -/
def runDecision (flush : Event → ReviewDecision → Option Text) (id : Nat) (input : DecisionInput) :
    Review DecisionResult := do
  let (verb, changes) ← checkDecision input
  recordDecision flush id input verb changes

/-- the event as it is flushed, before its new row -/
def assigned (e : Event) (input : DecisionInput) (verb : ReviewVerb)
    (changes : List (Edited × Edited)) : Event :=
  { (applyVerb (applyEdits e input changes) verb).1 with lastUpdatedAt := some input.decidedAt }

/-- what the call returns -/
def decisionResult (e : Event) (id : Nat) (input : DecisionInput) (verb : ReviewVerb)
    (changes : List (Edited × Edited)) : DecisionResult where
  decisionId := id
  eventId := (decided e id input verb changes).eventId
  decision := verb
  reviewStatus := (decided e id input verb changes).reviewStatus
  requiresHumanReview := (decided e id input verb changes).requiresHumanReview
  changes := changes
  flagKeptBecause := (applyVerb (applyEdits e input changes) verb).2

section
variable {α β : Type} {x : Review α} {f : α → Review β} {e e' : Event} {a : α} {error : Raised}

theorem run_bind_ok (h : x.run e = .ok a e') : (x >>= f).run e = (f a).run e' := by
  show EStateM.bind x f e = f a e'
  unfold EStateM.bind
  rw [show x e = .ok a e' from h]

theorem run_bind_error (h : x.run e = .error error e') :
    (x >>= f).run e = .error error e' := by
  show EStateM.bind x f e = .error error e'
  unfold EStateM.bind
  rw [show x e = .error error e' from h]

end

section
variable {e : Event} {id : Nat} {input : DecisionInput}
  {flush : Event → ReviewDecision → Option Text} {changes : List (Edited × Edited)}
  {verb : ReviewVerb}

theorem require_bind {α : Type} (condition : Bool) (error : ReviewError) (f : Unit → Review α)
    (e : Event) : (require condition error >>= f).run e =
      if condition then (f ()).run e else .error (.review error) e := by
  cases condition <;> rfl

theorem modify_eq (f : Event → Event) (e : Event) :
    (modify f : Review Unit).run e = .ok () (f e) := rfl

theorem assign_eq (changes : List (Edited × Edited)) (e : Event) :
    (assign changes).run e = .ok () (changes.foldl (fun e c => setField e c.2) e) := by
  induction changes generalizing e with
  | nil => rfl
  | cons c changes ih => exact ih (setField e c.2)

theorem reviewed_eq (verb : ReviewVerb) (e : Event) :
    (reviewed verb).run e = .ok (applyVerb e verb).2 (applyVerb e verb).1 := by
  cases verb <;> rfl

theorem reviewedEdits_eq (input : DecisionInput) (verb : ReviewVerb) (e : Event) :
    (reviewedEdits input verb).run e =
      if verb = .edit then
        match validateEdits e (input.edits.getD ⟨[], List.nodup_nil⟩) with
        | .error error => .error (.review error) e
        | .ok changes => if changes = [] then .error (.review .noChange) e else .ok changes e
      else if input.edits.any fun edits => !edits.items.isEmpty then
        .error (.review .unexpectedEdits) e
      else .ok [] e := by
  unfold reviewedEdits
  split
  · show EStateM.run (match validateEdits e (input.edits.getD ⟨[], List.nodup_nil⟩) with
      | .error error => throw (.review error)
      | .ok changes => do
        require (!changes.isEmpty) .noChange
        return changes) e = _
    cases validateEdits e (input.edits.getD ⟨[], List.nodup_nil⟩) with
    | error error => rfl
    | ok changes =>
      cases changes with
      | nil => rfl
      | cons c changes => rfl
  · cases input.edits.any fun edits => !edits.items.isEmpty with
    | true => rfl
    | false => rfl

/-- **The checks raise or return, and leave the event alone.** -/
theorem checkDecision_eq (input : DecisionInput) (e : Event) :
    (checkDecision input).run e =
      match validateDecision e input with
      | .error error => .error (.review error) e
      | .ok x => .ok x e := by
  unfold checkDecision validateDecision reviewedVerb
  cases ReviewVerb.ofText? input.decision with
  | none => rfl
  | some verb =>
    simp only [pure_bind, require_bind]
    by_cases h1 : strip input.reviewer = []
    · rw [if_pos h1, h1]
      rfl
    by_cases h2 : reviewerMax < (strip input.reviewer).length
    · rw [if_neg h1, if_pos h2, if_pos (by simp [h1]), if_neg (by simpa using h2)]
    by_cases h3 : strip input.reason = []
    · rw [if_neg h1, if_neg h2, if_pos h3, if_pos (by simp [h1]), if_pos (by simpa using h2), h3]
      rfl
    rw [if_neg h1, if_neg h2, if_neg h3, if_pos (by simp [h1]), if_pos (by simpa using h2),
      if_pos (by simp [h3])]
    have hedits := reviewedEdits_eq input verb e
    by_cases h4 : verb = .edit
    · rw [if_pos h4] at hedits ⊢
      cases hv : validateEdits e (input.edits.getD ⟨[], List.nodup_nil⟩) with
      | error error =>
        rw [hv] at hedits
        rw [run_bind_error hedits]
      | ok changes =>
        simp only [hv] at hedits ⊢
        by_cases h5 : changes = []
        · rw [if_pos h5] at hedits ⊢
          rw [run_bind_error hedits]
        · rw [if_neg h5] at hedits ⊢
          rw [run_bind_ok hedits]
          rfl
    · rw [if_neg h4] at hedits ⊢
      cases hany : input.edits.any fun edits => !edits.items.isEmpty with
      | true =>
        rw [hany] at hedits
        rw [run_bind_error hedits]
        rfl
      | false =>
        rw [hany] at hedits
        rw [run_bind_ok hedits]
        rfl

theorem reviseRationale_eq (input : DecisionInput) (changes : List (Edited × Edited)) (e : Event) :
    (reviseRationale input changes).run (changes.foldl (fun e c => setField e c.2) e) =
      .ok () (applyEdits e input changes) := by
  unfold reviseRationale applyEdits
  cases changes.any fun c => c.2.isSeverity with
  | true => rfl
  | false => rfl

/-- the statements before the flush touch no decision row -/
theorem assigned_reviewDecisions (e : Event) (input : DecisionInput) (verb : ReviewVerb)
    (changes : List (Edited × Edited)) :
    (assigned e input verb changes).reviewDecisions = e.reviewDecisions := by
  have hedits : (assigned e input verb changes).reviewDecisions =
      (applyEdits e input changes).reviewDecisions := by
    cases verb <;> rfl
  obtain ⟨title, eventType, eventDate, severity, rationale, h⟩ := applyEdits_eq e input changes
  rw [hedits, h]

theorem flushRow_eq (flush : Event → ReviewDecision → Option Text) (row : ReviewDecision)
    (e : Event) : (flushRow flush row).run e =
      match flush e row with
      | some message => .error (.database message) e
      | none => .ok () { e with reviewDecisions := e.reviewDecisions ++ [row] } := by
  show EStateM.run (match flush e row with
    | some message => (throw (Raised.database message) : Review Unit)
    | none => modify fun event => { event with
        reviewDecisions := event.reviewDecisions ++ [row] }) e = _
  cases flush e row <;> rfl

/-- **The rest of the call, by the answer of the database.** -/
theorem recordDecision_eq (flush : Event → ReviewDecision → Option Text) (id : Nat)
    (input : DecisionInput) (verb : ReviewVerb) (changes : List (Edited × Edited)) (e : Event) :
    (recordDecision flush id input verb changes).run e =
      match flush (assigned e input verb changes) (decisionRow id input verb changes) with
      | some message => .error (.database message) (assigned e input verb changes)
      | none => .ok (decisionResult e id input verb changes) (decided e id input verb changes) := by
  unfold recordDecision
  rw [run_bind_ok (assign_eq changes e), run_bind_ok (reviseRationale_eq input changes e),
    run_bind_ok (reviewed_eq verb (applyEdits e input changes)),
    run_bind_ok (modify_eq _ _)]
  have hflush := flushRow_eq flush (decisionRow id input verb changes)
    (assigned e input verb changes)
  cases hf : flush (assigned e input verb changes) (decisionRow id input verb changes) with
  | some message =>
    rw [hf] at hflush
    exact run_bind_error hflush
  | none =>
    rw [hf, assigned_reviewDecisions] at hflush
    exact (run_bind_ok hflush).trans rfl

/-- **How the call ends.** -/
theorem runDecision_eq (flush : Event → ReviewDecision → Option Text) (id : Nat)
    (input : DecisionInput) (e : Event) :
    (runDecision flush id input).run e =
      match validateDecision e input with
      | .error error => .error (.review error) e
      | .ok (verb, changes) =>
        match flush (assigned e input verb changes) (decisionRow id input verb changes) with
        | some message => .error (.database message) (assigned e input verb changes)
        | none => .ok (decisionResult e id input verb changes) (decided e id input verb changes) := by
  have hcheck := checkDecision_eq input e
  unfold runDecision
  cases hv : validateDecision e input with
  | error error =>
    rw [hv] at hcheck
    rw [run_bind_error hcheck]
  | ok x =>
    rw [hv] at hcheck
    rw [run_bind_ok hcheck]
    exact recordDecision_eq flush id input x.1 x.2 e

/-- a call that returns has done what the pure `applyDecision` says -/
theorem applyDecision_of_run {e' : Event} {res : DecisionResult}
    (h : (runDecision flush id input).run e = .ok res e') :
    applyDecision e id input = .ok (e', res) := by
  rw [runDecision_eq] at h
  unfold applyDecision
  cases hv : validateDecision e input with
  | error error =>
    rw [hv] at h
    cases h
  | ok x =>
    obtain ⟨verb, changes⟩ := x
    simp only [hv] at h
    split at h
    · cases h
    · cases h
      show Except.ok _ = Except.ok _
      rw [decisionResult, (decided_links e id input verb changes).1]

end

end GeoRisk
