import GeoRisk.Kit.Session
import GeoRisk.Record.Established

/-!
# Reviewers and the worker on one event

Opening a review page, merging a report and submitting a decision are separate transactions.  None
of them locks the event or checks a version: each reads the row, and its commit writes the columns
that it changed and inserts its new child rows (`rebase`), whatever the row has become since.

* `Race`, `RaceAct`, `raceFire`    one event with the open pages, the worker's transaction and the
                                   decisions under way, at any interleaving of their steps;
* `rebase_mergeEvent`,
  `rebase_decided`                 a transaction that is not overtaken does what one call does;
* `Covered`                        an approved or edited event shows what the page of the reviewer
                                   who cleared it showed, with the edits of that decision;
* `covered_of_fresh`               so it is in every run in which no commit overtakes a reader.
-/

namespace GeoRisk
open Kit

/-! ## the row after a commit -/

/-- the event row after the commit of a transaction that read `seen` and left `wrote` -/
def rebase (seen wrote row : Event) : Event where
  eventId := row.eventId
  clusterId := column seen.clusterId wrote.clusterId row.clusterId
  eventType := column seen.eventType wrote.eventType row.eventType
  eventDate := column seen.eventDate wrote.eventDate row.eventDate
  title := column seen.title wrote.title row.title
  summary := column seen.summary wrote.summary row.summary
  severity := column seen.severity wrote.severity row.severity
  severityRationale := column seen.severityRationale wrote.severityRationale row.severityRationale
  confidence := column seen.confidence wrote.confidence row.confidence
  requiresHumanReview :=
    column seen.requiresHumanReview wrote.requiresHumanReview row.requiresHumanReview
  reviewStatus := column seen.reviewStatus wrote.reviewStatus row.reviewStatus
  status := column seen.status wrote.status row.status
  changeNote := column seen.changeNote wrote.changeNote row.changeNote
  firstSeenAt := column seen.firstSeenAt wrote.firstSeenAt row.firstSeenAt
  lastUpdatedAt := column seen.lastUpdatedAt wrote.lastUpdatedAt row.lastUpdatedAt
  createdAt := column seen.createdAt wrote.createdAt row.createdAt
  locations := inserted seen.locations wrote.locations row.locations
  actors := inserted seen.actors wrote.actors row.actors
  sectors := inserted seen.sectors wrote.sectors row.sectors
  documents := inserted seen.documents wrote.documents row.documents
  evidence := inserted seen.evidence wrote.evidence row.evidence
  reviewDecisions := inserted seen.reviewDecisions wrote.reviewDecisions row.reviewDecisions

/-- the constraints of the database on an event and on the keys of its child rows -/
def storable (e : Event) : Bool :=
  (!e.severity.alwaysReview || e.requiresHumanReview) &&
  (e.confidence.all fun c =>
    decide (0 ≤ c) && decide (c ≤ 1) && (decide (reviewThreshold ≤ c) || e.requiresHumanReview)) &&
  decide e.actors.Nodup && decide e.sectors.Nodup &&
  decide (e.documents.map (·.documentId)).Nodup

section
variable {U : Unicode} {seen row : Event}

theorem rebase_current {wrote : Event} (hi : wrote.eventId = seen.eventId)
    (hl : seen.locations <+: wrote.locations) (ha : seen.actors <+: wrote.actors)
    (hs : seen.sectors <+: wrote.sectors) (hd : seen.documents <+: wrote.documents)
    (he : seen.evidence <+: wrote.evidence)
    (hr : seen.reviewDecisions <+: wrote.reviewDecisions) : rebase seen wrote seen = wrote := by
  unfold rebase
  rw [inserted_current hl, inserted_current ha, inserted_current hs, inserted_current hd,
    inserted_current he, inserted_current hr, ← hi]
  simp only [column_current]

/-- **A merge that is not overtaken leaves the merged event.** -/
theorem rebase_mergeEvent (U : Unicode) (e : Event) (r : Report) :
    rebase e (mergeEvent U e r) e = mergeEvent U e r := by
  obtain ⟨hi, hd, he⟩ := mergeEvent_links U e r
  obtain ⟨hl, ha, hs, hr⟩ := mergeEvent_rows U e r
  refine rebase_current hi ?_ ?_ ?_ ?_ ?_ ?_
  · rw [hl]; exact List.prefix_append _ _
  · rw [ha]; exact prefix_addActors _ _
  · rw [hs]; exact List.prefix_append _ _
  · rw [hd]; exact List.prefix_append _ _
  · rw [he]; exact List.prefix_append _ _
  · rw [hr]

theorem applyEdits_rows (e : Event) (input : DecisionInput) (changes : List (Edited × Edited)) :
    (applyEdits e input changes).locations = e.locations ∧
      (applyEdits e input changes).actors = e.actors ∧
      (applyEdits e input changes).sectors = e.sectors ∧
      (applyEdits e input changes).changeNote = e.changeNote := by
  obtain ⟨title, eventType, eventDate, severity, rationale, h⟩ := applyEdits_eq e input changes
  rw [h]
  exact ⟨rfl, rfl, rfl, rfl⟩

theorem decided_rows (e : Event) (id : Nat) (input : DecisionInput) (verb : ReviewVerb)
    (changes : List (Edited × Edited)) :
    (decided e id input verb changes).locations = e.locations ∧
      (decided e id input verb changes).actors = e.actors ∧
      (decided e id input verb changes).sectors = e.sectors ∧
      (decided e id input verb changes).changeNote = e.changeNote := by
  obtain ⟨h1, h2, h3, h4⟩ := applyEdits_rows e input changes
  cases verb <;> exact ⟨h1, h2, h3, h4⟩

/-- **A decision that is not overtaken leaves the decided event.** -/
theorem rebase_decided (e : Event) (id : Nat) (input : DecisionInput) (verb : ReviewVerb)
    (changes : List (Edited × Edited)) :
    rebase e (decided e id input verb changes) e = decided e id input verb changes := by
  obtain ⟨hi, hd, he⟩ := decided_links e id input verb changes
  obtain ⟨hl, ha, hs, _⟩ := decided_rows e id input verb changes
  refine rebase_current hi ?_ ?_ ?_ ?_ ?_ (List.prefix_append _ _)
  · rw [hl]
  · rw [ha]
  · rw [hs]
  · rw [hd]
  · rw [he]

end

/-! ## the transactions -/

/-- a decision under way: the page it answers, the row its transaction read, and what it changes -/
structure Submission where
  page : Event
  seen : Event
  input : DecisionInput
  verb : ReviewVerb
  changes : List (Edited × Edited)
  valid : validateDecision seen input = .ok (verb, changes)

/-- the worker's transaction: the event in its session, and the report merged into it -/
structure Merging where
  seen : Event
  report : Option Report

structure Race where
  row : Event
  /-- the key of the next decision -/
  nextId : Nat
  pages : List Event := []
  worker : Option Merging := none
  submissions : List Submission := []
  /-- the last committed decision to approve or edit -/
  clearedBy : Option Submission := none

inductive RaceAct
  | load
  /-- the child rows of an open page, read after its columns -/
  | loadRows (page : Nat)
  | read
  | merge (report : Report)
  | commitMerge
  | rollbackMerge
  | submit (page : Nat) (input : DecisionInput)
  | commitDecision (submission : Nat)
  | rollbackDecision (submission : Nat)

/-- the transaction of a decision, if it is accepted -/
def submission? (page seen : Event) (input : DecisionInput) : Option Submission :=
  match h : validateDecision seen input with
  | .ok (verb, changes) => some ⟨page, seen, input, verb, changes, h⟩
  | .error _ => none

/-- the event of a session after a commit: collections that were loaded are not read again -/
def sessionCopy (seen wrote : Event) : Event :=
  { wrote with locations := seen.locations, actors := seen.actors, sectors := seen.sectors }

def Submission.wrote (x : Submission) (id : Nat) : Event :=
  decided x.seen id x.input x.verb x.changes

def raceFire (U : Unicode) (s : Race) : RaceAct → Option Race
  | .load => some { s with pages := s.pages ++ [s.row] }
  | .loadRows i => s.pages[i]?.map fun page =>
    { s with pages := s.pages.set i { page with
        locations := s.row.locations, actors := s.row.actors, sectors := s.row.sectors } }
  | .read =>
    match s.worker with
    | some ⟨_, some _⟩ => none
    | _ => some { s with worker := some ⟨s.row, none⟩ }
  | .merge r =>
    match s.worker with
    | some ⟨seen, none⟩ => some { s with worker := some ⟨seen, some r⟩ }
    | _ => none
  | .commitMerge =>
    match s.worker with
    | some ⟨seen, some r⟩ =>
      let wrote := mergeEvent U seen r
      let row := rebase seen wrote s.row
      if storable row then
        some { s with row := row, worker := some ⟨sessionCopy seen wrote, none⟩ }
      else none
    | _ => none
  | .rollbackMerge => some { s with worker := none }
  | .submit i input => s.pages[i]?.bind fun page =>
    (submission? page s.row input).map fun x => { s with submissions := s.submissions ++ [x] }
  | .commitDecision k => s.submissions[k]?.bind fun x =>
    let row := rebase x.seen (x.wrote s.nextId) s.row
    if storable row then
      some { s with
        row := row
        nextId := s.nextId + 1
        submissions := s.submissions.eraseIdx k
        clearedBy := if x.verb = .reject then s.clearedBy else some x }
    else none
  | .rollbackDecision k => some { s with submissions := s.submissions.eraseIdx k }

/-! ## what an approval covers -/

/-- what a reviewer is shown of the event -/
structure Content where
  severity : Severity
  locations : List EventLocation
  actors : List EventActor
  sectors : List Sector
  changeNote : Option Text
  deriving DecidableEq, Repr

def content (e : Event) : Content :=
  ⟨e.severity, e.locations, e.actors, e.sectors, e.changeNote⟩

/-- the page of the decision with the edits of the decision -/
def Submission.shown (x : Submission) : Content := content (applyEdits x.page x.input x.changes)

def Cleared (e : Event) : Prop := e.reviewStatus ∈ [.approved, .edited]

instance (e : Event) : Decidable (Cleared e) := inferInstanceAs (Decidable (_ ∈ _))

/-- a cleared event has the content that the reviewer who cleared it was shown -/
def Covered (s : Race) : Prop :=
  Cleared s.row → ∃ x, s.clearedBy = some x ∧ content s.row = x.shown

/-- an update of the event that the worker read sets its status to pending -/
def SendsBack (U : Unicode) (seen : Event) (r : Report) : Prop :=
  let d := consolidation U seen r
  let e := applyContent r d seen
  seen.reviewStatus ≠ .pending ∧ mergeNeedsReview d e (e.confidence.map (min · r.confidence)) = true

instance (U : Unicode) (seen : Event) (r : Report) : Decidable (SendsBack U seen r) :=
  inferInstanceAs (Decidable (_ ∧ _))

/-- an update that finds the event cleared sends it back -/
def Merging.Fresh (U : Unicode) (m : Merging) (row : Event) : Prop :=
  ∀ r ∈ m.report, Cleared row → (consolidation U m.seen r).relation = .update →
    SendsBack U m.seen r

/-- a decision that leaves the event cleared finds the content of its page, but for what it edits -/
def Submission.Fresh (x : Submission) (row : Event) : Prop :=
  x.verb ≠ .reject → x.seen.reviewStatus ≠ x.verb.status ∨ Cleared row →
    content (applyEdits row x.input x.changes) = x.shown

/-- no commit overtakes a reader -/
def Fresh (U : Unicode) (s : Race) : RaceAct → Prop
  | .commitMerge => ∀ m ∈ s.worker, m.Fresh U s.row
  | .commitDecision k => ∀ x ∈ s.submissions[k]?, x.Fresh s.row
  | _ => True

instance (U : Unicode) (m : Merging) (row : Event) : Decidable (m.Fresh U row) :=
  inferInstanceAs (Decidable (∀ r ∈ m.report, _))

instance (x : Submission) (row : Event) : Decidable (x.Fresh row) :=
  inferInstanceAs (Decidable (_ → _))

instance (U : Unicode) (s : Race) (a : RaceAct) : Decidable (Fresh U s a) :=
  match a with
  | .commitMerge => inferInstanceAs (Decidable (∀ m ∈ s.worker, m.Fresh U s.row))
  | .commitDecision k => inferInstanceAs (Decidable (∀ x ∈ s.submissions[k]?, x.Fresh s.row))
  | .load | .loadRows _ | .read | .merge _ | .rollbackMerge | .submit _ _ | .rollbackDecision _ =>
    .isTrue trivial

section
variable {U : Unicode} {s t : Race}

/-! ## a merge -/

theorem sendsBack_of_decided {seen : Event} {r : Report}
    (h : seen.reviewStatus ∈ [.approved, .edited, .rejected])
    (hu : (consolidation U seen r).relation = .update) : SendsBack U seen r := by
  obtain ⟨_, hs, _⟩ := applyContent_keeps r (consolidation U seen r) seen
  refine ⟨fun hp => ?_, ?_⟩
  · rw [hp] at h
    exact absurd h (by decide)
  · unfold mergeNeedsReview
    rw [hs, decide_eq_true h]
    rcases Consolidation.relation_eq_update.mp hu with h | h <;> simp [h]

theorem mergeEvent_of_sendsBack {seen : Event} {r : Report} (h : SendsBack U seen r)
    (hu : (consolidation U seen r).relation = .update) :
    (mergeEvent U seen r).reviewStatus = .pending := by
  show (applyReview U r _ (applyContent r (consolidation U seen r) seen)).reviewStatus = _
  unfold applyReview
  rw [if_pos hu]
  simp only
  rw [if_pos h.2]

theorem content_of_duplicate {seen row : Event} {r : Report}
    (h : (consolidation U seen r).relation ≠ .update) :
    content (rebase seen (mergeEvent U seen r) row) = content row := by
  rw [mergeEvent_eq_of_duplicate h]
  simp [content, rebase, linkDocument]

/-- a commit that writes another status than these two does not clear the event -/
theorem cleared_of_rebase {seen wrote row : Event} (hw : wrote.reviewStatus ∉ [.approved, .edited])
    (hc : Cleared (rebase seen wrote row)) : Cleared row := by
  have hc : column seen.reviewStatus wrote.reviewStatus row.reviewStatus ∈ [.approved, .edited] := hc
  obtain ⟨_, he⟩ | ⟨_, he⟩ := column_cases seen.reviewStatus wrote.reviewStatus row.reviewStatus
  · rw [he] at hc
    exact hc
  · rw [he] at hc
    exact absurd hc hw

theorem covered_commitMerge {seen row : Event} {r : Report}
    (hf : Merging.Fresh U ⟨seen, some r⟩ row)
    (hc : Cleared (rebase seen (mergeEvent U seen r) row)) :
    Cleared row ∧ content (rebase seen (mergeEvent U seen r) row) = content row := by
  have hrow : Cleared row := by
    -- the merge writes no status but pending
    rcases mergeEvent_status (U := U) (e := seen) (r := r) with h | h
    · unfold Cleared at hc
      simp only [rebase] at hc
      rw [h, column_unchanged] at hc
      exact hc
    · refine cleared_of_rebase ?_ hc
      rw [h]
      decide
  refine ⟨hrow, content_of_duplicate fun hu => ?_⟩
  have hsb := hf r rfl hrow hu
  unfold Cleared at hc
  simp only [rebase] at hc
  rw [mergeEvent_of_sendsBack hsb hu, column_changed (Ne.symm hsb.1)] at hc
  exact absurd hc (by decide)

/-! ## a decision -/

/-- the severity after the edits -/
def severityAfter (changes : List (Edited × Edited)) (severity : Severity) : Severity :=
  changes.foldl (fun x c => match c.2 with
    | .severity v => v
    | _ => x) severity

theorem applyEdits_severity (e : Event) (input : DecisionInput)
    (changes : List (Edited × Edited)) :
    (applyEdits e input changes).severity = severityAfter changes e.severity := by
  have h : ∀ (cs : List (Edited × Edited)) (f : Event),
      (cs.foldl (fun e c => setField e c.2) f).severity = severityAfter cs f.severity := by
    intro cs
    induction cs with
    | nil => intro f; rfl
    | cons c cs ih =>
      intro f
      rw [List.foldl_cons, ih]
      obtain ⟨before, after⟩ := c
      cases after <;> rfl
  unfold applyEdits
  split <;> exact h changes e

/-- edits that were accepted leave the severity, or set one that differs from the one read -/
theorem severityAfter_cases {seen : Event} {changes : List (Edited × Edited)}
    (h : ∀ c ∈ changes, c.1 = currentOf seen c.2 ∧ c.2 ≠ c.1) :
    (∀ x, severityAfter changes x = x) ∨
      ∃ v, v ≠ seen.severity ∧ ∀ x, severityAfter changes x = v := by
  induction changes with
  | nil => exact Or.inl fun _ => rfl
  | cons c cs ih =>
    rcases ih fun d hd => h d (List.mem_cons_of_mem _ hd) with hk | ⟨v, hv, hk⟩
    · obtain ⟨before, after⟩ := c
      cases after with
      | severity v =>
        refine Or.inr ⟨v, fun he => ?_, fun _ => hk v⟩
        obtain ⟨h1, h2⟩ := h _ (List.mem_cons_self ..)
        exact h2 (by rw [h1, he]; rfl)
      | title _ => exact Or.inl hk
      | eventType _ => exact Or.inl hk
      | eventDate _ => exact Or.inl hk
    · exact Or.inr ⟨v, hv, fun x => hk _⟩

/-- a commit of a decision edits the row it finds -/
theorem content_of_decision (x : Submission) (id : Nat) (row : Event) :
    content (rebase x.seen (x.wrote id) row) = content (applyEdits row x.input x.changes) := by
  obtain ⟨hl, ha, hs, hn⟩ := decided_rows x.seen id x.input x.verb x.changes
  obtain ⟨kl, ka, ks, kn⟩ := applyEdits_rows row x.input x.changes
  have hsev : (x.wrote id).severity = severityAfter x.changes x.seen.severity := by
    rw [← applyEdits_severity x.seen x.input x.changes]
    unfold Submission.wrote
    cases x.verb <;> rfl
  have hcol : column x.seen.severity (x.wrote id).severity row.severity =
      severityAfter x.changes row.severity := by
    rw [hsev]
    rcases severityAfter_cases (validateDecision_changes x.valid).1 with h | ⟨v, hv, h⟩
    · rw [h, h, column_unchanged]
    · rw [h, h, column_changed hv]
  unfold content
  rw [kl, ka, ks, kn, applyEdits_severity, ← hcol]
  unfold Submission.wrote
  simp only [rebase, hl, ha, hs, hn, inserted_unchanged, column_unchanged]

theorem content_of_rejection {x : Submission} (hv : x.verb = .reject) (id : Nat) (row : Event) :
    content (rebase x.seen (x.wrote id) row) = content row := by
  have hnil : x.changes = [] :=
    (validateDecision_changes x.valid).2 (by rw [hv]; exact ReviewVerb.noConfusion)
  rw [content_of_decision, hnil]
  rfl

theorem cleared_of_rejection {x : Submission} (hv : x.verb = .reject) {id : Nat} {row : Event}
    (hc : Cleared (rebase x.seen (x.wrote id) row)) : Cleared row := by
  refine cleared_of_rebase ?_ hc
  unfold Submission.wrote
  rw [decided_status, hv]
  decide

theorem content_of_approval {x : Submission} (hv : x.verb ≠ .reject) {id : Nat} {row : Event}
    (hf : x.Fresh row) (hc : Cleared (rebase x.seen (x.wrote id) row)) :
    content (rebase x.seen (x.wrote id) row) = x.shown := by
  rw [content_of_decision]
  apply hf hv
  have hs : (x.wrote id).reviewStatus = x.verb.status := decided_status ..
  have hc : column x.seen.reviewStatus (x.wrote id).reviewStatus row.reviewStatus ∈
      [.approved, .edited] := hc
  rw [hs] at hc
  obtain ⟨_, he⟩ | ⟨hne, _⟩ := column_cases x.seen.reviewStatus x.verb.status row.reviewStatus
  · rw [he] at hc
    exact Or.inr hc
  · exact Or.inl (Ne.symm hne)

/-- **A commit that overtakes no reader keeps a cleared event covered.** -/
theorem covered_step {a : RaceAct} (h : Covered s) (hf : Fresh U s a) (ha : raceFire U s a = some t) :
    Covered t := by
  cases a with
  | load => cases ha; exact h
  | loadRows i =>
    obtain ⟨page, _, rfl⟩ := Option.map_eq_some_iff.mp ha
    exact h
  | read =>
    simp only [raceFire] at ha
    split at ha
    · cases ha
    · cases ha; exact h
  | merge r =>
    simp only [raceFire] at ha
    split at ha
    · cases ha; exact h
    · cases ha
  | commitMerge =>
    simp only [raceFire] at ha
    split at ha
    · next seen r hw =>
      split at ha
      · cases ha
        intro hc
        obtain ⟨hrow, hcontent⟩ := covered_commitMerge (hf _ hw) hc
        obtain ⟨x, hx, hshown⟩ := h hrow
        exact ⟨x, hx, hcontent.trans hshown⟩
      · cases ha
    · cases ha
  | rollbackMerge => cases ha; exact h
  | submit i input =>
    obtain ⟨page, _, ha⟩ := Option.bind_eq_some_iff.mp ha
    obtain ⟨x, _, rfl⟩ := Option.map_eq_some_iff.mp ha
    exact h
  | commitDecision k =>
    obtain ⟨x, hx, ha⟩ := Option.bind_eq_some_iff.mp ha
    simp only at ha
    split at ha
    · cases ha
      intro hc
      by_cases hv : x.verb = .reject
      · obtain ⟨y, hy, hshown⟩ := h (cleared_of_rejection hv hc)
        refine ⟨y, ?_, (content_of_rejection hv _ _).trans hshown⟩
        rw [← hy]
        exact if_pos hv
      · exact ⟨x, if_neg hv, content_of_approval hv (hf x hx) hc⟩
    · cases ha
  | rollbackDecision k => cases ha; exact h

/-- **In every run in which no commit overtakes a reader, an approved or edited event shows what
the page of the reviewer who cleared it showed, changed only by the edits of that decision.** -/
theorem covered_of_fresh (U : Unicode) {e : Event} {nextId : Nat} {as : List RaceAct} {t : Race}
    (he : ¬Cleared e) (hrun : exec (raceFire U) ⟨e, nextId, [], none, [], none⟩ as = some t)
    (hf : Along (raceFire U) (Fresh U) ⟨e, nextId, [], none, [], none⟩ as) : Covered t :=
  exec_invariant_along (raceFire U) (fun _ _ _ h hf ha => covered_step h hf ha) hrun hf
    fun hc => absurd hc he

end

/-! ## two runs -/

namespace Sample

def report (severity : Severity) : Report :=
  reportOf (env severity) Unicode.latin (document text) source (event severity)

def waiting : Event := newEvent 4 3 (report .severe)

def later : Report := { report .moderate with documentId := 9 }

/-- the page is opened, an update is merged, and the page is approved -/
def overtaken : List RaceAct :=
  [.load, .read, .merge later, .commitMerge, .submit 0 (decision (txt "approve")),
    .commitDecision 0]

def reviewed : List RaceAct :=
  [.read, .merge later, .commitMerge, .load, .submit 0 (decision (txt "approve")),
    .commitDecision 0]

end Sample

/-- an approval of a page that a merge has overtaken clears content the reviewer was not shown -/
theorem overtaken_not_covered :
    ¬ ∀ (U : Unicode) (e : Event) (nextId : Nat) (as : List RaceAct) (t : Race), ¬Cleared e →
      exec (raceFire U) ⟨e, nextId, [], none, [], none⟩ as = some t → Covered t := by
  intro h
  have hrun : (exec (raceFire Unicode.latin) ⟨Sample.waiting, 10, [], none, [], none⟩
      Sample.overtaken).map (fun t => (decide (Cleared t.row),
        t.clearedBy.map fun x => decide (content t.row = x.shown))) = some (true, some false) := by
    decide +kernel
  obtain ⟨t, ht, hobs⟩ := Option.map_eq_some_iff.mp hrun
  obtain ⟨x, hx, hshown⟩ := h _ _ _ _ t (by decide +kernel) ht
    (of_decide_eq_true (congrArg Prod.fst hobs))
  have hobs := congrArg Prod.snd hobs
  simp only at hobs
  rw [hx, Option.map_some, decide_eq_true hshown] at hobs
  cases hobs

theorem covered_reviewed :
    ∃ t, exec (raceFire Unicode.latin) ⟨Sample.waiting, 10, [], none, [], none⟩ Sample.reviewed =
      some t ∧ Cleared t.row ∧ Covered t := by
  have hrun : (exec (raceFire Unicode.latin) ⟨Sample.waiting, 10, [], none, [], none⟩
      Sample.reviewed).map (fun t => decide (Cleared t.row)) = some true := by decide +kernel
  obtain ⟨t, ht, hc⟩ := Option.map_eq_some_iff.mp hrun
  exact ⟨t, ht, of_decide_eq_true hc,
    covered_of_fresh Unicode.latin (by decide +kernel) ht (by decide +kernel)⟩

end GeoRisk
