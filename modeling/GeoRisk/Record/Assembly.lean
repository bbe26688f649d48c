import GeoRisk.Processing.Grounding
import GeoRisk.Record.Facts
import GeoRisk.Record.History

/-!
# How a record was made

A record was made by a first report, and then changed by reports that were merged and by decisions.
What it says is read off from these: nothing else was ever written into it.

* `Assembled`               the derivation of a record, one rule for each writer;
* `Assembled.continued`     a record is what its first report became;
* `Explained`               what a record says, by its reports and its decisions;
* `Assembled.explained`     every derived record is explained by them;
* `assembled_step`          every call keeps the derivations.
-/

namespace GeoRisk
open Kit

/-- the report is that of a stored document, and has passed the gate there -/
def GatedIn (U : Unicode) (s : Store) (r : Report) : Prop :=
  ∃ document, s.document? r.documentId = some document ∧ Gated U document r

/-- the record was created by the first report, and the other reports were merged into it -/
inductive Assembled (U : Unicode) (s : Store) : Event → Report → List Report → Prop
  | created (id clusterId : Nat) {first : Report} (hg : GatedIn U s first) :
      Assembled U s (newEvent id clusterId first) first []
  | merged {e : Event} {first r : Report} {rest : List Report} (h : Assembled U s e first rest)
      (hg : GatedIn U s r) : Assembled U s (mergeEvent U e r) first (rest ++ [r])
  | decided {e : Event} {first : Report} {rest : List Report} (h : Assembled U s e first rest)
      (id : Nat) {input : DecisionInput} {verb : ReviewVerb} {changes : List (Edited × Edited)}
      (hv : validateDecision e input = .ok (verb, changes)) :
      Assembled U s (decided e id input verb changes) first rest

/-- the severity was asserted by a report, or is the new value of an edit -/
def SeverityFrom (reports : List Report) (rows : List ReviewDecision) (x : Severity) : Prop :=
  (∃ r ∈ reports, r.event.severity = x) ∨
    ∃ row ∈ rows, ∃ c ∈ row.changes, c.2 = .severity x

/-- what a record says, by the reports and the decisions that it was made by -/
structure Explained (U : Unicode) (e : Event) (first : Report) (rest : List Report) : Prop where
  documents : e.documents.map (·.documentId) = (first :: rest).map (·.documentId)
  evidence : e.evidence = (first :: rest).flatMap Report.evidence
  facts : e.facts U = first.facts U ⊔ ⨆ r ∈ rest, r.offers U
  /-- what the first report wrote and nothing changes -/
  fixed : e.summary = first.event.summary.text ∧ e.firstSeenAt = some first.published ∧
    e.createdAt = first.now ∧ e.status = .active
  /-- title, type and date, as the edits left those of the first report -/
  edited : ∃ clusterId, e.clusterId = some clusterId ∧ ∀ v : Edited, v.field ≠ .severity →
    currentOf e v = currentOf (replayed e.reviewDecisions (newEvent e.eventId clusterId first)) v
  severity : SeverityFrom (first :: rest) e.reviewDecisions e.severity
  confidence : ∃ r ∈ first :: rest, e.confidence = some r.confidence ∧
    r.confidence ≤ first.confidence
  /-- under review, or as the last decision left it -/
  reviewStatus : e.reviewStatus = .pending ∨
    e.reviewStatus = ((e.reviewDecisions.getLast?).map (·.decision.status)).getD .notRequired

section
variable {U : Unicode} {s t : Store} {e : Event} {first : Report} {rest : List Report}

theorem GatedIn.mono {r : Report} (h : GatedIn U s r) (hs : KeepsDocuments s t) : GatedIn U t r := by
  obtain ⟨document, hd, hg⟩ := h
  exact ⟨document, hs _ _ hd, hg⟩

theorem Assembled.mono (h : Assembled U s e first rest) (hs : KeepsDocuments s t) :
    Assembled U t e first rest := by
  induction h with
  | created id clusterId hg => exact .created id clusterId (hg.mono hs)
  | merged _ hg ih => exact .merged ih (hg.mono hs)
  | decided _ id hv ih => exact .decided ih id hv

theorem Assembled.gated (h : Assembled U s e first rest) : ∀ r ∈ first :: rest, GatedIn U s r := by
  induction h with
  | created id clusterId hg =>
    intro r hr
    rw [List.mem_singleton.mp hr]
    exact hg
  | merged _ hg ih =>
    intro r hr
    rw [← List.cons_append] at hr
    rcases List.mem_append.mp hr with hr | hr
    · exact ih r hr
    · rw [List.mem_singleton.mp hr]
      exact hg
  | decided _ _ _ ih => exact ih

/-- a record is what its first report became -/
theorem Assembled.continued (h : Assembled U s e first rest) :
    ∃ id clusterId, (newEvent id clusterId first).Continued e := by
  induction h with
  | created id clusterId _ => exact ⟨id, clusterId, .refl _⟩
  | merged _ _ ih =>
    obtain ⟨id, clusterId, hc⟩ := ih
    exact ⟨id, clusterId, hc.trans (continued_mergeEvent U _ _)⟩
  | decided _ i _ ih =>
    obtain ⟨id, clusterId, hc⟩ := ih
    exact ⟨id, clusterId, hc.trans (continued_decided _ i _ _ _)⟩

/-! ## rows -/

theorem decided_facts (U : Unicode) (e : Event) (id : Nat) (input : DecisionInput)
    (verb : ReviewVerb) (changes : List (Edited × Edited)) :
    (decided e id input verb changes).facts U = e.facts U := by
  obtain ⟨title, eventType, eventDate, severity, rationale, h⟩ := applyEdits_eq e input changes
  have hsame : (decided e id input verb changes).locations = e.locations ∧
      (decided e id input verb changes).actors = e.actors ∧
      (decided e id input verb changes).sectors = e.sectors := by
    unfold decided
    rw [h]
    cases verb <;> exact ⟨rfl, rfl, rfl⟩
  unfold Event.facts
  rw [hsame.1, hsame.2.1, hsame.2.2]

theorem Assembled.documents (h : Assembled U s e first rest) :
    e.documents.map (·.documentId) = (first :: rest).map (·.documentId) := by
  induction h with
  | created id clusterId _ => rfl
  | merged _ _ ih =>
    rw [(mergeEvent_links U _ _).2.1, List.map_append, ih, ← List.cons_append, List.map_append]
    rfl
  | decided _ i _ ih => rw [(decided_links _ i _ _ _).2.1, ih]

theorem Assembled.evidence (h : Assembled U s e first rest) :
    e.evidence = (first :: rest).flatMap Report.evidence := by
  induction h with
  | created id clusterId _ => exact (List.flatMap_singleton _ _).symm
  | merged _ _ ih =>
    rw [(mergeEvent_links U _ _).2.2, ih, ← List.cons_append, List.flatMap_append,
      List.flatMap_singleton]
  | decided _ i _ ih => rw [(decided_links _ i _ _ _).2.2, ih]

theorem Assembled.facts (h : Assembled U s e first rest) :
    e.facts U = first.facts U ⊔ ⨆ r ∈ rest, r.offers U := by
  induction h with
  | created id clusterId _ =>
    rw [facts_newEvent]
    simp
  | merged _ _ ih =>
    rw [facts_joins U, ih, sup_assoc, iSup_mem_concat]
  | decided _ i _ ih => rw [decided_facts, ih]

/-! ## severity, confidence and status -/

theorem SeverityFrom.mono {reports reports' : List Report} {rows rows' : List ReviewDecision}
    {x : Severity} (h : SeverityFrom reports rows x) (hreports : reports ⊆ reports')
    (hrows : rows ⊆ rows') : SeverityFrom reports' rows' x := by
  rcases h with ⟨r, hr, hx⟩ | ⟨row, hrow, hx⟩
  · exact Or.inl ⟨r, hreports hr, hx⟩
  · exact Or.inr ⟨row, hrows hrow, hx⟩

/-- after some edits the severity is that of one of them, or what it was -/
theorem severity_changes (e : Event) (changes : List (Edited × Edited)) :
    (changes.foldl (fun e c => setField e c.2) e).severity = e.severity ∨
      ∃ c ∈ changes, c.2 = .severity (changes.foldl (fun e c => setField e c.2) e).severity := by
  induction changes using List.reverseRecOn with
  | nil => exact Or.inl rfl
  | append_singleton changes c ih =>
    rw [List.foldl_append]
    show (setField _ c.2).severity = _ ∨
      ∃ d ∈ changes ++ [c], d.2 = .severity (setField _ c.2).severity
    have hkept : ∀ f : Event, (setField f c.2).severity = f.severity ∨
        c.2 = .severity (setField f c.2).severity := by
      intro f
      cases c.2 with
      | severity x => exact Or.inr rfl
      | title x => exact Or.inl rfl
      | eventType x => exact Or.inl rfl
      | eventDate x => exact Or.inl rfl
    rcases hkept (changes.foldl (fun e c => setField e c.2) e) with hf | hf
    · rw [hf]
      rcases ih with ih | ⟨d, hd, hx⟩
      · exact Or.inl ih
      · exact Or.inr ⟨d, List.mem_append_left _ hd, hx⟩
    · exact Or.inr ⟨c, List.mem_append_right _ (List.mem_singleton_self c), hf⟩

theorem Assembled.severity (h : Assembled U s e first rest) :
    SeverityFrom (first :: rest) e.reviewDecisions e.severity := by
  induction h with
  | created id clusterId _ => exact Or.inl ⟨_, List.mem_singleton_self _, rfl⟩
  | @merged e first r rest _ _ ih =>
    rw [mergeEvent_severity, (mergeEvent_rows U _ _).2.2.2]
    split
    · exact Or.inl ⟨r, List.mem_cons_of_mem _ (List.mem_append_right _ (List.mem_singleton_self r)),
        rfl⟩
    · exact ih.mono (List.cons_subset_cons _ (List.subset_append_left _ _)) (List.Subset.refl _)
  | @decided e first rest _ i input verb changes _ ih =>
    have hedit := currentOf_decided e i input verb changes (.severity e.severity)
    have hsev : (GeoRisk.decided e i input verb changes).severity =
        (changes.foldl (fun e c => setField e c.2) e).severity := Edited.severity.inj hedit
    rw [hsev]
    rcases severity_changes e changes with hx | ⟨c, hc, hx⟩
    · rw [hx]
      exact ih.mono (List.Subset.refl _) (List.subset_append_left _ _)
    · exact Or.inr ⟨decisionRow i input verb changes,
        List.mem_append_right _ (List.mem_singleton_self _), c, hc, hx⟩

theorem decided_confidence (e : Event) (id : Nat) (input : DecisionInput) (verb : ReviewVerb)
    (changes : List (Edited × Edited)) :
    (decided e id input verb changes).confidence = e.confidence := by
  obtain ⟨title, eventType, eventDate, severity, rationale, h⟩ := applyEdits_eq e input changes
  unfold decided
  rw [h]
  cases verb <;> rfl

/-- **The confidence of a record is that of one of its reports, and not above the first.** -/
theorem Assembled.confidence (h : Assembled U s e first rest) :
    ∃ r ∈ first :: rest, e.confidence = some r.confidence ∧ r.confidence ≤ first.confidence := by
  induction h with
  | created id clusterId _ => exact ⟨_, List.mem_singleton_self _, rfl, le_refl _⟩
  | @merged e first r rest _ _ ih =>
    obtain ⟨r', hr', hc, hle⟩ := ih
    have hmem : r' ∈ first :: (rest ++ [r]) :=
      List.cons_subset_cons _ (List.subset_append_left _ _) hr'
    rw [mergeEvent_confidence, hc]
    split
    · rcases le_total r'.confidence r.confidence with hmin | hmin
      · exact ⟨r', hmem, congrArg some (min_eq_left hmin), hle⟩
      · exact ⟨r, List.mem_cons_of_mem _ (List.mem_append_right _ (List.mem_singleton_self r)),
          congrArg some (min_eq_right hmin), le_trans hmin hle⟩
    · exact ⟨r', hmem, rfl, hle⟩
  | decided _ i _ ih =>
    rw [decided_confidence]
    exact ih

/-- a merge puts a record under review, or leaves its status -/
theorem mergeEvent_reviewStatus (U : Unicode) (e : Event) (r : Report) :
    (mergeEvent U e r).reviewStatus = .pending ∨
      (mergeEvent U e r).reviewStatus = e.reviewStatus := by
  obtain ⟨_, hs, _⟩ := applyContent_keeps r (consolidation U e r) e
  show (applyReview U r _ (applyContent r (consolidation U e r) e)).reviewStatus = .pending ∨
    (applyReview U r _ (applyContent r (consolidation U e r) e)).reviewStatus = _
  unfold applyReview
  split
  · simp only
    split
    · exact Or.inl rfl
    · exact Or.inr hs
  · exact Or.inr hs

theorem Assembled.reviewStatus (h : Assembled U s e first rest) : e.reviewStatus = .pending ∨
    e.reviewStatus = ((e.reviewDecisions.getLast?).map (·.decision.status)).getD .notRequired := by
  induction h with
  | @created id clusterId first _ =>
    show (if first.requiresHumanReview then ReviewStatus.pending else .notRequired) = .pending ∨
      (if first.requiresHumanReview then ReviewStatus.pending else .notRequired) = .notRequired
    split
    · exact Or.inl rfl
    · exact Or.inr rfl
  | @merged e first r rest _ _ ih =>
    rcases mergeEvent_reviewStatus U e r with hp | hs
    · exact Or.inl hp
    · rw [hs, (mergeEvent_rows U _ _).2.2.2]
      exact ih
  | @decided e first rest _ i input verb changes _ _ =>
    right
    rw [decided_status]
    show _ = ((e.reviewDecisions ++ [decisionRow i input verb changes]).getLast?.map _).getD _
    rw [List.getLast?_concat]
    rfl

/-! ## the whole record -/

/-- **A record says what its reports and decisions account for.** -/
theorem Assembled.explained (h : Assembled U s e first rest) : Explained U e first rest := by
  obtain ⟨id, clusterId, hc⟩ := h.continued
  obtain ⟨hcluster, hsummary, hstatus, hseen, hcreated⟩ := hc.fixed
  obtain ⟨added, hadded, hedits⟩ := hc.edits
  refine ⟨h.documents, h.evidence, h.facts, ⟨hsummary, hseen, hcreated, hstatus⟩,
    ⟨clusterId, hcluster, fun v hv => ?_⟩, h.severity, h.confidence, h.reviewStatus⟩
  -- the event of the first report has no decisions, so those of the record are the added ones
  have hrows : e.reviewDecisions = added := hadded
  rw [hrows, hc.key]
  exact hedits v hv

theorem assembled_step {a : Act} (h : ∀ e ∈ s.events, ∃ first rest, Assembled U s e first rest)
    (ha : fire U s a = some t) : ∀ e ∈ t.events, ∃ first rest, Assembled U t e first rest := by
  have hk : KeepsDocuments s t := fun _ _ hd => document?_of_fire ha hd
  have hgated : ∀ {document r}, s.document? document.id = some document → Gated U document r →
      GatedIn U t r := fun {document r} hd hg => by
    refine ⟨document, hk _ _ ?_, hg⟩
    rw [hg.documentId]
    exact hd
  intro f hf
  cases origin_of_mem ha hf with
  | kept hf =>
    obtain ⟨first, rest, hf⟩ := h f hf
    exact ⟨first, rest, hf.mono hk⟩
  | created document r id clusterId hd hg => exact ⟨r, [], .created id clusterId (hgated hd hg)⟩
  | merged document r existing hmem hd hg =>
    obtain ⟨first, rest, he⟩ := h existing hmem
    exact ⟨first, rest ++ [r], (he.mono hk).merged (hgated hd hg)⟩
  | decided e id input verb changes hmem hv =>
    obtain ⟨first, rest, he⟩ := h e hmem
    exact ⟨first, rest, (he.mono hk).decided id hv⟩

end

end GeoRisk
