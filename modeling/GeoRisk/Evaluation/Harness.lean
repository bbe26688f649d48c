import GeoRisk.Evaluation.Dataset
import GeoRisk.Processing.Provider
import GeoRisk.Record.Run

/-!
# Running the labelled set

`run_scenario` runs its documents through the pipeline inside a savepoint that is always rolled back:
only what was read before that survives.  The outcomes are compared with what is expected and counted.

* `runScenario`, `runAll`    the outcomes of all measured documents, or an exception;
* `HarnessRun.metrics`       what is counted;
* `documents_runAll`         each measured document has one outcome, in order;
* `passed_iff`               it passes if it has every expected value;
* `byLabelType_counts`,
  `byLabelType_sums`         the counts of the labels split those of the run.
-/

namespace GeoRisk
open Kit

/-- `sum` of floats, which carries the lost parts along -/
def sum64 (xs : List ℚ) : ℚ :=
  let (total, lost) := xs.foldl (fun (s : ℚ × ℚ) x =>
    let t := add64 s.1 x
    (t, add64 s.2 (if |x| ≤ |s.1| then add64 (add64 s.1 (-t)) x else add64 (add64 x (-t)) s.1)))
    (0, 0)
  add64 total lost

structure ExampleOutcome where
  document : EvalDocument
  actual : Outcome
  /-- key, expected and actual value -/
  mismatches : List (Text × EvalValue × EvalValue) := []
  costUsd : ℚ := 0
  latencyMs : Nat := 0

def ExampleOutcome.passed (o : ExampleOutcome) : Bool := o.mismatches.isEmpty

structure HarnessRun where
  outcomes : List ExampleOutcome
  modelLabel : Text

/-- `HarnessRun.metrics` -/
structure HarnessMetrics where
  total : Nat
  passed : Nat
  accuracy : ℚ
  /-- passed and total of each label -/
  byLabelType : List (EvalLabel × Nat × Nat)
  totalCostUsd : ℚ
  totalLatencyMs : Nat

/-- one round of the loop of `by_label_type` -/
def tally (label : EvalLabel) (passed : Bool) :
    List (EvalLabel × Nat × Nat) → List (EvalLabel × Nat × Nat)
  | [] => [(label, passed.toNat, 1)]
  | (l, p, t) :: rest =>
    if l = label then (l, p + passed.toNat, t + 1) :: rest else (l, p, t) :: tally label passed rest

namespace HarnessRun

def total (r : HarnessRun) : Nat := r.outcomes.length
def passedCount (r : HarnessRun) : Nat := r.outcomes.countP (·.passed)
def allPassed (r : HarnessRun) : Bool := r.passedCount == r.total
def totalCostUsd (r : HarnessRun) : ℚ := sum64 (r.outcomes.map (·.costUsd))
def totalLatencyMs (r : HarnessRun) : Nat := (r.outcomes.map (·.latencyMs)).sum

def byLabelType (r : HarnessRun) : List (EvalLabel × Nat × Nat) :=
  r.outcomes.foldl (fun counts o => tally o.document.labelType o.passed counts) []

def metrics (r : HarnessRun) : HarnessMetrics where
  total := r.total
  passed := r.passedCount
  accuracy := if r.total = 0 then 0 else div64 (float r.passedCount) (float r.total)
  byLabelType := r.byLabelType
  totalCostUsd := round64 (roundTo 6 r.totalCostUsd)
  totalLatencyMs := r.totalLatencyMs

end HarnessRun

/-! ## one scenario -/

/-- what is outside the harness -/
structure HarnessEnv where
  /-- the surroundings of a call of `process_document`; the harness chooses the providers -/
  call : EvalScenario → EvalDocument → CallEnv
  /-- `uuid4().hex`, for the source and for each document -/
  marker : EvalScenario → Option EvalDocument → Text
  /-- whether the flush of the row returns -/
  accepts : EvalScenario → Option EvalDocument → Bool
  /-- `DeterministicFakeProvider.embed` -/
  fake : List Text → Except Text (List Vector)

abbrev ProviderFactory := EvalDocument → ExtractionProvider

def embeddingDim : Nat := 384

/-- `SameVectorProvider.embed` -/
def sameVector (sqrt : ℚ → ℚ) (texts : List Text) : Except Text (List Vector) :=
  .ok (texts.map fun _ => normaliseVector sqrt (List.replicate embeddingDim 1))

/-- a `ScriptedExtractionProvider` with one result: the first call has it, and the call of the
escalation finds the script exhausted -/
def scriptedProvider (result : ExtractionResult) : ExtractionProvider := fun request =>
  let call : ExtractionCall := {
    model := request.model, promptName := promptName, promptVersion := promptVersion
    result := none, inputTokens := 1000, outputTokens := 250, latencyMs := 5
    costUsd := computeCostUsd request.model 1000 250 0 0 }
  if request.model = defaultModel then .ok { call with result := some result }
  else .ok { call with error := some (txt "scripted provider exhausted") }

def scriptedProviderFactory : ProviderFactory := fun document => scriptedProvider document.result

/-- the instant of the documents -/
def published : DateTime := ⟨(Date.ofCivil 2026 9 1).ordinal * DateTime.microsPerDay +
  (8 * 3600 + 30 * 60) * DateTime.microsPerSecond⟩

def PipelineOutcome.value : PipelineOutcome → Text
  | error => txt "error"
  | background => txt "background"
  | abstained => txt "abstained"
  | citationFailed => txt "citation_failed"
  | PipelineOutcome.published => txt "published"
  | needsReview => txt "needs_review"

section
variable (U : Unicode) (sha : Text → Text) (env : HarnessEnv) (factory : ProviderFactory)

/-- `_make_source`, without its terms -/
def makeSource (key marker : Text) : Source where
  id := 0
  slug := txt "eval-" ++ key ++ txt "-" ++ marker.take 8
  name := txt "Example Maritime Authority Notices"
  publisher := txt "Example Maritime Authority"
  feedUrl := txt "https://notices.example.invalid/feed.xml"
  retrievalMethod := txt "rss"
  storeFullText := true

def makeDocument (sourceId : Nat) (document : EvalDocument) (marker : Text) : RawDocument where
  id := 0
  sourceId := sourceId
  url := txt "https://notices.example.invalid/eval/" ++ marker
  title := some document.title
  publishedAt := some published
  retrievedAt := ⟨published.micros + 30 * 60 * DateTime.microsPerSecond⟩
  retrievalMethod := txt "rss"
  cleanText := some document.text
  rawBody := some document.text
  rawHash := sha document.text
  contentHash := contentHash U sha (document.text ++ marker)

def actualOutcome (store : Store) (result : PipelineResult) : Except Text Outcome :=
  let outcome := fun created review severity =>
    outcomeOf ((result.relation.map fun r => EvalValue.text r.value).getD .none)
      (.text result.outcome.value) created review severity
  match result.eventId with
  | none => .ok (outcome false .none .none)
  | some id =>
    match store.event? id with
    | none => .error (txt "PipelineResult.event_id did not resolve to an event")
    | some event => .ok (outcome true (.bool event.requiresHumanReview) (.text event.severity.value))

/-- `actual.get(key)` -/
def Outcome.get (o : Outcome) (key : Text) : EvalValue :=
  ((o.find? fun x => decide (x.1 = key)).map (·.2)).getD .none

/-- `_score` -/
def EvalDocument.score (document : EvalDocument) (actual : Outcome) :
    List (Text × EvalValue × EvalValue) :=
  (document.expected.filter fun x => decide (actual.get x.1 ≠ x.2)).map fun x =>
    (x.1, x.2, actual.get x.1)

/-- the surroundings of the call on the document -/
def HarnessEnv.callOf (scenario : EvalScenario) (document : EvalDocument) : CallEnv :=
  let call := env.call scenario document
  { call with
    embeddingModel :=
      if scenario.sameCluster then txt "fake-same-vector" else txt "fake-deterministic"
    embeddingDim := embeddingDim
    embed := if scenario.sameCluster then sameVector call.sqrt else env.fake
    provider := factory document
    allowEscalation := true }

def exampleOutcome (document : EvalDocument) (actual : Outcome) (calls : List ExtractionCall) :
    ExampleOutcome where
  document := document
  actual := actual
  mismatches := document.score actual
  costUsd := sum64 (calls.map (·.costUsd))
  latencyMs := (calls.map (·.latencyMs)).sum

/-- the loop of `run_scenario` -/
def runDocuments (scenario : EvalScenario) (sourceId : Nat) :
    Store → List EvalDocument → Except Text (List ExampleOutcome)
  | _, [] => .ok []
  | store, document :: rest => do
    ensure (env.accepts scenario (some document)) refused
    let row := makeDocument U sha sourceId document (env.marker scenario (some document))
    let (after, result) ← (processDocument (env.callOf factory scenario document)
      (store.addDocument row) U { row with id := store.nextId }).result
    if document.scored then
      let actual ← actualOutcome after result
      let outcomes ← runDocuments scenario sourceId after rest
      return exampleOutcome document actual result.extraction.calls :: outcomes
    else runDocuments scenario sourceId after rest

/-- the rows are written behind a savepoint, which `finally` rolls back -/
def runScenario (store : Store) (scenario : EvalScenario) : Except Text (List ExampleOutcome) := do
  ensure (env.accepts scenario none) refused
  runDocuments U sha env factory scenario store.nextId
    (store.addSource (makeSource scenario.key (env.marker scenario none))) scenario.documents

/-- the outcomes of scenario after scenario, each on the rows that were there before -/
def runScenarios (store : Store) : List EvalScenario → Except Text (List ExampleOutcome)
  | [] => .ok []
  | scenario :: rest => do
    let outcomes ← runScenario U sha env factory store scenario
    let more ← runScenarios store rest
    return outcomes ++ more

def runAll (store : Store) (scenarios : List EvalScenario) (modelLabel : Text) :
    Except Text HarnessRun := do
  let outcomes ← runScenarios U sha env factory store scenarios
  return ⟨outcomes, modelLabel⟩

end

/-! ## what was measured -/

section
variable {U : Unicode} {sha : Text → Text} {env : HarnessEnv} {factory : ProviderFactory}

/-- the outcome of a document, however it was reached -/
structure Measured (o : ExampleOutcome) : Prop where
  scored : o.document.scored = true
  mismatches : o.mismatches = o.document.score o.actual

theorem runDocuments_ok {scenario : EvalScenario} {sourceId : Nat} {store : Store}
    {documents : List EvalDocument} {outcomes : List ExampleOutcome}
    (h : runDocuments U sha env factory scenario sourceId store documents = .ok outcomes) :
    outcomes.map (·.document) = documents.filter (·.scored) ∧ ∀ o ∈ outcomes, Measured o := by
  induction documents generalizing store outcomes with
  | nil =>
    cases h
    exact ⟨rfl, fun o ho => absurd ho List.not_mem_nil⟩
  | cons document rest ih =>
    unfold runDocuments at h
    obtain ⟨_, _, h⟩ := bind_eq_ok.mp h
    obtain ⟨⟨after, result⟩, _, h⟩ := bind_eq_ok.mp h
    simp only at h
    cases hs : document.scored with
    | false =>
      rw [hs, if_neg Bool.false_ne_true] at h
      rw [List.filter_cons_of_neg (by rw [hs]; exact Bool.false_ne_true)]
      exact ih h
    | true =>
      rw [hs, if_pos rfl] at h
      obtain ⟨actual, _, h⟩ := bind_eq_ok.mp h
      obtain ⟨more, hmore, h⟩ := bind_eq_ok.mp h
      cases h
      obtain ⟨hdocuments, hmeasured⟩ := ih hmore
      rw [List.filter_cons_of_pos hs, List.map_cons, hdocuments]
      exact ⟨rfl, List.forall_mem_cons.mpr ⟨⟨hs, rfl⟩, hmeasured⟩⟩

theorem runScenarios_ok {store : Store} {scenarios : List EvalScenario}
    {outcomes : List ExampleOutcome}
    (h : runScenarios U sha env factory store scenarios = .ok outcomes) :
    outcomes.map (·.document) = scoredDocuments scenarios ∧ ∀ o ∈ outcomes, Measured o := by
  induction scenarios generalizing outcomes with
  | nil =>
    cases h
    exact ⟨rfl, fun o ho => absurd ho List.not_mem_nil⟩
  | cons scenario rest ih =>
    obtain ⟨first, hfirst, h⟩ := bind_eq_ok.mp h
    obtain ⟨more, hmore, h⟩ := bind_eq_ok.mp h
    cases h
    obtain ⟨_, _, hfirst⟩ := bind_eq_ok.mp hfirst
    obtain ⟨hdocuments, hmeasured⟩ := runDocuments_ok hfirst
    obtain ⟨hrest, hmeasured'⟩ := ih hmore
    refine ⟨?_, List.forall_mem_append.mpr ⟨hmeasured, hmeasured'⟩⟩
    rw [List.map_append, hdocuments, hrest]
    rfl

/-- **A run that returns has one outcome for each measured document, in order.** -/
theorem documents_runAll {store : Store} {scenarios : List EvalScenario} {modelLabel : Text}
    {run : HarnessRun} (h : runAll U sha env factory store scenarios modelLabel = .ok run) :
    run.outcomes.map (·.document) = scoredDocuments scenarios ∧ ∀ o ∈ run.outcomes, Measured o := by
  obtain ⟨outcomes, houtcomes, hrun⟩ := bind_eq_ok.mp h
  cases hrun
  exact runScenarios_ok houtcomes

/-- **An outcome passes if it has every expected value.** -/
theorem passed_iff {o : ExampleOutcome} (h : Measured o) :
    o.passed = true ↔ ∀ x ∈ o.document.expected, o.actual.get x.1 = x.2 := by
  unfold ExampleOutcome.passed
  rw [h.mismatches, List.isEmpty_iff, EvalDocument.score, List.map_eq_nil_iff, List.filter_eq_nil_iff]
  simp only [decide_eq_true_eq, ne_eq, not_not]

theorem allPassed_iff (r : HarnessRun) :
    r.allPassed = true ↔ ∀ o ∈ r.outcomes, o.passed = true := by
  unfold HarnessRun.allPassed HarnessRun.passedCount HarnessRun.total
  rw [beq_iff_eq, List.countP_eq_length]

end

/-! ## the labels -/

/-- passed and total of a label, nothing where it is not counted -/
def countsOf (counts : List (EvalLabel × Nat × Nat)) (label : EvalLabel) : Nat × Nat :=
  ((counts.find? fun c => decide (c.1 = label)).map (·.2)).getD (0, 0)

section
variable {counts : List (EvalLabel × Nat × Nat)} {passed : Bool}

theorem countsOf_cons (c : EvalLabel × Nat × Nat) (rest : List (EvalLabel × Nat × Nat))
    (label : EvalLabel) :
    countsOf (c :: rest) label = if c.1 = label then c.2 else countsOf rest label := by
  unfold countsOf
  rw [List.find?_cons]
  by_cases hc : c.1 = label
  · rw [decide_eq_true hc, if_pos hc]
    rfl
  · rw [decide_eq_false hc, if_neg hc]

/-- a round counts for its label and for no other -/
theorem countsOf_tally (l label : EvalLabel) :
    countsOf (tally l passed counts) label =
      if l = label then ((countsOf counts label).1 + passed.toNat, (countsOf counts label).2 + 1)
      else countsOf counts label := by
  induction counts with
  | nil =>
    unfold tally
    rw [countsOf_cons]
    show (if l = label then (passed.toNat, 1) else (0, 0)) =
      if l = label then (0 + passed.toNat, 0 + 1) else (0, 0)
    rw [Nat.zero_add, Nat.zero_add]
  | cons c rest ih =>
    obtain ⟨k, p, t⟩ := c
    unfold tally
    by_cases hk : k = l
    · rw [if_pos hk, countsOf_cons, countsOf_cons, hk]
      simp only
      split <;> rfl
    · rw [if_neg hk, countsOf_cons, countsOf_cons, ih]
      simp only
      by_cases hkl : k = label
      · rw [if_pos hkl, if_pos hkl, if_neg fun he => hk (hkl.trans he.symm)]
      · rw [if_neg hkl, if_neg hkl]

theorem sums_tally (label : EvalLabel) :
    ((tally label passed counts).map (·.2.1)).sum = (counts.map (·.2.1)).sum + passed.toNat ∧
      ((tally label passed counts).map (·.2.2)).sum = (counts.map (·.2.2)).sum + 1 := by
  induction counts with
  | nil => exact ⟨Nat.add_comm _ _, rfl⟩
  | cons c rest ih =>
    obtain ⟨l, p, t⟩ := c
    unfold tally
    by_cases hl : l = label
    · rw [if_pos hl]
      simp only [List.map_cons, List.sum_cons]
      omega
    · rw [if_neg hl]
      simp only [List.map_cons, List.sum_cons, ih.1, ih.2]
      omega

end

/-- **The counts of a label are those of its outcomes.** -/
theorem byLabelType_counts (r : HarnessRun) (label : EvalLabel) :
    countsOf r.byLabelType label =
      (r.outcomes.countP fun o => decide (o.document.labelType = label) && o.passed,
        r.outcomes.countP fun o => decide (o.document.labelType = label)) := by
  obtain ⟨outcomes, modelLabel⟩ := r
  unfold HarnessRun.byLabelType
  induction outcomes using List.reverseRecOn with
  | nil => rfl
  | append_singleton outcomes o ih =>
    simp only at ih ⊢
    rw [List.foldl_append, List.foldl_cons, List.foldl_nil, countsOf_tally, ih,
      List.countP_append, List.countP_append, List.countP_singleton, List.countP_singleton]
    by_cases hl : o.document.labelType = label
    · rw [if_pos hl, decide_eq_true hl]
      cases o.passed <;> rfl
    · rw [if_neg hl, decide_eq_false hl]
      rfl

/-- **The counts of the labels add up to those of the run.** -/
theorem byLabelType_sums (r : HarnessRun) :
    (r.byLabelType.map (·.2.1)).sum = r.passedCount ∧
      (r.byLabelType.map (·.2.2)).sum = r.total := by
  obtain ⟨outcomes, modelLabel⟩ := r
  unfold HarnessRun.byLabelType HarnessRun.passedCount HarnessRun.total
  induction outcomes using List.reverseRecOn with
  | nil => exact ⟨rfl, rfl⟩
  | append_singleton outcomes o ih =>
    simp only at ih ⊢
    rw [List.foldl_append, List.foldl_cons, List.foldl_nil, (sums_tally _).1, (sums_tally _).2,
      ih.1, ih.2, List.countP_append, List.countP_singleton, List.length_append]
    cases o.passed <;> exact ⟨rfl, rfl⟩

end GeoRisk
