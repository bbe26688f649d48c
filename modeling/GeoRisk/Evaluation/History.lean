import GeoRisk.Evaluation.Harness
import GeoRisk.Kit.Mirror
import GeoRisk.Record.Gate

/-!
# The history of evaluations

`run_evaluation.py` runs the labelled set and records the run.  The tables mirror the labelled set as
it stands, while runs and results are only added to; an exception leaves all of them as they were.

* `Bench`                  the four tables of evaluations;
* `recordRun`              `record_run`: the dataset, its examples, the run and its results;
* `evaluate`               the command, with its exit code;
* `Bench.Ok`               keys are distinct and references resolve;
* `RunRecorded`            what a recorded run has left;
* `evaluations_recorded`   every run of the command, after any others.
-/

namespace GeoRisk
open Kit

structure EvaluationDataset where
  id : Nat
  name : Text
  version : Text
  description : Option Text

structure EvaluationExample where
  id : Nat
  datasetId : Nat
  externalRef : Option Text
  labelType : EvalLabel
  expected : Outcome
  notes : Option Text

structure EvaluationRun where
  id : Nat
  datasetId : Nat
  runLabel : Option Text
  gitSha : Option Text
  promptName : Option Text
  promptVersion : Option Text
  modelName : Option Text
  startedAt : DateTime
  finishedAt : Option DateTime
  metrics : HarnessMetrics

structure EvaluationResult where
  id : Nat
  runId : Nat
  exampleId : Nat
  passed : Bool
  actual : Outcome
  costUsd : ℚ
  latencyMs : Nat
  mismatches : List (Text × EvalValue × EvalValue)

structure Bench where
  nextId : Nat := 0
  datasets : List EvaluationDataset := []
  examples : List EvaluationExample := []
  runs : List EvaluationRun := []
  results : List EvaluationResult := []

/-- one run of the command -/
structure Evaluation where
  set : LabelledSet
  /-- what the pipeline finds in the other tables -/
  store : Store
  env : HarnessEnv
  /-- the provider of `--live` -/
  live : Option ExtractionProvider := none
  gitSha : Option Text := none
  startedAt : DateTime
  finishedAt : DateTime
  /-- whether the database takes the rows and the commit returns -/
  commits : Bool := true

def scriptedModelLabel : Text := txt "scripted-fixture"

def Evaluation.modelLabel (e : Evaluation) : Text :=
  if e.live.isSome then defaultModel ++ txt " -> " ++ escalationModel ++ txt " cascade"
  else scriptedModelLabel

def Evaluation.run (U : Unicode) (sha : Text → Text) (e : Evaluation) : Except Text HarnessRun :=
  runAll U sha e.env ((e.live.map fun p _ => p).getD scriptedProviderFactory) e.store
    e.set.scenarios e.modelLabel

/-! ## `record_run` -/

/-- `_get_or_create_dataset` -/
def getOrCreateDataset (b : Bench) (set : LabelledSet) : Bench × Nat :=
  match b.datasets.find? fun d => decide (d.name = set.name ∧ d.version = set.version) with
  | some d => (b, d.id)
  | none =>
    ({ b with
      nextId := b.nextId + 1
      datasets := b.datasets ++ [⟨b.nextId, set.name, set.version, some set.description⟩] },
      b.nextId)

/-- the examples of a dataset mirror its measured documents -/
def exampleMirror (datasetId : Nat) :
    Mirror EvaluationExample EvalDocument (Nat × Option Text) where
  key := EvaluationExample.id
  ref x := (x.datasetId, x.externalRef)
  name d := (datasetId, some d.key)
  fresh id d := ⟨id, datasetId, some d.key, d.labelType, d.expected, some d.notes⟩
  refresh d x := { x with labelType := d.labelType, expected := d.expected, notes := some d.notes }
  key_fresh _ _ := rfl
  ref_fresh _ _ := rfl
  key_refresh _ _ := rfl
  ref_refresh _ _ := rfl
  refresh_fresh _ _ := rfl
  refresh_refresh _ _ := rfl

/-- the dict `existing`; a later row takes the place of an earlier one -/
def existing (datasetId : Nat) (rows : List EvaluationExample) (key : Text) : Option Nat :=
  ((rows.filter fun x => decide (x.datasetId = datasetId) && truthy x.externalRef).reverse.find?
    fun x => decide (x.externalRef = some key)).map (·.id)

/-- `_sync_examples`, with the key of the example of each document -/
def syncExamples (b : Bench) (datasetId : Nat) (documents : List EvalDocument) :
    Bench × List ((Nat × Option Text) × Nat) :=
  let out := (exampleMirror datasetId).sync (fun r => r.2.bind (existing datasetId b.examples))
    b.nextId b.examples documents
  ({ b with nextId := out.1, examples := out.2.1 }, out.2.2)

/-- the rows of the results; an outcome without an example raises `KeyError` -/
def resultRows (datasetId runId : Nat) (ids : List ((Nat × Option Text) × Nat)) :
    Nat → List ExampleOutcome → Except Text (List EvaluationResult)
  | _, [] => .ok []
  | next, o :: outcomes =>
    match ids.find? fun p => decide (p.1 = (datasetId, some o.document.key)) with
    | none => .error o.document.key
    | some p => do
      let rows ← resultRows datasetId runId ids (next + 1) outcomes
      return ⟨next, runId, p.2, o.passed, o.actual, o.costUsd, o.latencyMs, o.mismatches⟩ :: rows

/-- `uq_evaluation_results_run_id_example_id` holds of the new rows, which share a new run -/
def recordRun (b : Bench) (e : Evaluation) (run : HarnessRun) : Except Text Bench := do
  let (b, datasetId) := getOrCreateDataset b e.set
  let (b, ids) := syncExamples b datasetId (scoredDocuments e.set.scenarios)
  let row : EvaluationRun := {
    id := b.nextId, datasetId := datasetId, runLabel := some run.modelLabel, gitSha := e.gitSha
    promptName := some promptName, promptVersion := some promptVersion
    modelName := some run.modelLabel, startedAt := e.startedAt, finishedAt := some e.finishedAt
    metrics := run.metrics }
  let rows ← resultRows datasetId b.nextId ids (b.nextId + 1) run.outcomes
  ensure (decide (rows.map (·.exampleId)).Nodup) refused
  return { b with
    nextId := b.nextId + 1 + rows.length
    runs := b.runs ++ [row]
    results := b.results ++ rows }

/-- `main`: the tables after the session, and the exit code of a command that returns -/
def evaluate (U : Unicode) (sha : Text → Text) (b : Bench) (e : Evaluation) : Bench × Option Nat :=
  match e.run U sha with
  | .error _ => (b, none)
  | .ok run =>
    match recordRun b e run with
    | .error _ => (b, none)
    | .ok after =>
      if e.commits then (after, some (if e.live.isNone && !run.allPassed then 1 else 0))
      else (b, none)

def benchFire (U : Unicode) (sha : Text → Text) (b : Bench) (e : Evaluation) : Option Bench :=
  some (evaluate U sha b e).1

/-! ## the tables -/

/-- keys are distinct and references resolve -/
structure Bench.Ok (b : Bench) : Prop where
  datasets : Numbered EvaluationDataset.id b.datasets b.nextId
  named : (b.datasets.map fun d => (d.name, d.version)).Nodup
  examples : Numbered EvaluationExample.id b.examples b.nextId
  /-- one row for each document of a dataset -/
  refs : (b.examples.map fun x => (x.datasetId, x.externalRef)).Nodup
  exampleDataset : ∀ x ∈ b.examples, ∃ d ∈ b.datasets, d.id = x.datasetId
  runs : Numbered EvaluationRun.id b.runs b.nextId
  runDataset : ∀ r ∈ b.runs, ∃ d ∈ b.datasets, d.id = r.datasetId
  results : ∀ x ∈ b.results, ∃ r ∈ b.runs, r.id = x.runId ∧
    ∃ ex ∈ b.examples, ex.id = x.exampleId ∧ ex.datasetId = r.datasetId
  once : (b.results.map fun x => (x.runId, x.exampleId)).Nodup

/-- the example of a document, as the document stands -/
def Exemplifies (datasetId : Nat) (d : EvalDocument) (x : EvaluationExample) : Prop :=
  x.datasetId = datasetId ∧ x.externalRef = some d.key ∧ x.labelType = d.labelType ∧
    x.expected = d.expected ∧ x.notes = some d.notes

/-- the result of an outcome -/
structure ResultOf (examples : List EvaluationExample) (datasetId runId : Nat) (o : ExampleOutcome)
    (x : EvaluationResult) : Prop where
  run : x.runId = runId
  passed : x.passed = o.passed
  actual : x.actual = o.actual
  mismatches : x.mismatches = o.mismatches
  cost : x.costUsd = o.costUsd ∧ x.latencyMs = o.latencyMs
  document : ∃ ex ∈ examples, ex.id = x.exampleId ∧ Exemplifies datasetId o.document ex

/-- what a recorded run has left -/
structure RunRecorded (b : Bench) (e : Evaluation) (run : HarnessRun) (after : Bench)
    (datasetId runId : Nat) : Prop where
  dataset : ∃ d ∈ after.datasets, d.id = datasetId ∧ d.name = e.set.name ∧
    d.version = e.set.version
  datasets : b.datasets <+: after.datasets
  /-- no example is lost, and those of other datasets or of no measured document are as before -/
  examples : Grows (fun x y => y.id = x.id ∧ y.datasetId = x.datasetId ∧
    y.externalRef = x.externalRef) b.examples after.examples
  untouched : ∀ x ∈ b.examples, (x.datasetId = datasetId →
    ∀ d ∈ scoredDocuments e.set.scenarios, x.externalRef ≠ some d.key) → x ∈ after.examples
  mirrored : ∀ d ∈ scoredDocuments e.set.scenarios,
    ∃ x ∈ after.examples, Exemplifies datasetId d x
  row : ∃ r, after.runs = b.runs ++ [r] ∧ r.id = runId ∧ r.datasetId = datasetId ∧
    r.metrics = run.metrics ∧ r.modelName = some e.modelLabel
  results : ∃ rows, after.results = b.results ++ rows ∧
    List.Forall₂ (ResultOf after.examples datasetId runId) run.outcomes rows

section
variable {U : Unicode} {sha : Text → Text} {b after : Bench} {e : Evaluation} {run : HarnessRun}

theorem Bench.Ok.empty : Bench.Ok {} :=
  ⟨.nil, List.nodup_nil, .nil, List.nodup_nil, fun _ hx => absurd hx List.not_mem_nil, .nil,
    fun _ hx => absurd hx List.not_mem_nil, fun _ hx => absurd hx List.not_mem_nil, List.nodup_nil⟩

/-! ## the dataset -/

/-- the tables with the dataset of the set -/
structure HasDataset (b : Bench) (set : LabelledSet) (after : Bench) (datasetId : Nat) : Prop where
  ok : after.Ok
  dataset : ∃ d ∈ after.datasets, d.id = datasetId ∧ d.name = set.name ∧ d.version = set.version
  datasets : b.datasets <+: after.datasets
  rest : after.examples = b.examples ∧ after.runs = b.runs ∧ after.results = b.results

theorem getOrCreateDataset_spec (h : b.Ok) (set : LabelledSet) :
    HasDataset b set (getOrCreateDataset b set).1 (getOrCreateDataset b set).2 := by
  unfold getOrCreateDataset
  cases hfind : b.datasets.find? fun d => decide (d.name = set.name ∧ d.version = set.version) with
  | some d =>
    have hfound := List.find?_some hfind
    obtain ⟨hname, hversion⟩ := of_decide_eq_true hfound
    exact ⟨h, ⟨d, List.mem_of_find?_eq_some hfind, rfl, hname, hversion⟩, List.prefix_refl _,
      rfl, rfl, rfl⟩
  | none =>
    have hnew := List.find?_eq_none.mp hfind
    have hle : b.nextId ≤ b.nextId + 1 := Nat.le_succ _
    have hold : ∀ {d}, d ∈ b.datasets → d ∈ b.datasets ++
        [(⟨b.nextId, set.name, set.version, some set.description⟩ : EvaluationDataset)] :=
      fun hd => List.mem_append_left _ hd
    refine ⟨⟨h.datasets.append (le_refl _) (Nat.lt_succ_self _), ?_, h.examples.of_map rfl hle,
      h.refs, fun x hx => ?_, h.runs.of_map rfl hle, fun r hr => ?_, h.results, h.once⟩,
      ⟨_, List.mem_append_right _ (List.mem_singleton_self _), rfl, rfl, rfl⟩,
      List.prefix_append _ _, rfl, rfl, rfl⟩
    · refine nodup_insert h.named fun d hd he => hnew d hd ?_
      exact decide_eq_true ⟨congrArg Prod.fst he, congrArg Prod.snd he⟩
    · obtain ⟨d, hd, he⟩ := h.exampleDataset x hx
      exact ⟨d, hold hd, he⟩
    · obtain ⟨d, hd, he⟩ := h.runDataset r hr
      exact ⟨d, hold hd, he⟩

/-! ## its examples -/

/-- where the references are distinct, the dict says which row has one -/
theorem existing_eq {datasetId : Nat} {rows : List EvaluationExample} {key : Text}
    (h : (rows.map fun x => (x.datasetId, x.externalRef)).Nodup) (hkey : key ≠ []) :
    existing datasetId rows key =
      (lookup (fun x : EvaluationExample => (x.datasetId, x.externalRef)) (datasetId, some key)
        rows).map (·.id) := by
  unfold existing
  congr 1
  cases hl : lookup (fun x : EvaluationExample => (x.datasetId, x.externalRef))
      (datasetId, some key) rows with
  | none =>
    rw [List.find?_eq_none]
    intro x hx
    obtain ⟨hx, hd⟩ := List.mem_filter.mp (List.mem_reverse.mp hx)
    rw [Bool.and_eq_true, decide_eq_true_eq] at hd
    intro he
    have hsome := lookup_of_mem h hx
    simp only [hd.1, of_decide_eq_true he] at hsome
    rw [hl] at hsome
    cases hsome
  | some x =>
    have hx := lookup_mem hl
    have hkeyed := lookup_key hl
    obtain ⟨hd, href⟩ := Prod.mk.inj hkeyed
    have hin : x ∈ (rows.filter fun x =>
        decide (x.datasetId = datasetId) && truthy x.externalRef).reverse := by
      rw [List.mem_reverse, List.mem_filter, Bool.and_eq_true, decide_eq_true_eq, href]
      refine ⟨hx, hd, ?_⟩
      cases key with
      | nil => exact absurd rfl hkey
      | cons c t => rfl
    refine find?_eq_of_unique hin (decide_eq_true href) fun y hy hyref => ?_
    obtain ⟨hy, hyd⟩ := List.mem_filter.mp (List.mem_reverse.mp hy)
    rw [Bool.and_eq_true, decide_eq_true_eq] at hyd
    exact List.inj_on_of_nodup_map h hy hx
      ((Prod.ext hyd.1 (of_decide_eq_true hyref)).trans hkeyed.symm)

/-- the documents of a set are told apart by their references -/
theorem nodup_names (set : LabelledSet) (datasetId : Nat) :
    ((scoredDocuments set.scenarios).map (exampleMirror datasetId).name).Nodup := by
  have hinj : Function.Injective fun key : Text => (datasetId, some key) := fun a c he =>
    Option.some.inj (congrArg Prod.snd he)
  have hmap := set.distinct.map hinj
  rwa [List.map_map] at hmap

theorem syncExamples_synced (h : b.Ok) (set : LabelledSet) (datasetId : Nat) :
    (exampleMirror datasetId).Synced b.nextId b.examples (scoredDocuments set.scenarios)
      (syncExamples b datasetId (scoredDocuments set.scenarios)).1.nextId
      (syncExamples b datasetId (scoredDocuments set.scenarios)).1.examples
      (syncExamples b datasetId (scoredDocuments set.scenarios)).2 := by
  refine Mirror.sync_synced h.examples h.refs (nodup_names set datasetId) fun d hd => ?_
  exact existing_eq h.refs (set.named d hd)

/-- a row in line with a document exemplifies it -/
theorem exemplifies_of_line {datasetId : Nat} {d : EvalDocument} {x : EvaluationExample}
    (href : (exampleMirror datasetId).ref x = (exampleMirror datasetId).name d)
    (hline : (exampleMirror datasetId).refresh d x = x) : Exemplifies datasetId d x := by
  obtain ⟨hd, hkey⟩ := Prod.mk.inj href
  rw [← hline]
  exact ⟨hd, hkey, rfl, rfl, rfl⟩

/-! ## the results -/

/-- **No outcome of a measured document is without its example.** -/
theorem resultRows_total {datasetId : Nat} {ids : List ((Nat × Option Text) × Nat)}
    (runId next : Nat) (outcomes : List ExampleOutcome)
    (h : ∀ o ∈ outcomes, (datasetId, some o.document.key) ∈ ids.map Prod.fst) :
    ∃ rows, resultRows datasetId runId ids next outcomes = .ok rows ∧
      List.Forall₂ (fun o (x : EvaluationResult) => x.runId = runId ∧ x.passed = o.passed ∧
        x.actual = o.actual ∧ x.mismatches = o.mismatches ∧
        (x.costUsd = o.costUsd ∧ x.latencyMs = o.latencyMs) ∧
        ((datasetId, some o.document.key), x.exampleId) ∈ ids) outcomes rows := by
  induction outcomes generalizing next with
  | nil => exact ⟨[], rfl, .nil⟩
  | cons o outcomes ih =>
    rw [List.forall_mem_cons] at h
    obtain ⟨rows, hrows, hall⟩ := ih (next + 1) h.2
    obtain ⟨p, hp, hkey⟩ := List.mem_map.mp h.1
    unfold resultRows
    cases hfind : ids.find? fun p => decide (p.1 = (datasetId, some o.document.key)) with
    | none => exact absurd (decide_eq_true hkey) (List.find?_eq_none.mp hfind p hp)
    | some q =>
      have hfound := List.find?_some hfind
      have hq := of_decide_eq_true hfound
      rw [hrows]
      refine ⟨_, rfl, .cons ⟨rfl, rfl, rfl, rfl, ⟨rfl, rfl⟩, ?_⟩ hall⟩
      rw [← hq]
      exact List.mem_of_find?_eq_some hfind

/-- the documents of different outcomes have different examples -/
theorem nodup_exampleIds {datasetId : Nat} {rows : List EvaluationExample}
    (hk : (rows.map EvaluationExample.id).Nodup) {outcomes : List ExampleOutcome}
    {results : List EvaluationResult} (hkeys : (outcomes.map (·.document.key)).Nodup)
    (h : List.Forall₂ (fun o (x : EvaluationResult) => ∃ ex ∈ rows, ex.id = x.exampleId ∧
      Exemplifies datasetId o.document ex) outcomes results) :
    (results.map (·.exampleId)).Nodup := by
  induction h with
  | nil => exact List.nodup_nil
  | @cons o x outcomes results hx hrest ih =>
    rw [List.map_cons, List.nodup_cons] at hkeys ⊢
    refine ⟨fun hin => hkeys.1 ?_, ih hkeys.2⟩
    obtain ⟨y, hy, hyx⟩ := List.mem_map.mp hin
    obtain ⟨ex, hex, hid, hline⟩ := hx
    obtain ⟨o', ho', ex', hex', hid', hline'⟩ := mem_of_forall₂ hrest hy
    have hsame : some ex = some ex' := by
      rw [← lookup_of_mem hk hex, ← lookup_of_mem hk hex', hid, hid', hyx]
    cases hsame
    have hkey : o'.document.key = o.document.key :=
      Option.some.inj (hline'.2.1.symm.trans hline.2.1)
    exact hkey ▸ List.mem_map_of_mem (f := fun o : ExampleOutcome => o.document.key) ho'

/-! ## a recorded run -/

/-- the examples in line with a list of documents -/
theorem Bench.Ok.sync (h : b.Ok) {datasetId : Nat} {documents : List EvalDocument} {next : Nat}
    {examples : List EvaluationExample} {ids : List ((Nat × Option Text) × Nat)}
    (hdataset : ∃ d ∈ b.datasets, d.id = datasetId)
    (hsync : (exampleMirror datasetId).Synced b.nextId b.examples documents next examples ids) :
    Bench.Ok { b with nextId := next, examples := examples } := by
  refine ⟨h.datasets.of_map rfl hsync.counter, h.named, hsync.numbered, hsync.refs, fun x hx => ?_,
    h.runs.of_map rfl hsync.counter, h.runDataset, fun x hx => ?_, h.once⟩
  · rcases hsync.origin x hx with hin | ⟨d, _, he⟩
    · obtain ⟨y, hy, he⟩ := List.mem_map.mp hin
      obtain ⟨d, hd, hid⟩ := h.exampleDataset y hy
      exact ⟨d, hd, hid.trans (congrArg Prod.fst he)⟩
    · obtain ⟨d, hd, hid⟩ := hdataset
      exact ⟨d, hd, hid.trans (congrArg Prod.fst he).symm⟩
  · obtain ⟨r, hr, hrun, ex, hex, hid, hds⟩ := h.results x hx
    obtain ⟨y, hy, hkey, href⟩ := hsync.grows.mem hex
    exact ⟨r, hr, hrun, y, hy, hkey.trans hid, (congrArg Prod.fst href).trans hds⟩

/-- a new run with its results -/
theorem Bench.Ok.record (h : b.Ok) {row : EvaluationRun} {rows : List EvaluationResult}
    (hrow : row.id = b.nextId) (hdataset : ∃ d ∈ b.datasets, d.id = row.datasetId)
    (hrows : ∀ x ∈ rows, x.runId = row.id ∧
      ∃ ex ∈ b.examples, ex.id = x.exampleId ∧ ex.datasetId = row.datasetId)
    (hnd : (rows.map (·.exampleId)).Nodup) :
    Bench.Ok { b with
      nextId := b.nextId + 1 + rows.length
      runs := b.runs ++ [row]
      results := b.results ++ rows } := by
  have hle : b.nextId ≤ b.nextId + 1 + rows.length := by omega
  have hlt : row.id < b.nextId + 1 + rows.length := by omega
  refine ⟨h.datasets.of_map rfl hle, h.named, h.examples.of_map rfl hle, h.refs, h.exampleDataset,
    h.runs.append (Nat.le_of_eq hrow.symm) hlt, fun r hr => ?_, fun x hx => ?_, ?_⟩
  · rcases List.mem_append.mp hr with hr | hr
    · exact h.runDataset r hr
    · rw [List.mem_singleton.mp hr]
      exact hdataset
  · rcases List.mem_append.mp hx with hx | hx
    · obtain ⟨r, hr, hrest⟩ := h.results x hx
      exact ⟨r, List.mem_append_left _ hr, hrest⟩
    · obtain ⟨hrun, ex, hex, hid, hds⟩ := hrows x hx
      exact ⟨row, List.mem_append_right _ (List.mem_singleton_self _), hrun.symm, ex, hex, hid, hds⟩
  · show ((b.results ++ rows).map fun x => (x.runId, x.exampleId)).Nodup
    rw [List.map_append, List.nodup_append]
    refine ⟨h.once, ?_, ?_⟩
    · refine List.Nodup.of_map Prod.snd ?_
      rw [List.map_map]
      exact hnd
    · -- the old results are of old runs
      intro p hp q hq he
      obtain ⟨x, hx, hxp⟩ := List.mem_map.mp hp
      obtain ⟨y, hy, hyq⟩ := List.mem_map.mp hq
      obtain ⟨r, hr, hrun, _⟩ := h.results x hx
      have hfresh := h.runs.fresh r hr
      have hnew := (hrows y hy).1
      have hsame : x.runId = y.runId := congrArg Prod.fst (hxp.trans (he.trans hyq.symm))
      omega

/-- **A run of all measured documents is recorded, whatever the tables hold.** -/
theorem recordRun_recorded (h : b.Ok)
    (hdocuments : run.outcomes.map (·.document) = scoredDocuments e.set.scenarios)
    (hlabel : run.modelLabel = e.modelLabel) :
    ∃ after datasetId runId, recordRun b e run = .ok after ∧ after.Ok ∧
      RunRecorded b e run after datasetId runId := by
  obtain ⟨hok, hdataset, hdatasets, hexamples, hruns, hresults⟩ := getOrCreateDataset_spec h e.set
  have hsync := syncExamples_synced hok e.set (getOrCreateDataset b e.set).2
  unfold recordRun
  generalize getOrCreateDataset b e.set = made at *
  obtain ⟨b₁, datasetId⟩ := made
  simp only at *
  have hrest : ∀ documents, (syncExamples b₁ datasetId documents).1 =
      { b₁ with
        nextId := (syncExamples b₁ datasetId documents).1.nextId
        examples := (syncExamples b₁ datasetId documents).1.examples } := fun _ => rfl
  replace hrest := hrest (scoredDocuments e.set.scenarios)
  generalize syncExamples b₁ datasetId (scoredDocuments e.set.scenarios) = synced at *
  obtain ⟨b₂, ids⟩ := synced
  simp only at *
  have hok₂ : b₂.Ok := by
    obtain ⟨d, hd, hid, _⟩ := hdataset
    rw [hrest]
    exact hok.sync ⟨d, hd, hid⟩ hsync
  have hd₂ : b₂.datasets = b₁.datasets := by rw [hrest]
  have hr₂ : b₂.runs = b.runs := by rw [hrest, ← hruns]
  have hx₂ : b₂.results = b.results := by rw [hrest, ← hresults]
  have hmirrored : ∀ d ∈ scoredDocuments e.set.scenarios, ∃ x ∈ b₂.examples,
      Exemplifies datasetId d x ∧ ((datasetId, some d.key), x.id) ∈ ids := by
    intro d hd
    obtain ⟨x, hx, href, hline, hmem⟩ := hsync.mirrored d hd
    exact ⟨x, hx, exemplifies_of_line href hline, hmem⟩
  have hscored : ∀ o ∈ run.outcomes, o.document ∈ scoredDocuments e.set.scenarios := fun o ho =>
    hdocuments ▸ List.mem_map_of_mem ho
  have htotal : ∀ o ∈ run.outcomes, (datasetId, some o.document.key) ∈ ids.map Prod.fst := by
    intro o ho
    obtain ⟨_, _, _, hmem⟩ := hmirrored o.document (hscored o ho)
    exact List.mem_map_of_mem (f := Prod.fst) hmem
  obtain ⟨rows, hrows, hall⟩ := resultRows_total b₂.nextId (b₂.nextId + 1) run.outcomes htotal
  have hnames : (ids.map Prod.fst).Nodup := by
    rw [hsync.names]
    exact nodup_names e.set datasetId
  have hresult : List.Forall₂ (ResultOf b₂.examples datasetId b₂.nextId) run.outcomes rows := by
    refine List.Forall₂.imp ?_ ((List.forall₂_and_left _ _).mpr ⟨hscored, hall⟩)
    intro o x ⟨ho, hr, hp, ha, hm, hc, hid⟩
    obtain ⟨ex, hex, hline, hmem⟩ := hmirrored o.document ho
    have hsame := List.inj_on_of_nodup_map hnames hmem hid rfl
    exact ⟨hr, hp, ha, hm, hc, ex, hex, congrArg Prod.snd hsame, hline⟩
  have hkeys : (run.outcomes.map (·.document.key)).Nodup := by
    have hdistinct := e.set.distinct
    rw [← hdocuments, List.map_map] at hdistinct
    exact hdistinct
  have hnd := nodup_exampleIds hok₂.examples.nodup hkeys (hresult.imp fun _ _ h => h.document)
  have hof : ∀ x ∈ rows, x.runId = b₂.nextId ∧
      ∃ ex ∈ b₂.examples, ex.id = x.exampleId ∧ ex.datasetId = datasetId := by
    intro x hx
    obtain ⟨o, _, hx⟩ := mem_of_forall₂ hresult hx
    obtain ⟨ex, hex, hid, hline⟩ := hx.document
    exact ⟨hx.run, ex, hex, hid, hline.1⟩
  rw [← hd₂] at hdataset hdatasets
  obtain ⟨d, hd, hid, _⟩ := id hdataset
  simp only [hrows]
  refine ⟨_, datasetId, b₂.nextId, bind_eq_ok.mpr ⟨rows, rfl, bind_eq_ok.mpr ⟨(), ?_, rfl⟩⟩,
    hok₂.record rfl ⟨d, hd, hid⟩ hof hnd, ?_⟩
  · rw [decide_eq_true hnd]
    rfl
  · rw [hexamples] at hsync
    have hgrows := hsync.grows.imp fun x y hxy =>
      (⟨hxy.1, Prod.mk.inj hxy.2⟩ : y.id = x.id ∧ y.datasetId = x.datasetId ∧
        y.externalRef = x.externalRef)
    refine ⟨hdataset, hdatasets, hgrows, fun x hx hnone => hsync.untouched x hx ?_,
      fun d hd => ?_, ⟨_, congrArg (· ++ _) hr₂, rfl, rfl, rfl, congrArg some hlabel⟩,
      ⟨rows, congrArg (· ++ _) hx₂, hresult⟩⟩
    · intro d hd he
      obtain ⟨hds, href⟩ := Prod.mk.inj he
      exact hnone hds.symm d hd href.symm
    · obtain ⟨x, hx, hline, _⟩ := hmirrored d hd
      exact ⟨x, hx, hline⟩

/-- a set that is found as it was recorded -/
theorem getOrCreateDataset_again {set : LabelledSet} {datasetId : Nat} (h : b.Ok)
    (hdataset : ∃ d ∈ b.datasets, d.id = datasetId ∧ d.name = set.name ∧ d.version = set.version) :
    getOrCreateDataset b set = (b, datasetId) := by
  obtain ⟨d, hd, hid, hname, hversion⟩ := hdataset
  unfold getOrCreateDataset
  cases hfind : b.datasets.find? fun d => decide (d.name = set.name ∧ d.version = set.version) with
  | none => exact absurd (decide_eq_true ⟨hname, hversion⟩) (List.find?_eq_none.mp hfind d hd)
  | some d' =>
    have hfound := List.find?_some hfind
    obtain ⟨hname', hversion'⟩ := of_decide_eq_true hfound
    have hsame := List.inj_on_of_nodup_map h.named (List.mem_of_find?_eq_some hfind) hd
      (Prod.ext (hname'.trans hname.symm) (hversion'.trans hversion.symm))
    rw [← hid, ← hsame]

/-- **A set that was recorded as it stands is not written again.** -/
theorem recordRun_again {e' : Evaluation} {run' : HarnessRun} {after' : Bench}
    {datasetId runId : Nat} (hrec : RunRecorded b e run after datasetId runId) (hok : after.Ok)
    (hset : e'.set = e.set) (h : recordRun after e' run' = .ok after') :
    after'.datasets = after.datasets ∧ after'.examples = after.examples := by
  unfold recordRun at h
  rw [getOrCreateDataset_again hok (hset ▸ hrec.dataset)] at h
  obtain ⟨rows, _, h⟩ := bind_eq_ok.mp h
  obtain ⟨_, _, h⟩ := bind_eq_ok.mp h
  cases h
  refine ⟨rfl, ?_⟩
  show (syncExamples after datasetId (scoredDocuments e'.set.scenarios)).1.examples = after.examples
  rw [hset]
  refine (Mirror.sync_again hok.examples hok.refs (fun d hd => ?_) fun d hd => ?_).2
  · exact existing_eq hok.refs (e.set.named d hd)
  · obtain ⟨x, hx, hds, href, hlabel, hexpected, hnotes⟩ := hrec.mirrored d hd
    refine ⟨x, hx, congrArg₂ Prod.mk hds href, ?_⟩
    show { x with labelType := d.labelType, expected := d.expected, notes := some d.notes } = x
    rw [← hlabel, ← hexpected, ← hnotes]

/-! ## the command -/

/-- an outcome that misses an expected value fails the deterministic gate -/
def Evaluation.Fails (e : Evaluation) (run : HarnessRun) : Prop :=
  e.live = none ∧ ∃ o ∈ run.outcomes, ∃ x ∈ o.document.expected, o.actual.get x.1 ≠ x.2

/-- what the command does to the tables, and its exit code -/
inductive Evaluated (U : Unicode) (sha : Text → Text) (b : Bench) (e : Evaluation) :
    Bench × Option Nat → Prop
  | raised (h : e.commits = false ∨ ∃ error, e.run U sha = .error error) :
      Evaluated U sha b e (b, none)
  | recorded {run : HarnessRun} {after : Bench} {datasetId runId code : Nat}
      (hcommits : e.commits = true) (hrun : e.run U sha = .ok run)
      (hdocuments : run.outcomes.map (·.document) = scoredDocuments e.set.scenarios)
      (h : RunRecorded b e run after datasetId runId)
      (hcode : (code = 0 ∨ code = 1) ∧ (code = 1 ↔ e.Fails run))
      /- another run of the set adds a run and results, and nothing else -/
      (hagain : ∀ e' after' code', e'.set = e.set →
        evaluate U sha after e' = (after', some code') →
          after'.datasets = after.datasets ∧ after'.examples = after.examples) :
      Evaluated U sha b e (after, some code)

theorem modelLabel_run (h : e.run U sha = .ok run) : run.modelLabel = e.modelLabel := by
  obtain ⟨outcomes, _, hrun⟩ := bind_eq_ok.mp h
  cases hrun
  rfl

theorem allPassed_eq_false_iff (hmeasured : ∀ o ∈ run.outcomes, Measured o) :
    run.allPassed = false ↔ ∃ o ∈ run.outcomes, ∃ x ∈ o.document.expected, o.actual.get x.1 ≠ x.2 := by
  rw [← Bool.not_eq_true, allPassed_iff]
  push Not
  constructor
  · rintro ⟨o, ho, hp⟩
    rw [ne_eq, passed_iff (hmeasured o ho)] at hp
    push Not at hp
    exact ⟨o, ho, hp⟩
  · rintro ⟨o, ho, x, hx, hne⟩
    exact ⟨o, ho, fun hp => hne ((passed_iff (hmeasured o ho)).mp hp x hx)⟩

theorem evaluate_spec (h : b.Ok) (e : Evaluation) :
    (evaluate U sha b e).1.Ok ∧ Evaluated U sha b e (evaluate U sha b e) := by
  unfold evaluate
  cases hrun : e.run U sha with
  | error error => exact ⟨h, .raised (Or.inr ⟨error, hrun⟩)⟩
  | ok run =>
    obtain ⟨hdocuments, hmeasured⟩ := documents_runAll hrun
    obtain ⟨after, datasetId, runId, hrecord, hok, hrecorded⟩ :=
      recordRun_recorded h hdocuments (modelLabel_run hrun)
    simp only [hrecord]
    cases hc : e.commits with
    | false => exact ⟨h, .raised (Or.inl hc)⟩
    | true =>
      refine ⟨hok, .recorded hc hrun hdocuments hrecorded ⟨?_, ?_⟩ ?_⟩
      · split
        · exact Or.inr rfl
        · exact Or.inl rfl
      · unfold Evaluation.Fails
        rw [← allPassed_eq_false_iff hmeasured, ← Option.isNone_iff_eq_none, ← Bool.not_eq_true']
        rw [← Bool.and_eq_true]
        split
        · next hfail => simp only [hfail]
        · next hfail => simp only [hfail, zero_ne_one, Bool.false_eq_true]
      · intro e' after' code' hset he'
        unfold evaluate at he'
        cases hrun' : e'.run U sha with
        | error error =>
          rw [hrun'] at he'
          cases he'
        | ok run' =>
          rw [hrun'] at he'
          simp only at he'
          cases hrecord' : recordRun after e' run' with
          | error error =>
            rw [hrecord'] at he'
            cases he'
          | ok last =>
            rw [hrecord'] at he'
            simp only at he'
            split at he'
            · cases he'
              exact recordRun_again hrecorded hok hset hrecord'
            · cases he'

/-- **Every evaluation, after any others, is recorded whole or leaves nothing.** -/
theorem evaluations_recorded {as : List Evaluation} (h : exec (benchFire U sha) {} as = some b)
    (e : Evaluation) : b.Ok ∧ Evaluated U sha b e (evaluate U sha b e) := by
  have hstep : ∀ b e after, Bench.Ok b → benchFire U sha b e = some after → after.Ok := by
    intro b e after hb hfire
    cases hfire
    exact (evaluate_spec hb e).1
  have hok : b.Ok := exec_invariant _ hstep h Bench.Ok.empty
  exact ⟨hok, (evaluate_spec hok e).2⟩

end

/-! ## two evaluations -/

namespace Sample

def evaluation : Evaluation where
  set := {
    name := txt "phase4-core"
    version := txt "v1"
    description := txt "A scenario of the labelled set."
    scenarios := [Phase4.newEventLowConfidence .latin]
    distinct := List.nodup_singleton _
    named := by
      intro d hd
      rw [List.mem_singleton.mp hd]
      exact List.cons_ne_nil _ _ }
  store := .empty
  env := {
    call _ _ := env .moderate
    marker scenario document := scenario.key ++ (document.map (·.key)).getD []
    accepts _ _ := true
    fake texts := .ok (texts.map fun _ => [1]) }
  startedAt := ⟨0⟩
  finishedAt := ⟨0⟩

end Sample

theorem evaluations_recorded_twice :
    (evaluate .latin id {} Sample.evaluation).2 = some 0 ∧
      Evaluated .latin id (evaluate .latin id {} Sample.evaluation).1 Sample.evaluation
        (evaluate .latin id (evaluate .latin id {} Sample.evaluation).1 Sample.evaluation) := by
  constructor
  · decide +kernel
  · have hrun : exec (benchFire .latin id) {} [Sample.evaluation] =
        some (evaluate .latin id {} Sample.evaluation).1 := rfl
    exact (evaluations_recorded hrun Sample.evaluation).2

end GeoRisk
