import GeoRisk.Processing.Settled
import GeoRisk.Record.Gate

/-!
# What a processed document records of its calls

Every call of the provider that was paid for has one row, whatever became of the document.  An
outcome that does not publish leaves the record alone; the row of the kept call, and no other,
carries the event and the verification.

* `telemetry_only`         an outcome that does not publish adds chunks, the prompt and rows without
                           an event;
* `rows_of_returned`       a call that returns has added one row for each call of the provider;
* `telemetry_complete`     the rows account for the calls, up to the decimals of the cost column, and
                           the event is on the row of the call that reported it;
* `labels_iff`             each row is labelled by its own result exactly where a result with a quote
                           that fails comes without an error and is kept.
-/

namespace GeoRisk
open Kit

/-! ## outcomes that do not publish -/

/-- telemetry is written, and nothing of the record -/
structure TelemetryOnly (document : RawDocument) (before after : Store) : Prop where
  events : after.events = before.events
  clusters : after.clusters = before.clusters
  entities : after.entities = before.entities
  documents : after.documents = before.documents
  sources : after.sources = before.sources
  runs : after.runs = before.runs
  chunks : ∃ added, after.chunks = before.chunks ++ added ∧
    ∀ c ∈ added, c.documentId = document.id
  prompts : after.prompts = before.prompts ∨
    ∃ id, after.prompts = before.prompts ++ [⟨id, promptName, promptVersion⟩]
  extractions : ∃ rows, after.extractions = before.extractions ++ rows ∧
    ∀ row ∈ rows, row.eventId = none ∧ row.documentId = document.id

section
variable {U : Unicode} {env : CallEnv} {document : RawDocument} {store store' : Store}
  {res : PipelineResult}

theorem eventId_of_mem_rows {o : ExtractionOutcome} {d p : Nat} {v : Option VerificationReport}
    {row : Extraction} (h : row ∈ extractionRows env d p o v none) :
    row.eventId = none ∧ row.documentId = d := by
  obtain ⟨call, i, _, rfl⟩ := mem_extractionRows h
  exact ⟨by rw [extractionRow_eventId, ite_self], rfl⟩

/-- **An outcome that does not publish leaves the record alone.** -/
theorem telemetry_only (h : (processDocument env store U document).result = .ok (store', res))
    (hout : res.outcome ∈ silentOutcomes) :
    TelemetryOnly document store store' ∧ res.eventId = none := by
  obtain ⟨calls, source, prepared, promptId, _, hp⟩ := processDocument_settled h
  obtain ⟨n, hprepare⟩ := hp.prepare
  obtain ⟨added, prompts, next, rfl, hadded, _, hprompts⟩ := prepare_eq hprepare
  cases hp.settled with
  | silent _ hevent hafter =>
    rw [hafter]
    refine ⟨⟨rfl, rfl, rfl, rfl, rfl, rfl, ⟨added, rfl, hadded⟩, hprompts, ⟨_, rfl, ?_⟩⟩, hevent⟩
    intro row hrow
    exact eventId_of_mem_rows hrow
  | published _ _ _ _ _ _ _ houtcome _ _ _ => exact absurd hout houtcome

end

namespace Sample

/-- the source and its document, not processed yet -/
def unprocessed : Store := { sources := [source], documents := [document text] }

/-- both passes fail -/
def refusing : CallEnv :=
  { env .moderate with
    provider := fun r => .ok { call .moderate with
      model := r.model, result := none, error := some (txt "refusal: none") } }

end Sample

theorem telemetry_only_refusing :
    ∃ s res, (processDocument Sample.refusing Sample.unprocessed Unicode.latin
        (Sample.document Sample.text)).result = .ok (s, res) ∧
      TelemetryOnly (Sample.document Sample.text) Sample.unprocessed s ∧ res.eventId = none := by
  have hrun : (processDocument Sample.refusing Sample.unprocessed Unicode.latin
      (Sample.document Sample.text)).result.toOption.map (·.2.outcome) = some .error := by
    decide +kernel
  obtain ⟨⟨s, res⟩, hs, hout⟩ := Option.map_eq_some_iff.mp hrun
  have hok := eq_ok_of_toOption hs
  have hsilent : res.outcome ∈ silentOutcomes := by
    rw [show res.outcome = .error from hout]
    decide
  exact ⟨s, res, hok, telemetry_only hok hsilent⟩

/-! ## one row for each call -/

section
variable {U : Unicode} {env : CallEnv} {document : RawDocument} {store store' : Store}
  {res : PipelineResult} {calls : List ExtractionCall}

/-- **A call that returns has added one row for each call of the provider, in order.** -/
theorem rows_of_returned (h : (processDocument env store U document).result = .ok (store', res)) :
    ∃ promptId, res.extraction = ⟨(processDocument env store U document).calls⟩ ∧
      (processDocument env store U document).calls.length ≤ 2 ∧
      store'.extractions = store.extractions ++ extractionRows env document.id promptId
        res.extraction (keptVerification U document res.extraction) res.eventId := by
  obtain ⟨calls, source, prepared, promptId, hcalls, hp⟩ := processDocument_settled h
  obtain ⟨n, hprepare⟩ := hp.prepare
  have hq := prepare_silent hprepare
  refine ⟨promptId, ?_, ?_, ?_⟩
  · rw [hcalls, hp.extraction]
  · obtain ⟨request, verify, ho⟩ := hp.cascade
    rw [hcalls]
    obtain ⟨_, ⟨first, hc, _⟩ | ⟨first, second, hc⟩⟩ := extractDocument_ok ho
    · have hc' : calls = [first] := hc
      rw [hc']
      exact Nat.le_succ 1
    · have hc' : calls = [first, second] := hc
      rw [hc']
      exact le_refl 2
  · rw [hp.extraction, ← hq.extractions]
    cases hp.settled with
    | silent _ hevent hafter => rw [hafter, hevent]
    | published _ _ _ _ _ _ _ _ _ hid hrows => rw [hrows, hid]

/-- the published event is the one that the kept call reported -/
theorem published_of_returned {id : Nat}
    (h : (processDocument env store U document).result = .ok (store', res))
    (hid : res.eventId = some id) :
    ∃ i call result event r record, res.extraction.finalIndex = some i ∧
      res.extraction.calls[i]? = some call ∧ call.result = some result ∧
      result.event = some event ∧ r.event = event ∧ RecordChange U r store store' record ∧
      record.eventId = id := by
  obtain ⟨calls, source, prepared, promptId, _, hp⟩ := processDocument_settled h
  obtain ⟨n, hprepare⟩ := hp.prepare
  cases hp.settled with
  | silent _ hevent _ =>
    rw [hid] at hevent
    cases hevent
  | published call result event record hfinal hresult hevent _ hrecord hrid _ =>
    obtain ⟨i, hi, hc⟩ := final_mem hfinal
    rw [hp.extraction]
    rw [hid] at hrid
    exact ⟨i, call, result, event, _, record, hi, hc, hresult, hevent, rfl,
      hrecord.of_silent (prepare_silent hprepare), (Option.some.inj hrid).symm⟩

/-- the row says of the call what the budget and the evaluation read -/
structure AccountsFor (call : ExtractionCall) (row : Extraction) : Prop where
  model : row.modelName = call.model
  inputTokens : row.inputTokens = call.inputTokens
  outputTokens : row.outputTokens = call.outputTokens
  cacheWriteTokens : row.cacheWriteTokens = call.cacheWriteTokens
  cacheReadTokens : row.cacheReadTokens = call.cacheReadTokens
  cost : row.costUsd = numericTo 6 call.costUsd

theorem extractionRows_accounts (env : CallEnv) (d p : Nat) (o : ExtractionOutcome)
    (v : Option VerificationReport) (e : Option Nat) :
    List.Forall₂ AccountsFor o.calls (extractionRows env d p o v e) := by
  rw [extractionRows, List.forall₂_map_right_iff, List.forall₂_iff_get]
  refine ⟨(List.length_zipIdx).symm, ?_⟩
  intro i h₁ h₂
  simp only [List.get_eq_getElem, List.getElem_zipIdx]
  exact ⟨rfl, rfl, rfl, rfl, rfl, rfl⟩

/-- each row is off by half a unit of the column at most -/
theorem abs_sum_costs_le {rows : List Extraction} (h : List.Forall₂ AccountsFor calls rows) :
    |(rows.map (·.costUsd)).sum - (calls.map (·.costUsd)).sum| ≤
      calls.length * (1 / (2 * 10 ^ 6)) := by
  induction h with
  | nil => simp
  | @cons call row calls rows hrow _ ih =>
    have hone := abs_numericTo_sub_le 6 call.costUsd
    rw [← hrow.cost] at hone
    rw [List.map_cons, List.map_cons, List.sum_cons, List.sum_cons, List.length_cons]
    have hsplit : row.costUsd + (rows.map (·.costUsd)).sum -
        (call.costUsd + (calls.map (·.costUsd)).sum) =
          (row.costUsd - call.costUsd) +
            ((rows.map (·.costUsd)).sum - (calls.map (·.costUsd)).sum) := by ring
    rw [hsplit]
    push_cast
    linarith [abs_add_le (row.costUsd - call.costUsd)
      ((rows.map (·.costUsd)).sum - (calls.map (·.costUsd)).sum)]

/-- the row at a position -/
theorem getElem?_extractionRows {d p : Nat} {v : Option VerificationReport} {e : Option Nat}
    {o : ExtractionOutcome} {i : Nat} {row : Extraction} :
    (extractionRows env d p o v e)[i]? = some row ↔
      ∃ call, o.calls[i]? = some call ∧
        extractionRow env d p v e o.finalIndex (call, i) = row := by
  rw [extractionRows, List.getElem?_map, List.getElem?_zipIdx, Option.map_eq_some_iff]
  constructor
  · rintro ⟨x, hx, rfl⟩
    obtain ⟨call, hc, rfl⟩ := Option.map_eq_some_iff.mp hx
    exact ⟨call, hc, by rw [Nat.zero_add]⟩
  · rintro ⟨call, hc, rfl⟩
    exact ⟨(call, 0 + i), by rw [hc]; rfl, by rw [Nat.zero_add]⟩

/-- the rows of a processed document account for its calls, and the event is on the row of the call
that reported it -/
structure TelemetryComplete (U : Unicode) (calls : List ExtractionCall) (before after : Store)
    (res : PipelineResult) (rows : List Extraction) : Prop where
  added : after.extractions = before.extractions ++ rows
  atMostTwo : calls.length ≤ 2
  accounts : List.Forall₂ AccountsFor calls rows
  cost : |(rows.map (·.costUsd)).sum - res.extraction.totalCostUsd| ≤
    calls.length * (1 / (2 * 10 ^ 6))
  event : ∀ (i : Nat) row, rows[i]? = some row → row.eventId ≠ none →
    row.eventId = res.eventId ∧ res.extraction.finalIndex = some i
  published : ∀ id, res.eventId = some id →
    ∃ (i : Nat) (row : Extraction) (call : ExtractionCall) (result : ExtractionResult)
        (event : ExtractedEvent) (r : Report) (record : Event),
      rows[i]? = some row ∧ row.eventId = some id ∧ calls[i]? = some call ∧
        (⟨calls⟩ : ExtractionOutcome).Kept i ∧ call.result = some result ∧
        result.event = some event ∧ r.event = event ∧ RecordChange U r before after record ∧
        record.eventId = id

/-- **The telemetry of a call that returns is complete.** -/
theorem telemetry_complete
    (h : (processDocument env store U document).result = .ok (store', res)) :
    ∃ rows, TelemetryComplete U (processDocument env store U document).calls store store' res
      rows := by
  obtain ⟨promptId, hres, htwo, hrows⟩ := rows_of_returned h
  have hcalls : res.extraction.calls = (processDocument env store U document).calls := by rw [hres]
  have haccounts := extractionRows_accounts env document.id promptId res.extraction
    (keptVerification U document res.extraction) res.eventId
  rw [hcalls] at haccounts
  refine ⟨_, hrows, htwo, haccounts, ?_, ?_, ?_⟩
  · rw [ExtractionOutcome.totalCostUsd, hcalls]
    exact abs_sum_costs_le haccounts
  · intro i row hrow hevent
    obtain ⟨call, _, rfl⟩ := getElem?_extractionRows.mp hrow
    rw [extractionRow_eventId] at hevent ⊢
    by_cases hfinal : res.extraction.finalIndex = some i
    · exact ⟨if_pos hfinal, hfinal⟩
    · exact absurd (if_neg hfinal) hevent
  · intro id hid
    obtain ⟨i, call, result, event, r, record, hi, hc, hresult, hevent, hr, hrecord, hrid⟩ :=
      published_of_returned h hid
    refine ⟨i, _, call, result, event, r, record, getElem?_extractionRows.mpr ⟨call, hc, rfl⟩, ?_,
      hcalls ▸ hc, ?_, hresult, hevent, hr, hrecord, hrid⟩
    · rw [extractionRow_eventId, if_pos hi, hid]
    · have hkept := finalIndex_kept hi
      rw [hres] at hkept
      exact hkept

end

namespace Sample

/-- one call that read two tokens of the cache for two tenths of a microdollar -/
def frugal : CallEnv :=
  { env .moderate with provider := fun _ => .ok { call .moderate with costUsd := 1 / 5000000 } }

/-- every call reports the event and an error -/
def faulty : CallEnv :=
  { env .moderate with
    provider := fun r => .ok { call .moderate with model := r.model, error := some (txt "late") } }

end Sample

theorem telemetry_complete_frugal :
    ∃ s res rows, (processDocument Sample.frugal Sample.unprocessed Unicode.latin
        (Sample.document Sample.text)).result = .ok (s, res) ∧
      TelemetryComplete Unicode.latin (processDocument Sample.frugal Sample.unprocessed Unicode.latin
        (Sample.document Sample.text)).calls Sample.unprocessed s res rows := by
  have hrun : (processDocument Sample.frugal Sample.unprocessed Unicode.latin
      (Sample.document Sample.text)).result.toOption.isSome = true := by decide +kernel
  obtain ⟨⟨s, res⟩, hs⟩ := Option.isSome_iff_exists.mp hrun
  have hok := eq_ok_of_toOption hs
  obtain ⟨rows, hrows⟩ := telemetry_complete hok
  exact ⟨s, res, rows, hok, hrows⟩

/-- a cost below the decimals of the column is lost, and a call that failed can be published -/
theorem telemetry_not_exact :
    (¬∀ (U : Unicode) (env : CallEnv) (store store' : Store) (document : RawDocument)
        (res : PipelineResult),
      (processDocument env store U document).result = .ok (store', res) →
        ∃ rows, store'.extractions = store.extractions ++ rows ∧
          (rows.map (·.costUsd)).sum = res.extraction.totalCostUsd) ∧
    ¬∀ (U : Unicode) (env : CallEnv) (store store' : Store) (document : RawDocument)
        (res : PipelineResult),
      (processDocument env store U document).result = .ok (store', res) → res.eventId ≠ none →
        ∃ call ∈ res.extraction.calls, call.succeeded = true := by
  constructor
  · intro h
    have hrun : (processDocument Sample.frugal Sample.unprocessed Unicode.latin
        (Sample.document Sample.text)).result.toOption.map (fun x =>
          ((x.1.extractions.map (·.costUsd)).sum, x.2.extraction.totalCostUsd)) =
        some (0, 1 / 5000000) := by decide +kernel
    obtain ⟨⟨s, res⟩, hs, hcosts⟩ := Option.map_eq_some_iff.mp hrun
    obtain ⟨rows, hrows, hsum⟩ := h _ _ _ s _ res (eq_ok_of_toOption hs)
    obtain ⟨hstored, htotal⟩ := Prod.mk.inj hcosts
    rw [hrows] at hstored
    simp only at htotal
    rw [show Sample.unprocessed.extractions = [] from rfl, List.nil_append, hsum, htotal] at hstored
    exact absurd hstored (by norm_num)
  · intro h
    have hrun : (processDocument Sample.faulty Sample.unprocessed Unicode.latin
        (Sample.document Sample.text)).result.toOption.map (fun x =>
          (x.2.eventId.isSome, x.2.extraction.calls.any (·.succeeded))) = some (true, false) := by
      decide +kernel
    obtain ⟨⟨s, res⟩, hs, hobs⟩ := Option.map_eq_some_iff.mp hrun
    obtain ⟨hid, hany⟩ := Prod.mk.inj hobs
    obtain ⟨call, hc, hcall⟩ := h _ _ _ s _ res (eq_ok_of_toOption hs)
      (Option.isSome_iff_ne_none.mp hid)
    rw [List.any_eq_false] at hany
    exact hany call hc hcall

/-! ## labels -/

section
variable {U : Unicode} {env : CallEnv} {document : RawDocument} {store store' : Store}
  {res : PipelineResult} {calls : List ExtractionCall}

/-- how many quotes of a result are not found in the document -/
def failedQuotes (U : Unicode) (document : RawDocument) (result : Option ExtractionResult) : Nat :=
  match result.bind (·.event) with
  | none => 0
  | some event => (verifyEvidence U event.evidence document.cleanText).failed

/-- a row whose own result has a quote that fails says so -/
def OwnLabel (U : Unicode) (document : RawDocument) (row : Extraction) : Prop :=
  0 < failedQuotes U document row.rawOutput →
    row.outcome = .citationInvalid ∧
      row.citationsFailed = failedQuotes U document row.rawOutput

theorem outcomeLabel_citationInvalid {call : ExtractionCall} {v : Option VerificationReport} :
    outcomeLabel call v = .citationInvalid ↔
      call.error = none ∧ ∃ result, call.result = some result ∧ result.event.isSome = true ∧
        ∃ report, v = some report ∧ report.allVerified = false := by
  unfold outcomeLabel
  cases call.error with
  | some e => simp
  | none =>
    cases call.result with
    | none => simp
    | some result =>
      have hflag : (!result.inNiche || result.abstained) = !result.event.isSome := by
        rw [result.consistent.1]
        cases result.inNiche <;> cases result.abstained <;> rfl
      simp only [hflag]
      cases hevent : result.event.isSome with
      | false => simp [hevent]
      | true =>
        cases v with
        | none => simp
        | some report => cases hv : report.allVerified <;> simp [hevent, hv]

/-- what the verification of the kept call says of its quotes -/
theorem keptVerification_of_failed {o : ExtractionOutcome} {i : Nat} {call : ExtractionCall}
    (hi : o.finalIndex = some i) (hc : o.calls[i]? = some call)
    (hfailed : 0 < failedQuotes U document call.result) :
    ∃ result report, call.result = some result ∧ result.event.isSome = true ∧
      keptVerification U document o = some report ∧ report.allVerified = false ∧
      report.failed = failedQuotes U document call.result := by
  have hfinal : o.final = some call := final_of_index hi hc
  cases hr : call.result with
  | none =>
    rw [hr] at hfailed
    cases hfailed
  | some result =>
    rw [hr] at hfailed
    cases he : result.event with
    | none =>
      rw [failedQuotes, Option.bind_some, he] at hfailed
      cases hfailed
    | some event =>
      rw [failedQuotes, Option.bind_some, he] at hfailed
      refine ⟨result, verifyEvidence U event.evidence document.cleanText, rfl, by rw [he]; rfl,
        ?_, ?_, ?_⟩
      · rw [keptVerification, hfinal, Option.bind_some, hr, Option.bind_some, he]
        rfl
      · rw [Bool.eq_false_iff]
        intro hall
        have hzero : (verifyEvidence U event.evidence document.cleanText).failed = 0 := by
          unfold VerificationReport.allVerified at hall
          rw [Bool.and_eq_true, decide_eq_true_eq, decide_eq_true_eq] at hall
          exact hall.2
        exact absurd hzero (Nat.ne_of_gt hfailed)
      · rw [failedQuotes, Option.bind_some, he]

/-- **The row of a call whose result has a quote that fails is labelled by it exactly where the call
came without an error and is kept.** -/
theorem ownLabel_iff {o : ExtractionOutcome} {d p i : Nat} {e : Option Nat} {call : ExtractionCall}
    (hc : o.calls[i]? = some call) :
    OwnLabel U document
        (extractionRow env d p (keptVerification U document o) e o.finalIndex (call, i)) ↔
      (0 < failedQuotes U document call.result → call.error = none ∧ o.finalIndex = some i) := by
  show (0 < failedQuotes U document call.result →
      outcomeLabel call (if decide (o.finalIndex = some i) then keptVerification U document o
          else none) = .citationInvalid ∧
        ((if decide (o.finalIndex = some i) then keptVerification U document o
          else none).map (·.failed)).getD 0 = failedQuotes U document call.result) ↔ _
  constructor
  · intro h hfailed
    obtain ⟨herror, _, _, _, report, hreport, _⟩ := outcomeLabel_citationInvalid.mp (h hfailed).1
    refine ⟨herror, ?_⟩
    by_contra hne
    rw [decide_eq_false hne] at hreport
    cases hreport
  · intro h hfailed
    obtain ⟨herror, hfinal⟩ := h hfailed
    obtain ⟨result, report, hr, hevent, hkept, hall, hcount⟩ :=
      keptVerification_of_failed hfinal hc hfailed
    rw [decide_eq_true hfinal, if_pos rfl, hkept]
    exact ⟨outcomeLabel_citationInvalid.mpr ⟨herror, result, hr, hevent, report, rfl, hall⟩, hcount⟩

/-- a call without an error that reports a quote that fails is kept exactly where the next one does
not succeed -/
theorem finalIndex_iff {o : ExtractionOutcome} {i : Nat} {call : ExtractionCall}
    (htwo : o.calls.length ≤ 2) (hc : o.calls[i]? = some call) (hs : call.succeeded = true) :
    o.finalIndex = some i ↔ ∀ next, o.calls[i + 1]? = some next → next.succeeded = false := by
  constructor
  · intro hi next hnext
    rcases finalIndex_kept hi with ⟨_, _, _, hlast⟩ | ⟨hnone, _⟩
    · exact hlast _ _ (Nat.lt_succ_self i) hnext
    · exact hnone next (List.mem_of_getElem? hnext)
  · intro hnext
    apply finalIndex_eq hc hs
    intro j d hij hd
    -- of two calls, the one behind is the next
    have hj : j < o.calls.length := (List.getElem?_eq_some_iff.mp hd).1
    have he : j = i + 1 := by omega
    exact hnext d (he ▸ hd)

/-- **Each row is labelled by its own result exactly where a result with a quote that fails comes
without an error, and no second call behind it succeeds.** -/
theorem labels_iff (h : (processDocument env store U document).result = .ok (store', res)) :
    (∃ rows, store'.extractions = store.extractions ++ rows ∧
        ∀ row ∈ rows, OwnLabel U document row) ↔
      ∀ (i : Nat) call, (processDocument env store U document).calls[i]? = some call →
        0 < failedQuotes U document call.result → call.error = none ∧
          ∀ next, (processDocument env store U document).calls[i + 1]? = some next →
            next.succeeded = false := by
  obtain ⟨promptId, hres, htwo, hrows⟩ := rows_of_returned h
  have hcalls : res.extraction.calls = (processDocument env store U document).calls := by rw [hres]
  rw [← hcalls] at htwo ⊢
  have hsucceeded : ∀ call : ExtractionCall, 0 < failedQuotes U document call.result →
      call.error = none → call.succeeded = true := by
    intro call hfailed herror
    unfold ExtractionCall.succeeded
    rw [herror]
    cases hr : call.result with
    | none =>
      rw [hr] at hfailed
      cases hfailed
    | some result => rfl
  have hiff : ∀ (i : Nat) call, res.extraction.calls[i]? = some call →
      (OwnLabel U document (extractionRow env document.id promptId
          (keptVerification U document res.extraction) res.eventId res.extraction.finalIndex
          (call, i)) ↔
        (0 < failedQuotes U document call.result → call.error = none ∧
          ∀ next, res.extraction.calls[i + 1]? = some next → next.succeeded = false)) := by
    intro i call hc
    rw [ownLabel_iff hc]
    apply imp_congr_right
    intro hfailed
    apply and_congr_right
    intro herror
    exact finalIndex_iff htwo hc (hsucceeded call hfailed herror)
  constructor
  · rintro ⟨rows, hadded, hown⟩ i call hc
    rw [hrows] at hadded
    obtain rfl := List.append_cancel_left hadded
    exact (hiff i call hc).mp (hown _ (List.mem_of_getElem?
      (getElem?_extractionRows.mpr ⟨call, hc, rfl⟩)))
  · intro hall
    refine ⟨_, hrows, fun row hrow => ?_⟩
    obtain ⟨call, i, hc, rfl⟩ := mem_extractionRows hrow
    exact (hiff i call hc).mpr (hall i call hc)

end

namespace Sample

/-- the first pass reports a quote that the document does not have, the second one that it has -/
def misquoted : ExtractedEvent :=
  { event .moderate with
    evidence := (event .moderate).evidence.map fun q =>
      ⟨q.fieldSupported, ⟨txt "port of Suez is open", by decide, by decide, by decide⟩⟩
    evidence_length := by decide }

def corrected : CallEnv :=
  { env .moderate with
    provider := fun r =>
      if r.model = defaultModel then
        .ok { call .moderate with result := some ⟨true, false, none, some misquoted, by simp⟩ }
      else .ok { call .moderate with model := r.model } }

end Sample

theorem labels_iff_corrected :
    ∃ s res, (processDocument Sample.corrected Sample.unprocessed Unicode.latin
        (Sample.document Sample.text)).result = .ok (s, res) ∧
      ((∃ rows, s.extractions = Sample.unprocessed.extractions ++ rows ∧
          ∀ row ∈ rows, OwnLabel Unicode.latin (Sample.document Sample.text) row) ↔
        ∀ (i : Nat) call, (processDocument Sample.corrected Sample.unprocessed Unicode.latin
            (Sample.document Sample.text)).calls[i]? = some call →
          0 < failedQuotes Unicode.latin (Sample.document Sample.text) call.result →
            call.error = none ∧
              ∀ next, (processDocument Sample.corrected Sample.unprocessed Unicode.latin
                  (Sample.document Sample.text)).calls[i + 1]? = some next →
                next.succeeded = false) := by
  have hrun : (processDocument Sample.corrected Sample.unprocessed Unicode.latin
      (Sample.document Sample.text)).result.toOption.isSome = true := by decide +kernel
  obtain ⟨⟨s, res⟩, hs⟩ := Option.isSome_iff_exists.mp hrun
  have hok := eq_ok_of_toOption hs
  exact ⟨s, res, hok, labels_iff hok⟩

/-- the first pass of a corrected cascade is recorded as extracted -/
theorem first_pass_mislabelled :
    ¬∀ (U : Unicode) (env : CallEnv) (store store' : Store) (document : RawDocument)
        (res : PipelineResult),
      (processDocument env store U document).result = .ok (store', res) →
        ∃ rows, store'.extractions = store.extractions ++ rows ∧
          ∀ row ∈ rows, OwnLabel U document row := by
  intro h
  have hrun : (processDocument Sample.corrected Sample.unprocessed Unicode.latin
      (Sample.document Sample.text)).result.toOption.map (fun x =>
        x.1.extractions.map fun row => (row.outcome, decide (0 < failedQuotes Unicode.latin
          (Sample.document Sample.text) row.rawOutput))) =
      some [(.extracted, true), (.extracted, false)] := by decide +kernel
  obtain ⟨⟨s, res⟩, hs, hobs⟩ := Option.map_eq_some_iff.mp hrun
  obtain ⟨rows, hrows, hown⟩ := h _ _ _ s _ res (eq_ok_of_toOption hs)
  simp only [hrows, show Sample.unprocessed.extractions = [] from rfl, List.nil_append] at hobs
  obtain ⟨row, rest, rfl, hrow, _⟩ := List.map_eq_cons_iff.mp hobs
  obtain ⟨hlabel, hfailed⟩ := Prod.mk.inj hrow
  have hown := (hown row (List.mem_cons_self ..) (of_decide_eq_true hfailed)).1
  rw [hlabel] at hown
  cases hown

end GeoRisk
