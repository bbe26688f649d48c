import GeoRisk.Processing.Effect

/-!
# How a processed document settles

The steps after the cascade either write telemetry only, or publish the event of the kept call.
`Settlement` says both with everything that is written; the rows have one form in all of them.

* `silentOutcomes`        the outcomes that publish nothing;
* `keptVerification`      the verification of the kept call, where its result carries an event;
* `Settlement`            how the steps after the cascade end;
* `Processing`            a call of `process_document` that returns, step by step;
* `processDocument_settled`    every call that returns is one.
-/

namespace GeoRisk
open Kit

def silentOutcomes : List PipelineOutcome := [.error, .background, .abstained, .citationFailed]

/-- the report that the kept call is recorded with -/
def keptVerification (U : Unicode) (document : RawDocument) (o : ExtractionOutcome) :
    Option VerificationReport :=
  ((o.final.bind (·.result)).bind (·.event)).map fun event =>
    verifyEvidence U event.evidence document.cleanText

section
variable {U : Unicode} {env : CallEnv} {document : RawDocument} {source : Source}
  {o : ExtractionOutcome} {before after : Store} {res : PipelineResult} {n promptId : Nat}

/-- how the steps after the cascade end -/
inductive Settlement (U : Unicode) (env : CallEnv) (document : RawDocument) (source : Source)
    (promptId : Nat) (o : ExtractionOutcome) (before after : Store) (res : PipelineResult) : Prop
  | silent (houtcome : res.outcome ∈ silentOutcomes) (hevent : res.eventId = none)
      (hafter : after = { before with
        extractions := before.extractions ++
          extractionRows env document.id promptId o (keptVerification U document o) none })
  | published (call : ExtractionCall) (result : ExtractionResult) (event : ExtractedEvent)
      (record : Event) (hfinal : o.final = some call) (hresult : call.result = some result)
      (hevent : result.event = some event) (houtcome : res.outcome ∉ silentOutcomes)
      (hrecord : RecordChange U (reportOf env U document source event) before after record)
      (hid : res.eventId = some record.eventId)
      (hrows : after.extractions = before.extractions ++
        extractionRows env document.id promptId o (keptVerification U document o)
          (some record.eventId))

theorem settled_recordOnly {v : Option VerificationReport} {outcome : PipelineOutcome}
    {reasons : List Text} (hv : v = keptVerification U document o)
    (houtcome : outcome ∈ silentOutcomes)
    (h : recordOnly env before document n promptId o v outcome reasons = .ok (after, res)) :
    Settlement U env document source promptId o before after res ∧ res.extraction = o := by
  obtain ⟨hafter, rfl⟩ := recordOnly_eq h
  rw [hv] at hafter
  exact ⟨.silent houtcome rfl hafter, rfl⟩

/-- **The steps after the cascade write telemetry only, or publish the event of the kept call.** -/
theorem settle_settled
    (h : settle env before U document source n promptId o = .ok (after, res)) :
    Settlement U env document source promptId o before after res ∧ res.extraction = o := by
  unfold settle at h
  split at h
  · next hx =>
    exact settled_recordOnly (by rw [keptVerification, hx]; rfl) (by decide) h
  · next result hx =>
    have hkept : keptVerification U document o = result.event.map fun event =>
        verifyEvidence U event.evidence document.cleanText := by
      rw [keptVerification, hx]
      rfl
    split at h
    · next hniche =>
      have hnone := ExtractionResult.event_eq_none (r := result) (Or.inl (by simpa using hniche))
      exact settled_recordOnly (by rw [hkept, hnone]; rfl) (by decide) h
    · split at h
      · next hev =>
        have hnone : result.event = none := by
          cases ha : result.abstained with
          | true => exact ExtractionResult.event_eq_none (Or.inr ha)
          | false =>
            rw [ha] at hev
            exact hev
        exact settled_recordOnly (by rw [hkept, hnone]; rfl) (by decide) h
      · next event hev =>
        have hevent : result.event = some event := by
          split at hev
          · cases hev
          · exact hev
        rw [hevent] at hkept
        simp only at h
        split at h
        · exact settled_recordOnly (v := some _) hkept.symm (by decide) h
        · obtain ⟨⟨s, record⟩, hp, h⟩ := bind_eq_ok.mp h
          cases h
          obtain ⟨hrecord, hrows, _⟩ := publish_ok rfl hp
          obtain ⟨call, hcall, hresult⟩ := Option.bind_eq_some_iff.mp hx
          refine ⟨.published call result event record.event hcall hresult hevent ?_ hrecord rfl
            ?_, rfl⟩
          · show (if record.event.requiresHumanReview then PipelineOutcome.needsReview
              else .published) ∉ silentOutcomes
            split <;> decide
          · rw [hkept]
            exact hrows

/-- a call that returns: what comes before the provider is asked, the cascade, and what follows -/
structure Processing (U : Unicode) (env : CallEnv) (document : RawDocument)
    (calls : List ExtractionCall) (before after : Store) (res : PipelineResult) (source : Source)
    (prepared : Store) (promptId : Nat) : Prop where
  prepare : ∃ n, prepare env before document = .ok (prepared, n, promptId)
  cascade : ∃ request verify,
    (extractDocument env.provider request verify env.allowEscalation).outcome = .ok ⟨calls⟩
  settled : Settlement U env document source promptId ⟨calls⟩ prepared after res
  extraction : res.extraction = ⟨calls⟩

/-- **Every call of `process_document` that returns is prepared, asks, and settles.** -/
theorem processDocument_settled
    (h : (processDocument env before U document).result = .ok (after, res)) :
    ∃ calls source prepared promptId, (processDocument env before U document).calls = calls ∧
      Processing U env document calls before after res source prepared promptId := by
  obtain ⟨source, s, n, p, ⟨calls⟩, request, verify, hp, ho, hcalls, h⟩ := processDocument_steps h
  obtain ⟨hsettled, hres⟩ := settle_settled h
  exact ⟨calls, source, s, p, hcalls, ⟨n, hp⟩, ⟨request, verify, ho⟩, hsettled, hres⟩

end

end GeoRisk
