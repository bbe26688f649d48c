import GeoRisk.Processing.Pipeline

/-!
# What a processed document does to the store

Everything later modules need to know of a call of `process_document` that returns, said once.

* `Unrelated before after`    the tables a call never touches;
* `Gated U document report`   a report that has passed the citation gate;
* `RecordChange`              the event created or merged into;
* `Effect`                    telemetry only, or one changed record with rows that name it;
* `processDocument_ok`        a call that returns has an `Effect`, and one extraction row for each
                              call that was paid for.
-/

namespace GeoRisk
open Kit

/-- the tables that `process_document` only reads, and the counter -/
structure Unrelated (before after : Store) : Prop where
  documents : after.documents = before.documents
  sources : after.sources = before.sources
  runs : after.runs = before.runs
  nextId : before.nextId ≤ after.nextId

theorem Unrelated.refl (s : Store) : Unrelated s s := ⟨rfl, rfl, rfl, le_refl _⟩

theorem Unrelated.trans {a b c : Store} (h : Unrelated a b) (k : Unrelated b c) : Unrelated a c :=
  ⟨k.documents.trans h.documents, k.sources.trans h.sources, k.runs.trans h.runs,
    le_trans h.nextId k.nextId⟩

/-- the report of the document has passed the gate, and carries the assessment it was given -/
structure Gated (U : Unicode) (document : RawDocument) (r : Report) : Prop where
  documentId : r.documentId = document.id
  verification : r.verification = verifyEvidence U r.event.evidence document.cleanText
  verified : r.verification.allVerified = true
  assessed : ∃ flags, r.confidence = (assess r.event r.verification flags).confidence ∧
    r.requiresHumanReview = (assess r.event r.verification flags).requiresHumanReview

/-- the events after a report was published as `event` -/
inductive RecordChange (U : Unicode) (r : Report) (before after : Store) : Event → Prop
  | created (id clusterId : Nat) (hid : before.nextId ≤ id ∧ id < after.nextId)
      (h : after.events = before.events ++ [newEvent id clusterId r]) :
      RecordChange U r before after (newEvent id clusterId r)
  | merged (existing : Event) (hmem : existing ∈ before.events)
      (h : after.events = replace Event.eventId (mergeEvent U existing r) before.events) :
      RecordChange U r before after (mergeEvent U existing r)

/-- the effect of a call that returns, with the outcome of its cascade -/
inductive Effect (U : Unicode) (env : CallEnv) (document : RawDocument) (o : ExtractionOutcome)
    (before after : Store) : Prop
  | telemetry (promptId : Nat) (v : Option VerificationReport)
      (hevents : after.events = before.events)
      (hrows : after.extractions =
        before.extractions ++ extractionRows env document.id promptId o v none)
  | published (promptId : Nat) (r : Report) (event : Event) (hgate : Gated U document r)
      (hrecord : RecordChange U r before after event)
      (hfinal : ∃ call, o.final = some call ∧ call.result.isSome = true)
      (hrows : after.extractions = before.extractions ++
        extractionRows env document.id promptId o (some r.verification) (some event.eventId))

section
variable {U : Unicode} {env : CallEnv} {store store' : Store} {document : RawDocument}
  {o : ExtractionOutcome}

/-- the same events, clusters and extractions, and unrelated tables alone -/
structure Silent (before after : Store) : Prop extends Unrelated before after where
  events : after.events = before.events
  clusters : after.clusters = before.clusters
  extractions : after.extractions = before.extractions

/-- chunking adds chunks of the document, or nothing -/
theorem chunkAndEmbed_eq {n : Nat} (h : chunkAndEmbed env store document = .ok (store', n)) :
    ∃ added, store' = { store with chunks := store.chunks ++ added } ∧
      ∀ c ∈ added, c.documentId = document.id := by
  have hnone : ∃ added, store = { store with chunks := store.chunks ++ added } ∧
      ∀ c ∈ added, c.documentId = document.id :=
    ⟨[], by rw [List.append_nil], fun _ hc => absurd hc List.not_mem_nil⟩
  unfold chunkAndEmbed at h
  split at h
  · cases h
    exact hnone
  · split at h
    · cases h
      exact hnone
    · obtain ⟨chunks, _, h⟩ := bind_eq_ok.mp h
      split at h
      · cases h
        exact hnone
      · obtain ⟨_, _, h⟩ := bind_eq_ok.mp h
        obtain ⟨_, _, h⟩ := bind_eq_ok.mp h
        obtain ⟨_, _, h⟩ := bind_eq_ok.mp h
        obtain ⟨_, _, h⟩ := bind_eq_ok.mp h
        cases h
        refine ⟨_, rfl, ?_⟩
        intro c hc
        obtain ⟨_, _, rfl⟩ := List.mem_map.mp hc
        rfl

/-- the prompt is there, or its row is added -/
theorem getOrCreatePrompt_eq {n : Nat} (h : getOrCreatePrompt env store = .ok (store', n)) :
    store' = store ∨ store' = { store with
      nextId := store.nextId + 1
      prompts := store.prompts ++ [⟨store.nextId, promptName, promptVersion⟩] } := by
  unfold getOrCreatePrompt at h
  split at h
  · cases h
    exact Or.inl rfl
  · obtain ⟨_, _, h⟩ := bind_eq_ok.mp h
    cases h
    exact Or.inr rfl

/-- what comes before the provider is asked adds chunks of the document, and at most the row of the
prompt -/
theorem prepare_eq {n p : Nat} (h : prepare env store document = .ok (store', n, p)) :
    ∃ added prompts next, store' = { store with
        nextId := next, chunks := store.chunks ++ added, prompts := prompts } ∧
      (∀ c ∈ added, c.documentId = document.id) ∧ store.nextId ≤ next ∧
      (prompts = store.prompts ∨
        ∃ id, prompts = store.prompts ++ [⟨id, promptName, promptVersion⟩]) := by
  obtain ⟨⟨s, m⟩, h1, h⟩ := bind_eq_ok.mp h
  obtain ⟨⟨t, q⟩, h2, h⟩ := bind_eq_ok.mp h
  cases h
  obtain ⟨added, rfl, hadded⟩ := chunkAndEmbed_eq h1
  rcases getOrCreatePrompt_eq h2 with rfl | rfl
  · exact ⟨added, store.prompts, store.nextId, rfl, hadded, le_refl _, Or.inl rfl⟩
  · exact ⟨added, _, store.nextId + 1, rfl, hadded, Nat.le_succ _, Or.inr ⟨store.nextId, rfl⟩⟩

theorem prepare_silent {n p : Nat} (h : prepare env store document = .ok (store', n, p)) :
    Silent store store' := by
  obtain ⟨_, _, next, rfl, _, hnext, _⟩ := prepare_eq h
  exact ⟨⟨rfl, rfl, rfl, hnext⟩, rfl, rfl, rfl⟩

/-- a record changed after nothing but silent steps was changed after them -/
theorem RecordChange.of_silent {r : Report} {before middle after : Store} {e : Event}
    (hq : Silent before middle) (h : RecordChange U r middle after e) :
    RecordChange U r before after e := by
  cases h with
  | created id c hid hev =>
    exact .created id c ⟨le_trans hq.nextId hid.1, hid.2⟩ (by rw [hev, hq.events])
  | merged existing hmem hev =>
    exact .merged existing (hq.events ▸ hmem) (by rw [hev, hq.events])

theorem recordExtractions_ok {d p : Nat} {v : Option VerificationReport} {e : Option Nat}
    (h : recordExtractions env store d p o v e = .ok store') :
    store' = { store with extractions := store.extractions ++ extractionRows env d p o v e } := by
  obtain ⟨_, _, h⟩ := bind_eq_ok.mp h
  cases h
  rfl

theorem createEvent_ok {clusterId p : Nat} {r : Report} {event : Event}
    (h : createEvent env store clusterId r p o = .ok (store', event)) :
    event = newEvent store.nextId clusterId r ∧
      store'.events = store.events ++ [event] ∧
      store'.extractions = store.extractions ++
        extractionRows env r.documentId p o (some r.verification) (some event.eventId) ∧
      Unrelated store store' ∧ store.nextId < store'.nextId := by
  obtain ⟨_, _, h⟩ := bind_eq_ok.mp h
  obtain ⟨entities, _, h⟩ := bind_eq_ok.mp h
  obtain ⟨s, hs, h⟩ := bind_eq_ok.mp h
  obtain ⟨_, _, h⟩ := bind_eq_ok.mp h
  cases h
  rw [recordExtractions_ok hs]
  exact ⟨rfl, rfl, rfl, ⟨rfl, rfl, rfl, Nat.le_succ _⟩, Nat.lt_succ_self _⟩

theorem mergeIntoExisting_ok {existing event : Event} {r : Report} {p : Nat}
    (h : mergeIntoExisting env store U existing r p o = .ok (store', event)) :
    event = mergeEvent U existing r ∧
      store'.events = replace Event.eventId event store.events ∧
      store'.extractions = store.extractions ++
        extractionRows env r.documentId p o (some r.verification) (some event.eventId) ∧
      Unrelated store store' := by
  obtain ⟨entities, _, h⟩ := bind_eq_ok.mp h
  obtain ⟨_, _, h⟩ := bind_eq_ok.mp h
  obtain ⟨s, hs, h⟩ := bind_eq_ok.mp h
  obtain ⟨_, _, h⟩ := bind_eq_ok.mp h
  cases h
  rw [recordExtractions_ok hs]
  exact ⟨rfl, rfl, rfl, ⟨rfl, rfl, rfl, le_refl _⟩⟩

theorem publish_ok {r : Report} {p : Nat} {record : Published} (hd : r.documentId = document.id)
    (h : publish env store U document r p o = .ok (store', record)) :
    RecordChange U r store store' record.event ∧
      store'.extractions = store.extractions ++
        extractionRows env document.id p o (some r.verification) (some record.event.eventId) ∧
      Unrelated store store' := by
  obtain ⟨_, _, h⟩ := bind_eq_ok.mp h
  obtain ⟨v, _, h⟩ := bind_eq_ok.mp h
  obtain ⟨⟨clusters, cluster, found⟩, _, h⟩ := bind_eq_ok.mp h
  simp only at h
  split at h
  · next existing he =>
    obtain ⟨⟨s, event⟩, hm, h⟩ := bind_eq_ok.mp h
    cases h
    obtain ⟨rfl, hev, hrows, hun⟩ := mergeIntoExisting_ok hm
    have hmem : existing ∈ store.events := by
      split at he
      · cases he
      · exact Store.latestActiveEvent_mem he
    rw [hd] at hrows
    exact ⟨.merged existing hmem hev, hrows, ⟨hun.documents, hun.sources, hun.runs,
      le_trans (Nat.le_succ _) hun.nextId⟩⟩
  · obtain ⟨⟨s, event⟩, hc, h⟩ := bind_eq_ok.mp h
    cases h
    obtain ⟨rfl, hev, hrows, hun, hlt⟩ := createEvent_ok hc
    rw [hd] at hrows
    exact ⟨.created _ _ ⟨Nat.le_succ _, hlt⟩ hev, hrows, ⟨hun.documents, hun.sources, hun.runs,
      le_trans (Nat.le_succ _) hun.nextId⟩⟩

theorem recordOnly_eq {n p : Nat} {v : Option VerificationReport} {outcome : PipelineOutcome}
    {reasons : List Text} {res : PipelineResult}
    (h : recordOnly env store document n p o v outcome reasons = .ok (store', res)) :
    store' = { store with
        extractions := store.extractions ++ extractionRows env document.id p o v none } ∧
      res = {
        documentId := document.id, chunksCreated := n, outcome := outcome
        verification := v, extraction := o, reasons := reasons } := by
  obtain ⟨s, hs, h⟩ := bind_eq_ok.mp h
  cases h
  exact ⟨recordExtractions_ok hs, rfl⟩

theorem recordOnly_ok {n p : Nat} {v : Option VerificationReport} {outcome : PipelineOutcome}
    {reasons : List Text} {res : PipelineResult}
    (h : recordOnly env store document n p o v outcome reasons = .ok (store', res)) :
    Effect U env document o store store' ∧ Unrelated store store' := by
  rw [(recordOnly_eq h).1]
  exact ⟨.telemetry p v rfl rfl, ⟨rfl, rfl, rfl, le_refl _⟩⟩

/-- what follows the cascade writes telemetry only, or publishes a report that was verified -/
theorem settle_cases {source : Source} {n p : Nat} {res : PipelineResult}
    (h : settle env store U document source n p o = .ok (store', res)) :
    (∃ v outcome reasons,
      recordOnly env store document n p o v outcome reasons = .ok (store', res)) ∨
    ∃ extracted event record, o.final.bind (·.result) = some extracted ∧
      (reportOf env U document source event).verification.allVerified = true ∧
      publish env store U document (reportOf env U document source event) p o =
        .ok (store', record) := by
  unfold settle at h
  split at h
  · exact Or.inl ⟨_, _, _, h⟩
  · next extracted hx =>
    split at h
    · exact Or.inl ⟨_, _, _, h⟩
    · split at h
      · exact Or.inl ⟨_, _, _, h⟩
      · next event _ =>
        simp only at h
        split at h
        · exact Or.inl ⟨_, _, _, h⟩
        · next hv =>
          obtain ⟨⟨s, record⟩, hp, h⟩ := bind_eq_ok.mp h
          cases h
          exact Or.inr ⟨extracted, event, record, hx, by simpa using hv, hp⟩

theorem settle_ok {source : Source} {n p : Nat} {res : PipelineResult}
    (h : settle env store U document source n p o = .ok (store', res)) :
    Effect U env document o store store' ∧ Unrelated store store' := by
  rcases settle_cases h with ⟨_, _, _, h⟩ | ⟨extracted, event, record, hx, hv, hp⟩
  · exact recordOnly_ok h
  · obtain ⟨hrec, hrows, hun⟩ := publish_ok rfl hp
    obtain ⟨call, hcall, hres⟩ := Option.bind_eq_some_iff.mp hx
    refine ⟨.published p _ record.event ⟨rfl, rfl, hv, _, rfl, rfl⟩ hrec ⟨call, hcall, ?_⟩ hrows,
      hun⟩
    rw [hres]
    rfl

/-- a call that returns was prepared, went through the cascade, and what follows it -/
theorem processDocument_steps {res : PipelineResult}
    (h : (processDocument env store U document).result = .ok (store', res)) :
    ∃ source prepared n p o request verify,
      prepare env store document = .ok (prepared, n, p) ∧
      (extractDocument env.provider request verify env.allowEscalation).outcome = .ok o ∧
      (processDocument env store U document).calls = o.calls ∧
      settle env prepared U document source n p o = .ok (store', res) := by
  unfold processDocument at h ⊢
  split at h
  · cases h
  · next source _ =>
    split at h
    · cases h
    · next s n p hp =>
      obtain ⟨o, ho, h⟩ := bind_eq_ok.mp h
      exact ⟨source, s, n, p, o, _, _, hp, ho, (extractDocument_ok ho).1, h⟩

/-- **What a call of `process_document` that returns has done.** -/
theorem processDocument_ok {res : PipelineResult}
    (h : (processDocument env store U document).result = .ok (store', res)) :
    ∃ o request verify,
      (extractDocument env.provider request verify env.allowEscalation).outcome = .ok o ∧
      (processDocument env store U document).calls = o.calls ∧
      Effect U env document o store store' ∧ Unrelated store store' := by
  obtain ⟨source, s, n, p, o, request, verify, hp, ho, hcalls, h⟩ := processDocument_steps h
  obtain ⟨heff, hun⟩ := settle_ok h
  have hq := prepare_silent hp
  refine ⟨o, request, verify, ho, hcalls, ?_, hq.toUnrelated.trans hun⟩
  cases heff with
  | telemetry q v hev hrows =>
    exact .telemetry q v (hev.trans hq.events) (by rw [hrows, hq.extractions])
  | published q r event hg hrec hfinal hrows =>
    exact .published q r event hg (hrec.of_silent hq) hfinal (by rw [hrows, hq.extractions])

/-! ## the rows of a call -/

theorem mem_extractionRows {d p : Nat} {v : Option VerificationReport} {e : Option Nat}
    {row : Extraction} (h : row ∈ extractionRows env d p o v e) :
    ∃ call i, o.calls[i]? = some call ∧
      row = extractionRow env d p v e o.finalIndex (call, i) := by
  obtain ⟨⟨call, i⟩, hm, rfl⟩ := List.mem_map.mp h
  exact ⟨call, i, List.mem_zipIdx_iff_getElem?.mp hm, rfl⟩

/-- the event is on the row of the kept call -/
theorem extractionRow_eventId {d p i : Nat} {v : Option VerificationReport} {e final : Option Nat}
    {call : ExtractionCall} :
    (extractionRow env d p v e final (call, i)).eventId = if final = some i then e else none := by
  show (if decide (final = some i) then e else none) = _
  by_cases h : final = some i
  · rw [if_pos (decide_eq_true h), if_pos h]
  · rw [if_neg h, decide_eq_false h]
    rfl

theorem length_extractionRows {d p : Nat} {v : Option VerificationReport} {e : Option Nat} :
    (extractionRows env d p o v e).length = o.calls.length := by
  simp [extractionRows]

theorem outcomeLabel_error {call : ExtractionCall} {v : Option VerificationReport} :
    outcomeLabel call v = .error ↔ call.error.isSome = true := by
  unfold outcomeLabel
  cases call.error with
  | some e => simp
  | none =>
    cases call.result with
    | none => simp
    | some result =>
      simp only [Option.isSome_none, Bool.false_eq_true, if_false, iff_false]
      by_cases h1 : (!result.inNiche || result.abstained) = true
      · rw [if_pos h1]
        exact OutcomeLabel.noConfusion
      · rw [if_neg h1]
        by_cases h2 : (v.any fun v => !v.allVerified) = true
        · rw [if_pos h2]
          exact OutcomeLabel.noConfusion
        · rw [if_neg h2]
          exact OutcomeLabel.noConfusion

end

end GeoRisk
