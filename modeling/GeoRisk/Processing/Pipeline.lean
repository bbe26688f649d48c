import GeoRisk.Kit.Run
import GeoRisk.Processing.Chunk
import GeoRisk.Processing.Merge

/-!
# From a document to a record

`process_document`: chunk, embed, extract, verify, score, cluster, and then create an event, merge
into one, or write telemetry only.  What is outside the code is the `CallEnv` of the call: the
clock, the two providers, the order of the vector search, and which statements the database
refuses.

* `chunkAndEmbed`, `getOrCreatePrompt`    before the provider is asked;
* `extractionRow`, `recordExtractions`    one row per call;
* `publish`                               after the gates: cluster, then `createEvent` or
                                          `mergeIntoExisting`;
* `processDocument`                       the calls that were paid for, and how it ended.
-/

namespace GeoRisk
open Kit

/-- where the database can refuse a statement -/
inductive Site
  | chunks
  | prompt
  | extractions
  | cluster
  | event
  | entity
  | flush
  deriving DecidableEq, Repr

/-- the surroundings of one call of `process_document` -/
structure CallEnv where
  now : DateTime
  embeddingModel : Text
  embeddingDim : Nat
  embed : List Text → Except Text (List Vector)
  provider : ExtractionProvider
  allowEscalation : Bool := true
  ranking : Ranking
  sqrt : ℚ → ℚ
  refuses : Site → Bool

def refused : Text := txt "the database refused a statement"

def ensure (condition : Bool) (message : Text) : Except Text Unit :=
  if condition then .ok () else .error message

/-- a statement at the site -/
def CallEnv.statement (env : CallEnv) (site : Site) : Except Text Unit :=
  ensure (!env.refuses site) refused

inductive PipelineOutcome
  | error
  | background
  | abstained
  | citationFailed
  | published
  | needsReview
  deriving DecidableEq, Repr

structure PipelineResult where
  documentId : Nat
  chunksCreated : Nat
  eventId : Option Nat := none
  relation : Option DocumentRelation := none
  outcome : PipelineOutcome
  verification : Option VerificationReport := none
  extraction : ExtractionOutcome
  reasons : List Text

/-- `EXTRACT_EVENT_V2.name` and its version -/
def promptName : Text := txt "extract_event"
def promptVersion : Text := txt "v2"

section
variable (env : CallEnv) (store : Store)

def chunkRow (documentId : Nat) (piece : Chunk × Vector) : DocumentChunk :=
  ⟨documentId, piece.1.index, piece.1.text, piece.1.charStart, piece.1.charEnd, some piece.2,
    env.embeddingModel, env.embeddingDim⟩

def chunkAndEmbed (document : RawDocument) : Except Text (Store × Nat) :=
  match document.cleanText with
  | none => .ok (store, 0)
  | some text =>
    if text = [] ∨ store.chunks.any fun c => c.documentId = document.id then .ok (store, 0)
    else do
      let chunks ← chunkText text defaultMaxChars defaultOverlapChars
      if chunks = [] then return (store, 0)
      else
        ensure (verifyOffsets text chunks)
          (txt "chunk offsets do not match clean_text for document " ++ natText document.id)
        let vectors ← env.embed (chunks.map (·.text))
        ensure (decide (vectors.length = chunks.length)) (txt "zip() arguments differ in length")
        env.statement .chunks
        return ({ store with
          chunks := store.chunks ++ (chunks.zip vectors).map (chunkRow env document.id) },
          chunks.length)

def getOrCreatePrompt : Except Text (Store × Nat) :=
  match store.prompts.find? fun p => p.name = promptName ∧ p.version = promptVersion with
  | some p => .ok (store, p.id)
  | none => do
    env.statement .prompt
    return ({ store with
      nextId := store.nextId + 1
      prompts := store.prompts ++ [⟨store.nextId, promptName, promptVersion⟩] }, store.nextId)

/-- the loop over `_get_or_create_entity` -/
def getOrCreateEntities : List Entity → List Entity → Except Text (List Entity)
  | known, [] => .ok known
  | known, e :: rest =>
    if e ∈ known then getOrCreateEntities known rest
    else do
      env.statement .entity
      getOrCreateEntities (known ++ [e]) rest

def outcomeLabel (call : ExtractionCall) (verification : Option VerificationReport) :
    OutcomeLabel :=
  if call.error.isSome then .error
  else
    match call.result with
    | none => .schemaInvalid
    | some result =>
      if !result.inNiche || result.abstained then .abstained
      else if verification.any fun v => !v.allVerified then .citationInvalid
      else .extracted

/-- the row of one call; only the kept call carries the verification and the event -/
def extractionRow (documentId promptId : Nat) (verification : Option VerificationReport)
    (eventId : Option Nat) (final : Option Nat) (call : ExtractionCall × Nat) : Extraction :=
  let isFinal := decide (final = some call.2)
  let verification := if isFinal then verification else none
  { documentId := documentId
    eventId := if isFinal then eventId else none
    promptId := promptId
    promptVersion := call.1.promptVersion
    modelName := call.1.model
    outcome := outcomeLabel call.1 verification
    schemaValid := call.1.result.isSome
    citationValid := verification.map (·.allVerified)
    citationsChecked := (verification.map (·.checked)).getD 0
    citationsFailed := (verification.map (·.failed)).getD 0
    inputTokens := call.1.inputTokens
    outputTokens := call.1.outputTokens
    cacheWriteTokens := call.1.cacheWriteTokens
    cacheReadTokens := call.1.cacheReadTokens
    costUsd := numericTo 6 call.1.costUsd
    latencyMs := call.1.latencyMs
    rawOutput := call.1.result
    validationErrors := call.1.error.filter (· ≠ [])
    createdAt := env.now }

def extractionRows (documentId promptId : Nat) (o : ExtractionOutcome)
    (verification : Option VerificationReport) (eventId : Option Nat) : List Extraction :=
  o.calls.zipIdx.map (extractionRow env documentId promptId verification eventId o.finalIndex)

def recordExtractions (documentId promptId : Nat) (o : ExtractionOutcome)
    (verification : Option VerificationReport) (eventId : Option Nat) : Except Text Store := do
  env.statement .extractions
  return { store with
    extractions := store.extractions ++
      extractionRows env documentId promptId o verification eventId }

def documentCentroid (documentId : Nat) : Except Text Vector :=
  centroid env.sqrt ((store.chunks.filter (·.documentId = documentId)).filterMap (·.embedding))

def createEvent (clusterId : Nat) (report : Report) (promptId : Nat) (o : ExtractionOutcome) :
    Except Text (Store × Event) := do
  env.statement .event
  let event := newEvent store.nextId clusterId report
  let entities ← getOrCreateEntities env store.entities (report.event.actors.map (·.entity))
  let store := { store with
    nextId := store.nextId + 1, entities := entities, events := store.events ++ [event] }
  let store ← recordExtractions env store report.documentId promptId o (some report.verification)
    (some event.eventId)
  env.statement .flush
  return (store, event)

/-- `_merge_into_existing`; linking a document twice breaks the key of `event_documents` -/
def mergeIntoExisting (U : Unicode) (existing : Event) (report : Report) (promptId : Nat)
    (o : ExtractionOutcome) : Except Text (Store × Event) := do
  let decision := consolidation U existing report
  let entities ← getOrCreateEntities env store.entities
    ((report.event.actors.filter fun a => a.name.text ∈ decision.newActors).map (·.entity))
  ensure (existing.documents.all fun d => d.documentId ≠ report.documentId) refused
  let event := mergeEvent U existing report
  let store := { store with entities := entities }.putEvent event
  let store ← recordExtractions env store report.documentId promptId o (some report.verification)
    (some event.eventId)
  env.statement .flush
  return (store, event)

/-- the report of a verified extraction -/
def reportOf (U : Unicode) (document : RawDocument) (source : Source) (event : ExtractedEvent) :
    Report :=
  let verification := verifyEvidence U event.evidence document.cleanText
  let assessment := assess event verification { sourceStoresFullText := source.storeFullText }
  { documentId := document.id
    sourceName := source.name
    published := document.publishedAt.getD env.now
    event := event
    verification := verification
    confidence := assessment.confidence
    requiresHumanReview := assessment.requiresHumanReview
    now := env.now }

/-- the reasons that a merge adds -/
def mergeReasons (d : Consolidation) : List Text :=
  (d.conflicts.map fun c => c.field.value ++ txt " conflicts with the record") ++
    (d.ungrounded.map fun c => c.field.value ++ txt " change has no supporting quote")

structure Published where
  event : Event
  relation : DocumentRelation
  reasons : List Text

/-- the cluster of the document, and the event that it merges into or becomes -/
def publish (U : Unicode) (document : RawDocument) (report : Report) (promptId : Nat)
    (o : ExtractionOutcome) : Except Text (Store × Published) := do
  env.statement .cluster
  let vector ← documentCentroid env store document.id
  let (clusters, cluster, found) ←
    assignToCluster env.sqrt env.ranking store.clusters store.nextId vector report.published
  let store := { store with nextId := store.nextId + 1, clusters := clusters }
  match if found.isNew then none else store.latestActiveEvent cluster.id with
  | some existing => do
    let decision := consolidation U existing report
    let (store, event) ← mergeIntoExisting env store U existing report promptId o
    return (store, ⟨event, decision.relation, mergeReasons decision⟩)
  | none => do
    let (store, event) ← createEvent env store cluster.id report promptId o
    return (store, ⟨event, .newEvent, []⟩)

/-- an outcome that writes telemetry only -/
def recordOnly (document : RawDocument) (chunksCreated promptId : Nat) (o : ExtractionOutcome)
    (verification : Option VerificationReport) (outcome : PipelineOutcome) (reasons : List Text) :
    Except Text (Store × PipelineResult) := do
  let store ← recordExtractions env store document.id promptId o verification none
  return (store, {
    documentId := document.id, chunksCreated := chunksCreated, outcome := outcome
    verification := verification, extraction := o, reasons := reasons })

/-- `abstention_reason or default` -/
def reasonOr (result : ExtractionResult) (default : Text) : Text :=
  match result.abstentionReason with
  | some r => if r.text = [] then default else r.text
  | none => default

/-- what follows the cascade in `process_document` -/
def settle (U : Unicode) (document : RawDocument) (source : Source) (chunksCreated promptId : Nat)
    (o : ExtractionOutcome) : Except Text (Store × PipelineResult) :=
  match o.final.bind (·.result) with
  | none =>
    let failure := (o.final.bind (·.error)).filter (· ≠ [])
    recordOnly env store document chunksCreated promptId o none .error
      [failure.getD (txt "no extraction produced")]
  | some extracted =>
    if !extracted.inNiche then
      recordOnly env store document chunksCreated promptId o none .background
        [reasonOr extracted (txt "out of niche")]
    else
      match if extracted.abstained then none else extracted.event with
      | none =>
        recordOnly env store document chunksCreated promptId o none .abstained
          [reasonOr extracted (txt "insufficient evidence")]
      | some event =>
        let report := reportOf env U document source event
        let reasons := (assess event report.verification
          { sourceStoresFullText := source.storeFullText }).reasons
        if !report.verification.allVerified then
          recordOnly env store document chunksCreated promptId o (some report.verification)
            .citationFailed reasons
        else do
          let (store, record) ← publish env store U document report promptId o
          return (store, {
            documentId := document.id, chunksCreated := chunksCreated
            eventId := some record.event.eventId, relation := some record.relation
            outcome := if record.event.requiresHumanReview then .needsReview else .published
            verification := some report.verification, extraction := o
            reasons := reasons ++ record.reasons })

/-- what the provider was asked, the calls that were paid for, and how the call of
`process_document` ended -/
structure Processed where
  asked : List ExtractionRequest
  calls : List ExtractionCall
  result : Except Text (Store × PipelineResult)

/-- what comes before the provider is asked -/
def prepare (document : RawDocument) : Except Text (Store × Nat × Nat) := do
  let (store, chunksCreated) ← chunkAndEmbed env store document
  let (store, promptId) ← getOrCreatePrompt env store
  return (store, chunksCreated, promptId)

/-- the request of the first pass, without its model -/
def requestOf (document : RawDocument) (source : Source) : ExtractionRequest where
  sourceName := source.name
  publisher := source.publisher
  publishedAt := match document.publishedAt with
    | some t => Timestamp.isoformat ⟨t, 0⟩
    | none => txt "unknown"
  url := document.url
  title := document.title.getD []
  documentText := document.cleanText.getD []
  model := []
  escalationReason := none

def processDocument (U : Unicode) (document : RawDocument) : Processed :=
  match store.source? document.sourceId with
  | none => ⟨[], [], .error (txt "document " ++ natText document.id ++ txt " has no source")⟩
  | some source =>
    match prepare env store document with
    | .error e => ⟨[], [], .error e⟩
    | .ok (store, chunksCreated, promptId) =>
      let countFailures (candidate : ExtractionResult) : Nat :=
        match candidate.event with
        | none => 0
        | some event => (verifyEvidence U event.evidence document.cleanText).failed
      let attempt := extractDocument env.provider (requestOf document source) countFailures
        env.allowEscalation
      ⟨attempt.asked, attempt.calls,
        attempt.outcome >>= settle env store U document source chunksCreated promptId⟩

/-- **A document is submitted to the provider twice at most.** -/
theorem processDocument_asked (U : Unicode) (document : RawDocument) :
    (processDocument env store U document).asked.length ≤ 2 := by
  unfold processDocument
  split
  · exact Nat.zero_le _
  · split
    · exact Nat.zero_le _
    · exact extractDocument_asked

end

end GeoRisk
