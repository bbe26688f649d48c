import GeoRisk.Processing.Shelf

/-!
# Everything that a call writes

`Effect` says what a call of `process_document` does to events and extractions, `Shelf.file` what it
does to clusters and events.  Here all tables are said at once.

* `getOrCreateEntities_eq`    the entities that are not there yet are added;
* `Chunked`                   the chunks of the document are stored, or nothing is;
* `Entered`                   the record of a report, with the rows that it refers to;
* `Written`                   all tables after a call that returns (`processDocument_written`).
-/

namespace GeoRisk
open Kit

/-- the part of a row that comes from `chunk_text` -/
def DocumentChunk.piece (c : DocumentChunk) : Chunk := ⟨c.chunkIndex, c.text, c.charStart, c.charEnd⟩

/-- what `chunk_and_embed` adds: all chunks of a document that has none yet -/
inductive Chunked (document : RawDocument) (before : Store) (added : List DocumentChunk) : Prop
  | known (h : added = []) (hc : ∃ c ∈ before.chunks, c.documentId = document.id)
  | empty (h : added = []) (hempty : ∀ text, document.cleanText = some text →
      chunkText text defaultMaxChars defaultOverlapChars = .ok [])
  | chunked (text : Text) (ht : document.cleanText = some text)
      (hfirst : ∀ c ∈ before.chunks, c.documentId ≠ document.id)
      (hpieces : chunkText text defaultMaxChars defaultOverlapChars =
        .ok (added.map DocumentChunk.piece))
      (hdocument : ∀ c ∈ added, c.documentId = document.id)

/-- the record of a report, after its rows were written -/
inductive Entered (U : Unicode) (r : Report) (before after : Store) : Event → Prop
  | created (id clusterId : Nat) (hid : before.nextId ≤ id ∧ id < after.nextId)
      (hcluster : ∃ c ∈ after.clusters, c.id = clusterId)
      (hevents : after.events = before.events ++ [newEvent id clusterId r])
      (hactors : ∀ a ∈ r.event.actors, a.entity ∈ after.entities) :
      Entered U r before after (newEvent id clusterId r)
  | merged (existing : Event) (hmem : existing ∈ before.events)
      (hnew : ∀ d ∈ existing.documents, d.documentId ≠ r.documentId)
      (hevents : after.events = replace Event.eventId (mergeEvent U existing r) before.events)
      (hactors : ∀ a ∈ r.event.actors, a.name.text ∈ (consolidation U existing r).newActors →
        a.entity ∈ after.entities) :
      Entered U r before after (mergeEvent U existing r)

/-- how the record and the telemetry change -/
inductive RecordWritten (U : Unicode) (env : CallEnv) (document : RawDocument) (promptId : Nat)
    (o : ExtractionOutcome) (before after : Store) : Prop
  | telemetry (v : Option VerificationReport) (hshelf : after.shelf = before.shelf)
      (hentities : after.entities = before.entities)
      (hrows : after.extractions =
        before.extractions ++ extractionRows env document.id promptId o v none)
  | published (f : Filing) (event : Event) (hgate : Gated U document f.report)
      (hfinal : ∃ call, o.final = some call ∧ call.result.isSome = true)
      (hfiles : Files U env document before after f)
      (hrecord : Entered U f.report before after event)
      (hentities : ∃ names, after.entities = adjoin before.entities names)
      (hrows : after.extractions = before.extractions ++
        extractionRows env document.id promptId o (some f.report.verification) (some event.eventId))

/-- all tables after a call -/
structure Written (U : Unicode) (env : CallEnv) (document : RawDocument) (promptId : Nat)
    (o : ExtractionOutcome) (before after : Store) : Prop where
  unrelated : Unrelated before after
  chunks : ∃ added, after.chunks = before.chunks ++ added ∧ Chunked document before added
  prompts : after.prompts = before.prompts ∨
    after.prompts = before.prompts ++ [⟨promptId, promptName, promptVersion⟩] ∧
      (∀ x ∈ before.prompts, ¬(x.name = promptName ∧ x.version = promptVersion)) ∧
      before.nextId ≤ promptId ∧ promptId < after.nextId
  prompt : ⟨promptId, promptName, promptVersion⟩ ∈ after.prompts
  record : RecordWritten U env document promptId o before after

section
variable {U : Unicode} {env : CallEnv} {store store' : Store} {document : RawDocument}
  {o : ExtractionOutcome}

/-! ## before the provider is asked -/

theorem chunkAndEmbed_chunked {n : Nat} (h : chunkAndEmbed env store document = .ok (store', n)) :
    ∃ added, store' = { store with chunks := store.chunks ++ added } ∧
      Chunked document store added := by
  have hnone : store = { store with chunks := store.chunks ++ [] } := by rw [List.append_nil]
  unfold chunkAndEmbed at h
  split at h
  · next htext =>
    cases h
    refine ⟨[], hnone, .empty rfl fun text ht => ?_⟩
    rw [htext] at ht
    cases ht
  · next text htext =>
    split at h
    · next hfirst =>
      cases h
      rcases hfirst with rfl | hknown
      · refine ⟨[], hnone, .empty rfl fun text ht => ?_⟩
        rw [htext] at ht
        cases ht
        rfl
      · obtain ⟨c, hc, he⟩ := List.any_eq_true.mp hknown
        exact ⟨[], hnone, .known rfl ⟨c, hc, of_decide_eq_true he⟩⟩
    · next hfirst =>
      obtain ⟨chunks, hchunks, h⟩ := bind_eq_ok.mp h
      split at h
      · next hempty =>
        cases h
        refine ⟨[], hnone, .empty rfl fun text' ht => ?_⟩
        rw [htext] at ht
        cases ht
        rw [hchunks, hempty]
      · obtain ⟨_, _, h⟩ := bind_eq_ok.mp h
        obtain ⟨vectors, _, h⟩ := bind_eq_ok.mp h
        obtain ⟨_, hlen, h⟩ := bind_eq_ok.mp h
        obtain ⟨_, _, h⟩ := bind_eq_ok.mp h
        cases h
        have hlen : chunks.length ≤ vectors.length := by
          unfold ensure at hlen
          split at hlen
          · next he => exact Nat.le_of_eq (of_decide_eq_true he).symm
          · cases hlen
        refine ⟨_, rfl, .chunked text htext ?_ ?_ ?_⟩
        · intro c hc he
          refine hfirst (Or.inr ?_)
          rw [List.any_eq_true]
          exact ⟨c, hc, decide_eq_true he⟩
        · rw [hchunks, List.map_map]
          show _ = Except.ok ((chunks.zip vectors).map Prod.fst)
          rw [List.map_fst_zip hlen]
        · intro c hc
          obtain ⟨_, _, rfl⟩ := List.mem_map.mp hc
          rfl

theorem getOrCreatePrompt_written {p : Nat} (h : getOrCreatePrompt env store = .ok (store', p)) :
    (store' = store ∧ ⟨p, promptName, promptVersion⟩ ∈ store.prompts) ∨
      (store' = { store with
          nextId := store.nextId + 1
          prompts := store.prompts ++ [⟨p, promptName, promptVersion⟩] } ∧
        (∀ x ∈ store.prompts, ¬(x.name = promptName ∧ x.version = promptVersion)) ∧
        p = store.nextId) := by
  unfold getOrCreatePrompt at h
  split at h
  · next x hx =>
    cases h
    left
    have hfound := List.find?_some hx
    obtain ⟨hname, hversion⟩ := of_decide_eq_true hfound
    refine ⟨rfl, ?_⟩
    rw [← hname, ← hversion]
    exact List.mem_of_find?_eq_some hx
  · next hx =>
    obtain ⟨_, _, h⟩ := bind_eq_ok.mp h
    cases h
    right
    refine ⟨rfl, fun x hin => ?_, rfl⟩
    have := List.find?_eq_none.mp hx x hin
    simpa using this

/-! ## the record -/

theorem getOrCreateEntities_eq {known wanted entities : List Entity}
    (h : getOrCreateEntities env known wanted = .ok entities) : entities = adjoin known wanted := by
  induction wanted generalizing known with
  | nil =>
    cases h
    rfl
  | cons e rest ih =>
    unfold getOrCreateEntities at h
    unfold adjoin
    split at h
    · next hin =>
      rw [if_pos hin]
      exact ih h
    · next hout =>
      obtain ⟨_, _, h⟩ := bind_eq_ok.mp h
      rw [if_neg hout]
      exact ih h

theorem createEvent_eq {clusterId p : Nat} {r : Report} {event : Event}
    (h : createEvent env store clusterId r p o = .ok (store', event)) :
    event = newEvent store.nextId clusterId r ∧ store' = { store with
      nextId := store.nextId + 1
      entities := adjoin store.entities (r.event.actors.map (·.entity))
      events := store.events ++ [event]
      extractions := store.extractions ++
        extractionRows env r.documentId p o (some r.verification) (some event.eventId) } := by
  obtain ⟨_, _, h⟩ := bind_eq_ok.mp h
  obtain ⟨entities, he, h⟩ := bind_eq_ok.mp h
  obtain ⟨s, hs, h⟩ := bind_eq_ok.mp h
  obtain ⟨_, _, h⟩ := bind_eq_ok.mp h
  cases h
  rw [recordExtractions_ok hs, getOrCreateEntities_eq he]
  exact ⟨rfl, rfl⟩

theorem mergeIntoExisting_eq {existing event : Event} {r : Report} {p : Nat}
    (h : mergeIntoExisting env store U existing r p o = .ok (store', event)) :
    event = mergeEvent U existing r ∧
      (∀ d ∈ existing.documents, d.documentId ≠ r.documentId) ∧
      store' = { store with
        entities := adjoin store.entities ((r.event.actors.filter fun a =>
          a.name.text ∈ (consolidation U existing r).newActors).map (·.entity))
        events := replace Event.eventId event store.events
        extractions := store.extractions ++
          extractionRows env r.documentId p o (some r.verification) (some event.eventId) } := by
  obtain ⟨entities, he, h⟩ := bind_eq_ok.mp h
  obtain ⟨_, hlinked, h⟩ := bind_eq_ok.mp h
  obtain ⟨s, hs, h⟩ := bind_eq_ok.mp h
  obtain ⟨_, _, h⟩ := bind_eq_ok.mp h
  cases h
  refine ⟨rfl, fun d hd heq => ?_, ?_⟩
  · unfold ensure at hlinked
    split at hlinked
    · next hall =>
      have := List.all_eq_true.mp hall d hd
      exact of_decide_eq_true this heq
    · cases hlinked
  · rw [recordExtractions_ok hs, getOrCreateEntities_eq he]
    rfl

/-- no cluster is lost, and the one that was assigned is there -/
theorem assignToCluster_keys {f : Filing} {clusters clusters' : List EventCluster}
    {cluster : EventCluster} {found : ClusterMatch}
    (h : f.assign clusters = .ok (clusters', cluster, found)) :
    ∃ c ∈ clusters', c.id = cluster.id := by
  unfold Filing.assign assignToCluster at h
  split at h
  · cases h
  · simp only at h
    split at h
    · next c hmatch =>
      split at h
      · cases h
      · next joined hjoin =>
        cases h
        have hc : c ∈ clusters := by
          split at hmatch
          · obtain ⟨i, _, hfind⟩ := Option.bind_eq_some_iff.mp hmatch
            exact List.mem_of_find?_eq_some hfind
          · cases hmatch
        have hid : c.id = cluster.id := (joinCluster_ok hjoin).id.symm
        exact ⟨cluster, List.mem_map.mpr ⟨c, hc, if_pos hid⟩, rfl⟩
    · cases h
      exact ⟨_, List.mem_append_right _ (List.mem_singleton_self _), rfl⟩

/-- the steps behind the gates write the record and the rows that name it -/
theorem publish_written {r : Report} {p : Nat} {record : Published} (hd : r.documentId = document.id)
    (h : publish env store U document r p o = .ok (store', record)) :
    Entered U r store store' record.event ∧
      (∃ names, store'.entities = adjoin store.entities names) ∧
      store'.chunks = store.chunks ∧ store'.prompts = store.prompts ∧
      store'.extractions = store.extractions ++
        extractionRows env document.id p o (some r.verification) (some record.event.eventId) ∧
      Unrelated store store' := by
  have hun := (publish_ok hd h).2.2
  obtain ⟨_, _, h⟩ := bind_eq_ok.mp h
  obtain ⟨vector, _, h⟩ := bind_eq_ok.mp h
  obtain ⟨⟨clusters, cluster, found⟩, hassign, h⟩ := bind_eq_ok.mp h
  have hassign : (⟨r, vector, env.ranking, env.sqrt, store.nextId, store.nextId + 1⟩ :
      Filing).assign store.clusters = .ok (clusters, cluster, found) := hassign
  simp only at h
  split at h
  · next existing he =>
    obtain ⟨⟨s, event⟩, hm, h⟩ := bind_eq_ok.mp h
    cases h
    obtain ⟨rfl, hnew, rfl⟩ := mergeIntoExisting_eq hm
    have hmem : existing ∈ store.events := by
      split at he
      · cases he
      · exact Store.latestActiveEvent_mem he
    refine ⟨.merged existing hmem hnew rfl fun a ha hin => ?_, ⟨_, rfl⟩, rfl, rfl, by rw [hd], hun⟩
    exact mem_adjoin.mpr (Or.inr (List.mem_map_of_mem
      (List.mem_filter.mpr ⟨ha, decide_eq_true hin⟩)))
  · obtain ⟨⟨s, event⟩, hc, h⟩ := bind_eq_ok.mp h
    cases h
    obtain ⟨rfl, rfl⟩ := createEvent_eq hc
    refine ⟨.created _ _ ⟨Nat.le_succ _, Nat.lt_succ_self _⟩ (assignToCluster_keys hassign) rfl
      fun a ha => ?_, ⟨_, rfl⟩, rfl, rfl, by rw [hd], hun⟩
    exact mem_adjoin.mpr (Or.inr (List.mem_map_of_mem ha))

/-! ## a call -/

theorem Entered.of_silent {r : Report} {before middle after : Store} {e : Event}
    (hq : Silent before middle) (h : Entered U r middle after e) : Entered U r before after e := by
  cases h with
  | created id c hid hcluster hevents hactors =>
    exact .created id c ⟨le_trans hq.nextId hid.1, hid.2⟩ hcluster (by rw [hevents, hq.events])
      hactors
  | merged existing hmem hnew hevents hactors =>
    exact .merged existing (hq.events ▸ hmem) hnew (by rw [hevents, hq.events]) hactors

theorem settle_written {source : Source} {n p : Nat} {res : PipelineResult}
    (h : settle env store U document source n p o = .ok (store', res)) :
    RecordWritten U env document p o store store' ∧ store'.chunks = store.chunks ∧
      store'.prompts = store.prompts ∧ Unrelated store store' := by
  rcases settle_cases h with ⟨v, outcome, reasons, h⟩ | ⟨extracted, event, record, hx, hv, hp⟩
  · rw [(recordOnly_eq h).1]
    exact ⟨.telemetry v rfl rfl rfl, rfl, rfl, ⟨rfl, rfl, rfl, le_refl _⟩⟩
  · obtain ⟨hrecord, hentities, hchunks, hprompts, hrows, hun⟩ := publish_written rfl hp
    obtain ⟨hlt, vector, hfile⟩ := publish_shelf hp
    obtain ⟨call, hcall, hres⟩ := Option.bind_eq_some_iff.mp hx
    refine ⟨.published ⟨_, vector, env.ranking, env.sqrt, store.nextId, store.nextId + 1⟩
      record.event ⟨rfl, rfl, hv, _, rfl, rfl⟩ ⟨call, hcall, ?_⟩ ⟨rfl, rfl, ⟨le_refl _, hlt⟩, hfile⟩
      hrecord hentities hrows, hchunks, hprompts, hun⟩
    rw [hres]
    rfl

theorem RecordWritten.of_silent {p : Nat} {before middle after : Store} (hq : Silent before middle)
    (he : middle.entities = before.entities) (h : RecordWritten U env document p o middle after) :
    RecordWritten U env document p o before after := by
  have hshelf : middle.shelf = before.shelf := by
    unfold Store.shelf
    rw [hq.clusters, hq.events]
  cases h with
  | telemetry v hs hentities hrows =>
    exact .telemetry v (hs.trans hshelf) (hentities.trans he) (by rw [hrows, hq.extractions])
  | published f event hgate hfinal hfiles hrecord hentities hrows =>
    refine .published f event hgate hfinal ⟨hfiles.documentId, hfiles.published, ?_, ?_⟩
      (hrecord.of_silent hq) (he ▸ hentities) (by rw [hrows, hq.extractions])
    · exact ⟨le_trans hq.nextId hfiles.clusterKey.1, hfiles.clusterKey.2⟩
    · rw [← hshelf]
      exact hfiles.file

/-- **All tables after a call that returns.** -/
theorem processDocument_written {res : PipelineResult}
    (h : (processDocument env store U document).result = .ok (store', res)) :
    ∃ promptId o request verify,
      (extractDocument env.provider request verify env.allowEscalation).outcome = .ok o ∧
      Written U env document promptId o store store' := by
  obtain ⟨source, prepared, n, p, o, request, verify, hprepare, ho, _, h⟩ := processDocument_steps h
  obtain ⟨hrecord, hchunks, hprompts, hun⟩ := settle_written h
  have hq := prepare_silent hprepare
  refine ⟨p, o, request, verify, ho, ?_⟩
  obtain ⟨⟨s, m⟩, h1, hprepare⟩ := bind_eq_ok.mp hprepare
  obtain ⟨⟨t, q⟩, h2, hprepare⟩ := bind_eq_ok.mp hprepare
  cases hprepare
  obtain ⟨added, rfl, hadded⟩ := chunkAndEmbed_chunked h1
  rcases getOrCreatePrompt_written h2 with ⟨rfl, hp⟩ | ⟨rfl, hnew, rfl⟩
  · exact ⟨hq.toUnrelated.trans hun, ⟨added, hchunks, hadded⟩, Or.inl hprompts, hprompts ▸ hp,
      hrecord.of_silent hq rfl⟩
  · refine ⟨hq.toUnrelated.trans hun, ⟨added, hchunks, hadded⟩, Or.inr ⟨hprompts, hnew, le_refl _, ?_⟩,
      ?_, hrecord.of_silent hq rfl⟩
    · exact lt_of_lt_of_le (Nat.lt_succ_self _) hun.nextId
    · rw [hprompts]
      exact List.mem_append_right _ (List.mem_singleton_self _)

end

end GeoRisk
