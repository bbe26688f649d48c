import GeoRisk.System.Integrity

/-!
# The chunks of the documents

`document_chunks` is what `chunk_text` makes of the stored text, written once, and kept with the first
telemetry of the document: an attempt that raises takes its chunks with it.

* `chunksOf`         the chunks of a document;
* `HasTelemetry`     an extraction of the document is recorded;
* `Sliced`           its chunks are those of its text if so, and none otherwise;
* `sliced_change`    every change keeps that;
* `chunks_of_run`    so does every run.
-/

namespace GeoRisk
open Kit

def chunksOf (s : Store) (documentId : Nat) : List DocumentChunk :=
  s.chunks.filter fun c => decide (c.documentId = documentId)

/-- an extraction of the document is recorded -/
def HasTelemetry (s : Store) (documentId : Nat) : Prop := ∃ x ∈ s.extractions, x.documentId = documentId

/-- the chunks of the document are those of its text, once telemetry of it is recorded -/
structure Sliced (s : Store) (d : RawDocument) : Prop where
  read : HasTelemetry s d.id → ∀ text, d.cleanText = some text →
    chunkText text defaultMaxChars defaultOverlapChars =
      .ok ((chunksOf s d.id).map DocumentChunk.piece)
  bare : d.cleanText = none → chunksOf s d.id = []
  unread : ¬HasTelemetry s d.id → chunksOf s d.id = []

section
variable {U : Unicode} {sha : Text → Text} {P : CallEnv → Prop} {s t : Sources}

theorem Sliced.same {s t : Store} {d : RawDocument} (h : Sliced s d)
    (hchunks : chunksOf t d.id = chunksOf s d.id) (hrows : HasTelemetry t d.id ↔ HasTelemetry s d.id) :
    Sliced t d := by
  refine ⟨?_, ?_, ?_⟩
  · rw [hchunks, hrows]
    exact h.read
  · rw [hchunks]
    exact h.bare
  · rw [hchunks, hrows]
    exact h.unread

/-- a document that is new has no rows in other tables -/
theorem sliced_new {s : Store} {d : RawDocument} (h : GeoRisk.Intact s)
    (hd : ∀ d' ∈ s.documents, d'.id ≠ d.id) : Sliced s d := by
  have hnone : ∀ i, (∃ d', s.document? i = some d') → i ≠ d.id := by
    rintro i ⟨d', hd'⟩ rfl
    exact hd d' (lookup_mem hd') (lookup_key hd')
  have hchunks : chunksOf s d.id = [] := by
    unfold chunksOf
    rw [List.filter_eq_nil_iff]
    intro c hc
    rw [decide_eq_true_eq]
    exact hnone _ (h.chunks c hc)
  refine ⟨?_, fun _ => hchunks, fun _ => hchunks⟩
  rintro ⟨x, hx, hxd⟩
  exact absurd hxd (hnone _ (h.extractions x hx).document)

/-- a call on another document -/
theorem chunksOf_other {s : Store} {added : List DocumentChunk} {document : RawDocument}
    (h : Chunked document s added) {i : Nat} (hi : document.id ≠ i) :
    (added.filter fun c => decide (c.documentId = i)) = [] := by
  cases h with
  | known hnone _ =>
    rw [hnone]
    rfl
  | empty hnone _ =>
    rw [hnone]
    rfl
  | chunked text _ _ _ hdocument =>
    rw [List.filter_eq_nil_iff]
    intro c hc
    rw [hdocument c hc, decide_eq_true_eq]
    exact hi

/-- **A call leaves its document with the chunks of its text.** -/
theorem sliced_chunked {s t : Store} {document : RawDocument} {added : List DocumentChunk}
    (h : Sliced s document) (hc : Chunked document s added)
    (hchunks : t.chunks = s.chunks ++ added) (hrows : HasTelemetry t document.id) :
    Sliced t document := by
  have hall : chunksOf t document.id =
      chunksOf s document.id ++ added.filter fun c => decide (c.documentId = document.id) := by
    unfold chunksOf
    rw [hchunks, List.filter_append]
  cases hc with
  | known hnone hknown =>
    rw [hnone, List.filter_nil, List.append_nil] at hall
    obtain ⟨c, hc, hcd⟩ := hknown
    have hne : chunksOf s document.id ≠ [] :=
      List.ne_nil_of_mem (List.mem_filter.mpr ⟨hc, decide_eq_true hcd⟩)
    -- it has chunks, and so telemetry of it was recorded before
    have hknown : HasTelemetry s document.id := by
      by_contra hnot
      exact hne (h.unread hnot)
    refine ⟨fun _ => ?_, ?_, fun hnot => absurd hrows hnot⟩
    · rw [hall]
      exact h.read hknown
    · rw [hall]
      exact h.bare
  | empty hnone hempty =>
    rw [hnone, List.filter_nil, List.append_nil] at hall
    have hnil : chunksOf s document.id = [] := by
      by_cases hknown : HasTelemetry s document.id
      · cases htext : document.cleanText with
        | none => exact h.bare htext
        | some text =>
          have hread := h.read hknown text htext
          rw [hempty text htext] at hread
          exact List.map_eq_nil_iff.mp (Except.ok.inj hread).symm
      · exact h.unread hknown
    refine ⟨fun _ text htext => ?_, fun _ => hall.trans hnil, fun hnot => absurd hrows hnot⟩
    rw [hall, hnil]
    exact hempty text htext
  | chunked text ht hfirst hpieces hdocument =>
    have hnil : chunksOf s document.id = [] := by
      unfold chunksOf
      rw [List.filter_eq_nil_iff]
      intro c hc
      rw [decide_eq_true_eq]
      exact hfirst c hc
    have hown : (added.filter fun c => decide (c.documentId = document.id)) = added :=
      List.filter_eq_self.mpr fun c hc => decide_eq_true (hdocument c hc)
    rw [hnil, hown, List.nil_append] at hall
    refine ⟨fun _ text' htext => ?_, fun hnone => ?_, fun hnot => absurd hrows hnot⟩
    · rw [ht] at htext
      cases htext
      rw [hall]
      exact hpieces
    · rw [ht] at hnone
      cases hnone

/-- a call that returns has written telemetry of its document, and of no other -/
theorem hasTelemetry_written {env : CallEnv} {document : RawDocument} {p : Nat} {o : ExtractionOutcome}
    {s t : Store} (hcalls : o.calls ≠ []) (h : Written U env document p o s t) :
    HasTelemetry t document.id ∧ ∀ i, document.id ≠ i → (HasTelemetry t i ↔ HasTelemetry s i) := by
  have hrows : ∀ v e, t.extractions = s.extractions ++ extractionRows env document.id p o v e →
      HasTelemetry t document.id ∧ ∀ i, document.id ≠ i → (HasTelemetry t i ↔ HasTelemetry s i) := by
    intro v e hrows
    constructor
    · obtain ⟨call, hcall⟩ := List.exists_mem_of_ne_nil _ hcalls
      obtain ⟨i, hi⟩ := List.mem_iff_getElem?.mp hcall
      refine ⟨extractionRow env document.id p v e o.finalIndex (call, i), ?_, rfl⟩
      rw [hrows]
      exact List.mem_append_right _ (List.mem_map_of_mem (List.mem_zipIdx_iff_getElem?.mpr hi))
    · intro i hne
      unfold HasTelemetry
      rw [hrows]
      constructor
      · rintro ⟨x, hx, rfl⟩
        rcases List.mem_append.mp hx with hx | hx
        · exact ⟨x, hx, rfl⟩
        · obtain ⟨call, j, _, rfl⟩ := mem_extractionRows hx
          exact absurd rfl hne
      · rintro ⟨x, hx, rfl⟩
        exact ⟨x, List.mem_append_left _ hx, rfl⟩
  cases h.record with
  | telemetry v _ _ hr => exact hrows v none hr
  | published f event _ _ _ _ _ hr => exact hrows _ _ hr

theorem sliced_change (hs : Evolved U sha P s) (h : ∀ d ∈ s.store.documents, Sliced s.store d)
    (hc : Change U sha P s t) : ∀ d ∈ t.store.documents, Sliced t.store d := by
  have hdocuments := change_documents hc
  -- documents that are new have no rows yet
  have hbefore : ∀ d ∈ t.store.documents, Sliced s.store d := by
    obtain ⟨more, hmore⟩ := hdocuments
    have hnodup : (t.store.documents.map (·.id)).Nodup := (lawful_change hs.lawful hc).documents.nodup
    rw [← hmore, List.map_append] at hnodup
    rw [← hmore, List.forall_mem_append]
    refine ⟨h, fun d hd => sliced_new hs.intact.record fun d' hd' he => ?_⟩
    exact (List.disjoint_of_nodup_append hnodup) (List.mem_map_of_mem hd')
      (he ▸ List.mem_map_of_mem hd)
  intro d hd
  have hsliced := hbefore d hd
  cases change_record hc with
  | same hsame =>
    refine hsliced.same ?_ ?_
    · unfold chunksOf
      rw [hsame.chunks]
    · unfold HasTelemetry
      rw [hsame.extractions]
  | processed documentId env hw hP hf =>
    obtain ⟨document, p, o, request, verify, hdoc, ho, hwritten⟩ := fire_written hf
    have hcalls : o.calls ≠ [] := by
      obtain ⟨_, ⟨first, hcalls, _⟩ | ⟨first, second, hcalls⟩⟩ := extractDocument_ok ho
      · rw [hcalls]
        exact List.cons_ne_nil _ _
      · rw [hcalls]
        exact List.cons_ne_nil _ _
    obtain ⟨hown, hother⟩ := hasTelemetry_written hcalls hwritten
    obtain ⟨added, hchunks, hadded⟩ := hwritten.chunks
    by_cases hne : document.id = d.id
    · have heq : d = document := by
        have hin : document ∈ t.store.documents := hdocuments.mem (lookup_mem hdoc)
        have hkeys := (lawful_change hs.lawful hc).documents.nodup
        have hfound := lookup_of_mem hkeys hd
        rw [← hne, lookup_of_mem hkeys hin] at hfound
        exact (Option.some.inj hfound).symm
      rw [heq] at hsliced ⊢
      exact sliced_chunked hsliced hadded hchunks hown
    · refine hsliced.same ?_ (hother _ hne)
      unfold chunksOf
      rw [hchunks, List.filter_append, chunksOf_other hadded hne, List.append_nil]
  | decided eventId input hf =>
    obtain ⟨e, _, he | ⟨verb, changes, _, he⟩⟩ := fire_decide hf
    · rw [he]
      exact hsliced
    · rw [he]
      exact hsliced.same rfl Iff.rfl

/-- **In every run of the system, with one call at a time, a document has exactly the chunks that
`chunk_text` makes of its stored text once telemetry of it is recorded, in order and with their
offsets, and none before that or without text.** -/
theorem chunks_of_run {as : List SystemAct} {s : System}
    (hrun : exec (systemFire U sha) .empty as = some s) :
    ∀ d ∈ s.session.committed.documents, Sliced s.session.committed d :=
  (evolved_of_run hrun).invariant (I := fun s => ∀ d ∈ s.store.documents, Sliced s.store d)
    (fun _ hd => absurd hd List.not_mem_nil) fun _ _ hs hI hc => sliced_change hs hI hc

end

theorem chunks_of_run_firstTick :
    ∃ s, exec (systemFire Unicode.latin id) .empty Sample.firstTick = some s ∧
      ∃ d ∈ s.session.committed.documents, Sliced s.session.committed d := by
  obtain ⟨s, hs, d, hd⟩ := Sample.firstTick_document
  exact ⟨s, hs, d, hd, chunks_of_run hs d hd⟩

end GeoRisk
