import GeoRisk.Record.Run

/-!
# The citation gate

Every record of a reachable store is backed by quotes that stand in the stored text of a linked
document, whichever path published it; and a telemetry row names an event only for a call whose
result passed the schema and the citation check.

* `Located`, `Cited`, `Passed`    a quote, a record, a row;
* `cited_newEvent`,
  `cited_mergeEvent`              a created record, and one merged into;
* `passed_of_gated`               the rows of a published report;
* `citationGate_of_reach`         the gate in every reachable store.
-/

namespace GeoRisk
open Kit

section
variable {U : Unicode} {s t : Store}

/-- the quote is verified, belongs to a linked document, and stands at its offsets -/
structure Located (U : Unicode) (s : Store) (e : Event) (q : EventEvidence) : Prop where
  verified : q.verified = true
  linked : ∃ d ∈ e.documents, d.documentId = q.documentId
  found : ∃ document text i j, s.document? q.documentId = some document ∧
    document.cleanText = some text ∧ q.quoteCharStart = some i ∧ q.quoteCharEnd = some j ∧
    slice (normaliseText U text) i j = normaliseText U (strip q.quote)

structure Cited (U : Unicode) (s : Store) (e : Event) : Prop where
  nonempty : e.evidence ≠ []
  located : ∀ q ∈ e.evidence, Located U s e q

/-- a row that names an event has passed both gates -/
def Passed (x : Extraction) : Prop :=
  x.eventId ≠ none → x.schemaValid = true ∧ x.citationValid = some true ∧
    0 < x.citationsChecked ∧ x.citationsFailed = 0

structure CitationGate (U : Unicode) (s : Store) : Prop where
  events : ∀ e ∈ s.events, Cited U s e
  rows : ∀ x ∈ s.extractions, Passed x

def KeepsDocuments (s t : Store) : Prop :=
  ∀ id document, s.document? id = some document → t.document? id = some document

theorem Located.mono {e f : Event} {q : EventEvidence} (h : Located U s e q)
    (hs : KeepsDocuments s t) (hd : e.documents ⊆ f.documents) : Located U t f q := by
  obtain ⟨d, hm, hq⟩ := h.linked
  obtain ⟨document, text, i, j, hdoc, hrest⟩ := h.found
  exact ⟨h.verified, ⟨d, hd hm, hq⟩, document, text, i, j, hs _ _ hdoc, hrest⟩

theorem Cited.mono {e f : Event} (h : Cited U s e) (hs : KeepsDocuments s t)
    (hd : f.documents = e.documents) (he : f.evidence = e.evidence) : Cited U t f :=
  ⟨he ▸ h.nonempty, fun q hq => (h.located q (he ▸ hq)).mono hs (hd ▸ List.Subset.refl _)⟩

/-- the quotes of a report that passed the gate are located in any record that links its document -/
theorem located_of_gated {document : RawDocument} {r : Report} {e : Event} {q : EventEvidence}
    (hg : Gated U document r) (hd : t.document? document.id = some document)
    (hl : ∃ d ∈ e.documents, d.documentId = r.documentId) (hq : q ∈ r.evidence) :
    Located U t e q := by
  obtain ⟨vq, hvq, rfl⟩ := List.mem_map.mp hq
  have hver : vq.verified = true :=
    (VerificationReport.allVerified_iff.mp hg.verified).2 vq hvq
  rw [hg.verification] at hvq
  obtain ⟨item, _, rfl⟩ := List.mem_map.mp hvq
  have hquoted : (verifyQuote U item.quote.text document.cleanText).verified = true := hver
  obtain ⟨text, i, j, hc, hi, hj, hslice⟩ := verifyQuote_offsets hquoted
  refine ⟨hver, hl, document, text, i, j, ?_, hc, hi, hj, ?_⟩
  · show t.document? r.documentId = _
    rw [hg.documentId]
    exact hd
  · have hquote : (verifyQuote U item.quote.text document.cleanText).quote = item.quote.text := by
      obtain ⟨text', k, hd', hlen, hf, _⟩ := verifyQuote_found hquoted
      rw [hd', verifyQuote_of_findAt hlen hf]
    show slice (normaliseText U text) i j =
      normaliseText U (strip (verifyQuote U item.quote.text document.cleanText).quote)
    rw [hquote]
    exact hslice

theorem evidence_ne_nil {document : RawDocument} {r : Report} (hg : Gated U document r) :
    r.evidence ≠ [] := by
  intro h
  exact (VerificationReport.allVerified_iff.mp hg.verified).1 (List.map_eq_nil_iff.mp h)

theorem cited_newEvent {document : RawDocument} {r : Report} (hg : Gated U document r)
    (hd : t.document? document.id = some document) (id clusterId : Nat) :
    Cited U t (newEvent id clusterId r) := by
  refine ⟨evidence_ne_nil hg, ?_⟩
  intro q hq
  have hl : ∃ d ∈ (newEvent id clusterId r).documents, d.documentId = r.documentId :=
    ⟨⟨r.documentId, .newEvent⟩, List.mem_singleton.mpr rfl, rfl⟩
  exact located_of_gated hg hd hl hq

theorem cited_mergeEvent {document : RawDocument} {r : Report} {existing : Event}
    (hg : Gated U document r) (hd : t.document? document.id = some document)
    (h : Cited U s existing) (hk : KeepsDocuments s t) : Cited U t (mergeEvent U existing r) := by
  obtain ⟨_, hdocs, hevid⟩ := mergeEvent_links U existing r
  constructor
  · rw [hevid]
    intro hnil
    exact h.nonempty (List.append_eq_nil_iff.mp hnil).1
  · intro q hq
    rw [hevid] at hq
    rcases List.mem_append.mp hq with hq | hq
    · refine (h.located q hq).mono hk ?_
      rw [hdocs]
      exact List.subset_append_left ..
    · refine located_of_gated hg hd
        ⟨⟨r.documentId, (consolidation U existing r).relation⟩, ?_, rfl⟩ hq
      rw [hdocs]
      exact List.mem_append_right _ (List.mem_singleton.mpr rfl)

/-- the rows of a published report have passed both gates -/
theorem passed_of_gated {env : CallEnv} {document : RawDocument} {o : ExtractionOutcome}
    {r : Report} {p : Nat} {event : Option Nat} {x : Extraction} (hg : Gated U document r)
    (hfinal : ∃ call, o.final = some call ∧ call.result.isSome = true)
    (hx : x ∈ extractionRows env document.id p o (some r.verification) event) : Passed x := by
  intro hne
  obtain ⟨call, i, hcall, rfl⟩ := mem_extractionRows hx
  by_cases hi : o.finalIndex = some i
  · obtain ⟨final, hf, hres⟩ := hfinal
    rw [final_of_index hi hcall] at hf
    cases hf
    have hv := hg.verified
    obtain ⟨hq, hall⟩ := VerificationReport.allVerified_iff.mp hv
    unfold extractionRow
    simp only [hi, decide_true, if_true]
    refine ⟨hres, ?_, List.length_pos_iff.mpr hq, ?_⟩
    · show some r.verification.allVerified = some true
      rw [hv]
    · show r.verification.quotes.countP _ = 0
      rw [List.countP_eq_zero]
      intro q hm
      simp [hall q hm]
  · rw [extractionRow_eventId, if_neg hi] at hne
    exact absurd rfl hne

theorem passed_of_telemetry {env : CallEnv} {o : ExtractionOutcome} {d p : Nat}
    {v : Option VerificationReport} {x : Extraction} (hx : x ∈ extractionRows env d p o v none) :
    Passed x := by
  intro hne
  obtain ⟨call, i, _, rfl⟩ := mem_extractionRows hx
  rw [extractionRow_eventId, ite_self] at hne
  exact absurd rfl hne

theorem citationGate_empty : CitationGate U .empty := by
  constructor
  · intro e he
    cases he
  · intro x hx
    cases hx

theorem cited_step {a : Act} (h : ∀ e ∈ s.events, Cited U s e) (ha : fire U s a = some t) :
    ∀ e ∈ t.events, Cited U t e := by
  have hk : KeepsDocuments s t := fun _ _ hd => document?_of_fire ha hd
  intro f hf
  cases origin_of_mem ha hf with
  | kept hf => exact (h f hf).mono hk rfl rfl
  | created document r id clusterId hd hg => exact cited_newEvent hg (hk _ _ hd) id clusterId
  | merged document r existing hmem hd hg =>
    exact cited_mergeEvent hg (hk _ _ hd) (h existing hmem) hk
  | decided e id input verb changes hmem _ =>
    obtain ⟨_, hdocs, hevid⟩ := decided_links e id input verb changes
    exact (h e hmem).mono hk hdocs hevid

theorem passed_step {a : Act} (h : ∀ x ∈ s.extractions, Passed x) (ha : fire U s a = some t) :
    ∀ x ∈ t.extractions, Passed x := by
  cases a with
  | source row => cases ha; exact h
  | document row => cases ha; exact h
  | process documentId env =>
    obtain ⟨document, o, _, heff, _⟩ := fire_process ha
    intro x hx
    cases heff with
    | telemetry p v _ hrows =>
      rw [hrows] at hx
      rcases List.mem_append.mp hx with hx | hx
      · exact h x hx
      · exact passed_of_telemetry hx
    | published p r event hg _ hfinal hrows =>
      rw [hrows] at hx
      rcases List.mem_append.mp hx with hx | hx
      · exact h x hx
      · exact passed_of_gated hg hfinal hx
  | decide eventId input =>
    obtain ⟨e, _, rfl | ⟨verb, changes, _, rfl⟩⟩ := fire_decide ha
    · exact h
    · exact h

theorem citationGate_step {a : Act} (h : CitationGate U s) (ha : fire U s a = some t) :
    CitationGate U t :=
  ⟨cited_step h.events ha, passed_step h.rows ha⟩

/-- **In every reachable store each record is backed by located quotes, and each row that names a
record has passed both gates.** -/
theorem citationGate_of_reach (h : Reachable U s) : CitationGate U s := by
  refine h.invariant (fire U) ?_ ?_
  · intro s hs
    rw [hs]
    exact citationGate_empty
  · intro s a t hs ha
    exact citationGate_step hs ha

end

/-! ## a run -/

namespace Sample

def source : Source where
  id := 0
  slug := txt "port-notices"
  name := txt "Port notices"
  publisher := txt "Port authority"
  feedUrl := txt "https://example.org/feed"
  retrievalMethod := txt "rss"
  enabled := true
  storeFullText := true

def document (text : Text) : RawDocument where
  id := 0
  sourceId := 0
  url := txt "https://example.org/n1"
  publishedAt := some ⟨0⟩
  retrievedAt := ⟨0⟩
  retrievalMethod := txt "rss"
  rawBody := some text
  cleanText := some text
  rawHash := List.replicate 64 '0'
  contentHash := List.replicate 64 '0'

def event (severity : Severity) : ExtractedEvent where
  eventType := .portDisruption
  eventDate := ⟨0⟩
  title := ⟨txt "Port of Aden closed", by decide, by decide, by decide⟩
  summary := ⟨txt "The port of Aden is closed.", by decide, by decide, by decide⟩
  severity := severity
  severityRationale := ⟨txt "The port is closed.", by decide, by decide, by decide⟩
  locations := [⟨⟨txt "Aden", by decide, by decide, by decide⟩, .port, none, by simp, .facility⟩]
  locations_length := by decide
  actors := [⟨⟨txt "Port authority", by decide, by decide, by decide⟩, .portAuthority, .operator⟩]
  actors_length := by decide
  affectedSectors := [.portsTerminals]
  affectedSectors_length := by decide
  evidence := [⟨⟨txt "severity", by decide, by decide, by decide⟩,
    ⟨txt "port of Aden is closed", by decide, by decide, by decide⟩⟩]
  evidence_length := by decide
  confidence := 9 / 10
  confidence_range := by norm_num

def call (severity : Severity) : ExtractionCall where
  model := defaultModel
  promptName := promptName
  promptVersion := promptVersion
  result := some ⟨true, false, none, some (event severity), by simp⟩
  costUsd := 1 / 100

/-- every vector is the same, and the database refuses nothing -/
def env (severity : Severity) : CallEnv where
  now := ⟨0⟩
  embeddingModel := txt "unit"
  embeddingDim := 1
  embed texts := .ok (texts.map fun _ => [1])
  provider _ := .ok (call severity)
  ranking := ⟨fun _ cs => cs, fun _ _ => List.Perm.refl _⟩
  sqrt := id
  refuses _ := false

def text : Text := txt "The port of Aden is closed."

def published : List Act := [.source source, .document (document text), .process 1 (env .moderate)]

end Sample

theorem citationGate_published :
    ∃ s, exec (fire Unicode.latin) Store.empty Sample.published = some s ∧ s.events.length = 1 ∧
      CitationGate Unicode.latin s := by
  have h : (exec (fire Unicode.latin) Store.empty Sample.published).map (·.events.length) =
      some 1 := by decide +kernel
  obtain ⟨s, hs, hlen⟩ := Option.map_eq_some_iff.mp h
  exact ⟨s, hs, hlen, citationGate_of_reach ⟨_, _, rfl, hs⟩⟩

end GeoRisk
