import GeoRisk.Record.Gate
import GeoRisk.Store.Constraints

/-!
# What a verified extraction can break

The schema and the tables check the same record.  A schema-valid, verified extraction is refused by
the database for two reasons only: a country code that is not two letters, and a quote of which
normalisation leaves nothing, which is found at an empty span.

* `newRows`               the rows of a new event (`createEvent_rows`);
* `newEvent_storable`     the rows of `events` and its child tables;
* `labels_of_provider`    what the calls of a cascade are labelled with;
* `storable_iff`          the rows satisfy every constraint exactly when neither occurs.
-/

namespace GeoRisk
open Kit

/-- the entities after a loop over `_get_or_create_entity` -/
def addEntities : List Entity → List Entity → List Entity
  | known, [] => known
  | known, e :: rest => if e ∈ known then addEntities known rest else addEntities (known ++ [e]) rest

/-- the rows of a new event; of `entities`, the table they leave -/
structure NewRows where
  event : Event
  entities : List Entity
  extractions : List Extraction

def newRows (env : CallEnv) (store : Store) (clusterId : Nat) (r : Report) (promptId : Nat)
    (o : ExtractionOutcome) : NewRows where
  event := newEvent store.nextId clusterId r
  entities := addEntities store.entities (r.event.actors.map (·.entity))
  extractions := extractionRows env r.documentId promptId o (some r.verification) (some store.nextId)

structure NewRows.Storable (rows : NewRows) : Prop where
  event : rows.event.Storable
  entities : EntitiesStorable rows.entities
  extractions : ∀ x ∈ rows.extractions, x.Storable

/-- both providers label a call with the model they were asked for and the version of the
template -/
def ExtractionProvider.Labels (provider : ExtractionProvider) : Prop :=
  ∀ request call, provider request = .ok call →
    call.model = request.model ∧ call.promptVersion = promptVersion

section
variable {U : Unicode} {env : CallEnv} {store store' : Store} {document : RawDocument} {r : Report}
  {o : ExtractionOutcome} {clusterId promptId : Nat}

/-! ## the rows -/

theorem getOrCreateEntities_ok {known wanted out : List Entity}
    (h : getOrCreateEntities env known wanted = .ok out) : out = addEntities known wanted := by
  induction wanted generalizing known with
  | nil => cases h; rfl
  | cons e rest ih =>
    unfold getOrCreateEntities at h
    unfold addEntities
    split at h
    · next hin =>
      rw [if_pos hin]
      exact ih h
    · next hout =>
      rw [if_neg hout]
      obtain ⟨_, _, h⟩ := bind_eq_ok.mp h
      exact ih h

/-- `process_document` writes these rows -/
theorem createEvent_rows {event : Event}
    (h : createEvent env store clusterId r promptId o = .ok (store', event)) :
    event = (newRows env store clusterId r promptId o).event ∧
      store'.events = store.events ++ [event] ∧
      store'.entities = (newRows env store clusterId r promptId o).entities ∧
      store'.extractions =
        store.extractions ++ (newRows env store clusterId r promptId o).extractions := by
  obtain ⟨_, _, h⟩ := bind_eq_ok.mp h
  obtain ⟨entities, he, h⟩ := bind_eq_ok.mp h
  obtain ⟨s, hs, h⟩ := bind_eq_ok.mp h
  obtain ⟨_, _, h⟩ := bind_eq_ok.mp h
  cases h
  rw [recordExtractions_ok hs]
  exact ⟨rfl, rfl, getOrCreateEntities_ok he, rfl⟩

theorem addEntities_eq (known wanted : List Entity) :
    addEntities known wanted = adjoin known wanted := by
  induction wanted generalizing known with
  | nil => rfl
  | cons e rest ih => rw [addEntities, adjoin, ih, ih]

/-! ## events -/

/-- a stripped string has no spaces at its ends -/
theorem btrim_bounded {lo hi : Nat} (b : Bounded lo hi) : btrim b.text = b.text := by
  refine btrim_eq_self ?_ b.stripped
  rintro c hc rfl
  exact absurd hc (by decide)

/-- a verified quote is stored unless nothing is left of it -/
theorem evidenceRow_storable {item : EvidenceQuote} {d : Nat} {now : DateTime}
    (h : (verifyItem U document.cleanText item).verified = true) :
    (evidenceRow d now (verifyItem U document.cleanText item)).Storable ↔
      normaliseText U (strip item.quote.text) ≠ [] := by
  obtain ⟨text, i, _, _, _, hstart, hend⟩ := verifyQuote_found (U := U) h
  have hquote : (verifyItem U document.cleanText item).quote = item.quote.text :=
    verifyQuote_quote item.quote.text document.cleanText
  constructor
  · intro hs hnil
    have := hs.offsets_ordered i hstart _ hend
    rw [hnil] at this
    exact absurd this (lt_irrefl _)
  · intro hne
    refine ⟨item.fieldSupported.max_length, ?_, ?_, ?_⟩
    · show 0 < (btrim (verifyItem U document.cleanText item).quote).length
      rw [hquote, btrim_bounded]
      exact lt_of_lt_of_le (by decide) item.quote.min_length
    · intro a ha b hb
      have ha : some i = some a := hstart.symm.trans ha
      have hb : some (i + (normaliseText U (strip item.quote.text)).length) = some b :=
        hend.symm.trans hb
      cases ha
      cases hb
      exact Nat.lt_add_of_pos_right (List.length_pos_iff.mpr hne)
    · show (verifyQuote U item.quote.text document.cleanText).method.length ≤ 64
      have hmethod : (verifyQuote U item.quote.text document.cleanText).method = exactMethod := by
        obtain ⟨t, k, ht, hlen, hf, _⟩ := verifyQuote_found (U := U) h
        rw [ht, verifyQuote_of_findAt hlen hf]
      rw [hmethod]
      decide

/-- a location is stored unless its country code is not two letters -/
theorem locationRow_storable {l : ExtractedLocation} :
    l.row.Storable ↔ ∀ c ∈ l.countryCode, isoAlpha2 c = true := by
  constructor
  · intro h
    exact h.country_code_is_iso_alpha2
  · intro h
    refine ⟨l.locationType.value_length, ?_, h, l.precision.value_length, ?_⟩
    · intro c hc
      have := h c hc
      unfold isoAlpha2 at this
      rw [Bool.and_eq_true] at this
      exact le_of_eq (of_decide_eq_true this.1)
    · show geoSource.length ≤ 128
      decide

/-- **A new event is stored unless one of its locations or quotes is not.** -/
theorem newEvent_storable {id : Nat} (h : Gated U document r) :
    (newEvent id clusterId r).Storable ↔
      (∀ l ∈ r.event.locations, ∀ c ∈ l.countryCode, isoAlpha2 c = true) ∧
        ∀ q ∈ r.event.evidence, normaliseText U (strip q.quote.text) ≠ [] := by
  obtain ⟨flags, hconf, hflag⟩ := h.assessed
  have hquotes : r.evidence = r.event.evidence.map fun q =>
      evidenceRow r.documentId r.now (verifyItem U document.cleanText q) := by
    unfold Report.evidence
    rw [h.verification]
    exact List.map_map
  have hverified : ∀ q ∈ r.event.evidence,
      (verifyItem U document.cleanText q).verified = true := by
    intro q hq
    refine (VerificationReport.allVerified_iff.mp h.verified).2 _ ?_
    rw [h.verification]
    exact List.mem_map_of_mem hq
  constructor
  · intro hs
    constructor
    · intro l hl
      exact locationRow_storable.mp (hs.locations _ (List.mem_map_of_mem hl))
    · intro q hq
      have hmem : evidenceRow r.documentId r.now (verifyItem U document.cleanText q) ∈
          r.evidence := by
        rw [hquotes]
        exact List.mem_map_of_mem hq
      exact (evidenceRow_storable (hverified q hq)).mp (hs.evidence _ hmem)
  · rintro ⟨hlocations, hevidence⟩
    refine ⟨r.event.eventType.value_length, r.event.severity.value_length, ?_, ?_, ?_, ?_,
      ReviewStatus.value_length _, EventStatus.value_length _, ?_, ⟨?_, ?_⟩, ⟨?_, ?_⟩, ⟨?_, ?_⟩, ?_⟩
    · rintro c ⟨⟩
      rw [hconf]
      exact numericTo_roundTo 3 _
    · rintro c ⟨⟩
      rw [hconf]
      exact assess_range
    · intro hsev
      show r.requiresHumanReview = true
      rw [hflag]
      apply assess_flag_of_severity
      rcases hsev with hsev | hsev
      · rw [show r.event.severity = .high from hsev]
        rfl
      · rw [show r.event.severity = .severe from hsev]
        rfl
    · rintro c ⟨⟩
      show 3 / 5 ≤ r.confidence ∨ r.requiresHumanReview = true
      rw [hconf, hflag]
      exact (le_or_gt reviewThreshold _).imp_right assess_flag_of_low
    · intro l hl
      obtain ⟨x, hx, rfl⟩ := List.mem_map.mp hl
      exact locationRow_storable.mpr (hlocations x hx)
    · show (addActors [] r.event.actors).Nodup
      rw [addActors_eq]
      exact nodup_adjoin List.nodup_nil _
    · exact fun a _ => a.role.value_length
    · show (fromKeys [] r.event.affectedSectors).Nodup
      rw [fromKeys_eq]
      exact nodup_adjoin List.nodup_nil _
    · exact fun x _ => x.value_length
    · exact List.nodup_singleton _
    · exact fun d _ => d.relation.value_length
    · intro x hx
      have hx : x ∈ r.evidence := hx
      rw [hquotes] at hx
      obtain ⟨q, hq, rfl⟩ := List.mem_map.mp hx
      exact (evidenceRow_storable (hverified q hq)).mpr (hevidence q hq)

/-! ## telemetry -/

/-- a call of a cascade is an answer of the provider to one of the two models -/
theorem answered_of_mem {provider : ExtractionProvider} {request : ExtractionRequest}
    {verify : ExtractionResult → Nat} {allowEscalation : Bool}
    (ho : (extractDocument provider request verify allowEscalation).outcome = .ok o) :
    ∀ c ∈ o.calls, ∃ asked call, provider asked = .ok call ∧
      (asked.model = defaultModel ∨ asked.model = escalationModel) ∧
      c.model = call.model ∧ c.promptVersion = call.promptVersion := by
  unfold extractDocument at ho
  simp only at ho
  split at ho
  · cases ho
  · split at ho
    · cases ho
    · next first hfirst =>
      split at ho
      · cases ho
        intro c hc
        rw [List.mem_singleton.mp hc]
        exact ⟨_, first, hfirst, Or.inl rfl, rfl, rfl⟩
      · split at ho
        · cases ho
        · next second hsecond =>
          cases ho
          intro c hc
          rcases List.mem_cons.mp hc with rfl | hc
          · exact ⟨_, c, hfirst, Or.inl rfl, rfl, rfl⟩
          · rw [List.mem_singleton.mp hc]
            exact ⟨_, second, hsecond, Or.inr rfl, rfl, rfl⟩

theorem labels_of_provider {provider : ExtractionProvider} {request : ExtractionRequest}
    {verify : ExtractionResult → Nat} {allowEscalation : Bool} (hp : provider.Labels)
    (ho : (extractDocument provider request verify allowEscalation).outcome = .ok o) :
    ∀ c ∈ o.calls, c.model.length ≤ 128 ∧ c.promptVersion.length ≤ 32 := by
  intro c hc
  obtain ⟨asked, call, hcall, hasked, hm, hv⟩ := answered_of_mem ho c hc
  obtain ⟨hmodel, hversion⟩ := hp asked call hcall
  rw [hm, hv, hmodel, hversion]
  refine ⟨?_, by decide⟩
  rcases hasked with h | h
  · rw [h]
    decide
  · rw [h]
    decide

theorem extractionRows_storable {d p : Nat} {v : VerificationReport} {id : Nat}
    (hcalls : ∀ c ∈ o.calls, c.model.length ≤ 128 ∧ c.promptVersion.length ≤ 32)
    (hfinal : ∃ call, o.final = some call ∧ call.result.isSome = true)
    (hv : v.allVerified = true) :
    ∀ x ∈ extractionRows env d p o (some v) (some id), x.Storable := by
  intro x hx
  obtain ⟨call, i, hc, rfl⟩ := mem_extractionRows hx
  obtain ⟨hmodel, hversion⟩ := hcalls call (List.mem_of_getElem? hc)
  refine ⟨hversion, hmodel, OutcomeLabel.value_length _, ?_, ?_⟩
  · show ((if decide (o.finalIndex = some i) then some v else none).map (·.failed)).getD 0 ≤
      ((if decide (o.finalIndex = some i) then some v else none).map (·.checked)).getD 0
    split
    · exact List.countP_le_length
    · exact le_refl _
  · by_cases hi : o.finalIndex = some i
    · right
      obtain ⟨final, hf, hres⟩ := hfinal
      rw [final_of_index hi hc] at hf
      cases hf
      refine ⟨hres, ?_⟩
      show (if decide (o.finalIndex = some i) then some v else none).map (·.allVerified) = _
      rw [if_pos (decide_eq_true hi), Option.map_some, hv]
    · left
      rw [extractionRow_eventId, if_neg hi]

/-- **The rows of a new event satisfy every constraint of their tables exactly when each country
code is two letters and something is left of each quote.** -/
theorem storable_iff {request : ExtractionRequest} {verify : ExtractionResult → Nat}
    (hr : Gated U document r) (hp : env.provider.Labels)
    (ho : (extractDocument env.provider request verify env.allowEscalation).outcome = .ok o)
    (hfinal : ∃ call, o.final = some call ∧ call.result.isSome = true)
    (hentities : EntitiesStorable store.entities) :
    (newRows env store clusterId r promptId o).Storable ↔
      (∀ l ∈ r.event.locations, ∀ c ∈ l.countryCode, isoAlpha2 c = true) ∧
        ∀ q ∈ r.event.evidence, normaliseText U (strip q.quote.text) ≠ [] := by
  constructor
  · intro h
    exact (newEvent_storable hr).mp h.event
  · intro h
    refine ⟨(newEvent_storable hr).mpr h, ⟨?_, ?_⟩, ?_⟩
    · show (addEntities store.entities _).Nodup
      rw [addEntities_eq]
      exact nodup_adjoin hentities.canonical_name_entity_type _
    · exact fun x _ => x.entityType.value_length
    · exact extractionRows_storable (labels_of_provider hp ho) hfinal hr.verified

end

/-! ## three extractions -/

namespace Sample

/-- both models answer with the event -/
def answering (e : ExtractedEvent) : CallEnv :=
  { env .moderate with
    allowEscalation := false
    provider := fun request => .ok { call .moderate with
      model := request.model
      result := some ⟨true, false, none, some e, by simp⟩ } }

/-- the first pass is kept -/
def answered (e : ExtractedEvent) : ExtractionOutcome :=
  ⟨[{ call .moderate with result := some ⟨true, false, none, some e, by simp⟩ }]⟩

theorem answering_labels (e : ExtractedEvent) : (answering e).provider.Labels := by
  rintro request call ⟨⟩
  exact ⟨rfl, rfl⟩

theorem answering_outcome (e : ExtractedEvent) :
    (extractDocument (answering e).provider (requestOf (document text) source) (fun _ => 0)
      (answering e).allowEscalation).outcome = .ok (answered e) := rfl

theorem answered_final (e : ExtractedEvent) :
    ∃ call, (answered e).final = some call ∧ call.result.isSome = true := ⟨_, rfl, rfl⟩

def answeredReport (e : ExtractedEvent) : Report :=
  reportOf (answering e) Unicode.latin (document text) source e

/-- the country code is two digits -/
def numbered : ExtractedEvent :=
  { event .moderate with
    locations := (event .moderate).locations.map fun l =>
      ⟨l.name, l.locationType, some (txt "12"), by decide, l.precision⟩
    locations_length := by decide }

/-- the quote is eight zero-width spaces -/
def invisible : ExtractedEvent :=
  { event .moderate with
    evidence := (event .moderate).evidence.map fun q =>
      ⟨q.fieldSupported, ⟨zeroWidthPad, by decide, by decide, by decide⟩⟩
    evidence_length := by decide }

theorem entities_storable : EntitiesStorable Store.empty.entities :=
  ⟨List.nodup_nil, fun _ hx => by cases hx⟩

end Sample

/-- a country code of two digits passes the schema and not the table -/
theorem numbered_not_storable :
    ¬ ∀ (U : Unicode) (env : CallEnv) (store : Store) (document : RawDocument) (r : Report)
        (o : ExtractionOutcome) (clusterId promptId : Nat) (request : ExtractionRequest)
        (verify : ExtractionResult → Nat), Gated U document r → env.provider.Labels →
      (extractDocument env.provider request verify env.allowEscalation).outcome = .ok o →
      (∃ call, o.final = some call ∧ call.result.isSome = true) → EntitiesStorable store.entities →
      (newRows env store clusterId r promptId o).Storable := by
  intro h
  have hs := h Unicode.latin (Sample.answering Sample.numbered) Store.empty
    (Sample.document Sample.text) (Sample.answeredReport Sample.numbered)
    (Sample.answered Sample.numbered) 0 0 _ _ ⟨rfl, rfl, by decide +kernel, _, rfl, rfl⟩
    (Sample.answering_labels _) (Sample.answering_outcome _) (Sample.answered_final _)
    Sample.entities_storable
  have hcode := (hs.event.locations _ (List.mem_singleton_self _)).country_code_is_iso_alpha2
    (txt "12") rfl
  exact absurd hcode (by decide)

/-- an invisible quote verifies at an empty span, which the table refuses -/
theorem invisible_not_storable :
    (Sample.answeredReport Sample.invisible).verification.allVerified = true ∧
      ¬ (newEvent 0 0 (Sample.answeredReport Sample.invisible)).Storable := by
  refine ⟨by decide +kernel, fun hs => ?_⟩
  have hspan := (hs.evidence _ (List.mem_singleton_self _)).offsets_ordered
  exact absurd (hspan 0 (by decide +kernel) 0 (by decide +kernel)) (lt_irrefl 0)

theorem storable_published :
    (newRows (Sample.answering (Sample.event .moderate)) Store.empty 0
        (Sample.answeredReport (Sample.event .moderate)) 0
        (Sample.answered (Sample.event .moderate))).Storable ↔
      (∀ l ∈ (Sample.event .moderate).locations, ∀ c ∈ l.countryCode, isoAlpha2 c = true) ∧
        ∀ q ∈ (Sample.event .moderate).evidence,
          normaliseText Unicode.latin (strip q.quote.text) ≠ [] :=
  storable_iff ⟨rfl, rfl, by decide +kernel, _, rfl, rfl⟩ (Sample.answering_labels _)
    (Sample.answering_outcome _) (Sample.answered_final _) Sample.entities_storable

end GeoRisk
