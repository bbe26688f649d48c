import GeoRisk.Record.History

/-!
# What the rows refer to

Keys in other tables are plain columns of the model.  No call leaves one that leads nowhere, and the
two places that say which document is linked to which event say the same.

* `EventLinked`, `ExtractionLinked`    the references of a row;
* `Store.links`, `Store.reported`      documents and their events, by the events and by the telemetry;
* `Intact`                             all references of the record;
* `intact_written`, `intact_decided`   a call and a decision keep them.
-/

namespace GeoRisk
open Kit

/-- what an event refers to -/
structure EventLinked (s : Store) (e : Event) : Prop where
  cluster : ∃ c ∈ s.clusters, e.clusterId = some c.id
  actors : ∀ a ∈ e.actors, a.entity ∈ s.entities
  documents : ∀ d ∈ e.documents, ∃ document, s.document? d.documentId = some document
  distinct : (e.documents.map (·.documentId)).Nodup
  evidence : ∀ q ∈ e.evidence, ∃ d ∈ e.documents, d.documentId = q.documentId

/-- what a row of telemetry refers to, its event apart -/
structure ExtractionLinked (s : Store) (x : Extraction) : Prop where
  document : ∃ document, s.document? x.documentId = some document
  prompt : ∃ p ∈ s.prompts, p.id = x.promptId

namespace Store

/-- documents and the events they are linked to -/
def links (s : Store) : List (Nat × Nat) :=
  s.events.flatMap fun e => e.documents.map fun d => (d.documentId, e.eventId)

/-- documents and the events that the telemetry names -/
def reported (s : Store) : List (Nat × Nat) :=
  s.extractions.filterMap fun x => x.eventId.map fun i => (x.documentId, i)

end Store

/-- the references of the record -/
structure Intact (s : Store) : Prop where
  chunks : ∀ c ∈ s.chunks, ∃ document, s.document? c.documentId = some document
  prompts : (s.prompts.map fun p => (p.name, p.version)).Nodup
  entities : s.entities.Nodup
  events : ∀ e ∈ s.events, EventLinked s e
  extractions : ∀ x ∈ s.extractions, ExtractionLinked s x
  links : s.links.Perm s.reported

section
variable {U : Unicode} {s t : Store}

/-! ## a later store -/

theorem document?_of_extends (h : Extends s t) {i : Nat}
    (hd : ∃ document, s.document? i = some document) :
    ∃ document, t.document? i = some document := by
  obtain ⟨document, hd⟩ := hd
  obtain ⟨more, hmore⟩ := h.documents
  refine ⟨document, ?_⟩
  unfold Store.document? at hd ⊢
  rw [← hmore]
  exact lookup_append hd more

/-- a cluster is found under its key -/
theorem cluster_of_extends (h : Extends s t) {i : Option Nat}
    (hc : ∃ c ∈ s.clusters, i = some c.id) : ∃ c ∈ t.clusters, i = some c.id := by
  obtain ⟨c, hc, rfl⟩ := hc
  obtain ⟨c', hc', hcont⟩ := h.clusters.mem hc
  exact ⟨c', hc', congrArg some hcont.key.symm⟩

theorem EventLinked.extends {e : Event} (h : EventLinked s e) (hst : Extends s t) :
    EventLinked t e where
  cluster := cluster_of_extends hst h.cluster
  actors := fun a ha => hst.entities.mem (h.actors a ha)
  documents := fun d hd => document?_of_extends hst (h.documents d hd)
  distinct := h.distinct
  evidence := h.evidence

theorem ExtractionLinked.extends {x : Extraction} (h : ExtractionLinked s x) (hst : Extends s t) :
    ExtractionLinked t x := by
  obtain ⟨p, hp, hid⟩ := h.prompt
  exact ⟨document?_of_extends hst h.document, p, hst.prompts.mem hp, hid⟩

/-- the references where a call leaves the record alone -/
theorem Intact.same (h : Intact s) (hst : Extends s t) (hchunks : t.chunks = s.chunks)
    (hprompts : t.prompts = s.prompts) (hentities : t.entities = s.entities)
    (hevents : t.events = s.events) (hextractions : t.extractions = s.extractions) : Intact t where
  chunks := by
    rw [hchunks]
    exact fun c hc => document?_of_extends hst (h.chunks c hc)
  prompts := by
    rw [hprompts]
    exact h.prompts
  entities := by
    rw [hentities]
    exact h.entities
  events := by
    rw [hevents]
    exact fun e he => (h.events e he).extends hst
  extractions := by
    rw [hextractions]
    exact fun x hx => (h.extractions x hx).extends hst
  links := by
    unfold Store.links Store.reported
    rw [hevents, hextractions]
    exact h.links

/-! ## the rows of a call -/

section
variable {env : CallEnv} {document : RawDocument} {p : Nat} {o : ExtractionOutcome}
  {v : Option VerificationReport}

/-- one position of a list -/
theorem filterMap_zipIdx_one {α β : Type} (y : β) {i : Nat} {l : List α} {n : Nat} (hn : n ≤ i)
    (hi : i < n + l.length) :
    ((l.zipIdx n).filterMap fun x => if i = x.2 then some y else none) = [y] := by
  induction l generalizing n with
  | nil => exact absurd hi (Nat.not_lt.mpr hn)
  | cons a l ih =>
    rw [List.zipIdx_cons, List.filterMap_cons]
    by_cases h : i = n
    · rw [if_pos h]
      have hnone : ((l.zipIdx (n + 1)).filterMap fun x => if i = x.2 then some y else none) = [] := by
        rw [List.filterMap_eq_nil_iff]
        intro x hx
        have hle := (List.mem_zipIdx hx).1
        exact if_neg (by omega)
      rw [hnone]
    · rw [if_neg h]
      rw [List.length_cons] at hi
      exact ih (by omega) (by omega)

/-- the telemetry of a published document names its event once -/
theorem reported_published {call : ExtractionCall} {i : Nat} (hfinal : o.final = some call) :
    ((extractionRows env document.id p o v (some i)).filterMap fun x =>
      x.eventId.map fun j => (x.documentId, j)) = [(document.id, i)] := by
  obtain ⟨k, hk, hc⟩ := final_mem hfinal
  have hlt : k < 0 + o.calls.length := by
    rw [Nat.zero_add]
    exact (List.getElem?_eq_some_iff.mp hc).1
  unfold extractionRows
  rw [List.filterMap_map, ← filterMap_zipIdx_one (document.id, i) (Nat.zero_le k) hlt]
  apply List.filterMap_congr
  rintro ⟨x, j⟩ _
  show ((extractionRow env document.id p v (some i) o.finalIndex (x, j)).eventId.map _) = _
  rw [extractionRow_eventId, hk]
  by_cases hj : k = j
  · rw [if_pos (congrArg some hj), if_pos hj]
    rfl
  · rw [if_neg fun he => hj (Option.some.inj he), if_neg hj]
    rfl

/-- that of another one names none -/
theorem reported_telemetry :
    ((extractionRows env document.id p o v none).filterMap fun x =>
      x.eventId.map fun j => (x.documentId, j)) = [] := by
  rw [List.filterMap_eq_nil_iff]
  intro x hx
  obtain ⟨call, i, _, rfl⟩ := mem_extractionRows hx
  rw [extractionRow_eventId, ite_self]
  rfl

theorem extractions_linked {rows : List Extraction} {e : Option Nat}
    (h : ∀ x ∈ s.extractions, ExtractionLinked t x) (hd : ∃ d, t.document? document.id = some d)
    (hp : ∃ q ∈ t.prompts, q.id = p)
    (hrows : rows = s.extractions ++ extractionRows env document.id p o v e) :
    ∀ x ∈ rows, ExtractionLinked t x := by
  rw [hrows, List.forall_mem_append]
  refine ⟨h, fun x hx => ?_⟩
  obtain ⟨call, i, _, rfl⟩ := mem_extractionRows hx
  exact ⟨hd, hp⟩

end

/-! ## one event -/

/-- the links where the changed event has more documents -/
theorem links_replace {e f : Event} {more : List EventDocument} (hk : Keyed s) (he : e ∈ s.events)
    (hid : f.eventId = e.eventId) (hdocs : f.documents = e.documents ++ more)
    (hevents : t.events = replace Event.eventId f s.events) :
    t.links.Perm (s.links ++ more.map fun d => (d.documentId, e.eventId)) := by
  unfold Store.links
  rw [hevents]
  refine flatMap_replace_perm hk.nodup he hid ?_
  show f.documents.map (fun d => (d.documentId, f.eventId)) = _
  rw [hdocs, List.map_append, hid]

section
variable {r : Report} {document : RawDocument} {e : Event}

/-- the rows of a created event, and those that a merge adds -/
theorem entered_linked (hst : Extends s t) (hk : Keyed s) (hg : Gated U document r)
    (hd : ∃ d, t.document? document.id = some d) (h : ∀ e ∈ s.events, EventLinked s e)
    (he : Entered U r s t e) :
    (∀ e ∈ t.events, EventLinked t e) ∧ t.links.Perm (s.links ++ [(document.id, e.eventId)]) := by
  have hold : ∀ e ∈ s.events, EventLinked t e := fun e he => (h e he).extends hst
  cases he with
  | created id clusterId hid hcluster hevents hactors =>
    constructor
    · rw [hevents, List.forall_mem_append, List.forall_mem_singleton]
      refine ⟨hold, ?_, ?_, ?_, ?_, ?_⟩
      · obtain ⟨c, hc, rfl⟩ := hcluster
        exact ⟨c, hc, rfl⟩
      · intro a ha
        rcases mem_addActors.mp ha with ha | ⟨x, hx, rfl⟩
        · exact absurd ha List.not_mem_nil
        · exact hactors x hx
      · intro d hin
        rw [List.mem_singleton.mp hin]
        show ∃ d, t.document? r.documentId = some d
        rw [hg.documentId]
        exact hd
      · exact List.nodup_singleton _
      · intro q hq
        obtain ⟨x, _, rfl⟩ := List.mem_map.mp hq
        exact ⟨_, List.mem_singleton_self _, rfl⟩
    · unfold Store.links
      rw [hevents, List.flatMap_append, ← hg.documentId]
      exact List.Perm.refl _
  | merged existing hmem hnew hevents hactors =>
    obtain ⟨hid, hdocs, hevidence⟩ := mergeEvent_links U existing r
    have hexisting := hold existing hmem
    constructor
    · rw [hevents]
      refine forall_replace hold ⟨?_, ?_, ?_, ?_, ?_⟩
      · rw [(mergeEvent_fixed U existing r).2.2.2.2.1]
        exact hexisting.cluster
      · rw [(mergeEvent_rows U existing r).2.1]
        intro a ha
        rcases mem_addActors.mp ha with ha | ⟨x, hx, rfl⟩
        · exact hexisting.actors a ha
        · obtain ⟨hx, hin⟩ := List.mem_filter.mp hx
          exact hactors x hx (of_decide_eq_true hin)
      · rw [hdocs, List.forall_mem_append, List.forall_mem_singleton]
        refine ⟨hexisting.documents, ?_⟩
        show ∃ d, t.document? r.documentId = some d
        rw [hg.documentId]
        exact hd
      · rw [hdocs]
        exact nodup_insert hexisting.distinct hnew
      · rw [hevidence, List.forall_mem_append, hdocs]
        constructor
        · intro q hq
          obtain ⟨d, hd, he⟩ := hexisting.evidence q hq
          exact ⟨d, List.mem_append_left _ hd, he⟩
        · intro q hq
          obtain ⟨x, _, rfl⟩ := List.mem_map.mp hq
          exact ⟨_, List.mem_append_right _ (List.mem_singleton_self _), rfl⟩
    · rw [hid, ← hg.documentId]
      exact links_replace hk hmem hid hdocs hevents

end

/-! ## calls -/

/-- **A call that returns keeps the references.** -/
theorem intact_written {env : CallEnv} {document : RawDocument} {p : Nat} {o : ExtractionOutcome}
    (hk : Keyed s) (hst : Extends s t) (hd : s.document? document.id = some document)
    (h : Intact s) (hw : Written U env document p o s t) : Intact t := by
  have hdoc : ∃ d, t.document? document.id = some d := document?_of_extends hst ⟨_, hd⟩
  have hprompt : ∃ q ∈ t.prompts, q.id = p := ⟨_, hw.prompt, rfl⟩
  have hextractions : ∀ x ∈ s.extractions, ExtractionLinked t x := fun x hx =>
    (h.extractions x hx).extends hst
  have hchunks : ∀ c ∈ t.chunks, ∃ d, t.document? c.documentId = some d := by
    obtain ⟨added, hadd, hchunked⟩ := hw.chunks
    rw [hadd, List.forall_mem_append]
    refine ⟨fun c hc => document?_of_extends hst (h.chunks c hc), ?_⟩
    cases hchunked with
    | known hnone _ =>
      rw [hnone]
      exact fun _ hc => absurd hc List.not_mem_nil
    | empty hnone _ =>
      rw [hnone]
      exact fun _ hc => absurd hc List.not_mem_nil
    | chunked text _ _ _ hdocument =>
      intro c hc
      rw [hdocument c hc]
      exact hdoc
  have hprompts : (t.prompts.map fun p => (p.name, p.version)).Nodup := by
    rcases hw.prompts with hp | ⟨hp, hnew, _⟩
    · rw [hp]
      exact h.prompts
    · rw [hp]
      exact nodup_insert h.prompts fun x hx he => hnew x hx (Prod.mk.inj he)
  cases hw.record with
  | telemetry v hshelf hentities hrows =>
    have hevents : t.events = s.events := congrArg Shelf.events hshelf
    refine ⟨hchunks, hprompts, hentities ▸ h.entities, ?_,
      extractions_linked hextractions hdoc hprompt hrows, ?_⟩
    · rw [hevents]
      exact fun e he => (h.events e he).extends hst
    · unfold Store.links Store.reported
      rw [hevents, hrows, List.filterMap_append, reported_telemetry, List.append_nil]
      exact h.links
  | published f event hgate hfinal hfiles hrecord hentities hrows =>
    obtain ⟨hevents, hlinks⟩ := entered_linked hst hk hgate hdoc h.events hrecord
    obtain ⟨call, hcall, _⟩ := hfinal
    refine ⟨hchunks, hprompts, ?_, hevents, extractions_linked hextractions hdoc hprompt hrows, ?_⟩
    · obtain ⟨names, hnames⟩ := hentities
      rw [hnames]
      exact nodup_adjoin h.entities names
    · unfold Store.reported
      rw [hrows, List.filterMap_append, reported_published hcall]
      exact hlinks.trans (h.links.append_right _)

/-- **So does a decision.** -/
theorem intact_decided {eventId : Nat} {input : DecisionInput} (hk : Keyed s) (hst : Extends s t)
    (h : Intact s) (hf : fire U s (.decide eventId input) = some t) : Intact t := by
  obtain ⟨e, he, rfl | ⟨verb, changes, _, rfl⟩⟩ := fire_decide hf
  · exact h
  · have hmem := lookup_mem he
    obtain ⟨hid, hdocs, hevidence⟩ := decided_links e s.nextId input verb changes
    have hcont := continued_decided e s.nextId input verb changes
    have hactors : (decided e s.nextId input verb changes).actors = e.actors := by
      have hedits : (decided e s.nextId input verb changes).actors =
          (applyEdits e input changes).actors := by
        cases verb <;> rfl
      obtain ⟨_, _, _, _, _, h⟩ := applyEdits_eq e input changes
      rw [hedits, h]
    refine ⟨fun c hc => document?_of_extends hst (h.chunks c hc), h.prompts, h.entities, ?_,
      fun x hx => (h.extractions x hx).extends hst, ?_⟩
    · refine forall_replace (fun e he => (h.events e he).extends hst) ?_
      have hlinked := (h.events e hmem).extends hst
      refine ⟨?_, ?_, ?_, ?_, ?_⟩
      · rw [hcont.fixed.1]
        exact hlinked.cluster
      · rw [hactors]
        exact hlinked.actors
      · rw [hdocs]
        exact hlinked.documents
      · rw [hdocs]
        exact hlinked.distinct
      · rw [hdocs, hevidence]
        exact hlinked.evidence
    · refine List.Perm.trans ?_ h.links
      have hperm := links_replace (t := { s.putEvent (decided e s.nextId input verb changes) with
        nextId := s.nextId + 1 }) hk hmem hid
        (hdocs.trans (List.append_nil _).symm) rfl
      rw [List.map_nil, List.append_nil] at hperm
      exact hperm

/-- no document is linked to an event twice -/
theorem Intact.nodup (h : Intact s) (hk : Keyed s) : s.links.Nodup := by
  unfold Store.links
  rw [List.nodup_flatMap]
  constructor
  · intro e he
    have hmap : (e.documents.map fun d => (d.documentId, e.eventId)) =
        (e.documents.map (·.documentId)).map fun i => (i, e.eventId) := by
      rw [List.map_map]
      rfl
    rw [hmap]
    exact (h.events e he).distinct.map fun a b hab => (Prod.mk.inj hab).1
  · have hpair : s.events.Pairwise fun e f => e.eventId ≠ f.eventId :=
      List.pairwise_map.mp hk.nodup
    refine hpair.imp ?_
    intro e f hne x hx hy
    obtain ⟨_, _, rfl⟩ := List.mem_map.mp hx
    obtain ⟨_, _, hxy⟩ := List.mem_map.mp hy
    exact hne (Prod.mk.inj hxy).2.symm

end

end GeoRisk
