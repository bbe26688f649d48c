import GeoRisk.Record.Homes
import GeoRisk.System.History

/-!
# No row leads nowhere

The references of the record (`Intact`), of the documents and of the runs, and the one event of each
cluster (`Homes`), in every database that changes have made.

* `Sources.Intact`     all references;
* `Evolved.intact`     every database keeps them;
* `intact_of_run`      so does every run, committed or not;
* `homes_of_run`       clusters and events stand for each other in every run.
-/

namespace GeoRisk
open Kit

/-- the references of all tables -/
structure Sources.Intact (s : Sources) : Prop where
  record : GeoRisk.Intact s.store
  documents : ∀ d ∈ s.store.documents, ∃ x run, s.store.source? d.sourceId = some x ∧
    run ∈ s.store.runs ∧ d.fetchRunId = some run.id ∧ run.sourceId = x.id
  runs : ∀ run ∈ s.store.runs, ∃ x, s.store.source? run.sourceId = some x

section
variable {U : Unicode} {sha : Text → Text} {P : CallEnv → Prop} {s t : Sources}

/-- a source is found under its key later too -/
theorem source?_of_extends (hl : Lawful t) (h : s.Extends t) {i : Nat}
    (hx : ∃ x, s.store.source? i = some x) : ∃ x, t.store.source? i = some x := by
  obtain ⟨x, hx⟩ := hx
  obtain ⟨y, hy, hcont⟩ := h.sources.mem (lookup_mem hx)
  refine ⟨y, ?_⟩
  rw [← show x.id = i from lookup_key hx, ← hcont.key]
  exact lookup_of_mem hl.sources.nodup hy

theorem runs_linked_change (hs : Evolved U sha P s) (h : Change U sha P s t)
    (hruns : ∀ run ∈ s.store.runs, ∃ x, s.store.source? run.sourceId = some x) :
    ∀ run ∈ t.store.runs, ∃ x, t.store.source? run.sourceId = some x := by
  have hst := extends_change hs h
  have hlawful := lawful_change hs.lawful h
  have hold : ∀ run ∈ s.store.runs, ∃ x, t.store.source? run.sourceId = some x := fun run hr =>
    source?_of_extends hlawful hst (hruns run hr)
  cases change_intake h with
  | none _ hsame =>
    rw [hsame]
    exact hold
  | ran source now run added hx hb hin hterms =>
    rw [hin.runs hs.lawful.runs, List.forall_mem_append, List.forall_mem_singleton]
    refine ⟨hold, source?_of_extends hlawful hst ⟨source, ?_⟩⟩
    rw [hin.row.2]
    exact hx

theorem Evolved.runs_linked (h : Evolved U sha P s) :
    ∀ run ∈ s.store.runs, ∃ x, s.store.source? run.sourceId = some x :=
  h.invariant (I := fun s => ∀ run ∈ s.store.runs, ∃ x, s.store.source? run.sourceId = some x)
    (fun _ hr => absurd hr List.not_mem_nil) fun _ _ hs hI hc => runs_linked_change hs hc hI

theorem intact_change (hs : Evolved U sha P s) (h : Change U sha P s t)
    (hi : GeoRisk.Intact s.store) : GeoRisk.Intact t.store := by
  have hst := (extends_change hs h).record
  cases change_record h with
  | same hsame =>
    exact hi.same hst hsame.chunks hsame.prompts hsame.entities hsame.events hsame.extractions
  | processed documentId env hw hP hf =>
    obtain ⟨document, p, o, _, _, hd, _, hwritten⟩ := fire_written hf
    refine intact_written hs.keyed.events hst ?_ hi hwritten
    rw [show document.id = documentId from lookup_key hd]
    exact hd
  | decided eventId input hf => exact intact_decided hs.keyed.events hst hi hf

/-- **Every database keeps its references.** -/
theorem Evolved.intact (h : Evolved U sha P s) : s.Intact := by
  refine ⟨?_, fun d hd => ?_, h.runs_linked⟩
  · refine h.invariant (I := fun s => GeoRisk.Intact s.store) ?_ fun _ _ hs hI hc =>
      intact_change hs hc hI
    exact ⟨fun _ hc => absurd hc List.not_mem_nil, List.nodup_nil, List.nodup_nil,
      fun _ he => absurd he List.not_mem_nil, fun _ hx => absurd hx List.not_mem_nil,
      List.Perm.refl _⟩
  · obtain ⟨x, run, hx⟩ := h.acquired d hd
    refine ⟨x, run, ?_, hx.fetched⟩
    rw [← hx.source.2]
    exact lookup_of_mem h.lawful.sources.nodup hx.source.1

theorem Evolved.homes (h : Evolved U sha P s) : Homes s.store.shelf := by
  refine h.invariant (I := fun s => Homes s.store.shelf) ?_ ?_
  · exact ⟨fun _ hc => absurd hc List.not_mem_nil, fun _ he => absurd he List.not_mem_nil,
      fun _ he => absurd he List.not_mem_nil⟩
  · intro s t hs hI hc
    cases change_record hc with
    | same hsame =>
      unfold Store.shelf at hI ⊢
      rw [hsame.clusters, hsame.events]
      exact hI
    | processed documentId env hw hP hf => exact homes_of_fire hI hs.keyed.events hs.keyed.clusters hf
    | decided eventId input hf => exact homes_of_fire hI hs.keyed.events hs.keyed.clusters hf

/-- **In every run of the system, with one call at a time, no row leads nowhere, in the committed
database and in the session**: documents to their source and run, chunks and telemetry to their
document and prompt, events to their cluster, organisations and documents, quotes to a document of
their event.  A document is linked to an event at most once, exactly where the telemetry names the
event for it. -/
theorem intact_of_run {as : List SystemAct} {s : System}
    (hrun : exec (systemFire U sha) .empty as = some s) :
    ∀ t ∈ [s.committed, s.current], t.Intact ∧ t.store.links.Nodup := by
  have hs : s.Sound U sha fun _ => True := system_of_run (fun a _ => a.meets_true) hrun
  rw [List.forall_mem_cons, List.forall_mem_singleton]
  exact ⟨⟨hs.evolved.intact, hs.evolved.intact.record.nodup hs.evolved.keyed.events⟩,
    hs.now.intact, hs.now.intact.record.nodup hs.now.keyed.events⟩

/-- **In every run of the system, with one call at a time, each cluster has exactly one event and
counts its documents, and each event has exactly one cluster.** -/
theorem homes_of_run {as : List SystemAct} {s : System}
    (hrun : exec (systemFire U sha) .empty as = some s) :
    (∀ c ∈ s.session.committed.clusters, ∃ e, eventsOf c.id s.session.committed.events = [e] ∧
        c.memberCount = e.documents.length) ∧
      ∀ e ∈ s.session.committed.events, ∃! c, c ∈ s.session.committed.clusters ∧
        e.clusterId = some c.id := by
  have hs := evolved_of_run hrun
  have hhomes := hs.homes
  constructor
  · exact hhomes.home
  · intro e he
    obtain ⟨c, hc, hec⟩ := hhomes.homed e he
    refine ⟨c, ⟨hc, hec⟩, ?_⟩
    rintro d ⟨hd, hed⟩
    have hkeys : d.id = c.id := Option.some.inj (hed.symm.trans hec)
    have hsame : some d = some c := by
      rw [← lookup_of_mem hs.keyed.clusters.nodup hd, ← lookup_of_mem hs.keyed.clusters.nodup hc,
        hkeys]
    exact Option.some.inj hsame

end

theorem intact_of_run_firstTick :
    ∃ s, exec (systemFire Unicode.latin id) .empty Sample.firstTick = some s ∧
      s.session.committed.events.length = 1 ∧ s.committed.Intact ∧
      s.committed.store.links.Nodup := by
  obtain ⟨s, hs, _, hevents, _⟩ := Sample.firstTick_done
  exact ⟨s, hs, hevents, intact_of_run hs s.committed List.mem_cons_self⟩

theorem homes_of_run_firstTick :
    ∃ s, exec (systemFire Unicode.latin id) .empty Sample.firstTick = some s ∧
      ∃ c ∈ s.session.committed.clusters, ∃ e, eventsOf c.id s.session.committed.events = [e] ∧
        c.memberCount = e.documents.length := by
  obtain ⟨s, hs, e, he⟩ := Sample.firstTick_event
  obtain ⟨hclusters, hevents⟩ := homes_of_run hs
  obtain ⟨c, ⟨hc, _⟩, _⟩ := hevents e he
  exact ⟨s, hs, c, hc, hclusters c hc⟩

end GeoRisk
