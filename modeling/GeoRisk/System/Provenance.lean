import GeoRisk.Record.Assembly
import GeoRisk.System.Policy

/-!
# Where a record comes from

A quote is followed back: to the stored text it stands in, to the run that fetched it, to the source
and what a human recorded about its terms.

* `cited_change`        every change keeps the quotes of the records where they are;
* `Traced`              what a quote leads back to;
* `traced_of_run`       in every run, each quote of each record leads back to a reviewed source;
* `assembled_of_run`    and each record is made of reports that passed the gate, and of decisions.
-/

namespace GeoRisk
open Kit

section
variable {U : Unicode} {sha : Text → Text} {P : CallEnv → Prop} {s t : Sources}

/-! ## quotes -/

theorem cited_change (h : ∀ e ∈ s.store.events, Cited U s.store e) (hc : Change U sha P s t) :
    ∀ e ∈ t.store.events, Cited U t.store e := by
  cases change_record hc with
  | same hsame =>
    rw [hsame.events]
    exact fun e he => (h e he).mono (change_keepsDocuments hc) rfl rfl
  | processed documentId env hw hP hf => exact cited_step h hf
  | decided eventId input hf => exact cited_step h hf

theorem Evolved.cited (h : Evolved U sha P s) : ∀ e ∈ s.store.events, Cited U s.store e :=
  h.invariant (I := fun s => ∀ e ∈ s.store.events, Cited U s.store e)
    (fun _ he => absurd he List.not_mem_nil) fun _ _ _ hI hc => cited_change hI hc

/-- the quote stands in a document that was acquired from a source whose full text may be kept -/
structure Traced (U : Unicode) (s : Sources) (e : Event) (q : EventEvidence) (d : RawDocument)
    (x : Source) (run : IngestionRun) : Prop where
  located : Located U s.store e q
  document : s.store.document? q.documentId = some d
  acquired : AcquiredBy s d x run
  fullText : x.storeFullText = true
  termsUrl : truthy (s.terms x.id).termsUrl = true

/-- **In every run of the system, with one call at a time, each record has quotes, and each quote
stands in the stored text of one of its documents, as the verifier reads the two; and a finished run
took that document from a source that a human had cleared: terms reviewed, with their page, endpoint
and format confirmed, and full text allowed.** -/
theorem traced_of_run {as : List SystemAct} {s : System}
    (hrun : exec (systemFire U sha) .empty as = some s) :
    ∀ e ∈ s.session.committed.events, e.evidence ≠ [] ∧
      ∀ q ∈ e.evidence, ∃ d x run, Traced U s.committed e q d x run := by
  have hs := evolved_of_run hrun
  intro e he
  have hcited := hs.cited e he
  refine ⟨hcited.nonempty, fun q hq => ?_⟩
  have hloc := hcited.located q hq
  obtain ⟨d, text, i, j, hd, htext, _⟩ := hloc.found
  obtain ⟨x, run, hx⟩ := hs.acquired d (lookup_mem hd)
  refine ⟨d, x, run, hloc, hd, hx, hx.text (Or.inr ?_),
    (hs.lawful.rows x hx.source.1).termsUrl (blockers_eq_nil.mp hx.terms).1⟩
  rw [htext]
  rfl

/-! ## records -/

theorem assembled_change (h : ∀ e ∈ s.store.events, ∃ first rest, Assembled U s.store e first rest)
    (hc : Change U sha P s t) :
    ∀ e ∈ t.store.events, ∃ first rest, Assembled U t.store e first rest := by
  cases change_record hc with
  | same hsame =>
    rw [hsame.events]
    intro e he
    obtain ⟨first, rest, ha⟩ := h e he
    exact ⟨first, rest, ha.mono (change_keepsDocuments hc)⟩
  | processed documentId env hw hP hf => exact assembled_step h hf
  | decided eventId input hf => exact assembled_step h hf

theorem Evolved.assembled (h : Evolved U sha P s) :
    ∀ e ∈ s.store.events, ∃ first rest, Assembled U s.store e first rest :=
  h.invariant (I := fun s => ∀ e ∈ s.store.events, ∃ first rest, Assembled U s.store e first rest)
    (fun _ he => absurd he List.not_mem_nil) fun _ _ _ hI hc => assembled_change hI hc

/-- **In every run of the system, with one call at a time, each record was assembled from reports on
stored documents that passed the gate, and from decisions, and is explained by these**: its
documents and quotes are those of the reports, in the order of the merges; it names what the first
report names and what the quotes of the others support; summary, first sighting, creation and status
are those of the first report, title, type and date too but for the recorded edits; the severity is
that of a report or of a recorded edit, the confidence that of a report; and it is under review, or
as its last decision left it. -/
theorem assembled_of_run {as : List SystemAct} {s : System}
    (hrun : exec (systemFire U sha) .empty as = some s) :
    ∀ e ∈ s.session.committed.events, ∃ first rest,
      Assembled U s.session.committed e first rest ∧
        (∀ r ∈ first :: rest, GatedIn U s.session.committed r) ∧ Explained U e first rest := by
  intro e he
  obtain ⟨first, rest, h⟩ := (evolved_of_run hrun).assembled e he
  exact ⟨first, rest, h, h.gated, h.explained⟩

end

/-! ## the record of a run -/

theorem traced_of_run_firstTick :
    ∃ s, exec (systemFire Unicode.latin id) .empty Sample.firstTick = some s ∧
      ∃ e ∈ s.session.committed.events, ∃ q ∈ e.evidence,
        ∃ d x run, Traced Unicode.latin s.committed e q d x run := by
  obtain ⟨s, hs, e, he⟩ := Sample.firstTick_event
  obtain ⟨hne, htraced⟩ := traced_of_run hs e he
  obtain ⟨q, hq⟩ := List.exists_mem_of_ne_nil _ hne
  exact ⟨s, hs, e, he, q, hq, htraced q hq⟩

theorem assembled_of_run_firstTick :
    ∃ s, exec (systemFire Unicode.latin id) .empty Sample.firstTick = some s ∧
      ∃ e ∈ s.session.committed.events, ∃ first rest,
        Assembled Unicode.latin s.session.committed e first rest ∧
          (∀ r ∈ first :: rest, GatedIn Unicode.latin s.session.committed r) ∧
            Explained Unicode.latin e first rest := by
  obtain ⟨s, hs, e, he⟩ := Sample.firstTick_event
  exact ⟨s, hs, e, he, assembled_of_run hs e he⟩

end GeoRisk
