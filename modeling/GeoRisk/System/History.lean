import GeoRisk.Record.History
import GeoRisk.System.Policy

/-!
# The database is a history

What was committed once is there in every later commit: no tick, crash, registry run, terms review or
decision takes a row away, and what changes in place changes as its kind of row may.

* `SourceContinued`           a source and what it became, with what is recorded about it;
* `Sources.Extends`           all tables;
* `extends_change`            every change extends the database;
* `history_of_run`            so does every run;
* `Evolved.keyed`             the keys of events and clusters, beside those of `Lawful`.
-/

namespace GeoRisk
open Kit

/-- a source and what it became; the address it is fetched from may change -/
structure SourceContinued (terms terms' : Nat → Terms) (x y : Source) : Prop where
  key : y.id = x.id
  slug : y.slug = x.slug
  terms : (terms x.id).Kept (terms' y.id)
  fullText : x.storeFullText = true → y.storeFullText = true

/-- the database and a later one -/
structure Sources.Extends (s t : Sources) : Prop where
  record : GeoRisk.Extends s.store t.store
  runs : s.store.runs <+: t.store.runs
  sources : Grows (SourceContinued s.terms t.terms) s.store.sources t.store.sources

/-- the keys that the record goes by -/
structure RecordKeys (s : Store) : Prop where
  events : Keyed s
  clusters : ClusterKeys s

section
variable {U : Unicode} {sha : Text → Text} {P : CallEnv → Prop} {s t u : Sources}

theorem Terms.Kept.trans {a b c : Terms} (h : a.Kept b) (k : b.Kept c) : a.Kept c :=
  ⟨fun hr => k.reviewed (h.reviewed hr), fun flag hf => k.flags flag (h.flags flag hf),
    fun text ht hf => k.texts text ht (h.texts text ht hf), fun hr => k.robots (h.robots hr),
    fun hu => k.termsUrl (h.termsUrl hu)⟩

theorem SourceContinued.refl (terms : Nat → Terms) (x : Source) : SourceContinued terms terms x x :=
  ⟨rfl, rfl, .refl _, fun hf => hf⟩

theorem SourceContinued.trans {terms terms' terms'' : Nat → Terms} {x y z : Source}
    (h : SourceContinued terms terms' x y) (k : SourceContinued terms' terms'' y z) :
    SourceContinued terms terms'' x z :=
  ⟨k.key.trans h.key, k.slug.trans h.slug, h.terms.trans k.terms,
    fun hf => k.fullText (h.fullText hf)⟩

theorem Sources.Extends.refl (s : Sources) : s.Extends s :=
  ⟨.refl _, List.prefix_refl _, .refl fun x _ => .refl s.terms x⟩

theorem Sources.Extends.trans (h : s.Extends t) (k : t.Extends u) : s.Extends u :=
  ⟨h.record.trans k.record, h.runs.trans k.runs,
    h.sources.trans k.sources fun _ _ _ hxy hyz => hxy.trans hyz⟩

/-! ## every change -/

/-- the sources after a change -/
theorem sources_change (hl : Lawful s) (h : Change U sha P s t) :
    Grows (SourceContinued s.terms t.terms) s.store.sources t.store.sources := by
  cases change_sources h with
  | none hsources hterms =>
    rw [hsources, hterms]
    exact .refl fun x _ => .refl s.terms x
  | added row terms hid hnext hoff hbare hnew hsources hterms =>
    rw [hsources, hterms]
    refine .append (fun x hx => ⟨rfl, rfl, ?_, fun hf => hf⟩) _
    rw [hid, Function.update_of_ne (Nat.ne_of_lt (hl.sources.fresh x hx))]
    exact .refl _
  | put x row terms hx hid hslug hkept henabled hfull hstill hsources hterms =>
    rw [hsources, hterms]
    refine grows_replace (fun r hr hrk => ?_) fun r _ hrk => ⟨rfl, rfl, ?_, fun hf => hf⟩
    · have hsame : some r = some x := by
        rw [← lookup_of_mem hl.sources.nodup hr, ← lookup_of_mem hl.sources.nodup hx, hrk, hid]
      cases hsame
      refine ⟨hid, hslug, ?_, hstill⟩
      rw [Function.update_self]
      exact hkept
    · -- the terms of the other sources are the same
      rw [Function.update_of_ne hrk]
      exact .refl _

/-- the tables of the record after a change -/
theorem record_change (hk : RecordKeys s.store) (h : Change U sha P s t) :
    GeoRisk.Extends s.store t.store ∧ RecordKeys t.store := by
  have hnext := change_nextId h
  have hdocuments := change_documents h
  cases change_record h with
  | same hsame =>
    refine ⟨⟨hnext, hdocuments, ?_, ?_, ?_, ?_, ?_, ?_⟩, ?_, ?_⟩
    · rw [hsame.chunks]
    · rw [hsame.prompts]
    · rw [hsame.entities]
    · rw [hsame.extractions]
    · rw [hsame.clusters]
      exact .refl fun c _ => .refl c
    · rw [hsame.events]
      exact .refl fun e _ => .refl e
    · exact hk.events.of_map (by rw [hsame.events]) hnext
    · exact hk.clusters.of_map (by rw [hsame.clusters]) hnext
  | processed documentId env hw hP hf =>
    obtain ⟨hextends, hclusters⟩ := fire_extends hk.events hk.clusters hf
    exact ⟨hextends, keyed_step hk.events hf, hclusters⟩
  | decided eventId input hf =>
    obtain ⟨hextends, hclusters⟩ := fire_extends hk.events hk.clusters hf
    exact ⟨hextends, keyed_step hk.events hf, hclusters⟩

theorem Evolved.keyed (h : Evolved U sha P s) : RecordKeys s.store :=
  h.invariant (I := fun s => RecordKeys s.store) ⟨Numbered.nil, Numbered.nil⟩
    fun _ _ _ hk hc => (record_change hk hc).2

/-- **Every change extends the database.** -/
theorem extends_change (hs : Evolved U sha P s) (h : Change U sha P s t) : s.Extends t := by
  refine ⟨(record_change hs.keyed h).1, ?_, sources_change hs.lawful h⟩
  cases change_intake h with
  | none hdocuments hruns => rw [hruns]
  | ran source now run added hx hb hin hterms =>
    rw [hin.runs hs.lawful.runs]
    exact List.prefix_append _ _

theorem Changes.extends (hs : Evolved U sha P s) (h : Changes U sha P s t) : s.Extends t :=
  h.relation .refl .trans (fun _ _ => extends_change) hs

/-- **In every run of the system, with one call at a time, however it is interrupted, a later
committed database extends an earlier one**: no row is lost; documents, runs, chunks, prompts,
entities and extractions are as they were written; events and clusters have changed as they may, and
no event without a document or a decision that accounts for it; and once a source has a terms
review, a reviewer, a page, a note, a licence, a robots check, a flag or the leave to keep full
text, it has one ever after. -/
theorem history_of_run {as bs : List SystemAct} {s t : System}
    (has : exec (systemFire U sha) .empty as = some s) (hbs : exec (systemFire U sha) s bs = some t) :
    s.committed.Extends t.committed := by
  have hs : s.Sound U sha fun _ => True := system_of_run (fun a _ => a.meets_true) has
  exact (changes_of_run (fun a _ => a.meets_true) hs hbs).extends hs.evolved

end

/-- the database between the two halves of the tick, and after it -/
theorem history_of_run_firstTick :
    ∃ s t, exec (systemFire Unicode.latin id) .empty (Sample.firstTick.take 5) = some s ∧
      exec (systemFire Unicode.latin id) s (Sample.firstTick.drop 5) = some t ∧
      t.session.committed.events.length = 1 ∧ s.committed.Extends t.committed := by
  obtain ⟨t, ht, _, hevents, _⟩ := Sample.firstTick_done
  rw [← List.take_append_drop 5 Sample.firstTick, exec_append_eq_some] at ht
  obtain ⟨s, hs, ht⟩ := ht
  exact ⟨s, t, hs, ht, hevents, history_of_run hs ht⟩

end GeoRisk
