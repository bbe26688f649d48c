import GeoRisk.Kit.Join
import GeoRisk.Record.Order

/-!
# What a record says

The places and organisations of a record, up to the keys that decide whether a name is known, and its
sectors.  A report brings those that its verified quotes support, and a merge does nothing to these
but join them: it does not matter in which order reports arrive, or which arrives twice.  Which of
two spellings of one key a row has, with its type, country or role, is up to the order.

* `Event.facts`, `Report.facts`     what a record and a report say, up to the keys of names;
* `Report.offers`                   the part of a report that its quotes support;
* `facts_joins`, `elapsed_joins`    merges are joins;
* `facts_mergeAll`                  what a record says after any merges;
* `merges_converge`                 the same reports make the same record, up to the keys of names
                                    and what the last report decides.
-/

namespace GeoRisk
open Kit

/-- keys of places, keys of organisations, sectors -/
abbrev Facts := Set Text × Set Text × Set Sector

section
variable (U : Unicode)

/-- what a record says; the rows of one key count once, whatever else they say -/
def Event.facts (e : Event) : Facts :=
  ({k | ∃ l ∈ e.locations, key U l.name = k},
    {k | ∃ a ∈ e.actors, key U a.entity.canonicalName = k}, {x | x ∈ e.sectors})

/-- what a report says, up to the keys of its names -/
def Report.facts (r : Report) : Facts :=
  ({k | ∃ l ∈ r.event.locations, key U l.name.text = k},
    {k | ∃ a ∈ r.event.actors, key U a.name.text = k}, {x | x ∈ r.event.affectedSectors})

/-- a quote of the report mentions the name -/
def Report.mentions (r : Report) (name : Text) : Prop :=
  truthy (quoteMentioning U r.verification.quotes name) = true

/-- what the verified quotes of a report support -/
def Report.offers (r : Report) : Facts :=
  ({k | ∃ l ∈ r.event.locations, key U l.name.text = k ∧ r.mentions U l.name.text},
    {k | ∃ a ∈ r.event.actors, key U a.name.text = k ∧ r.mentions U a.name.text},
    {x | x ∈ r.event.affectedSectors ∧
      truthy (quoteFor U r.verification.quotes .affectedSectors) = true})

end

/-- the times up to the last update -/
def Event.elapsed (e : Event) : Set DateTime := {t | ∃ m ∈ e.lastUpdatedAt, t ≤ m}

section
variable {U : Unicode} {e : Event} {r : Report}

theorem facts_newEvent (U : Unicode) (i c : Nat) (r : Report) :
    (newEvent i c r).facts U = r.facts U := by
  refine Prod.ext ?_ (Prod.ext ?_ ?_)
  · ext k
    constructor
    · rintro ⟨row, hrow, rfl⟩
      obtain ⟨l, hl, rfl⟩ := List.mem_map.mp hrow
      exact ⟨l, hl, rfl⟩
    · rintro ⟨l, hl, rfl⟩
      exact ⟨l.row, List.mem_map_of_mem hl, rfl⟩
  · ext k
    constructor
    · rintro ⟨row, hrow, rfl⟩
      rcases mem_addActors.mp hrow with hrow | ⟨a, ha, rfl⟩
      · exact absurd hrow List.not_mem_nil
      · exact ⟨a, ha, rfl⟩
    · rintro ⟨a, ha, rfl⟩
      exact ⟨a.row, mem_addActors.mpr (Or.inr ⟨a, ha, rfl⟩), rfl⟩
  · ext x
    show x ∈ fromKeys [] r.event.affectedSectors ↔ x ∈ r.event.affectedSectors
    rw [mem_fromKeys]
    exact or_iff_right List.not_mem_nil

/-! ## merges -/

/-- the names that a merge adds are those that are offered and not known -/
theorem mem_newNames {names known : List Text} {name : Text} :
    name ∈ groundedAdditions U names known r.verification.quotes ↔
      name ∈ names ∧ key U name ∉ known ∧ r.mentions U name := mem_groundedAdditions U

theorem places_mergeEvent (U : Unicode) (e : Event) (r : Report) :
    ((mergeEvent U e r).facts U).1 = (e.facts U).1 ∪ (r.offers U).1 := by
  have hknown : ∀ k, k ∈ (snapshot U e).locationNames ↔ k ∈ (e.facts U).1 := fun k => by
    unfold snapshot Event.facts
    simp only [List.mem_map, Set.mem_ofPred_eq]
  ext k
  show (∃ l ∈ (mergeEvent U e r).locations, key U l.name = k) ↔ _
  rw [(mergeEvent_rows U e r).1]
  constructor
  · rintro ⟨row, hrow, rfl⟩
    rcases List.mem_append.mp hrow with hrow | hrow
    · exact Or.inl ⟨row, hrow, rfl⟩
    · obtain ⟨l, hl, rfl⟩ := List.mem_map.mp hrow
      obtain ⟨hl, hnew⟩ := List.mem_filter.mp hl
      exact Or.inr ⟨l, hl, rfl, (mem_newNames.mp (of_decide_eq_true hnew)).2.2⟩
  · rintro (⟨row, hrow, rfl⟩ | ⟨l, hl, rfl, hm⟩)
    · exact ⟨row, List.mem_append_left _ hrow, rfl⟩
    · by_cases hk : key U l.name.text ∈ (e.facts U).1
      · obtain ⟨row, hrow, he⟩ := hk
        exact ⟨row, List.mem_append_left _ hrow, he⟩
      · refine ⟨l.row, List.mem_append_right _ (List.mem_map_of_mem (List.mem_filter.mpr ⟨hl, ?_⟩)),
          rfl⟩
        exact decide_eq_true (mem_newNames.mpr
          ⟨List.mem_map_of_mem hl, fun hin => hk ((hknown _).mp hin), hm⟩)

theorem actors_mergeEvent (U : Unicode) (e : Event) (r : Report) :
    ((mergeEvent U e r).facts U).2.1 = (e.facts U).2.1 ∪ (r.offers U).2.1 := by
  have hknown : ∀ k, k ∈ (snapshot U e).actorNames ↔ k ∈ (e.facts U).2.1 := fun k => by
    unfold snapshot Event.facts
    simp only [List.mem_map, Set.mem_ofPred_eq]
  ext k
  show (∃ a ∈ (mergeEvent U e r).actors, key U a.entity.canonicalName = k) ↔ _
  rw [(mergeEvent_rows U e r).2.1]
  constructor
  · rintro ⟨row, hrow, rfl⟩
    rcases mem_addActors.mp hrow with hrow | ⟨a, ha, rfl⟩
    · exact Or.inl ⟨row, hrow, rfl⟩
    · obtain ⟨ha, hnew⟩ := List.mem_filter.mp ha
      exact Or.inr ⟨a, ha, rfl, (mem_newNames.mp (of_decide_eq_true hnew)).2.2⟩
  · rintro (⟨row, hrow, rfl⟩ | ⟨a, ha, rfl, hm⟩)
    · exact ⟨row, mem_addActors.mpr (Or.inl hrow), rfl⟩
    · by_cases hk : key U a.name.text ∈ (e.facts U).2.1
      · obtain ⟨row, hrow, he⟩ := hk
        exact ⟨row, mem_addActors.mpr (Or.inl hrow), he⟩
      · refine ⟨a.row, mem_addActors.mpr (Or.inr ⟨a, List.mem_filter.mpr ⟨ha, ?_⟩, rfl⟩), rfl⟩
        exact decide_eq_true (mem_newNames.mpr
          ⟨List.mem_map_of_mem ha, fun hin => hk ((hknown _).mp hin), hm⟩)

theorem sectors_mergeEvent (U : Unicode) (e : Event) (r : Report) :
    ((mergeEvent U e r).facts U).2.2 = (e.facts U).2.2 ∪ (r.offers U).2.2 := by
  ext x
  show x ∈ (mergeEvent U e r).sectors ↔ x ∈ e.sectors ∨ (x ∈ r.event.affectedSectors ∧ _)
  rw [(mergeEvent_rows U e r).2.2.1, List.mem_append]
  show (_ ∨ x ∈ (if truthy (quoteFor U r.verification.quotes .affectedSectors) then
    sectorAdditions e.sectors [] r.event.affectedSectors else [])) ↔ _
  cases truthy (quoteFor U r.verification.quotes .affectedSectors) with
  | false => simp
  | true =>
    rw [if_pos rfl, mem_sectorAdditions]
    constructor
    · rintro (hx | hx | ⟨hx, _⟩)
      · exact Or.inl hx
      · exact absurd hx List.not_mem_nil
      · exact Or.inr ⟨hx, rfl⟩
    · rintro (hx | ⟨hx, _⟩)
      · exact Or.inl hx
      · by_cases hin : x ∈ e.sectors
        · exact Or.inl hin
        · exact Or.inr (Or.inr ⟨hx, hin⟩)

/-- **A merge joins what the report offers.** -/
theorem facts_joins (U : Unicode) :
    Joins (Event.facts U) (mergeEvent U) (Report.offers U) := fun e r =>
  Prod.ext (places_mergeEvent U e r) (Prod.ext (actors_mergeEvent U e r) (sectors_mergeEvent U e r))

/-- **A merge moves the time of the last update on to that of the report.** -/
theorem elapsed_joins (U : Unicode) :
    Joins Event.elapsed (mergeEvent U) fun r : Report => {t | t ≤ r.published} := by
  intro e r
  obtain ⟨severity, rationale, confidence, flag, status, note, h⟩ := mergeEvent_eq U e r
  have hlast : (mergeEvent U e r).lastUpdatedAt =
      if e.lastUpdatedAt.all fun t => decide (t < r.published) then some r.published
      else e.lastUpdatedAt := by
    rw [h]
    rfl
  ext t
  show (∃ m ∈ (mergeEvent U e r).lastUpdatedAt, t ≤ m) ↔ (∃ m ∈ e.lastUpdatedAt, t ≤ m) ∨ t ≤ _
  rw [hlast]
  cases e.lastUpdatedAt with
  | none => simp
  | some m =>
    rw [Option.all_some]
    by_cases hlt : m < r.published
    · rw [if_pos (decide_eq_true hlt)]
      simp only [Option.mem_some_iff, exists_eq_left']
      refine ⟨Or.inr, ?_⟩
      rintro (hle | hle)
      · exact DateTime.le_trans hle (Int.le_of_lt hlt)
      · exact hle
    · rw [if_neg fun ha => hlt (of_decide_eq_true ha)]
      simp only [Option.mem_some_iff, exists_eq_left']
      refine ⟨Or.inl, ?_⟩
      rintro (hle | hle)
      · exact hle
      · exact DateTime.le_trans hle (Int.not_lt.mp hlt)

theorem lastUpdatedAt_of_elapsed {e f : Event} (h : e.elapsed = f.elapsed) :
    e.lastUpdatedAt = f.lastUpdatedAt := by
  have hone : ∀ {e f : Event}, e.elapsed = f.elapsed → ∀ m ∈ e.lastUpdatedAt,
      ∃ m' ∈ f.lastUpdatedAt, m ≤ m' := by
    intro e f hef m hm
    have hin : m ∈ e.elapsed := ⟨m, hm, Int.le_refl _⟩
    rw [hef] at hin
    exact hin
  cases he : e.lastUpdatedAt with
  | none =>
    cases hf : f.lastUpdatedAt with
    | none => rfl
    | some m =>
      obtain ⟨m', hm', _⟩ := hone h.symm m hf
      rw [he] at hm'
      cases hm'
  | some m =>
    obtain ⟨m', hm', hle⟩ := hone h m he
    obtain ⟨m'', hm'', hle'⟩ := hone h.symm m' hm'
    rw [he] at hm''
    cases hm''
    have heq : m = m' := by
      have hmicros : m.micros = m'.micros := Int.le_antisymm hle hle'
      cases m
      cases m'
      exact congrArg DateTime.mk hmicros
    rw [heq]
    exact hm'.symm

/-! ## any number of merges -/

theorem facts_mergeAll (U : Unicode) (e : Event) (reports : List Report) :
    (mergeAll U e reports).facts U = e.facts U ⊔ ⨆ r ∈ reports, r.offers U :=
  (facts_joins U).foldl e reports

/-- merges append the links and the quotes of their reports, and rewrite no text -/
theorem mergeAll_links (U : Unicode) (e : Event) (reports : List Report) :
    (mergeAll U e reports).documents.map (·.documentId) =
        e.documents.map (·.documentId) ++ reports.map (·.documentId) ∧
      (mergeAll U e reports).evidence = e.evidence ++ reports.flatMap Report.evidence ∧
      (mergeAll U e reports).title = e.title ∧ (mergeAll U e reports).summary = e.summary ∧
      (mergeAll U e reports).eventType = e.eventType ∧
      (mergeAll U e reports).eventDate = e.eventDate := by
  induction reports generalizing e with
  | nil => simp [mergeAll]
  | cons r reports ih =>
    obtain ⟨hdocuments, hevidence, htitle, hsummary, htype, hdate⟩ := ih (mergeEvent U e r)
    obtain ⟨_, hd, hq⟩ := mergeEvent_links U e r
    obtain ⟨ht, hdt, hti, hsu, _, _⟩ := mergeEvent_fixed U e r
    rw [hd, List.map_append, List.append_assoc] at hdocuments
    rw [hq, List.append_assoc] at hevidence
    exact ⟨hdocuments, hevidence, htitle.trans hti, hsummary.trans hsu, htype.trans ht,
      hdate.trans hdt⟩

/-- **The same reports, merged in any order, make a record that says the same**: places and
organisations under the same keys, the same sectors, quotes and documents, the same time of the last
update, under the title, summary, type and date that it had. -/
theorem merges_converge {reports reports' : List Report} (h : reports.Perm reports') :
    (mergeAll U e reports).facts U = (mergeAll U e reports').facts U ∧
      (mergeAll U e reports).lastUpdatedAt = (mergeAll U e reports').lastUpdatedAt ∧
      (mergeAll U e reports).evidence.Perm (mergeAll U e reports').evidence ∧
      ((mergeAll U e reports).documents.map (·.documentId)).Perm
        ((mergeAll U e reports').documents.map (·.documentId)) ∧
      (mergeAll U e reports).title = (mergeAll U e reports').title ∧
      (mergeAll U e reports).summary = (mergeAll U e reports').summary ∧
      (mergeAll U e reports).eventType = (mergeAll U e reports').eventType ∧
      (mergeAll U e reports).eventDate = (mergeAll U e reports').eventDate := by
  obtain ⟨hd, hq, htitle, hsummary, htype, hdate⟩ := mergeAll_links U e reports
  obtain ⟨hd', hq', htitle', hsummary', htype', hdate'⟩ := mergeAll_links U e reports'
  refine ⟨(facts_joins U).congr fun r => h.mem_iff,
    lastUpdatedAt_of_elapsed ((elapsed_joins U).congr fun r => h.mem_iff), ?_, ?_,
    htitle.trans htitle'.symm, hsummary.trans hsummary'.symm, htype.trans htype'.symm,
    hdate.trans hdate'.symm⟩
  · rw [hq, hq']
    exact (h.flatMap_right _).append_left _
  · rw [hd, hd']
    exact (h.map _).append_left _

end

theorem merges_converge_swapped :
    [Sample.report .severe, Sample.laterReport .moderate].Perm
        [Sample.laterReport .moderate, Sample.report .severe] ∧
      (mergeAll Unicode.latin Sample.waiting
          [Sample.report .severe, Sample.laterReport .moderate]).facts Unicode.latin =
        (mergeAll Unicode.latin Sample.waiting
          [Sample.laterReport .moderate, Sample.report .severe]).facts Unicode.latin :=
  have hswap : [Sample.report .severe, Sample.laterReport .moderate].Perm
      [Sample.laterReport .moderate, Sample.report .severe] := List.Perm.swap _ _ _
  ⟨hswap, (merges_converge hswap).1⟩

end GeoRisk
