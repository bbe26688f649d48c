import GeoRisk.Processing.Pipeline

/-!
# What a merge may change

Nothing changes on a record without a verified quote from the new document.  `compare` takes the
decision from names and labels, and four loops of `_merge_into_existing` apply it to rows; here is
what holds between the record before and after.

* `Grounded U r e e'`      every change from `e` to `e'` is backed by a verified quote of `r`;
* `mergeEvent_grounded`    the changes of a merge are;
* `redelivered`            a report that has been stored or merged adds nothing when it comes again.
-/

namespace GeoRisk
open Kit

/-- every change is backed by a verified quote of the report, and a duplicate changes nothing but
the time of the last update and the links -/
structure Grounded (U : Unicode) (r : Report) (e e' : Event) : Prop where
  fixed : e'.eventType = e.eventType ∧ e'.eventDate = e.eventDate ∧ e'.title = e.title ∧
    e'.summary = e.summary
  severity : e'.severity ≠ e.severity → Labelled U r.verification.quotes .severity
  locations : ∃ added, e'.locations = e.locations ++ added ∧
    ∀ l ∈ added, Mentioned U r.verification.quotes l.name ∧
      ∀ m ∈ e.locations, key U m.name ≠ key U l.name
  actors : ∃ added, e'.actors = e.actors ++ added ∧
    ∀ a ∈ added, Mentioned U r.verification.quotes a.entity.canonicalName ∧
      ∀ b ∈ e.actors, key U b.entity.canonicalName ≠ key U a.entity.canonicalName
  sectors : ∃ added, e'.sectors = e.sectors ++ added ∧
    ∀ x ∈ added, Labelled U r.verification.quotes .affectedSectors ∧ x ∉ e.sectors
  evidence : ∃ added, e'.evidence = e.evidence ++ added
  confidence : e'.confidence = e.confidence ∨
    ∃ c c', e.confidence = some c ∧ e'.confidence = some c' ∧ c' ≤ c
  duplicate : (consolidation U e r).relation = .duplicate → e' = { e with
    lastUpdatedAt := e'.lastUpdatedAt, documents := e'.documents, evidence := e'.evidence }

section
variable {U : Unicode} {e : Event} {r : Report}

/-! ## the decision -/

theorem mem_newLocations {name : Text} (h : name ∈ (consolidation U e r).newLocations) :
    Mentioned U r.verification.quotes name ∧ ∀ m ∈ e.locations, key U m.name ≠ key U name := by
  obtain ⟨_, hk, hm⟩ := (mem_groundedAdditions U).mp h
  refine ⟨mentioned_of_quoteMentioning U hm, ?_⟩
  intro m hm he
  apply hk
  rw [← he]
  exact List.mem_map_of_mem (f := fun l : EventLocation => key U l.name) hm

theorem mem_newActors {name : Text} (h : name ∈ (consolidation U e r).newActors) :
    Mentioned U r.verification.quotes name ∧
      ∀ b ∈ e.actors, key U b.entity.canonicalName ≠ key U name := by
  obtain ⟨_, hk, hm⟩ := (mem_groundedAdditions U).mp h
  refine ⟨mentioned_of_quoteMentioning U hm, ?_⟩
  intro b hb he
  apply hk
  rw [← he]
  exact List.mem_map_of_mem (f := fun a : EventActor => key U a.entity.canonicalName) hb

theorem mem_newSectors {x : Sector} (h : x ∈ (consolidation U e r).newSectors) :
    Labelled U r.verification.quotes .affectedSectors ∧ x ∉ e.sectors := by
  unfold consolidation compare at h
  simp only at h
  split at h
  · next hq =>
    rcases (mem_sectorAdditions).mp h with h | h
    · cases h
    · exact ⟨labelled_of_quoteFor U hq, h.2⟩
  · cases h

/-! ## the changes -/

theorem mergeEvent_confidence (U : Unicode) (e : Event) (r : Report) :
    (mergeEvent U e r).confidence =
      if (consolidation U e r).relation = .update then e.confidence.map (min · r.confidence)
      else e.confidence := by
  obtain ⟨_, _, _, hc, _⟩ := applyContent_keeps r (consolidation U e r) e
  show (applyReview U r _ (applyContent r (consolidation U e r) e)).confidence = _
  unfold applyReview
  split
  · show (applyContent r (consolidation U e r) e).confidence.map _ = _
    rw [hc]
  · exact hc

theorem mergeEvent_severity_labelled (h : (mergeEvent U e r).severity ≠ e.severity) :
    Labelled U r.verification.quotes .severity := by
  rw [mergeEvent_severity] at h
  split at h
  · next hq => exact labelled_of_quoteFor U hq
  · exact absurd rfl h

theorem added_locations :
    ∃ added, (mergeEvent U e r).locations = e.locations ++ added ∧
      ∀ l ∈ added, Mentioned U r.verification.quotes l.name ∧
        ∀ m ∈ e.locations, key U m.name ≠ key U l.name := by
  refine ⟨_, (mergeEvent_rows U e r).1, ?_⟩
  intro l hl
  obtain ⟨x, hx, rfl⟩ := List.mem_map.mp hl
  exact mem_newLocations (of_decide_eq_true (List.mem_filter.mp hx).2)

theorem added_actors :
    ∃ added, (mergeEvent U e r).actors = e.actors ++ added ∧
      ∀ a ∈ added, Mentioned U r.verification.quotes a.entity.canonicalName ∧
        ∀ b ∈ e.actors, key U b.entity.canonicalName ≠ key U a.entity.canonicalName := by
  rw [(mergeEvent_rows U e r).2.1]
  obtain ⟨added, hrows, hadded⟩ := addActors_append e.actors
    (r.event.actors.filter fun a => a.name.text ∈ (consolidation U e r).newActors)
  refine ⟨added, hrows, ?_⟩
  intro a ha
  obtain ⟨x, hx, rfl⟩ := hadded a ha
  exact mem_newActors (of_decide_eq_true (List.mem_filter.mp hx).2)

/-- **Nothing changes on a record without a verified quote from the new document.** -/
theorem mergeEvent_grounded (U : Unicode) (e : Event) (r : Report) :
    Grounded U r e (mergeEvent U e r) := by
  obtain ⟨htype, hdate, htitle, hsummary, _⟩ := mergeEvent_fixed U e r
  refine ⟨⟨htype, hdate, htitle, hsummary⟩, mergeEvent_severity_labelled, added_locations,
    added_actors, ?_, ⟨_, (mergeEvent_links U e r).2.2⟩, ?_, ?_⟩
  · exact ⟨_, (mergeEvent_rows U e r).2.2.1, fun x hx => mem_newSectors hx⟩
  · rw [mergeEvent_confidence]
    split
    · cases e.confidence with
      | none => exact Or.inl rfl
      | some c => exact Or.inr ⟨c, min c r.confidence, rfl, rfl, min_le_left _ _⟩
    · exact Or.inl rfl
  · intro hd
    have hne : (consolidation U e r).relation ≠ .update := by
      rw [hd]
      exact DocumentRelation.noConfusion
    rw [mergeEvent_eq_of_duplicate hne]
    rfl

/-! ## a report that comes again -/

/-- nothing is added where every name and sector that the quotes support is on the record -/
theorem additions_of_covered
    (hl : ∀ l ∈ r.event.locations, truthy (quoteMentioning U r.verification.quotes l.name.text) →
      ∃ m ∈ e.locations, key U m.name = key U l.name.text)
    (ha : ∀ a ∈ r.event.actors, truthy (quoteMentioning U r.verification.quotes a.name.text) →
      ∃ b ∈ e.actors, key U b.entity.canonicalName = key U a.name.text)
    (hs : truthy (quoteFor U r.verification.quotes .affectedSectors) →
      ∀ x ∈ r.event.affectedSectors, x ∈ e.sectors) :
    (consolidation U e r).additions = false := by
  rw [Consolidation.additions_eq_false]
  refine ⟨?_, ?_, ?_⟩
  · rw [List.eq_nil_iff_forall_not_mem]
    intro name hname
    obtain ⟨hin, hk, hm⟩ := (mem_groundedAdditions U).mp hname
    obtain ⟨l, hlm, rfl⟩ := List.mem_map.mp hin
    obtain ⟨m, hme, hkey⟩ := hl l hlm hm
    exact (mem_newLocations hname).2 m hme hkey
  · rw [List.eq_nil_iff_forall_not_mem]
    intro name hname
    obtain ⟨hin, hk, hm⟩ := (mem_groundedAdditions U).mp hname
    obtain ⟨a, ham, rfl⟩ := List.mem_map.mp hin
    obtain ⟨b, hbe, hkey⟩ := ha a ham hm
    exact (mem_newActors hname).2 b hbe hkey
  · unfold consolidation compare
    simp only
    split
    · next hq =>
      rw [List.eq_nil_iff_forall_not_mem]
      intro x hx
      rcases mem_sectorAdditions.mp hx with h | ⟨hx, hk⟩
      · cases h
      · exact hk (hs hq x hx)
    · rfl

/-- a record with the reported severity has no change of severity to apply or to hold back -/
theorem severity_settled (h : e.severity = r.event.severity) :
    (consolidation U e r).applied = [] ∧ (consolidation U e r).ungrounded = [] := by
  have hs : severityChange U (snapshot U e) r.event r.verification.quotes = [] := by
    unfold severityChange
    rw [if_neg]
    intro hne
    exact hne h.symm
  unfold consolidation compare
  simp only
  rw [hs]
  exact ⟨ite_self _, ite_self _⟩

theorem conflicts_eq_nil :
    (consolidation U e r).conflicts = [] ↔
      r.event.eventType = e.eventType ∧ r.event.eventDate = e.eventDate := by
  show conflictsOf U (snapshot U e) r.event r.verification.quotes = [] ↔ _
  unfold conflictsOf
  rw [List.append_eq_nil_iff]
  by_cases ht : r.event.eventType = e.eventType <;> by_cases hd : r.event.eventDate = e.eventDate
  · simp [snapshot, ht, hd]
  · simp [snapshot, ht, hd]
  · simp [snapshot, ht]
  · simp [snapshot, ht]

theorem additions_newEvent (U : Unicode) (id clusterId : Nat) (r : Report) :
    (consolidation U (newEvent id clusterId r) r).additions = false := by
  apply additions_of_covered
  · intro l hl _
    exact ⟨l.row, List.mem_map_of_mem hl, rfl⟩
  · intro a ha _
    exact ⟨a.row, mem_addActors.mpr (Or.inr ⟨a, ha, rfl⟩), rfl⟩
  · intro _ x hx
    exact mem_fromKeys.mpr (Or.inr hx)

/-- **A report that has become an event is a duplicate of it.** -/
theorem newEvent_redelivered (U : Unicode) (id clusterId : Nat) (r : Report) :
    (consolidation U (newEvent id clusterId r) r).relation = .duplicate := by
  have hs : (consolidation U (newEvent id clusterId r) r).applied = [] ∧
      (consolidation U (newEvent id clusterId r) r).ungrounded = [] := severity_settled rfl
  exact Consolidation.relation_eq_duplicate.mpr
    ⟨hs.1, conflicts_eq_nil.mpr ⟨rfl, rfl⟩, hs.2, additions_newEvent U id clusterId r⟩

/-- what the first delivery added or found is on the record at the second -/
theorem additions_mergeEvent (U : Unicode) (e : Event) (r : Report) :
    (consolidation U (mergeEvent U e r) r).additions = false := by
  obtain ⟨hlocs, hacts, hsecs, _⟩ := mergeEvent_rows U e r
  apply additions_of_covered
  · intro l hl hm
    rw [hlocs]
    by_cases hk : key U l.name.text ∈ (snapshot U e).locationNames
    · obtain ⟨m, hme, hkey⟩ := List.mem_map.mp hk
      exact ⟨m, List.mem_append_left _ hme, hkey⟩
    · have hnew : l.name.text ∈ (consolidation U e r).newLocations :=
        (mem_groundedAdditions U).mpr ⟨List.mem_map_of_mem hl, hk, hm⟩
      have hrow : l ∈ r.event.locations.filter fun l =>
          l.name.text ∈ (consolidation U e r).newLocations :=
        List.mem_filter.mpr ⟨hl, decide_eq_true hnew⟩
      exact ⟨l.row, List.mem_append_right _ (List.mem_map_of_mem hrow), rfl⟩
  · intro a ha hm
    rw [hacts]
    by_cases hk : key U a.name.text ∈ (snapshot U e).actorNames
    · obtain ⟨b, hbe, hkey⟩ := List.mem_map.mp hk
      exact ⟨b, mem_addActors.mpr (Or.inl hbe), hkey⟩
    · have hnew : a.name.text ∈ (consolidation U e r).newActors :=
        (mem_groundedAdditions U).mpr ⟨List.mem_map_of_mem ha, hk, hm⟩
      have hrow : a ∈ r.event.actors.filter fun a =>
          a.name.text ∈ (consolidation U e r).newActors :=
        List.mem_filter.mpr ⟨ha, decide_eq_true hnew⟩
      exact ⟨a.row, mem_addActors.mpr (Or.inr ⟨a, hrow, rfl⟩), rfl⟩
  · intro hq x hx
    rw [hsecs]
    by_cases hk : x ∈ e.sectors
    · exact List.mem_append_left _ hk
    · apply List.mem_append_right
      unfold consolidation compare
      simp only
      rw [if_pos hq]
      exact mem_sectorAdditions.mpr (Or.inr ⟨hx, hk⟩)

theorem applied_mergeEvent (U : Unicode) (e : Event) (r : Report) :
    (consolidation U (mergeEvent U e r) r).applied = [] := by
  cases hq : truthy (quoteFor U r.verification.quotes .severity) with
  | false =>
    unfold consolidation compare
    simp only
    rw [hq]
    rfl
  | true =>
    have hs : (mergeEvent U e r).severity = r.event.severity := by
      rw [mergeEvent_severity, if_pos hq]
    exact (severity_settled hs).1

theorem ungrounded_mergeEvent (h : (consolidation U e r).ungrounded = []) :
    (consolidation U (mergeEvent U e r) r).ungrounded = [] := by
  cases hq : truthy (quoteFor U r.verification.quotes .severity) with
  | true =>
    unfold consolidation compare
    simp only
    rw [hq]
    rfl
  | false =>
    -- the first delivery held nothing back, so the record had the reported severity
    unfold consolidation compare severityChange at h
    simp only [hq, Bool.false_eq_true, if_false, ite_eq_right_iff, List.cons_ne_nil,
      imp_false, not_not] at h
    apply (severity_settled _).2
    rw [mergeEvent_severity, hq, if_neg Bool.false_ne_true]
    exact h.symm

/-- **A report that comes again applies nothing and adds nothing, and is a duplicate if it was first
delivered without a conflict or an unsupported change.** -/
theorem redelivered (U : Unicode) (r : Report) :
    (∀ id clusterId, (consolidation U (newEvent id clusterId r) r).relation = .duplicate) ∧
    ∀ e, (consolidation U (mergeEvent U e r) r).applied = [] ∧
      (consolidation U (mergeEvent U e r) r).additions = false ∧
      ((consolidation U e r).conflicts = [] → (consolidation U e r).ungrounded = [] →
        (consolidation U (mergeEvent U e r) r).relation = .duplicate) := by
  refine ⟨fun id clusterId => newEvent_redelivered U id clusterId r, ?_⟩
  intro e
  refine ⟨applied_mergeEvent U e r, additions_mergeEvent U e r, ?_⟩
  intro hc hu
  obtain ⟨htype, hdate, _⟩ := mergeEvent_fixed U e r
  refine Consolidation.relation_eq_duplicate.mpr ⟨applied_mergeEvent U e r, ?_,
    ungrounded_mergeEvent hu, additions_mergeEvent U e r⟩
  rw [conflicts_eq_nil, htype, hdate]
  exact conflicts_eq_nil.mp hc

end

end GeoRisk
