import GeoRisk.Kit.Growth
import GeoRisk.Processing.Written
import GeoRisk.Record.Run
import GeoRisk.Review.Audit

/-!
# The record is a history

No call deletes a row.  Documents, chunks, prompts, entities and extractions are written once;
clusters and events change in place, and an event never without a row that accounts for the change.

* `Event.Continued`           an event and what it became: its rows are kept, title, type and date are
                              what the recorded decisions make of them, and nothing changes without
                              a linked document or a decision;
* `EventCluster.Continued`    a cluster and what it became;
* `Extends`                   all tables of a store and a later one, a preorder;
* `fire_extends`              every call extends the store.
-/

namespace GeoRisk
open Kit

/-- the event with the changes of the decisions made again -/
def replayed (rows : List ReviewDecision) (e : Event) : Event :=
  rows.foldl (fun e row => row.changes.foldl (fun e c => setField e c.2) e) e

/-- an event and what it became -/
structure Event.Continued (e f : Event) : Prop where
  key : f.eventId = e.eventId
  fixed : f.clusterId = e.clusterId ∧ f.summary = e.summary ∧ f.status = e.status ∧
    f.firstSeenAt = e.firstSeenAt ∧ f.createdAt = e.createdAt
  documents : e.documents <+: f.documents
  evidence : e.evidence <+: f.evidence
  rows : e.locations <+: f.locations ∧ e.actors <+: f.actors ∧ e.sectors <+: f.sectors
  edits : ∃ added, f.reviewDecisions = e.reviewDecisions ++ added ∧
    ∀ v, v.field ≠ .severity → currentOf f v = currentOf (replayed added e) v
  /-- nothing changes without a linked document or a decision -/
  silent : f.documents = e.documents → f.reviewDecisions = e.reviewDecisions → f = e

/-- a cluster and what it became -/
structure EventCluster.Continued (c c' : EventCluster) : Prop where
  key : c'.id = c.id
  firstSeenAt : c'.firstSeenAt = c.firstSeenAt
  memberCount : c.memberCount ≤ c'.memberCount
  lastUpdatedAt : ∀ m ∈ c.lastUpdatedAt, ∃ m' ∈ c'.lastUpdatedAt, m ≤ m'

/-- the tables of the record, and of a later one -/
structure Extends (s t : Store) : Prop where
  nextId : s.nextId ≤ t.nextId
  documents : s.documents <+: t.documents
  chunks : s.chunks <+: t.chunks
  prompts : s.prompts <+: t.prompts
  entities : s.entities <+: t.entities
  extractions : s.extractions <+: t.extractions
  clusters : Grows EventCluster.Continued s.clusters t.clusters
  events : Grows Event.Continued s.events t.events

/-! ## replaying decisions -/

section
variable {e f g : Event}

/-- what an edit leaves in a field depends on the field alone -/
theorem currentOf_setField_congr {v : Edited} (h : currentOf e v = currentOf f v) (w : Edited) :
    currentOf (setField e w) v = currentOf (setField f w) v := by
  by_cases hw : w.field = v.field
  · rw [currentOf_setField hw, currentOf_setField hw]
  · rw [currentOf_setField_ne hw, currentOf_setField_ne hw, h]

theorem currentOf_changes_congr {v : Edited} (changes : List (Edited × Edited))
    (h : currentOf e v = currentOf f v) :
    currentOf (changes.foldl (fun e c => setField e c.2) e) v =
      currentOf (changes.foldl (fun e c => setField e c.2) f) v := by
  induction changes generalizing e f with
  | nil => exact h
  | cons c rest ih => exact ih (currentOf_setField_congr h c.2)

theorem currentOf_replayed_congr {v : Edited} (rows : List ReviewDecision)
    (h : currentOf e v = currentOf f v) :
    currentOf (replayed rows e) v = currentOf (replayed rows f) v := by
  unfold replayed
  induction rows generalizing e f with
  | nil => exact h
  | cons row rows ih => exact ih (currentOf_changes_congr row.changes h)

theorem replayed_append (rows more : List ReviewDecision) (e : Event) :
    replayed (rows ++ more) e = replayed more (replayed rows e) := List.foldl_append

/-! ## one event -/

theorem Event.Continued.refl (e : Event) : e.Continued e :=
  ⟨rfl, ⟨rfl, rfl, rfl, rfl, rfl⟩, List.prefix_refl _, List.prefix_refl _,
    ⟨List.prefix_refl _, List.prefix_refl _, List.prefix_refl _⟩,
    ⟨[], (List.append_nil _).symm, fun _ _ => rfl⟩, fun _ _ => rfl⟩

theorem Event.Continued.trans (h : e.Continued f) (k : f.Continued g) : e.Continued g := by
  obtain ⟨added, hadded, hedits⟩ := h.edits
  obtain ⟨more, hmore, hmedits⟩ := k.edits
  obtain ⟨hcluster, hsummary, hstatus, hseen, hcreated⟩ := h.fixed
  obtain ⟨kcluster, ksummary, kstatus, kseen, kcreated⟩ := k.fixed
  refine ⟨k.key.trans h.key, ⟨kcluster.trans hcluster, ksummary.trans hsummary,
    kstatus.trans hstatus, kseen.trans hseen, kcreated.trans hcreated⟩,
    h.documents.trans k.documents, h.evidence.trans k.evidence,
    ⟨h.rows.1.trans k.rows.1, h.rows.2.1.trans k.rows.2.1, h.rows.2.2.trans k.rows.2.2⟩, ?_, ?_⟩
  · refine ⟨added ++ more, by rw [hmore, hadded, List.append_assoc], fun v hv => ?_⟩
    rw [hmedits v hv, replayed_append]
    exact currentOf_replayed_congr more (hedits v hv)
  · intro hdocuments hdecisions
    obtain ⟨hd, kd⟩ := eq_of_prefix_between h.documents k.documents hdocuments
    have hpre : e.reviewDecisions <+: f.reviewDecisions := by
      rw [hadded]
      exact List.prefix_append _ _
    have kpre : f.reviewDecisions <+: g.reviewDecisions := by
      rw [hmore]
      exact List.prefix_append _ _
    obtain ⟨hr, kr⟩ := eq_of_prefix_between hpre kpre hdecisions
    exact (k.silent kd kr).trans (h.silent hd hr)

theorem continued_mergeEvent (U : Unicode) (e : Event) (r : Report) :
    e.Continued (mergeEvent U e r) := by
  obtain ⟨severity, rationale, confidence, flag, status, note, h⟩ := mergeEvent_eq U e r
  refine ⟨?_, ?_, ?_, ?_, ?_, ⟨[], ?_, ?_⟩, ?_⟩
  · rw [h]
    rfl
  · rw [h]
    exact ⟨rfl, rfl, rfl, rfl, rfl⟩
  · rw [h]
    exact List.prefix_append _ _
  · rw [h]
    exact List.prefix_append _ _
  · rw [h]
    exact ⟨List.prefix_append _ _, prefix_addActors _ _, List.prefix_append _ _⟩
  · rw [h, List.append_nil]
    rfl
  · intro v hv
    rw [h]
    cases v with
    | severity value => exact absurd rfl hv
    | title value => rfl
    | eventType value => rfl
    | eventDate value => rfl
  · -- a merge links a document
    intro hd
    rw [(mergeEvent_links U e r).2.1] at hd
    exact absurd (List.append_right_eq_self.mp hd) (List.cons_ne_nil _ _)

theorem continued_decided (e : Event) (id : Nat) (input : DecisionInput) (verb : ReviewVerb)
    (changes : List (Edited × Edited)) : e.Continued (decided e id input verb changes) := by
  obtain ⟨title, eventType, eventDate, severity, rationale, h⟩ := applyEdits_eq e input changes
  have hdecided : decided e id input verb changes =
      { e with
        title := title, eventType := eventType, eventDate := eventDate, severity := severity
        severityRationale := rationale
        reviewStatus := (decided e id input verb changes).reviewStatus
        requiresHumanReview := (decided e id input verb changes).requiresHumanReview
        lastUpdatedAt := some input.decidedAt
        reviewDecisions := e.reviewDecisions ++ [decisionRow id input verb changes] } := by
    unfold decided
    rw [h]
    cases verb <;> rfl
  refine ⟨?_, ?_, ?_, ?_, ?_, ⟨[decisionRow id input verb changes], ?_, ?_⟩, ?_⟩
  · rw [hdecided]
  · rw [hdecided]
    exact ⟨rfl, rfl, rfl, rfl, rfl⟩
  · rw [hdecided]
  · rw [hdecided]
  · rw [hdecided]
    exact ⟨List.prefix_refl _, List.prefix_refl _, List.prefix_refl _⟩
  · rw [hdecided]
  · intro v _
    exact currentOf_decided e id input verb changes v
  · -- a decision has a row
    intro _ hr
    rw [hdecided] at hr
    exact absurd (List.append_right_eq_self.mp hr) (List.cons_ne_nil _ _)

end

/-! ## one cluster -/

section
variable {c c' c'' : EventCluster}

theorem EventCluster.Continued.refl (c : EventCluster) : c.Continued c :=
  ⟨rfl, rfl, le_refl _, fun m hm => ⟨m, hm, Int.le_refl _⟩⟩

theorem EventCluster.Continued.trans (h : c.Continued c') (k : c'.Continued c'') :
    c.Continued c'' := by
  refine ⟨k.key.trans h.key, k.firstSeenAt.trans h.firstSeenAt,
    le_trans h.memberCount k.memberCount, fun m hm => ?_⟩
  obtain ⟨m', hm', hle⟩ := h.lastUpdatedAt m hm
  obtain ⟨m'', hm'', hle'⟩ := k.lastUpdatedAt m' hm'
  exact ⟨m'', hm'', DateTime.le_trans hle hle'⟩

theorem joinCluster_firstSeenAt {sqrt : ℚ → ℚ} {v : Vector} {now : DateTime}
    (h : joinCluster sqrt c v now = .ok c') : c'.firstSeenAt = c.firstSeenAt := by
  unfold joinCluster at h
  simp only at h
  split at h
  · cases h
    rfl
  · split at h
    · cases h
      rfl
    · split at h
      · cases h
      · cases h
        rfl

/-- a cluster that a document joins -/
theorem continued_joinCluster {sqrt : ℚ → ℚ} {v : Vector} {now : DateTime}
    (h : joinCluster sqrt c v now = .ok c') : c.Continued c' := by
  have hj := joinCluster_ok h
  refine ⟨hj.id, joinCluster_firstSeenAt h, ?_, fun m hm => ⟨_, hj.lastUpdatedAt, ?_⟩⟩
  · rw [hj.memberCount]
    exact Nat.le_succ _
  · rw [hm]
    exact DateTime.le_latest_left _ _

end

/-! ## all tables -/

/-- cluster keys are distinct and were drawn from the counter -/
def ClusterKeys (s : Store) : Prop := Numbered EventCluster.id s.clusters s.nextId

section
variable {U : Unicode} {s t u : Store} {a : Act}

theorem Extends.refl (s : Store) : Extends s s :=
  ⟨le_refl _, List.prefix_refl _, List.prefix_refl _, List.prefix_refl _, List.prefix_refl _,
    List.prefix_refl _, .refl fun c _ => .refl c, .refl fun e _ => .refl e⟩

theorem Extends.trans (h : Extends s t) (k : Extends t u) : Extends s u where
  nextId := le_trans h.nextId k.nextId
  documents := h.documents.trans k.documents
  chunks := h.chunks.trans k.chunks
  prompts := h.prompts.trans k.prompts
  entities := h.entities.trans k.entities
  extractions := h.extractions.trans k.extractions
  clusters := h.clusters.trans k.clusters fun _ _ _ hxy hyz => hxy.trans hyz
  events := h.events.trans k.events fun _ _ _ hxy hyz => hxy.trans hyz

/-- a call on a stored document that returns has written all tables -/
theorem fire_written {documentId : Nat} {env : CallEnv}
    (h : fire U s (.process documentId env) = some t) :
    ∃ document p o request verify, s.document? documentId = some document ∧
      (extractDocument env.provider request verify env.allowEscalation).outcome = .ok o ∧
      Written U env document p o s t := by
  obtain ⟨document, hd, h⟩ := Option.bind_eq_some_iff.mp h
  obtain ⟨⟨t', res⟩, hr, rfl⟩ := Option.map_eq_some_iff.mp h
  obtain ⟨p, o, request, verify, ho, hw⟩ := processDocument_written (eq_ok_of_toOption hr)
  exact ⟨document, p, o, request, verify, hd, ho, hw⟩

/-- an assignment changes the cluster that is joined, or adds one -/
theorem assigned_clusters {f : Filing} {clusters clusters' : List EventCluster}
    {cluster : EventCluster} {found : ClusterMatch} {next next' : Nat}
    (hk : Numbered EventCluster.id clusters next) (hkey : next ≤ f.clusterKey ∧ f.clusterKey < next')
    (h : f.assign clusters = .ok (clusters', cluster, found)) :
    Grows EventCluster.Continued clusters clusters' ∧
      Numbered EventCluster.id clusters' next' := by
  have hle : next ≤ next' := le_trans hkey.1 (Nat.le_of_lt hkey.2)
  unfold Filing.assign assignToCluster at h
  split at h
  · cases h
  · simp only at h
    split at h
    · next c hmatch =>
      split at h
      · cases h
      · next joined hjoin =>
        cases h
        have hc : c ∈ clusters := by
          split at hmatch
          · obtain ⟨i, _, hfind⟩ := Option.bind_eq_some_iff.mp hmatch
            exact List.mem_of_find?_eq_some hfind
          · cases hmatch
        have hcont := continued_joinCluster hjoin
        have hreplaced : (clusters.map fun c => if c.id = cluster.id then cluster else c) =
            replace EventCluster.id cluster clusters := rfl
        rw [hreplaced]
        refine ⟨grows_replace ?_ fun r _ _ => .refl r, hk.of_map (map_replace _ _) hle⟩
        intro r hr hrk
        -- keys are distinct, so only the joined cluster is replaced
        have hsame : some r = some c := by
          rw [← lookup_of_mem hk.nodup hr, ← lookup_of_mem hk.nodup hc, hrk, hcont.key]
        cases hsame
        exact hcont
    · cases h
      exact ⟨.append (fun c _ => .refl c) _, hk.append hkey.1 hkey.2⟩

/-- filing a report changes one cluster or adds one -/
theorem files_clusters {env : CallEnv} {document : RawDocument} {f : Filing} (hk : ClusterKeys s)
    (h : Files U env document s t f) :
    Grows EventCluster.Continued s.clusters t.clusters ∧ ClusterKeys t := by
  have hfile := h.file
  unfold Shelf.file at hfile
  split at hfile
  · cases hfile
  · next clusters cluster found hassign =>
    have hclusters : t.clusters = clusters := (congrArg Shelf.clusters (Except.ok.inj hfile)).symm
    obtain ⟨hgrows, hkeys⟩ := assigned_clusters hk h.clusterKey hassign
    unfold ClusterKeys
    rw [hclusters]
    exact ⟨hgrows, hkeys⟩

/-- a report becomes an event, or changes one -/
theorem entered_events {r : Report} {e : Event} (hk : Keyed s) (h : Entered U r s t e) :
    Grows Event.Continued s.events t.events := by
  cases h with
  | created id clusterId hid hcluster hevents hactors =>
    rw [hevents]
    exact .append (fun e _ => .refl e) _
  | merged existing hmem hnew hevents hactors =>
    rw [hevents]
    refine grows_replace (fun x hx hkey => ?_) fun x _ _ => .refl x
    rw [(mergeEvent_links U existing r).1] at hkey
    have hsame : some x = some existing := by
      rw [← lookup_of_mem hk.nodup hx, ← lookup_of_mem hk.nodup hmem, hkey]
    cases hsame
    exact continued_mergeEvent U _ r

theorem prefix_adjoin (rows new : List Entity) : rows <+: adjoin rows new := by
  obtain ⟨added, h, _⟩ := adjoin_append rows new
  rw [h]
  exact List.prefix_append _ _

theorem written_extends {env : CallEnv} {document : RawDocument} {p : Nat} {o : ExtractionOutcome}
    (hk : Keyed s) (hc : ClusterKeys s) (h : Written U env document p o s t) :
    Extends s t ∧ ClusterKeys t := by
  obtain ⟨added, hchunks, _⟩ := h.chunks
  have hdocuments : s.documents <+: t.documents := by rw [h.unrelated.documents]
  have hpchunks : s.chunks <+: t.chunks := by
    rw [hchunks]
    exact List.prefix_append _ _
  have hprompts : s.prompts <+: t.prompts := by
    rcases h.prompts with hp | ⟨hp, _⟩
    · rw [hp]
    · rw [hp]
      exact List.prefix_append _ _
  cases h.record with
  | telemetry v hshelf hentities hrows =>
    have hclusters : t.clusters = s.clusters := congrArg Shelf.clusters hshelf
    have hevents : t.events = s.events := congrArg Shelf.events hshelf
    refine ⟨⟨h.unrelated.nextId, hdocuments, hpchunks, hprompts, ?_, ?_, ?_, ?_⟩,
      hc.of_map (by rw [hclusters]) h.unrelated.nextId⟩
    · rw [hentities]
    · rw [hrows]
      exact List.prefix_append _ _
    · rw [hclusters]
      exact .refl fun c _ => .refl c
    · rw [hevents]
      exact .refl fun e _ => .refl e
  | published f event hgate hfinal hfiles hrecord hentities hrows =>
    obtain ⟨hgrows, hkeys⟩ := files_clusters hc hfiles
    refine ⟨⟨h.unrelated.nextId, hdocuments, hpchunks, hprompts, ?_, ?_, hgrows,
      entered_events hk hrecord⟩, hkeys⟩
    · obtain ⟨names, hnames⟩ := hentities
      rw [hnames]
      exact prefix_adjoin _ _
    · rw [hrows]
      exact List.prefix_append _ _

/-- **Every call extends the store.** -/
theorem fire_extends (hk : Keyed s) (hc : ClusterKeys s) (h : fire U s a = some t) :
    Extends s t ∧ ClusterKeys t := by
  cases a with
  | source row =>
    cases h
    exact ⟨{ Extends.refl s with nextId := Nat.le_succ _ }, hc.of_map rfl (Nat.le_succ _)⟩
  | document row =>
    cases h
    exact ⟨{ Extends.refl s with
      nextId := Nat.le_succ _
      documents := List.prefix_append _ _ }, hc.of_map rfl (Nat.le_succ _)⟩
  | process documentId env =>
    obtain ⟨document, p, o, _, _, _, _, hw⟩ := fire_written h
    exact written_extends hk hc hw
  | decide eventId input =>
    obtain ⟨e, he, rfl | ⟨verb, changes, _, rfl⟩⟩ := fire_decide h
    · exact ⟨.refl _, hc⟩
    · refine ⟨{ Extends.refl s with nextId := Nat.le_succ _, events := ?_ },
        hc.of_map rfl (Nat.le_succ _)⟩
      refine grows_replace (fun x hx hkey => ?_) fun x _ _ => .refl x
      have hmem := lookup_mem he
      rw [(decided_links e s.nextId input verb changes).1] at hkey
      have hsame : some x = some e := by
        rw [← lookup_of_mem hk.nodup hx, ← lookup_of_mem hk.nodup hmem, hkey]
      cases hsame
      exact continued_decided _ s.nextId input verb changes

end

end GeoRisk
