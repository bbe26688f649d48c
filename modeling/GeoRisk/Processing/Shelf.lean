import Mathlib.Data.List.TakeDrop
import GeoRisk.Processing.Effect

/-!
# The consolidation of a report

What `process_document` does to `event_clusters` and `events` once a report has passed its gates, as
one function of these two tables: the document joins a cluster or starts one, and its report is
merged into the latest active event of the cluster or becomes a new event.

* `Filing`, `Shelf.file`     a report on its way to a record, and the tables afterwards;
* `assignToCluster_ok`       what an assignment does to the clusters;
* `Filed`                    what filing a report does to both tables (`file_ok`);
* `eventsOf`                 the events of a cluster, and what a merge does to them;
* `processDocument_shelf`    a call that returns files one report or leaves the tables alone.
-/

namespace GeoRisk
open Kit

/-- clusters and events -/
structure Shelf where
  clusters : List EventCluster := []
  events : List Event := []

def Store.shelf (s : Store) : Shelf := ⟨s.clusters, s.events⟩

/-- `_latest_active_event` -/
def Shelf.latestActiveEvent (s : Shelf) (clusterId : Nat) : Option Event :=
  Store.latestOf none (s.events.filter fun e =>
    decide (e.clusterId = some clusterId) && decide (e.status = .active))

/-- a report on its way to a record: the centroid of its document, the surroundings of the cluster
search, and the keys for new rows -/
structure Filing where
  report : Report
  vector : Vector
  ranking : Ranking
  sqrt : ℚ → ℚ
  clusterKey : Nat
  eventKey : Nat

/-- `assign_to_cluster` for the report -/
def Filing.assign (f : Filing) (clusters : List EventCluster) :
    Except Text (List EventCluster × EventCluster × ClusterMatch) :=
  assignToCluster f.sqrt f.ranking clusters f.clusterKey f.vector f.report.published

/-- the event that the report of a document in the cluster is merged into -/
def Shelf.target (s : Shelf) (cluster : EventCluster) (found : ClusterMatch) : Option Event :=
  if found.isNew then none else s.latestActiveEvent cluster.id

/-- the events with the report merged into its target, or as a new event -/
def Filing.enter (U : Unicode) (f : Filing) (clusterId : Nat) (events : List Event) :
    Option Event → List Event
  | some existing => replace Event.eventId (mergeEvent U existing f.report) events
  | none => events ++ [newEvent f.eventKey clusterId f.report]

/-- cluster, then event -/
def Shelf.file (U : Unicode) (s : Shelf) (f : Filing) : Except Text Shelf :=
  match f.assign s.clusters with
  | .error e => .error e
  | .ok (clusters, cluster, found) =>
    .ok ⟨clusters, f.enter U cluster.id s.events (s.target cluster found)⟩

section
variable {U : Unicode} {f : Filing} {s t : Shelf} {clusters clusters' : List EventCluster}
  {cluster : EventCluster} {found : ClusterMatch}

/-! ## clusters -/

/-- the document is close enough in time to what the cluster has seen -/
def WithinWindow (c : EventCluster) (reference : DateTime) : Prop :=
  ∀ seen ∈ c.lastUpdatedAt.or c.firstSeenAt, reference.distance seen ≤ timeWindow

theorem bestMatch_ok {sqrt : ℚ → ℚ} {v : Vector} {reference : DateTime}
    {best : Option (ℚ × EventCluster)} {candidates : List EventCluster} {q : ℚ} {c : EventCluster}
    (h : bestMatch sqrt v reference best candidates = .ok (some (q, c))) :
    best = some (q, c) ∨ (c ∈ candidates ∧ WithinWindow c reference) := by
  induction candidates generalizing best with
  | nil => cases h; exact Or.inl rfl
  | cons x rest ih =>
    have hrest : ∀ {b : Option (ℚ × EventCluster)},
        bestMatch sqrt v reference b rest = .ok (some (q, c)) →
        b = some (q, c) ∨ (c ∈ x :: rest ∧ WithinWindow c reference) :=
      fun hb => (ih hb).imp_right fun hc => ⟨List.mem_cons_of_mem _ hc.1, hc.2⟩
    unfold bestMatch at h
    split at h
    · exact hrest h
    · split at h
      · cases h
      · split at h
        · exact hrest h
        · simp only at h
          split at h
          · exact hrest h
          · next hwindow =>
            split at h
            · rcases hrest h with hb | hb
              · cases hb
                refine Or.inr ⟨List.mem_cons_self .., fun seen hseen => ?_⟩
                by_contra hfar
                refine hwindow ?_
                rw [hseen]
                exact decide_eq_true (not_le.mp hfar)
              · exact Or.inr hb
            · exact hrest h

theorem findMatchingCluster_ok {sqrt : ℚ → ℚ} {ranking : Ranking} {v : Vector} {reference : DateTime}
    (h : findMatchingCluster sqrt ranking clusters v reference = .ok found)
    (hm : found.matched = true) :
    found.isNew = false ∧
      ∃ c ∈ clusters, found.clusterId = some c.id ∧ WithinWindow c reference := by
  unfold findMatchingCluster at h
  split at h
  · cases h; cases hm
  · simp only at h
    split at h
    · cases h
    · cases h; cases hm
    · next q c hbest =>
      cases h
      refine ⟨rfl, c, ?_, rfl, ?_⟩
      · rcases bestMatch_ok hbest with hb | ⟨hc, _⟩
        · cases hb
        · have hc := (ranking.order_perm _ _).mem_iff.mp (List.mem_of_mem_take hc)
          exact List.mem_of_mem_filter hc
      · rcases bestMatch_ok hbest with hb | ⟨_, hw⟩
        · cases hb
        · exact hw

/-- the row of a cluster that a document joins -/
structure Joined (c joined : EventCluster) (published : DateTime) : Prop where
  id : joined.id = c.id
  memberCount : joined.memberCount = c.memberCount + 1
  lastUpdatedAt : joined.lastUpdatedAt = some ((c.lastUpdatedAt.getD published).latest published)

theorem joinCluster_ok {sqrt : ℚ → ℚ} {c joined : EventCluster} {v : Vector} {now : DateTime}
    (h : joinCluster sqrt c v now = .ok joined) : Joined c joined now := by
  unfold joinCluster at h
  simp only at h
  split at h
  · cases h; exact ⟨rfl, rfl, rfl⟩
  · split at h
    · cases h; exact ⟨rfl, rfl, rfl⟩
    · split at h
      · cases h
      · cases h; exact ⟨rfl, rfl, rfl⟩

/-- what an assignment does to the clusters -/
inductive Assigned (f : Filing) (clusters : List EventCluster) :
    List EventCluster → EventCluster → ClusterMatch → Prop
  | joined (c joined : EventCluster) (found : ClusterMatch) (hc : c ∈ clusters)
      (hw : WithinWindow c f.report.published) (hj : Joined c joined f.report.published)
      (hnew : found.isNew = false) :
      Assigned f clusters (replace EventCluster.id joined clusters) joined found
  | started (c : EventCluster) (found : ClusterMatch) (hid : c.id = f.clusterKey)
      (hcount : c.memberCount = 1) (hlast : c.lastUpdatedAt = some f.report.published)
      (hnew : found.isNew = true) : Assigned f clusters (clusters ++ [c]) c found

/-- **An assignment joins a cluster inside the time window or starts a new one.** -/
theorem assignToCluster_ok (hkeys : (clusters.map EventCluster.id).Nodup)
    (h : f.assign clusters = .ok (clusters', cluster, found)) :
    Assigned f clusters clusters' cluster found := by
  unfold Filing.assign assignToCluster at h
  split at h
  · cases h
  · next found' hfound =>
    simp only at h
    split at h
    · next c hmatch =>
      split at h
      · cases h
      · next joined hjoin =>
        cases h
        split at hmatch
        · next hm =>
          obtain ⟨hnew, x, hx, hxid, hw⟩ := findMatchingCluster_ok hfound hm
          rw [hxid, Option.bind_some] at hmatch
          -- keys are distinct, so the row that is loaded is the one that matched
          have hsame : some x = some c := (lookup_of_mem hkeys hx).symm.trans hmatch
          cases hsame
          exact .joined _ _ _ hx hw (joinCluster_ok hjoin) hnew
        · cases hmatch
    · cases h
      exact .started _ _ rfl rfl rfl rfl

/-! ## both tables -/

/-- what filing a report does to clusters and events -/
inductive Filed (U : Unicode) (f : Filing) (s : Shelf) : Shelf → Prop
  | merged (c joined : EventCluster) (existing : Event) (hc : c ∈ s.clusters)
      (hw : WithinWindow c f.report.published) (hj : Joined c joined f.report.published)
      (he : s.latestActiveEvent joined.id = some existing) :
      Filed U f s ⟨replace EventCluster.id joined s.clusters,
        replace Event.eventId (mergeEvent U existing f.report) s.events⟩
  | reopened (c joined : EventCluster) (hc : c ∈ s.clusters)
      (hw : WithinWindow c f.report.published) (hj : Joined c joined f.report.published)
      (he : s.latestActiveEvent joined.id = none) :
      Filed U f s ⟨replace EventCluster.id joined s.clusters,
        s.events ++ [newEvent f.eventKey joined.id f.report]⟩
  | started (c : EventCluster) (hid : c.id = f.clusterKey) (hcount : c.memberCount = 1)
      (hlast : c.lastUpdatedAt = some f.report.published) :
      Filed U f s ⟨s.clusters ++ [c], s.events ++ [newEvent f.eventKey c.id f.report]⟩

/-- **What filing a report does.** -/
theorem file_ok (hkeys : (s.clusters.map EventCluster.id).Nodup) (h : s.file U f = .ok t) :
    Filed U f s t := by
  unfold Shelf.file at h
  split at h
  · cases h
  · next clusters cluster found hassign =>
    cases h
    unfold Shelf.target
    cases assignToCluster_ok hkeys hassign with
    | joined c joined found hc hw hj hnew =>
      rw [hnew, if_neg Bool.false_ne_true]
      cases he : s.latestActiveEvent cluster.id with
      | some existing => exact .merged c cluster existing hc hw hj he
      | none => exact .reopened c cluster hc hw hj he
    | started c found hid hcount hlast hnew =>
      rw [hnew, if_pos rfl]
      exact .started cluster hid hcount hlast

end

/-! ## the events of a cluster -/

/-- the events of a cluster -/
def eventsOf (i : Nat) (events : List Event) : List Event :=
  events.filter fun e => decide (e.clusterId = some i)

section
variable {events : List Event} {e e' : Event} {i : Nat} {s : Shelf}

theorem mem_eventsOf : e ∈ eventsOf i events ↔ e ∈ events ∧ e.clusterId = some i := by
  unfold eventsOf
  rw [List.mem_filter, decide_eq_true_eq]

/-- a changed event stays in its cluster -/
theorem eventsOf_replace (hk : (events.map Event.eventId).Nodup) (he : e ∈ events)
    (hid : e'.eventId = e.eventId) (hc : e'.clusterId = e.clusterId) (i : Nat) :
    eventsOf i (replace Event.eventId e' events) =
      replace Event.eventId e' (eventsOf i events) := by
  refine filter_replace fun r hr hkey => ?_
  have hsame : some r = some e := by
    rw [← lookup_of_mem hk hr, ← lookup_of_mem hk he, hkey, hid]
  rw [Option.some.inj hsame, hc]

theorem eventsOf_replace_home (hk : (events.map Event.eventId).Nodup) (he : e ∈ events)
    (hid : e'.eventId = e.eventId) (hc : e'.clusterId = e.clusterId) (hi : e.clusterId = some i)
    {x : Event} (hone : eventsOf i events = [x]) :
    x = e ∧ eventsOf i (replace Event.eventId e' events) = [e'] := by
  have hx : e ∈ eventsOf i events := mem_eventsOf.mpr ⟨he, hi⟩
  rw [hone] at hx
  have hx := List.mem_singleton.mp hx
  refine ⟨hx.symm, ?_⟩
  rw [eventsOf_replace hk he hid hc, hone, ← hx]
  show [if e.eventId = e'.eventId then e' else e] = [e']
  rw [if_pos hid.symm]

theorem eventsOf_replace_other (hk : (events.map Event.eventId).Nodup) (he : e ∈ events)
    (hid : e'.eventId = e.eventId) (hc : e'.clusterId = e.clusterId) (hi : e.clusterId ≠ some i) :
    eventsOf i (replace Event.eventId e' events) = eventsOf i events := by
  rw [eventsOf_replace hk he hid hc, replace_of_ne]
  intro r hr hkey
  obtain ⟨hr, hri⟩ := mem_eventsOf.mp hr
  have hsame : some r = some e := by
    rw [← lookup_of_mem hk hr, ← lookup_of_mem hk he, hkey, hid]
  exact hi (Option.some.inj hsame ▸ hri)

theorem eventsOf_append (hi : e.clusterId ≠ some i) :
    eventsOf i (events ++ [e]) = eventsOf i events := by
  unfold eventsOf
  rw [List.filter_append, List.filter_cons_of_neg, List.filter_nil, List.append_nil]
  rw [decide_eq_true_eq]
  exact hi

theorem latestActiveEvent_eq (s : Shelf) (i : Nat) : s.latestActiveEvent i =
    Store.latestOf none ((eventsOf i s.events).filter fun e => decide (e.status = .active)) := by
  have hsplit : (fun e : Event => decide (e.clusterId = some i) && decide (e.status = .active)) =
      fun e => decide (e.status = .active) && decide (e.clusterId = some i) :=
    funext fun e => Bool.and_comm _ _
  unfold Shelf.latestActiveEvent eventsOf
  rw [hsplit, List.filter_filter]

/-- the latest active event of a cluster with one event -/
theorem latestActiveEvent_one (hone : eventsOf i s.events = [e]) (hactive : e.status = .active) :
    s.latestActiveEvent i = some e := by
  have hpass : [e].filter (fun e => decide (e.status = .active)) = [e] := by
    rw [List.filter_eq_self]
    intro x hx
    rw [List.mem_singleton.mp hx]
    exact decide_eq_true hactive
  rw [latestActiveEvent_eq, hone, hpass]
  rfl

theorem latestActiveEvent_ok (h : s.latestActiveEvent i = some e) :
    e ∈ s.events ∧ e.clusterId = some i := by
  rw [latestActiveEvent_eq] at h
  rcases Store.latestOf_mem h with h | h
  · cases h
  · exact mem_eventsOf.mp (List.mem_of_mem_filter h)

end

/-! ## the calls of `process_document` -/

section
variable {U : Unicode} {env : CallEnv} {store store' : Store} {document : RawDocument}
  {o : ExtractionOutcome}

theorem createEvent_shelf {clusterId p : Nat} {r : Report} {event : Event}
    (h : createEvent env store clusterId r p o = .ok (store', event)) :
    store'.shelf = ⟨store.clusters, store.events ++ [newEvent store.nextId clusterId r]⟩ := by
  obtain ⟨_, _, h⟩ := bind_eq_ok.mp h
  obtain ⟨entities, _, h⟩ := bind_eq_ok.mp h
  obtain ⟨s, hs, h⟩ := bind_eq_ok.mp h
  obtain ⟨_, _, h⟩ := bind_eq_ok.mp h
  cases h
  rw [recordExtractions_ok hs]
  rfl

theorem mergeIntoExisting_shelf {existing event : Event} {r : Report} {p : Nat}
    (h : mergeIntoExisting env store U existing r p o = .ok (store', event)) :
    store'.shelf =
      ⟨store.clusters, replace Event.eventId (mergeEvent U existing r) store.events⟩ := by
  obtain ⟨entities, _, h⟩ := bind_eq_ok.mp h
  obtain ⟨_, _, h⟩ := bind_eq_ok.mp h
  obtain ⟨s, hs, h⟩ := bind_eq_ok.mp h
  obtain ⟨_, _, h⟩ := bind_eq_ok.mp h
  cases h
  rw [recordExtractions_ok hs]
  rfl

/-- what is left of `process_document` behind the gates files the report -/
theorem publish_shelf {r : Report} {p : Nat} {record : Published}
    (h : publish env store U document r p o = .ok (store', record)) :
    store.nextId < store'.nextId ∧
    ∃ vector, store.shelf.file U ⟨r, vector, env.ranking, env.sqrt, store.nextId, store.nextId + 1⟩ =
      .ok store'.shelf := by
  obtain ⟨_, _, h⟩ := bind_eq_ok.mp h
  obtain ⟨vector, _, h⟩ := bind_eq_ok.mp h
  obtain ⟨⟨clusters, cluster, found⟩, hassign, h⟩ := bind_eq_ok.mp h
  have hassign : (⟨r, vector, env.ranking, env.sqrt, store.nextId, store.nextId + 1⟩ :
      Filing).assign store.shelf.clusters = .ok (clusters, cluster, found) := hassign
  simp only at h
  split at h
  · next existing he =>
    obtain ⟨⟨s, event⟩, hm, h⟩ := bind_eq_ok.mp h
    cases h
    refine ⟨(mergeIntoExisting_ok hm).2.2.2.nextId, vector, ?_⟩
    have htarget : store.shelf.target cluster found = some existing := he
    unfold Shelf.file
    simp only [hassign]
    rw [htarget, mergeIntoExisting_shelf hm]
    rfl
  · next he =>
    obtain ⟨⟨s, event⟩, hc, h⟩ := bind_eq_ok.mp h
    cases h
    refine ⟨lt_trans (Nat.lt_succ_self _) (createEvent_ok hc).2.2.2.2, vector, ?_⟩
    have htarget : store.shelf.target cluster found = none := he
    unfold Shelf.file
    simp only [hassign]
    rw [htarget, createEvent_shelf hc]
    rfl

theorem recordOnly_shelf {n p : Nat} {v : Option VerificationReport} {outcome : PipelineOutcome}
    {reasons : List Text} {res : PipelineResult}
    (h : recordOnly env store document n p o v outcome reasons = .ok (store', res)) :
    store'.shelf = store.shelf := by
  obtain ⟨s, hs, h⟩ := bind_eq_ok.mp h
  cases h
  rw [recordExtractions_ok hs]
  rfl

/-- a call of `process_document` has filed the report of its document -/
structure Files (U : Unicode) (env : CallEnv) (document : RawDocument) (before after : Store)
    (f : Filing) : Prop where
  documentId : f.report.documentId = document.id
  published : f.report.published = document.publishedAt.getD env.now
  clusterKey : before.nextId ≤ f.clusterKey ∧ f.clusterKey < after.nextId
  file : before.shelf.file U f = .ok after.shelf

theorem settle_shelf {source : Source} {n p : Nat} {res : PipelineResult}
    (h : settle env store U document source n p o = .ok (store', res)) :
    store'.shelf = store.shelf ∨ ∃ f, Files U env document store store' f := by
  rcases settle_cases h with ⟨_, _, _, h⟩ | ⟨_, event, record, _, _, hp⟩
  · exact Or.inl (recordOnly_shelf h)
  · obtain ⟨hlt, vector, hfile⟩ := publish_shelf hp
    exact Or.inr ⟨_, rfl, rfl, ⟨le_refl _, hlt⟩, hfile⟩

/-- **A call that returns files one report or leaves clusters and events alone.** -/
theorem processDocument_shelf {res : PipelineResult}
    (h : (processDocument env store U document).result = .ok (store', res)) :
    store'.shelf = store.shelf ∨ ∃ f, Files U env document store store' f := by
  obtain ⟨source, s, n, p, o, _, _, hp, _, _, h⟩ := processDocument_steps h
  have hq := prepare_silent hp
  have hshelf : s.shelf = store.shelf := by
    unfold Store.shelf
    rw [hq.clusters, hq.events]
  rcases settle_shelf h with hs | ⟨f, hf⟩
  · exact Or.inl (hs.trans hshelf)
  · refine Or.inr ⟨f, hf.documentId, hf.published, ?_, hshelf ▸ hf.file⟩
    exact ⟨le_trans hq.nextId hf.clusterKey.1, hf.clusterKey.2⟩

end

end GeoRisk
