import GeoRisk.Processing.Shelf
import GeoRisk.Record.Gate

/-!
# The books of the clusters

Cluster rows and event rows are written by different functions.  Whatever the calls of a run do, each
cluster stands for one event, counts its documents and knows the last of them.

* `stamp`               the time of a document: its publication, or the time it was processed;
* `Bookkept as s c e`   `e` is the one event of the cluster `c`, and the row of `c` agrees with it;
* `Clustered`           every cluster is kept, every event has one, and every linked document was
                        processed;
* `clusters_of_run`     so it is after every run, and a document that joins a cluster is within the
                        time window of the last one.
-/

namespace GeoRisk
open Kit

/-- the documents that were processed -/
def processedIds (as : List Act) : List Nat :=
  as.filterMap fun
    | .process id _ => some id
    | _ => none

/-- when the document was first processed -/
def processedAt (as : List Act) (id : Nat) : Option DateTime :=
  as.findSome? fun
    | .process i env => if i = id then some env.now else none
    | _ => none

/-- `published_at`, or the processing time -/
def stamp (as : List Act) (s : Store) (id : Nat) : Option DateTime :=
  (s.document? id).bind fun d => d.publishedAt.or (processedAt as id)

/-- the latest time of the documents of the event -/
def IsLatest (as : List Act) (s : Store) (e : Event) (m : DateTime) : Prop :=
  (∃ d ∈ e.documents, stamp as s d.documentId = some m) ∧
    ∀ d ∈ e.documents, ∃ t, stamp as s d.documentId = some t ∧ t ≤ m

/-- the event is the one of its cluster, whose row agrees with it -/
structure Bookkept (as : List Act) (s : Store) (c : EventCluster) (e : Event) : Prop where
  one : eventsOf c.id s.events = [e]
  memberCount : c.memberCount = e.documents.length
  lastUpdatedAt : ∃ m, c.lastUpdatedAt = some m ∧ IsLatest as s e m

/-- every cluster is kept, every event has one, and every linked document was processed -/
structure Clustered (as : List Act) (s : Store) : Prop where
  keys : Numbered EventCluster.id s.clusters s.nextId
  bookkept : ∀ c ∈ s.clusters, ∃ e, Bookkept as s c e
  homed : ∀ e ∈ s.events, ∃ c ∈ s.clusters, e.clusterId = some c.id
  active : ∀ e ∈ s.events, e.status = .active
  linked : ∀ e ∈ s.events, ∀ d ∈ e.documents, d.documentId ∈ processedIds as

section
variable {U : Unicode} {s t : Store} {as : List Act} {a : Act} {c : EventCluster} {e : Event}

/-! ## times -/

theorem processedAt_snoc {id : Nat} {m : DateTime} (h : processedAt as id = some m) :
    processedAt (as ++ [a]) id = some m := by
  unfold processedAt at h ⊢
  rw [List.findSome?_append, h]
  rfl

/-- the time of a document stays as it was -/
theorem stamp_step {id : Nat} {m : DateTime} (h : stamp as s id = some m)
    (ha : fire U s a = some t) : stamp (as ++ [a]) t id = some m := by
  obtain ⟨d, hd, h⟩ := Option.bind_eq_some_iff.mp h
  unfold stamp
  rw [document?_of_fire ha hd, Option.bind_some]
  cases hp : d.publishedAt with
  | some p =>
    rw [hp] at h
    exact h
  | none =>
    rw [hp, Option.none_or] at h
    rw [Option.none_or]
    exact processedAt_snoc h

/-- a document that is processed for the first time has the time of its report -/
theorem stamp_processed {id : Nat} {env : CallEnv} {d : RawDocument} (hd : s.document? id = some d)
    (hnew : id ∉ processedIds as) (ha : fire U s (.process id env) = some t) :
    stamp (as ++ [.process id env]) t id = some (d.publishedAt.getD env.now) := by
  have hnone : processedAt as id = none := by
    unfold processedAt
    rw [List.findSome?_eq_none_iff]
    intro x hx
    cases x with
    | source _ => rfl
    | document _ => rfl
    | decide _ _ => rfl
    | process i env =>
      refine if_neg ?_
      rintro rfl
      exact hnew (List.mem_filterMap.mpr ⟨_, hx, rfl⟩)
  have hat : processedAt (as ++ [.process id env]) id = some env.now := by
    unfold processedAt at hnone ⊢
    rw [List.findSome?_append, hnone, Option.none_or]
    simp
  unfold stamp
  rw [document?_of_fire ha hd, Option.bind_some, hat]
  cases d.publishedAt <;> rfl

theorem IsLatest.step {m : DateTime} (h : IsLatest as s e m) (ha : fire U s a = some t) :
    IsLatest (as ++ [a]) t e m := by
  obtain ⟨⟨d, hd, hm⟩, hall⟩ := h
  refine ⟨⟨d, hd, stamp_step hm ha⟩, fun x hx => ?_⟩
  obtain ⟨u, hu, hle⟩ := hall x hx
  exact ⟨u, stamp_step hu ha, hle⟩

/-- a cluster whose event is not touched -/
theorem Bookkept.step (h : Bookkept as s c e) (ha : fire U s a = some t)
    (hone : eventsOf c.id t.events = [e]) :
    Bookkept (as ++ [a]) t c e := by
  obtain ⟨m, hm, hlatest⟩ := h.lastUpdatedAt
  exact ⟨hone, h.memberCount, m, hm, hlatest.step ha⟩

theorem processedIds_snoc {id : Nat} (h : id ∈ processedIds as) : id ∈ processedIds (as ++ [a]) := by
  unfold processedIds at h ⊢
  rw [List.filterMap_append]
  exact List.mem_append_left _ h

theorem mem_processedIds_self (id : Nat) (env : CallEnv) :
    id ∈ processedIds (as ++ [.process id env]) := by
  unfold processedIds
  rw [List.filterMap_append]
  exact List.mem_append_right _ (List.mem_singleton_self id)

/-- a call that leaves clusters and events alone -/
theorem Clustered.same (h : Clustered as s) (ha : fire U s a = some t) (hs : t.shelf = s.shelf)
    (hn : s.nextId ≤ t.nextId) : Clustered (as ++ [a]) t := by
  have hclusters : t.clusters = s.clusters := congrArg Shelf.clusters hs
  have hevents : t.events = s.events := congrArg Shelf.events hs
  refine ⟨h.keys.of_map (by rw [hclusters]) hn, ?_, ?_, ?_, ?_⟩
  · rw [hclusters]
    intro c hc
    obtain ⟨e, he⟩ := h.bookkept c hc
    refine ⟨e, he.step ha ?_⟩
    rw [hevents]
    exact he.one
  · rw [hclusters, hevents]
    exact h.homed
  · rw [hevents]
    exact h.active
  · rw [hevents]
    exact fun e he d hd => processedIds_snoc (h.linked e he d hd)

/-! ## one call -/

variable {e' : Event}

/-- one more document -/
theorem IsLatest.append {m p : DateTime} {d : EventDocument} (h : IsLatest as s e m)
    (hdocs : e'.documents = e.documents ++ [d]) (hp : stamp as s d.documentId = some p) :
    IsLatest as s e' (m.latest p) := by
  obtain ⟨⟨x, hx, hm⟩, hall⟩ := h
  unfold IsLatest
  rw [hdocs]
  constructor
  · rcases DateTime.latest_cases m p with hl | hl
    · rw [hl]
      exact ⟨x, List.mem_append_left _ hx, hm⟩
    · rw [hl]
      exact ⟨d, List.mem_append_right _ (List.mem_singleton_self d), hp⟩
  · intro y hy
    rcases List.mem_append.mp hy with hy | hy
    · obtain ⟨u, hu, hle⟩ := hall y hy
      exact ⟨u, hu, DateTime.le_trans hle (DateTime.le_latest_left m p)⟩
    · rw [List.mem_singleton.mp hy]
      exact ⟨p, hp, DateTime.le_latest_right m p⟩

section
variable {id : Nat} {env : CallEnv} {document : RawDocument} {f : Filing}

/-- the report of the document is merged into the one event of a cluster -/
theorem clustered_merged {joined : EventCluster} {existing : Event} (h : Clustered as s)
    (hk : Keyed s) (ha : fire U s (.process id env) = some t)
    (hstamp : stamp (as ++ [.process id env]) t f.report.documentId = some f.report.published)
    (hid : f.report.documentId = id) (hn : s.nextId ≤ t.nextId) (hc : c ∈ s.clusters)
    (hj : Joined c joined f.report.published)
    (he : s.shelf.latestActiveEvent joined.id = some existing)
    (ht : t.shelf = ⟨replace EventCluster.id joined s.clusters,
      replace Event.eventId (mergeEvent U existing f.report) s.events⟩) :
    Clustered (as ++ [.process id env]) t := by
  have hclusters : t.clusters = replace EventCluster.id joined s.clusters :=
    congrArg Shelf.clusters ht
  have hevents : t.events = replace Event.eventId (mergeEvent U existing f.report) s.events :=
    congrArg Shelf.events ht
  obtain ⟨home, hhome⟩ := h.bookkept c hc
  have hmem : home ∈ s.events ∧ home.clusterId = some c.id :=
    mem_eventsOf.mp (hhome.one ▸ List.mem_singleton_self home)
  -- the event merged into is the one of the cluster
  have hex : home = existing := by
    rw [hj.id, latestActiveEvent_one (s := s.shelf) hhome.one (h.active _ hmem.1)] at he
    exact Option.some.inj he
  subst hex
  obtain ⟨hid', hdocs, _⟩ := mergeEvent_links U home f.report
  obtain ⟨_, _, _, _, hplace, hstatus⟩ := mergeEvent_fixed U home f.report
  refine ⟨?_, ?_, ?_, ?_, ?_⟩
  · show Numbered EventCluster.id t.clusters t.nextId
    rw [hclusters]
    exact h.keys.of_map (map_replace _ _) hn
  · rw [hclusters]
    intro x hx
    rcases mem_replace hx with rfl | ⟨hx, hne⟩
    · refine ⟨mergeEvent U home f.report, ?_, ?_, ?_⟩
      · rw [hevents, hj.id]
        exact (eventsOf_replace_home hk.nodup hmem.1 hid' hplace hmem.2 hhome.one).2
      · rw [hj.memberCount, hhome.memberCount, hdocs, List.length_append, List.length_singleton]
      · obtain ⟨m, hm, hlatest⟩ := hhome.lastUpdatedAt
        refine ⟨_, hj.lastUpdatedAt, ?_⟩
        rw [hm]
        exact (hlatest.step ha).append hdocs hstamp
    · obtain ⟨y, hy⟩ := h.bookkept x hx
      refine ⟨y, hy.step ha ?_⟩
      rw [hevents, eventsOf_replace_other hk.nodup hmem.1 hid' hplace ?_]
      · exact hy.one
      · rw [hmem.2]
        intro heq
        exact hne ((Option.some.inj heq).symm.trans hj.id.symm)
  · rw [hclusters, hevents]
    have hhome' : ∃ c ∈ s.clusters, (mergeEvent U home f.report).clusterId = some c.id := by
      rw [hplace]
      exact h.homed home hmem.1
    intro x hx
    obtain ⟨b, hb, hxb⟩ := forall_replace h.homed hhome' x hx
    have hkey : b.id ∈ (replace EventCluster.id joined s.clusters).map EventCluster.id := by
      rw [map_replace]
      exact List.mem_map_of_mem hb
    obtain ⟨b', hb', hbid⟩ := List.mem_map.mp hkey
    exact ⟨b', hb', by rw [hxb, hbid]⟩
  · rw [hevents]
    exact forall_replace h.active (hstatus.trans (h.active _ hmem.1))
  · rw [hevents]
    refine forall_replace (fun x hx d hd => processedIds_snoc (h.linked x hx d hd)) ?_
    rw [hdocs, List.forall_mem_append, List.forall_mem_singleton]
    refine ⟨fun d hd => processedIds_snoc (h.linked _ hmem.1 d hd), ?_⟩
    show f.report.documentId ∈ _
    rw [hid]
    exact mem_processedIds_self id env

/-- the report of the document becomes the event of a new cluster -/
theorem clustered_started {started : EventCluster} (h : Clustered as s)
    (ha : fire U s (.process id env) = some t)
    (hstamp : stamp (as ++ [.process id env]) t f.report.documentId = some f.report.published)
    (hid : f.report.documentId = id) (hkey : s.nextId ≤ started.id ∧ started.id < t.nextId)
    (hcount : started.memberCount = 1) (hlast : started.lastUpdatedAt = some f.report.published)
    (ht : t.shelf = ⟨s.clusters ++ [started],
      s.events ++ [newEvent f.eventKey started.id f.report]⟩) :
    Clustered (as ++ [.process id env]) t := by
  have hclusters : t.clusters = s.clusters ++ [started] := congrArg Shelf.clusters ht
  have hevents : t.events = s.events ++ [newEvent f.eventKey started.id f.report] :=
    congrArg Shelf.events ht
  have hfresh : ∀ x ∈ s.clusters, x.id ≠ started.id := fun x hx =>
    Nat.ne_of_lt (lt_of_lt_of_le (h.keys.fresh x hx) hkey.1)
  have hnone : eventsOf started.id s.events = [] := by
    refine List.filter_eq_nil_iff.mpr fun e he => ?_
    obtain ⟨x, hx, hxe⟩ := h.homed e he
    rw [decide_eq_true_eq, hxe]
    exact fun heq => hfresh x hx (Option.some.inj heq)
  refine ⟨?_, ?_, ?_, ?_, ?_⟩
  · show Numbered EventCluster.id t.clusters t.nextId
    rw [hclusters]
    exact h.keys.append hkey.1 hkey.2
  · rw [hclusters]
    intro x hx
    rcases List.mem_append.mp hx with hx | hx
    · obtain ⟨y, hy⟩ := h.bookkept x hx
      refine ⟨y, hy.step ha ?_⟩
      rw [hevents, eventsOf_append]
      · exact hy.one
      · exact fun heq => hfresh x hx (Option.some.inj heq).symm
    · rw [List.mem_singleton.mp hx]
      refine ⟨newEvent f.eventKey started.id f.report, ?_, hcount, _, hlast, ?_, ?_⟩
      · rw [hevents]
        show (s.events ++ [_]).filter _ = _
        rw [List.filter_append]
        show eventsOf started.id s.events ++ _ = _
        rw [hnone, List.nil_append]
        exact List.filter_eq_self.mpr fun y hy => by
          rw [List.mem_singleton.mp hy]
          exact decide_eq_true rfl
      · exact ⟨_, List.mem_singleton_self _, hstamp⟩
      · intro d hd
        rw [List.mem_singleton.mp hd]
        exact ⟨_, hstamp, Int.le_refl _⟩
  · rw [hclusters, hevents, List.forall_mem_append, List.forall_mem_singleton]
    constructor
    · intro x hx
      obtain ⟨b, hb, hxb⟩ := h.homed x hx
      exact ⟨b, List.mem_append_left _ hb, hxb⟩
    · exact ⟨started, List.mem_append_right _ (List.mem_singleton_self _), rfl⟩
  · rw [hevents, List.forall_mem_append, List.forall_mem_singleton]
    exact ⟨h.active, rfl⟩
  · rw [hevents, List.forall_mem_append, List.forall_mem_singleton]
    refine ⟨fun x hx d hd => processedIds_snoc (h.linked x hx d hd), fun d hd => ?_⟩
    rw [List.mem_singleton.mp hd]
    show f.report.documentId ∈ _
    rw [hid]
    exact mem_processedIds_self id env

/-- a decided event stays where it is -/
theorem clustered_decided (h : Clustered as s) (hk : Keyed s) (ha : fire U s a = some t)
    (he : e ∈ s.events) (hid : e'.eventId = e.eventId) (hdocs : e'.documents = e.documents)
    (hplace : e'.clusterId = e.clusterId) (hstatus : e'.status = e.status)
    (hclusters : t.clusters = s.clusters) (hn : s.nextId ≤ t.nextId)
    (hevents : t.events = replace Event.eventId e' s.events) : Clustered (as ++ [a]) t := by
  refine ⟨h.keys.of_map (by rw [hclusters]) hn, ?_, ?_, ?_, ?_⟩
  · rw [hclusters]
    intro x hx
    obtain ⟨y, hy⟩ := h.bookkept x hx
    by_cases hi : e.clusterId = some x.id
    · obtain ⟨rfl, hone⟩ := eventsOf_replace_home hk.nodup he hid hplace hi hy.one
      obtain ⟨m, hm, hlatest⟩ := (hy.lastUpdatedAt)
      refine ⟨e', ?_, ?_, m, hm, ?_⟩
      · rw [hevents]
        exact hone
      · rw [hdocs]
        exact hy.memberCount
      · unfold IsLatest
        rw [hdocs]
        exact hlatest.step ha
    · refine ⟨y, hy.step ha ?_⟩
      rw [hevents, eventsOf_replace_other hk.nodup he hid hplace hi]
      exact hy.one
  · rw [hclusters, hevents]
    exact forall_replace h.homed (by rw [hplace]; exact h.homed e he)
  · rw [hevents]
    exact forall_replace h.active (hstatus.trans (h.active e he))
  · rw [hevents]
    refine forall_replace (fun x hx d hd => processedIds_snoc (h.linked x hx d hd)) ?_
    rw [hdocs]
    exact fun d hd => processedIds_snoc (h.linked e he d hd)

end

/-! ## every run -/

section
variable {id : Nat} {env : CallEnv}

theorem fire_files (ha : fire U s (.process id env) = some t) :
    ∃ document, s.document? id = some document ∧
      (t.shelf = s.shelf ∨ ∃ f, Files U env document s t f) := by
  obtain ⟨document, hd, h⟩ := Option.bind_eq_some_iff.mp ha
  obtain ⟨⟨t', res⟩, hr, rfl⟩ := Option.map_eq_some_iff.mp h
  refine ⟨document, hd, ?_⟩
  cases hp : (processDocument env s U document).result with
  | error e => rw [hp] at hr; cases hr
  | ok x =>
    rw [hp] at hr
    cases hr
    exact processDocument_shelf hp

/-- what filing the report of a document does in a store whose clusters are kept: there is no
cluster without an active event -/
theorem Clustered.filed (h : Clustered as s) {document : RawDocument} {f : Filing}
    (hf : Files U env document s t f) :
    (∃ c joined home, c ∈ s.clusters ∧ WithinWindow c f.report.published ∧
      Joined c joined f.report.published ∧ eventsOf c.id s.events = [home] ∧
      s.shelf.latestActiveEvent joined.id = some home ∧
      t.shelf = ⟨replace EventCluster.id joined s.clusters,
        replace Event.eventId (mergeEvent U home f.report) s.events⟩) ∨
    ∃ c, (s.nextId ≤ c.id ∧ c.id < t.nextId) ∧ c.memberCount = 1 ∧
      c.lastUpdatedAt = some f.report.published ∧
      t.shelf = ⟨s.clusters ++ [c], s.events ++ [newEvent f.eventKey c.id f.report]⟩ := by
  have hfiled := file_ok h.keys.nodup hf.file
  have hone : ∀ c ∈ s.clusters, ∃ home, eventsOf c.id s.events = [home] ∧
      s.shelf.latestActiveEvent c.id = some home := by
    intro c hc
    obtain ⟨home, hhome⟩ := h.bookkept c hc
    have hmem := (mem_eventsOf.mp (hhome.one ▸ List.mem_singleton_self home)).1
    exact ⟨home, hhome.one, latestActiveEvent_one (s := s.shelf) hhome.one (h.active home hmem)⟩
  generalize ht : t.shelf = u at hfiled
  cases hfiled with
  | merged c joined existing hc hw hj he =>
    obtain ⟨home, hhome, hactive⟩ := hone c hc
    rw [hj.id, hactive] at he
    cases he
    exact Or.inl ⟨c, joined, _, hc, hw, hj, hhome, hj.id ▸ hactive, rfl⟩
  | reopened c joined hc hw hj he =>
    obtain ⟨home, _, hactive⟩ := hone c hc
    rw [hj.id, hactive] at he
    cases he
  | started c hid hcount hlast =>
    exact Or.inr ⟨c, hid ▸ hf.clusterKey, hcount, hlast, rfl⟩

theorem clustered_process (h : Clustered as s) (hk : Keyed s) (hnew : id ∉ processedIds as)
    (ha : fire U s (.process id env) = some t) : Clustered (as ++ [.process id env]) t := by
  obtain ⟨_, _, _, _, hun⟩ := fire_process ha
  obtain ⟨document, hd, hs | ⟨f, hf⟩⟩ := fire_files ha
  · exact h.same ha hs hun.nextId
  · have hid : f.report.documentId = id := hf.documentId.trans (lookup_key hd)
    have hstamp : stamp (as ++ [.process id env]) t f.report.documentId =
        some f.report.published := by
      rw [hid, hf.published]
      exact stamp_processed hd hnew ha
    rcases h.filed hf with ⟨c, joined, home, hc, _, hj, _, he, ht⟩ | ⟨c, hkey, hcount, hlast, ht⟩
    · exact clustered_merged h hk ha hstamp hid hun.nextId hc hj he ht
    · exact clustered_started h ha hstamp hid hkey hcount hlast ht

theorem clustered_step (h : Clustered as s) (hk : Keyed s)
    (hnew : (processedIds (as ++ [a])).Nodup) (ha : fire U s a = some t) :
    Clustered (as ++ [a]) t := by
  cases a with
  | source row => cases ha; exact h.same (U := U) rfl rfl (Nat.le_succ _)
  | document row => cases ha; exact h.same (U := U) rfl rfl (Nat.le_succ _)
  | process id env =>
    refine clustered_process h hk ?_ ha
    unfold processedIds at hnew
    rw [List.filterMap_append, List.nodup_append] at hnew
    exact fun hin => hnew.2.2 id hin id (List.mem_singleton_self id) rfl
  | decide i input =>
    obtain ⟨e, he, rfl | ⟨verb, changes, _, rfl⟩⟩ := fire_decide ha
    · exact h.same ha rfl (le_refl _)
    · obtain ⟨hid, hdocs, _⟩ := decided_links e s.nextId input verb changes
      obtain ⟨hplace, hstatus⟩ := decided_place e s.nextId input verb changes
      exact clustered_decided h hk ha (lookup_mem he) hid hdocs hplace hstatus rfl (Nat.le_succ _)
        rfl

/-- a document that joins a cluster is within the time window of its last one -/
theorem joined_within (h : Clustered as s) (hnew : id ∉ processedIds as)
    (ha : fire U s (.process id env) = some t) (hc : c ∈ s.clusters) (he : e ∈ t.events)
    (hec : e.clusterId = some c.id) (hlink : id ∈ e.documents.map (·.documentId)) :
    ∃ m p, c.lastUpdatedAt = some m ∧ stamp (as ++ [.process id env]) t id = some p ∧
      p.distance m ≤ timeWindow := by
  obtain ⟨d, hd, hdid⟩ := List.mem_map.mp hlink
  -- the document was not linked before
  have hold : e ∉ s.events := fun hin => hnew (hdid ▸ h.linked e hin d hd)
  obtain ⟨document, hdoc, hs | ⟨f, hf⟩⟩ := fire_files ha
  · have hevents : t.events = s.events := congrArg Shelf.events hs
    exact absurd (hevents ▸ he) hold
  · rcases h.filed hf with ⟨x, joined, home, hx, hw, hj, hone, _, ht⟩ | ⟨x, hkey, _, _, ht⟩
    · have hevents : t.events = replace Event.eventId (mergeEvent U home f.report) s.events :=
        congrArg Shelf.events ht
      rw [hevents] at he
      rcases mem_replace he with rfl | ⟨he, _⟩
      · obtain ⟨_, _, _, _, hplace, _⟩ := mergeEvent_fixed U home f.report
        have hhome : home.clusterId = some x.id :=
          (mem_eventsOf.mp (hone ▸ List.mem_singleton_self home)).2
        have hkeys : x.id = c.id := Option.some.inj ((hhome.symm.trans hplace.symm).trans hec)
        have hsame : some x = some c := by
          rw [← lookup_of_mem h.keys.nodup hx, ← lookup_of_mem h.keys.nodup hc, hkeys]
        cases hsame
        obtain ⟨_, hbook⟩ := h.bookkept _ hx
        obtain ⟨m, hm, _⟩ := hbook.lastUpdatedAt
        refine ⟨m, f.report.published, hm, ?_, hw m ?_⟩
        · rw [hf.published]
          exact stamp_processed hdoc hnew ha
        · rw [hm]
          rfl
      · exact absurd he hold
    · have hevents : t.events = s.events ++ [newEvent f.eventKey x.id f.report] :=
        congrArg Shelf.events ht
      rw [hevents] at he
      rcases List.mem_append.mp he with he | he
      · exact absurd he hold
      · rw [List.mem_singleton.mp he] at hec
        have hkeys : x.id = c.id := Option.some.inj hec
        exact absurd (h.keys.fresh c hc) (not_lt.mpr (hkeys ▸ hkey.1))

theorem clustered_of_run (hrun : exec (fire U) Store.empty as = some s)
    (hdistinct : (processedIds as).Nodup) : Clustered as s := by
  have hempty : Clustered [] Store.empty :=
    ⟨Numbered.nil, fun _ hc => (by cases hc), fun _ he => (by cases he), fun _ he => (by cases he),
      fun _ he => (by cases he)⟩
  have h := exec_history (fire U) (I := fun as s => (processedIds as).Nodup → Clustered as s)
    (fun _ => hempty) ?_ hrun
  · exact h hdistinct
  · intro as s a t hs ih ha hnew
    refine clustered_step (ih ?_) (keyed_of_reach ⟨_, _, rfl, hs⟩) hnew ha
    unfold processedIds at hnew ⊢
    rw [List.filterMap_append] at hnew
    exact hnew.of_append_left

/-- **After every run that processes no document twice, each cluster stands for one event, counts its
documents and knows the last of them, and a document that joined a cluster was within the time window
of the last one then.** -/
theorem clusters_of_run (hrun : exec (fire U) Store.empty as = some s)
    (hdistinct : (processedIds as).Nodup) :
    (∀ c ∈ s.clusters, ∃ e, Bookkept as s c e) ∧
    ∀ before id env after u t, as = before ++ .process id env :: after →
      exec (fire U) Store.empty before = some u → fire U u (.process id env) = some t →
      ∀ c ∈ u.clusters, ∀ e ∈ t.events, e.clusterId = some c.id →
        id ∈ e.documents.map (·.documentId) →
        ∃ home m p, Bookkept before u c home ∧ c.lastUpdatedAt = some m ∧
          stamp (before ++ [.process id env]) t id = some p ∧ p.distance m ≤ timeWindow := by
  refine ⟨(clustered_of_run hrun hdistinct).bookkept, ?_⟩
  rintro before id env after u t rfl hu ht c hc e he hec hlink
  have hsplit : processedIds (before ++ .process id env :: after) =
      processedIds before ++ id :: processedIds after := by
    unfold processedIds
    rw [List.filterMap_append]
    rfl
  rw [hsplit, List.nodup_append] at hdistinct
  have hclustered := clustered_of_run hu hdistinct.1
  obtain ⟨home, hhome⟩ := hclustered.bookkept c hc
  obtain ⟨m, p, hm, hp, hle⟩ := joined_within hclustered
    (fun hin => hdistinct.2.2 id hin id (List.mem_cons_self ..) rfl) ht hc he hec hlink
  exact ⟨home, m, p, hhome, hm, hp, hle⟩

end

end

/-! ## a run -/

/-- a second report joins the cluster of the first -/
def Sample.twoReports : List Act :=
  Sample.published ++
    [.document { Sample.document Sample.text with publishedAt := some ⟨1000000⟩ },
      .process 5 (Sample.env .moderate)]

theorem clusters_corroborated :
    ∃ s, exec (fire Unicode.latin) Store.empty Sample.twoReports = some s ∧
      s.clusters.map (fun c => (c.memberCount, c.lastUpdatedAt)) = [(2, some ⟨1000000⟩)] ∧
      ∀ c ∈ s.clusters, ∃ e, Bookkept Sample.twoReports s c e := by
  have h : (exec (fire Unicode.latin) Store.empty Sample.twoReports).map
      (fun s => s.clusters.map fun c => (c.memberCount, c.lastUpdatedAt)) =
        some [(2, some ⟨1000000⟩)] := by decide +kernel
  obtain ⟨s, hs, hc⟩ := Option.map_eq_some_iff.mp h
  exact ⟨s, hs, hc, (clusters_of_run hs (by decide)).1⟩

end GeoRisk
