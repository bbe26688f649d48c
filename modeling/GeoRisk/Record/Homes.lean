import GeoRisk.Record.Integrity
import GeoRisk.Record.Clusters

/-!
# Clusters and events

`cluster.py` counts members and `pipeline.py` links documents.  Whatever documents are processed, and
however often, each cluster has one event and counts its documents.

* `Homes`              every cluster has one event, with as many documents as it counts members, and
                       every event is active and has a cluster;
* `homes_filed`        filing a report keeps that: there is no cluster without an active event, so no
                       second event is ever started in one;
* `homes_decided`      so does a decision;
* `homes_of_fire`      and so does every call.
-/

namespace GeoRisk
open Kit

/-- each cluster has one event and counts its documents -/
structure Homes (s : Shelf) : Prop where
  home : ∀ c ∈ s.clusters, ∃ e, eventsOf c.id s.events = [e] ∧ c.memberCount = e.documents.length
  homed : ∀ e ∈ s.events, ∃ c ∈ s.clusters, e.clusterId = some c.id
  active : ∀ e ∈ s.events, e.status = .active

section
variable {U : Unicode} {f : Filing} {s t : Shelf} {c joined : EventCluster} {e e' : Event}

/-- a document joins a cluster, and its report is merged into the event -/
theorem homes_merged (h : Homes s) (hk : (s.events.map Event.eventId).Nodup) (hc : c ∈ s.clusters)
    (hj : Joined c joined f.report.published) (he : s.latestActiveEvent joined.id = some e) :
    Homes ⟨replace EventCluster.id joined s.clusters,
      replace Event.eventId (mergeEvent U e f.report) s.events⟩ := by
  obtain ⟨home, hone, hcount⟩ := h.home c hc
  have hmem := (mem_eventsOf.mp (hone ▸ List.mem_singleton_self home))
  -- the event merged into is the one of the cluster
  rw [hj.id, latestActiveEvent_one hone (h.active home hmem.1)] at he
  cases he
  obtain ⟨hid, hdocs, _⟩ := mergeEvent_links U e f.report
  obtain ⟨_, _, _, _, hplace, hstatus⟩ := mergeEvent_fixed U e f.report
  refine ⟨?_, ?_, forall_replace h.active (hstatus.trans (h.active e hmem.1))⟩
  · intro x hx
    rcases mem_replace hx with rfl | ⟨hx, hne⟩
    · refine ⟨mergeEvent U e f.report, ?_, ?_⟩
      · rw [hj.id]
        exact (eventsOf_replace_home hk hmem.1 hid hplace hmem.2 hone).2
      · rw [hj.memberCount, hcount, hdocs, List.length_append, List.length_singleton]
    · obtain ⟨other, hother, hcount⟩ := h.home x hx
      refine ⟨other, ?_, hcount⟩
      rw [eventsOf_replace_other hk hmem.1 hid hplace]
      · exact hother
      · rw [hmem.2]
        intro heq
        exact hne ((Option.some.inj heq).symm.trans hj.id.symm)
  · have hkept : ∀ i, (∃ b ∈ s.clusters, i = some b.id) →
        ∃ b ∈ replace EventCluster.id joined s.clusters, i = some b.id := by
      rintro _ ⟨b, hb, rfl⟩
      by_cases hkey : b.id = joined.id
      · exact ⟨joined, mem_replace_self hb hkey, congrArg some hkey⟩
      · exact ⟨b, mem_replace_of_ne hb hkey, rfl⟩
    refine forall_replace (fun x hx => hkept _ (h.homed x hx)) (hkept _ ?_)
    rw [hplace]
    exact h.homed e hmem.1

/-- a document starts a cluster, and its report becomes the event -/
theorem homes_started (h : Homes s) (hfresh : ∀ x ∈ s.clusters, x.id ≠ c.id)
    (hcount : c.memberCount = 1) :
    Homes ⟨s.clusters ++ [c], s.events ++ [newEvent f.eventKey c.id f.report]⟩ := by
  have hnone : eventsOf c.id s.events = [] := by
    refine List.filter_eq_nil_iff.mpr fun e he => ?_
    obtain ⟨x, hx, hxe⟩ := h.homed e he
    rw [decide_eq_true_eq, hxe]
    exact fun heq => hfresh x hx (Option.some.inj heq)
  refine ⟨?_, ?_, ?_⟩
  · intro x hx
    rcases List.mem_append.mp hx with hx | hx
    · obtain ⟨e, hone, hx'⟩ := h.home x hx
      refine ⟨e, ?_, hx'⟩
      rw [eventsOf_append]
      · exact hone
      · exact fun heq => hfresh x hx (Option.some.inj heq).symm
    · rw [List.mem_singleton.mp hx]
      refine ⟨newEvent f.eventKey c.id f.report, ?_, hcount⟩
      unfold eventsOf at hnone ⊢
      rw [List.filter_append, hnone, List.nil_append]
      exact List.filter_eq_self.mpr fun y hy => by
        rw [List.mem_singleton.mp hy]
        exact decide_eq_true rfl
  · rw [List.forall_mem_append, List.forall_mem_singleton]
    constructor
    · intro x hx
      obtain ⟨b, hb, hxb⟩ := h.homed x hx
      exact ⟨b, List.mem_append_left _ hb, hxb⟩
    · exact ⟨c, List.mem_append_right _ (List.mem_singleton_self _), rfl⟩
  · rw [List.forall_mem_append, List.forall_mem_singleton]
    exact ⟨h.active, rfl⟩

/-- **Filing a report keeps one event for each cluster.** -/
theorem homes_filed (h : Homes s) (hk : (s.events.map Event.eventId).Nodup)
    (hfresh : ∀ x ∈ s.clusters, x.id ≠ f.clusterKey) (hf : Filed U f s t) : Homes t := by
  cases hf with
  | merged c joined existing hc hw hj he => exact homes_merged h hk hc hj he
  | reopened c joined hc hw hj he =>
    -- the cluster has an active event
    obtain ⟨home, hone, _⟩ := h.home c hc
    have hmem := (mem_eventsOf.mp (hone ▸ List.mem_singleton_self home))
    rw [hj.id, latestActiveEvent_one hone (h.active home hmem.1)] at he
    cases he
  | started c hid hcount hlast => exact homes_started h (hid ▸ hfresh) hcount

/-- an event is changed where it is -/
theorem homes_decided (h : Homes s) (hk : (s.events.map Event.eventId).Nodup) (he : e ∈ s.events)
    (hid : e'.eventId = e.eventId) (hdocs : e'.documents = e.documents)
    (hplace : e'.clusterId = e.clusterId) (hstatus : e'.status = e.status) :
    Homes ⟨s.clusters, replace Event.eventId e' s.events⟩ := by
  refine ⟨?_, forall_replace h.homed (by rw [hplace]; exact h.homed e he),
    forall_replace h.active (hstatus.trans (h.active e he))⟩
  intro x hx
  obtain ⟨y, hone, hcount⟩ := h.home x hx
  by_cases hi : e.clusterId = some x.id
  · obtain ⟨rfl, hone'⟩ := eventsOf_replace_home hk he hid hplace hi hone
    exact ⟨e', hone', by rw [hdocs]; exact hcount⟩
  · exact ⟨y, by rw [eventsOf_replace_other hk he hid hplace hi]; exact hone, hcount⟩

end

/-- **Every call keeps one event for each cluster.** -/
theorem homes_of_fire {U : Unicode} {s t : Store} {a : Act} (h : Homes s.shelf) (hk : Keyed s)
    (hc : ClusterKeys s) (ha : fire U s a = some t) : Homes t.shelf := by
  cases a with
  | source row =>
    cases ha
    exact h
  | document row =>
    cases ha
    exact h
  | process documentId env =>
    obtain ⟨document, _, hs | ⟨f, hf⟩⟩ := fire_files ha
    · rw [hs]
      exact h
    · exact homes_filed h hk.nodup
        (fun x hx => Nat.ne_of_lt (lt_of_lt_of_le (hc.fresh x hx) hf.clusterKey.1))
        (file_ok hc.nodup hf.file)
  | decide eventId input =>
    obtain ⟨e, he, rfl | ⟨verb, changes, _, rfl⟩⟩ := fire_decide ha
    · exact h
    · obtain ⟨hid, hdocs, _⟩ := decided_links e s.nextId input verb changes
      obtain ⟨hplace, hstatus⟩ := decided_place e s.nextId input verb changes
      exact homes_decided (s := s.shelf) h hk.nodup (lookup_mem he) hid hdocs hplace hstatus

end GeoRisk
