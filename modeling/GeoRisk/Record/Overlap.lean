import Mathlib.Data.Fintype.Basic
import GeoRisk.Processing.Shelf
import GeoRisk.Record.Race

/-!
# Two reports at once

Each worker consolidates its report in a transaction of its own.  The clusters are searched first,
then the row of the cluster is written (and locked until the commit), then the event of the cluster
is read and merged into.  Nothing locks or checks what the search has read.

* `Assignment`, `Filing.look`     what a search leads to;
* `Desk`, `DeskAct`, `deskFire`   clusters and events with the transactions of the workers, at any
                                  interleaving of their steps;
* `Sound`                         the lock on a cluster guards its event (`sound_step`);
* `commit_comm`                   two commits after searches of the same clusters;
* `Harmless`, `Serial`            a commit whose search still holds, or that the search of the other
                                  worker would not have noticed; the reports filed one after another;
* `Stage`                         how far two workers have come;
* `serial_of_harmless`            two workers whose commits are harmless are serial.
-/

namespace GeoRisk
open Kit

/-- what a search for the cluster of a report leads to -/
structure Assignment where
  /-- the row of the cluster that is joined, as it was read -/
  seen : Option EventCluster
  /-- the row to write -/
  cluster : EventCluster
  found : ClusterMatch
  deriving DecidableEq

/-- the search, and the row computed from it; a search that raises ends the call -/
def Filing.look (f : Filing) (clusters : List EventCluster) : Option Assignment :=
  match f.assign clusters with
  | .error _ => none
  | .ok (_, cluster, found) =>
    some ⟨if found.isNew then none else lookup EventCluster.id cluster.id clusters, cluster, found⟩

/-- the row of a cluster after the commit of a transaction that read `seen` and left `wrote` -/
def rebaseCluster (seen wrote row : EventCluster) : EventCluster where
  id := row.id
  centroid := column seen.centroid wrote.centroid row.centroid
  similarityThreshold :=
    column seen.similarityThreshold wrote.similarityThreshold row.similarityThreshold
  memberCount := column seen.memberCount wrote.memberCount row.memberCount
  firstSeenAt := column seen.firstSeenAt wrote.firstSeenAt row.firstSeenAt
  lastUpdatedAt := column seen.lastUpdatedAt wrote.lastUpdatedAt row.lastUpdatedAt

def Assignment.writeCluster (a : Assignment) (clusters : List EventCluster) : List EventCluster :=
  match a.seen with
  | none => clusters ++ [a.cluster]
  | some seen => amend EventCluster.id a.cluster.id (rebaseCluster seen a.cluster) clusters

/-- the merge of the report into the event that was read, or the new event -/
def Assignment.writeEvent (U : Unicode) (a : Assignment) (f : Filing) (events : List Event) :
    Option Event → List Event
  | none => events ++ [newEvent f.eventKey a.cluster.id f.report]
  | some existing => amend Event.eventId existing.eventId
      (rebase existing (mergeEvent U existing f.report)) events

/-- where the transaction of a worker stands -/
inductive Phase
  | idle
  /-- the clusters are searched -/
  | looked (a : Assignment)
  /-- the row of the cluster is written, but not committed -/
  | placed (a : Assignment)
  /-- the event of the cluster is read -/
  | read (a : Assignment) (target : Option Event)
  | over
  deriving DecidableEq

def Phase.assignment : Phase → Option Assignment
  | .looked a | .placed a | .read a _ => some a
  | .idle | .over => none

/-- the key of the cluster row that the transaction has locked -/
def Phase.holds : Phase → Option Nat
  | .placed a | .read a _ => a.seen.map fun _ => a.cluster.id
  | .idle | .looked _ | .over => none

/-- committed clusters and events, and the transactions of the workers -/
structure Desk (ι : Type) where
  shelf : Shelf
  phase : ι → Phase
  /-- the workers that have committed, in that order -/
  log : List ι := []

inductive DeskAct (ι : Type)
  | look (w : ι)
  | place (w : ι)
  | read (w : ι)
  | commit (w : ι)
  /-- the call raises -/
  | abort (w : ι)

section
variable {ι : Type} [DecidableEq ι]

def Desk.start (s : Shelf) : Desk ι := { shelf := s, phase := fun _ => .idle }

def Desk.set (d : Desk ι) (w : ι) (phase : Phase) : Desk ι :=
  { d with phase := Function.update d.phase w phase }

theorem Desk.set_phase (d : Desk ι) (w v : ι) (phase : Phase) :
    (d.set w phase).phase v = if v = w then phase else d.phase v := by
  by_cases h : v = w
  · rw [if_pos h, h]
    exact Function.update_self ..
  · rw [if_neg h]
    exact Function.update_of_ne h ..

/-- the committed tables after the commit of a worker -/
def Shelf.commit (U : Unicode) (f : Filing) (a : Assignment) (target : Option Event) (s : Shelf) :
    Shelf :=
  ⟨a.writeCluster s.clusters, a.writeEvent U f s.events target⟩

variable [Fintype ι]

/-- a step of a worker with its report; a locked row makes a write wait -/
def deskFire (U : Unicode) (file : ι → Filing) (d : Desk ι) : DeskAct ι → Option (Desk ι)
  | .look w =>
    match d.phase w with
    | .idle => ((file w).look d.shelf.clusters).map fun a => d.set w (.looked a)
    | _ => none
  | .place w =>
    match d.phase w with
    | .looked a =>
      if a.seen.isSome ∧ ∃ v, v ≠ w ∧ (d.phase v).holds = some a.cluster.id then none
      else some (d.set w (.placed a))
    | _ => none
  | .read w =>
    match d.phase w with
    | .placed a => some (d.set w (.read a (d.shelf.target a.cluster a.found)))
    | _ => none
  | .commit w =>
    match d.phase w with
    | .read a target => some { d.set w .over with
        shelf := d.shelf.commit U (file w) a target
        log := d.log ++ [w] }
    | _ => none
  | .abort w => some (d.set w .over)

/-- keys are distinct, and the keys for new rows are fresh -/
structure FreshKeys (file : ι → Filing) (s : Shelf) : Prop where
  clusters : (s.clusters.map EventCluster.id).Nodup
  events : (s.events.map Event.eventId).Nodup
  clusterKey : ∀ w, ∀ c ∈ s.clusters, c.id ≠ (file w).clusterKey
  eventKey : ∀ w, ∀ e ∈ s.events, e.eventId ≠ (file w).eventKey
  clusterKeys : ∀ w v, (file w).clusterKey = (file v).clusterKey → w = v
  eventKeys : ∀ w v, (file w).eventKey = (file v).eventKey → w = v

end

/-! ## a search -/

section
variable {U : Unicode} {f : Filing} {clusters : List EventCluster} {a : Assignment}

/-- what is known of a search while the clusters change -/
structure Fits (f : Filing) (clusters : List EventCluster) (a : Assignment) : Prop where
  isNew : a.found.isNew = a.seen.isNone
  started : a.seen = none → a.cluster.id = f.clusterKey
  joined : ∀ c, a.seen = some c → c.id = a.cluster.id ∧ a.cluster.memberCount = c.memberCount + 1 ∧
    a.cluster.id ∈ clusters.map EventCluster.id

theorem Fits.mono {more : List EventCluster} (h : Fits f clusters a)
    (hm : ∀ i ∈ clusters.map EventCluster.id, i ∈ more.map EventCluster.id) : Fits f more a := by
  refine ⟨h.isNew, h.started, fun c hc => ?_⟩
  obtain ⟨hid, hcount, hmem⟩ := h.joined c hc
  exact ⟨hid, hcount, hm _ hmem⟩

theorem rebaseCluster_current {seen wrote : EventCluster} (h : wrote.id = seen.id) :
    rebaseCluster seen wrote seen = wrote := by
  unfold rebaseCluster
  rw [← h]
  simp only [column_current]

theorem look_eq_some (h : f.look clusters = some a) :
    ∃ clusters', f.assign clusters = .ok (clusters', a.cluster, a.found) ∧
      a.seen = if a.found.isNew then none else lookup EventCluster.id a.cluster.id clusters := by
  unfold Filing.look at h
  split at h
  · cases h
  · next clusters' cluster found hassign =>
    cases h
    exact ⟨clusters', hassign, rfl⟩

/-- **A search, and the write that follows it at once, are an assignment.** -/
theorem assign_of_look (hkeys : (clusters.map EventCluster.id).Nodup)
    (h : f.look clusters = some a) :
    Fits f clusters a ∧ f.assign clusters = .ok (a.writeCluster clusters, a.cluster, a.found) := by
  obtain ⟨clusters', hassign, hseen⟩ := look_eq_some h
  obtain ⟨seen, cluster, found⟩ := a
  simp only at hassign hseen
  rw [hassign]
  cases assignToCluster_ok hkeys hassign with
  | joined c joined found hc hw hj hnew =>
    have hfound : lookup EventCluster.id cluster.id clusters = some c := by
      rw [hj.id]
      exact lookup_of_mem hkeys hc
    rw [hnew, if_neg Bool.false_ne_true, hfound] at hseen
    subst hseen
    have hwrite : amend EventCluster.id cluster.id (rebaseCluster c cluster) clusters =
        replace EventCluster.id cluster clusters := by
      have hrow := rebaseCluster_current hj.id
      rw [amend_eq_replace hkeys hfound (by rw [hrow]), hrow]
    refine ⟨⟨hnew, fun hn => ?_, fun c' hc' => ?_⟩, ?_⟩
    · cases hn
    · cases hc'
      exact ⟨hj.id.symm, hj.memberCount, hj.id ▸ List.mem_map_of_mem hc⟩
    · show _ = Except.ok (amend EventCluster.id cluster.id (rebaseCluster c cluster) clusters, _, _)
      rw [hwrite]
  | started c found hid hcount hlast hnew =>
    rw [hnew, if_pos rfl] at hseen
    subst hseen
    exact ⟨⟨hnew, fun _ => hid, fun c' hc' => nomatch hc'⟩, rfl⟩

theorem writes_cluster (a : Assignment) :
    Writes EventCluster.id a.cluster.id a.writeCluster := by
  unfold Assignment.writeCluster
  split
  · exact .insert a.cluster
  · exact .amend _ _ fun _ => rfl

theorem writes_event (U : Unicode) (a : Assignment) (f : Filing) (target : Option Event) :
    Writes Event.eventId (target.elim f.eventKey Event.eventId)
      fun events => a.writeEvent U f events target := by
  cases target with
  | none => exact .insert (newEvent f.eventKey a.cluster.id f.report)
  | some existing => exact .amend _ _ fun _ => rfl

theorem writeCluster_nodup (h : Fits f clusters a) (hkeys : (clusters.map EventCluster.id).Nodup)
    (hfresh : ∀ c ∈ clusters, c.id ≠ f.clusterKey) :
    ((a.writeCluster clusters).map EventCluster.id).Nodup := by
  unfold Assignment.writeCluster
  split
  · next hs =>
    refine nodup_insert hkeys fun c hc => ?_
    rw [h.started hs]
    exact hfresh c hc
  · next seen _ =>
    rw [map_amend (f := rebaseCluster seen a.cluster) fun _ => rfl]
    exact hkeys

theorem writeEvent_nodup {events : List Event} (target : Option Event)
    (hkeys : (events.map Event.eventId).Nodup) (hfresh : ∀ e ∈ events, e.eventId ≠ f.eventKey) :
    ((a.writeEvent U f events target).map Event.eventId).Nodup := by
  cases target with
  | none => exact nodup_insert hkeys hfresh
  | some e =>
    show ((amend Event.eventId e.eventId (rebase e (mergeEvent U e f.report)) events).map
      Event.eventId).Nodup
    rw [map_amend (f := rebase e (mergeEvent U e f.report)) fun _ => rfl]
    exact hkeys

/-! ## a commit -/

variable {s : Shelf}

/-- the event that a document of the cluster is merged into -/
theorem target_ok {e : Event} (h : s.target a.cluster a.found = some e) :
    e ∈ s.events ∧ e.clusterId = some a.cluster.id := by
  unfold Shelf.target at h
  split at h
  · cases h
  · exact latestActiveEvent_ok h

/-- an event that nothing has changed since it was read -/
theorem writeEvent_target (hkeys : (s.events.map Event.eventId).Nodup) :
    a.writeEvent U f s.events (s.target a.cluster a.found) =
      f.enter U a.cluster.id s.events (s.target a.cluster a.found) := by
  cases he : s.target a.cluster a.found with
  | none => rfl
  | some e =>
    have hrow := rebase_mergeEvent U e f.report
    have hfound := lookup_of_mem hkeys (target_ok he).1
    show amend Event.eventId e.eventId (rebase e (mergeEvent U e f.report)) s.events = _
    rw [amend_eq_replace hkeys hfound (by rw [hrow]; exact (mergeEvent_links U e f.report).1), hrow]
    rfl

/-- **A commit whose search would still lead to the same files the report.** -/
theorem file_of_look (hclusters : (s.clusters.map EventCluster.id).Nodup)
    (hevents : (s.events.map Event.eventId).Nodup) (h : f.look s.clusters = some a) :
    s.file U f = .ok (s.commit U f a (s.target a.cluster a.found)) := by
  unfold Shelf.file Shelf.commit
  rw [(assign_of_look hclusters h).2, writeEvent_target hevents]

theorem file_two {g : Filing} {t u : Shelf} (hf : s.file U f = .ok t) (hg : t.file U g = .ok u) :
    [f, g].foldlM (Shelf.file U) s = .ok u := by
  rw [List.foldlM_cons, hf]
  show [g].foldlM (Shelf.file U) t = _
  rw [List.foldlM_cons, hg]
  rfl

/-- a commit leaves the events of other clusters alone -/
theorem eventsOf_commit {i : Nat} (hkeys : (s.events.map Event.eventId).Nodup)
    (hi : a.cluster.id ≠ i) :
    eventsOf i (s.commit U f a (s.target a.cluster a.found)).events = eventsOf i s.events := by
  have hother : some a.cluster.id ≠ some i := fun h => hi (Option.some.inj h)
  show eventsOf i (a.writeEvent U f s.events (s.target a.cluster a.found)) = _
  rw [writeEvent_target hkeys]
  cases he : s.target a.cluster a.found with
  | none => exact eventsOf_append hother
  | some e =>
    obtain ⟨hmem, hplace⟩ := target_ok he
    obtain ⟨_, _, _, _, hcluster, _⟩ := mergeEvent_fixed U e f.report
    exact eventsOf_replace_other hkeys hmem (mergeEvent_links U e f.report).1 hcluster
      (hplace ▸ hother)

theorem target_commit {b : Assignment} (hkeys : (s.events.map Event.eventId).Nodup)
    (hb : b.found.isNew = true ∨ a.cluster.id ≠ b.cluster.id) :
    (s.commit U f a (s.target a.cluster a.found)).target b.cluster b.found =
      s.target b.cluster b.found := by
  rcases hb with hb | hb
  · unfold Shelf.target
    rw [if_pos hb, if_pos hb]
  · have hlatest : (s.commit U f a (s.target a.cluster a.found)).latestActiveEvent b.cluster.id =
        s.latestActiveEvent b.cluster.id := by
      rw [latestActiveEvent_eq, latestActiveEvent_eq, eventsOf_commit hkeys hb]
    show (if b.found.isNew then none else _) = if b.found.isNew then none else _
    rw [hlatest]

end

/-! ## two commits -/

section
variable {ι : Type} {U : Unicode} {file : ι → Filing} {s : Shelf} {w v : ι} {a b : Assignment}

/-- the cluster of a search is a new one or among those searched -/
theorem Fits.row {f : Filing} {clusters : List EventCluster} (h : Fits f clusters a) :
    (a.seen = none ∧ a.cluster.id = f.clusterKey) ∨
      (a.seen.isSome ∧ a.cluster.id ∈ clusters.map EventCluster.id) := by
  cases hs : a.seen with
  | none => exact Or.inl ⟨rfl, h.started hs⟩
  | some seen => exact Or.inr ⟨rfl, (h.joined seen hs).2.2⟩

theorem FreshKeys.clusterKey_ne (h : FreshKeys file s) {i : Nat}
    (hi : i ∈ s.clusters.map EventCluster.id) : i ≠ (file w).clusterKey := by
  obtain ⟨c, hc, rfl⟩ := List.mem_map.mp hi
  exact h.clusterKey w c hc

/-- a search that the commit of another worker would not have disturbed is for another cluster -/
theorem FreshKeys.apart (h : FreshKeys file s) (hne : w ≠ v)
    (ha : (file w).look s.clusters = some a) (hb : (file v).look s.clusters = some b)
    (hsame : (file v).look (a.writeCluster s.clusters) = some b) : a.cluster.id ≠ b.cluster.id := by
  have hfa := (assign_of_look h.clusters ha).1
  have hfb := (assign_of_look h.clusters hb).1
  rcases hfa.row with ⟨_, hka⟩ | ⟨hsa, hma⟩
  · rcases hfb.row with ⟨_, hkb⟩ | ⟨_, hmb⟩
    · rw [hka, hkb]
      exact fun hk => hne (h.clusterKeys w v hk)
    · rw [hka]
      exact (h.clusterKey_ne hmb).symm
  · rcases hfb.row with ⟨_, hkb⟩ | ⟨hsb, _⟩
    · rw [hkb]
      exact h.clusterKey_ne hma
    · intro hid
      obtain ⟨ca, hca⟩ := Option.isSome_iff_exists.mp hsa
      obtain ⟨cb, hcb⟩ := Option.isSome_iff_exists.mp hsb
      obtain ⟨_, _, hseen⟩ := look_eq_some hb
      obtain ⟨_, _, hseen'⟩ := look_eq_some hsame
      obtain ⟨_, _, hseena⟩ := look_eq_some ha
      rw [hfa.isNew, hca, Option.isNone_some, if_neg Bool.false_ne_true] at hseena
      rw [hfb.isNew, hcb, Option.isNone_some, if_neg Bool.false_ne_true] at hseen hseen'
      obtain ⟨hrow, hcount, _⟩ := hfa.joined ca hca
      -- the row would have been seen with one member more
      have hwrite : lookup EventCluster.id a.cluster.id (a.writeCluster s.clusters) =
          some a.cluster := by
        have hcurrent := rebaseCluster_current hrow.symm
        unfold Assignment.writeCluster
        rw [hca]
        show lookup _ _ (amend _ _ _ _) = _
        rw [amend_eq_replace h.clusters hseena.symm (by rw [hcurrent]), hcurrent]
        exact lookup_replace rfl hseena.symm
      rw [← hid, hwrite] at hseen'
      rw [← hid, ← hseena, hseen'] at hseen
      rw [← Option.some.inj hseen] at hcount
      omega

theorem FreshKeys.events_apart (h : FreshKeys file s) (hne : w ≠ v)
    (hid : a.cluster.id ≠ b.cluster.id) :
    (s.target a.cluster a.found).elim (file w).eventKey Event.eventId ≠
      (s.target b.cluster b.found).elim (file v).eventKey Event.eventId := by
  cases ha : s.target a.cluster a.found with
  | none =>
    cases hb : s.target b.cluster b.found with
    | none => exact fun hk => hne (h.eventKeys w v hk)
    | some e => exact fun hk => h.eventKey w e (target_ok hb).1 hk.symm
  | some e =>
    cases hb : s.target b.cluster b.found with
    | none => exact h.eventKey v e (target_ok ha).1
    | some e' =>
      intro hk
      obtain ⟨hmem, hplace⟩ := target_ok ha
      obtain ⟨hmem', hplace'⟩ := target_ok hb
      have hsame : some e = some e' := by
        rw [← lookup_of_mem h.events hmem, ← lookup_of_mem h.events hmem']
        exact congrArg (lookup Event.eventId · s.events) hk
      rw [Option.some.inj hsame, hplace'] at hplace
      exact hid (Option.some.inj hplace).symm

/-- **Two commits after searches of the same clusters commute, if the first would not have disturbed
the search of the other.** -/
theorem commit_comm (h : FreshKeys file s) (hne : w ≠ v)
    (ha : (file w).look s.clusters = some a) (hb : (file v).look s.clusters = some b)
    (hsame : (file v).look (a.writeCluster s.clusters) = some b) :
    ∃ t, [file w, file v].foldlM (Shelf.file U) s = .ok t ∧
      ((s.commit U (file v) b (s.target b.cluster b.found)).commit U (file w) a
        (s.target a.cluster a.found)).clusters.Perm t.clusters ∧
      ((s.commit U (file v) b (s.target b.cluster b.found)).commit U (file w) a
        (s.target a.cluster a.found)).events.Perm t.events := by
  have hid := h.apart hne ha hb hsame
  have hfa := (assign_of_look h.clusters ha).1
  have hfirst : s.file U (file w) = .ok (s.commit U (file w) a (s.target a.cluster a.found)) :=
    file_of_look h.clusters h.events ha
  have hsecond := file_of_look (U := U) (f := file v)
    (s := s.commit U (file w) a (s.target a.cluster a.found)) (a := b)
    (writeCluster_nodup hfa h.clusters (h.clusterKey w)) (writeEvent_nodup _ h.events (h.eventKey w))
    hsame
  rw [target_commit h.events (Or.inr hid)] at hsecond
  refine ⟨(s.commit U (file w) a (s.target a.cluster a.found)).commit U (file v) b
    (s.target b.cluster b.found), file_two hfirst hsecond, ?_, ?_⟩
  · exact (writes_cluster a).comm (writes_cluster b) hid s.clusters
  · exact (writes_event U a (file w) _).comm (writes_event U b (file v) _)
      (h.events_apart hne hid) s.events

end

/-! ## the lock on a cluster -/

section
variable {ι : Type} {U : Unicode} {file : ι → Filing} {s : Shelf} {d d' : Desk ι} {w v : ι}
  {a b : Assignment} {target : Option Event} {phase : Phase}

/-- keys are distinct and those of the workers under way are fresh, a row has one writer, and the
event that a worker has read is as it was read -/
structure Sound (file : ι → Filing) (d : Desk ι) : Prop where
  clusters : (d.shelf.clusters.map EventCluster.id).Nodup
  events : (d.shelf.events.map Event.eventId).Nodup
  clusterKey : ∀ w, d.phase w ≠ .over → ∀ c ∈ d.shelf.clusters, c.id ≠ (file w).clusterKey
  eventKey : ∀ w, d.phase w ≠ .over → ∀ e ∈ d.shelf.events, e.eventId ≠ (file w).eventKey
  fits : ∀ w a, (d.phase w).assignment = some a → Fits (file w) d.shelf.clusters a
  locks : ∀ w v k, (d.phase w).holds = some k → (d.phase v).holds = some k → w = v
  read : ∀ w a target, d.phase w = .read a target → target = d.shelf.target a.cluster a.found

theorem Sound.start (h : FreshKeys file s) : Sound file (.start s) := by
  refine ⟨h.clusters, h.events, fun w _ => h.clusterKey w, fun w _ => h.eventKey w, ?_, ?_, ?_⟩
  · intro w a ha
    cases ha
  · intro w v k hk
    cases hk
  · intro w a target hread
    cases hread

/-- two workers that have read their events are at different clusters -/
theorem Sound.apart {u : Option Event} (h : Sound file d) (hne : w ≠ v)
    (hw : d.phase w = .read a target) (hv : d.phase v = .read b u) :
    b.found.isNew = true ∨ a.cluster.id ≠ b.cluster.id := by
  have ha := h.fits w a (by rw [hw]; rfl)
  have hb := h.fits v b (by rw [hv]; rfl)
  cases hbs : b.seen with
  | none =>
    left
    rw [hb.isNew, hbs]
    rfl
  | some c =>
    right
    obtain ⟨_, _, hmem⟩ := hb.joined c hbs
    intro hsame
    cases has : a.seen with
    | none =>
      obtain ⟨c', hc', hid⟩ := List.mem_map.mp hmem
      refine h.clusterKey w (by rw [hw]; nofun) c' hc' ?_
      rw [hid, ← hsame, ha.started has]
    | some c' =>
      refine hne (h.locks w v a.cluster.id ?_ ?_)
      · rw [hw]
        show a.seen.map _ = _
        rw [has]
        rfl
      · rw [hv, hsame]
        show b.seen.map _ = _
        rw [hbs]
        rfl

variable [DecidableEq ι]

/-- a step of a worker that writes nothing -/
theorem Sound.set (h : Sound file d) (hover : d.phase w = .over → phase = .over)
    (hfits : ∀ a, phase.assignment = some a → Fits (file w) d.shelf.clusters a)
    (hlock : ∀ k, phase.holds = some k → ∀ v, v ≠ w → (d.phase v).holds ≠ some k)
    (hread : ∀ a target, phase = .read a target → target = d.shelf.target a.cluster a.found) :
    Sound file (d.set w phase) := by
  have hrun : ∀ v, (d.set w phase).phase v ≠ .over → d.phase v ≠ .over := by
    intro v hv
    rw [Desk.set_phase] at hv
    split at hv
    · next hvw =>
      rw [hvw]
      exact fun ho => hv (hover ho)
    · exact hv
  refine ⟨h.clusters, h.events, fun v hv => h.clusterKey v (hrun v hv),
    fun v hv => h.eventKey v (hrun v hv), ?_, ?_, ?_⟩
  · intro v a ha
    rw [Desk.set_phase] at ha
    split at ha
    · next hvw =>
      rw [hvw]
      exact hfits a ha
    · exact h.fits v a ha
  · intro v u k hv hu
    rw [Desk.set_phase] at hv hu
    split at hv
    · next hvw =>
      split at hu
      · next huw => rw [hvw, huw]
      · next huw => exact absurd hu (hlock k hv u huw)
    · next hvw =>
      split at hu
      · next huw => exact absurd hv (hlock k hu v hvw)
      · exact h.locks v u k hv hu
  · intro v a target hv
    rw [Desk.set_phase] at hv
    split at hv
    · exact hread a target hv
    · exact h.read v a target hv

/-- a commit -/
theorem Sound.commit (h : Sound file d) (hfresh : FreshKeys file s)
    (hw : d.phase w = .read a target)
    (hshelf : d'.shelf = d.shelf.commit U (file w) a target)
    (hphase : ∀ v, d'.phase v = if v = w then .over else d.phase v) : Sound file d' := by
  have hrun : d.phase w ≠ .over := by rw [hw]; nofun
  have hfits := h.fits w a (by rw [hw]; rfl)
  have htarget := h.read w a target hw
  have hclusters : d'.shelf.clusters = a.writeCluster d.shelf.clusters := by rw [hshelf]; rfl
  have hevents : d'.shelf.events = a.writeEvent U (file w) d.shelf.events target := by
    rw [hshelf]; rfl
  have hother : ∀ v, d'.phase v ≠ .over → v ≠ w ∧ d'.phase v = d.phase v := by
    intro v hv
    rw [hphase] at hv ⊢
    split at hv
    · exact absurd rfl hv
    · next hvw => exact ⟨hvw, if_neg hvw⟩
  refine ⟨?_, ?_, ?_, ?_, ?_, ?_, ?_⟩
  · rw [hclusters]
    exact writeCluster_nodup hfits h.clusters (h.clusterKey w hrun)
  · rw [hevents]
    exact writeEvent_nodup target h.events (h.eventKey w hrun)
  · intro v hv c hc
    obtain ⟨hvw, hsame⟩ := hother v hv
    rw [hsame] at hv
    have hold : ∀ i ∈ d.shelf.clusters.map EventCluster.id, i ≠ (file v).clusterKey := by
      intro i hi
      obtain ⟨c', hc', rfl⟩ := List.mem_map.mp hi
      exact h.clusterKey v hv c' hc'
    rw [hclusters] at hc
    rcases (writes_cluster a).mem hc with hc | hc
    · exact hold _ hc
    · rw [hc]
      rcases hfits.row with ⟨_, hrow⟩ | ⟨_, hrow⟩
      · rw [hrow]
        exact fun hk => hvw (hfresh.clusterKeys v w hk.symm)
      · exact hold _ hrow
  · intro v hv e he
    obtain ⟨hvw, hsame⟩ := hother v hv
    rw [hsame] at hv
    rw [hevents] at he
    rcases (writes_event U a (file w) target).mem he with he | he
    · obtain ⟨e', he', hid⟩ := List.mem_map.mp he
      rw [← hid]
      exact h.eventKey v hv e' he'
    · rw [he]
      cases target with
      | none => exact fun hk => hvw (hfresh.eventKeys v w hk.symm)
      | some e' => exact h.eventKey v hv e' (target_ok htarget.symm).1
  · intro v b hb
    rw [hphase] at hb
    split at hb
    · cases hb
    · rw [hclusters]
      exact (h.fits v b hb).mono fun _ => (writes_cluster a).keys
  · intro v u k hv hu
    rw [hphase] at hv hu
    split at hv
    · cases hv
    · split at hu
      · cases hu
      · exact h.locks v u k hv hu
  · intro v b u hv
    rw [hphase] at hv
    split at hv
    · cases hv
    · next hvw =>
      rw [h.read v b u hv, hshelf, htarget]
      exact (target_commit h.events (h.apart (Ne.symm hvw) hw hv)).symm

/-! ## every interleaving -/

variable [Fintype ι] {act : DeskAct ι}

/-- what a step can do -/
inductive DeskStep (U : Unicode) (file : ι → Filing) (d : Desk ι) : DeskAct ι → Desk ι → Prop
  | look (w : ι) (a : Assignment) (hw : d.phase w = .idle)
      (ha : (file w).look d.shelf.clusters = some a) : DeskStep U file d (.look w) (d.set w (.looked a))
  | place (w : ι) (a : Assignment) (hw : d.phase w = .looked a)
      (hfree : a.seen.isSome → ∀ v, v ≠ w → (d.phase v).holds ≠ some a.cluster.id) :
      DeskStep U file d (.place w) (d.set w (.placed a))
  | read (w : ι) (a : Assignment) (hw : d.phase w = .placed a) :
      DeskStep U file d (.read w) (d.set w (.read a (d.shelf.target a.cluster a.found)))
  | commit (w : ι) (a : Assignment) (target : Option Event) (hw : d.phase w = .read a target) :
      DeskStep U file d (.commit w) { d.set w .over with
        shelf := d.shelf.commit U (file w) a target
        log := d.log ++ [w] }
  | abort (w : ι) : DeskStep U file d (.abort w) (d.set w .over)

theorem desk_step (h : deskFire U file d act = some d') : DeskStep U file d act d' := by
  cases act with
  | look w =>
    rw [deskFire] at h
    split at h
    · next hw =>
      obtain ⟨a, ha, rfl⟩ := Option.map_eq_some_iff.mp h
      exact .look w a hw ha
    · cases h
  | place w =>
    rw [deskFire] at h
    split at h
    · next a hw =>
      split at h
      · cases h
      · next hfree =>
        cases h
        exact .place w a hw fun hs v hv hk => hfree ⟨hs, v, hv, hk⟩
    · cases h
  | read w =>
    rw [deskFire] at h
    split at h
    · next a hw => cases h; exact .read w a hw
    · cases h
  | commit w =>
    rw [deskFire] at h
    split at h
    · next a target hw => cases h; exact .commit w a target hw
    · cases h
  | abort w => cases h; exact .abort w

theorem sound_step (h : Sound file d) (hfresh : FreshKeys file s)
    (hact : deskFire U file d act = some d') : Sound file d' := by
  cases desk_step hact with
  | look w a hw ha =>
    refine h.set (fun ho => nomatch hw.symm.trans ho) ?_ ?_ ?_
    · intro b hb
      cases hb
      exact (assign_of_look h.clusters ha).1
    · intro k hk
      cases hk
    · intro b target hb
      cases hb
  | place w a hw hfree =>
    refine h.set (fun ho => nomatch hw.symm.trans ho) ?_ ?_ ?_
    · intro b hb
      cases hb
      exact h.fits w a (by rw [hw]; rfl)
    · intro k hk v hv
      obtain ⟨seen, hs, rfl⟩ := Option.map_eq_some_iff.mp hk
      exact hfree (by rw [hs]; rfl) v hv
    · intro b target hb
      cases hb
  | read w a hw =>
    refine h.set (fun ho => nomatch hw.symm.trans ho) ?_ ?_ ?_
    · intro b hb
      cases hb
      exact h.fits w a (by rw [hw]; rfl)
    · intro k hk v hv hkv
      exact hv (h.locks v w k hkv (by rw [hw]; exact hk))
    · intro b target hb
      cases hb
      rfl
  | commit w a target hw =>
    exact h.commit hfresh hw rfl fun v => Desk.set_phase d w v .over
  | abort w =>
    refine h.set (fun _ => rfl) ?_ ?_ ?_
    · intro b hb
      cases hb
    · intro k hk
      cases hk
    · intro b target hb
      cases hb

end

/-! ## two workers -/

section
variable {U : Unicode} {file : Bool → Filing} {s : Shelf} {d d' : Desk Bool} {act : DeskAct Bool}

/-- the committed tables are, up to the order of their rows, those of filing the reports of the
workers that have committed one after another -/
def Serial (U : Unicode) (file : Bool → Filing) (s : Shelf) (d : Desk Bool) : Prop :=
  ∃ (order : List Bool) (t : Shelf), order.Perm d.log ∧
    (order.map file).foldlM (Shelf.file U) s = .ok t ∧
    d.shelf.clusters.Perm t.clusters ∧ d.shelf.events.Perm t.events

/-- a commit whose search would still lead to the same, or that would not have disturbed the search
of the other worker -/
def Harmless (file : Bool → Filing) (s : Shelf) (d : Desk Bool) : DeskAct Bool → Prop
  | .commit w => ∀ a ∈ (d.phase w).assignment,
      (file w).look d.shelf.clusters = some a ∨
        (file !w).look (a.writeCluster s.clusters) = (file !w).look s.clusters
  | _ => True

instance (file : Bool → Filing) (s : Shelf) (d : Desk Bool) (act : DeskAct Bool) :
    Decidable (Harmless file s d act) :=
  match act with
  | .commit w => inferInstanceAs (Decidable (∀ a ∈ (d.phase w).assignment,
      (file w).look d.shelf.clusters = some a ∨
        (file !w).look (a.writeCluster s.clusters) = (file !w).look s.clusters))
  | .look _ | .place _ | .read _ | .abort _ => .isTrue trivial

/-- the workers have searched the tables at the start or those of now, and no more than two have
committed -/
structure Stage (U : Unicode) (file : Bool → Filing) (s : Shelf) (d : Desk Bool) : Prop where
  searched : ∀ w a, (d.phase w).assignment = some a →
    (file w).look s.clusters = some a ∨ (file w).look d.shelf.clusters = some a
  ended : ∀ w ∈ d.log, d.phase w = .over
  committed : (d.log = [] ∧ d.shelf = s) ∨
    (∃ w a, d.log = [w] ∧ (file w).look s.clusters = some a ∧
      d.shelf = s.commit U (file w) a (s.target a.cluster a.found)) ∨
    (∃ w, d.log = [w, !w] ∧ Serial U file s d)

theorem Stage.start : Stage U file s (.start s) := by
  refine ⟨?_, ?_, Or.inl ⟨rfl, rfl⟩⟩
  · intro w a ha
    cases ha
  · intro w hw
    cases hw

theorem Stage.set {w : Bool} {phase : Phase} (h : Stage U file s d)
    (hover : d.phase w = .over → phase = .over)
    (hsearch : ∀ a, phase.assignment = some a →
      (d.phase w).assignment = some a ∨ (file w).look d.shelf.clusters = some a) :
    Stage U file s (d.set w phase) := by
  refine ⟨?_, ?_, h.committed⟩
  · intro v a ha
    rw [Desk.set_phase] at ha
    split at ha
    · next hvw =>
      rw [hvw]
      rcases hsearch a ha with ha | ha
      · exact h.searched w a ha
      · exact Or.inr ha
    · exact h.searched v a ha
  · intro v hv
    rw [Desk.set_phase]
    split
    · next hvw =>
      rw [hvw] at hv
      exact hover (h.ended w hv)
    · exact h.ended v hv

theorem Stage.serial (h : Stage U file s d) (hfresh : FreshKeys file s) :
    d.log.Nodup ∧ Serial U file s d := by
  rcases h.committed with ⟨hlog, hshelf⟩ | ⟨w, a, hlog, hlook, hshelf⟩ | ⟨w, hlog, hserial⟩
  · refine ⟨by rw [hlog]; exact List.nodup_nil, [], s, by rw [hlog], rfl, ?_⟩
    rw [hshelf]
    exact ⟨.refl _, .refl _⟩
  · refine ⟨by rw [hlog]; exact List.nodup_singleton w, [w], d.shelf, by rw [hlog], ?_, .refl _,
      .refl _⟩
    rw [hshelf]
    show [file w].foldlM (Shelf.file U) s = _
    rw [List.foldlM_cons, file_of_look hfresh.clusters hfresh.events hlook]
    rfl
  · refine ⟨?_, hserial⟩
    rw [hlog]
    cases w <;> decide

variable {w : Bool} {a b : Assignment} {target : Option Event}

/-- before a commit nobody has committed, or the other worker has -/
theorem Stage.before (h : Stage U file s d) (hw : d.phase w = .read a target) :
    (d.log = [] ∧ d.shelf = s) ∨ ∃ b, d.log = [!w] ∧ (file !w).look s.clusters = some b ∧
      d.shelf = s.commit U (file !w) b (s.target b.cluster b.found) := by
  have hlog : w ∉ d.log := fun hmem => nomatch hw.symm.trans (h.ended w hmem)
  rcases h.committed with hnone | ⟨u, b, hu, hlook, hshelf⟩ | ⟨u, hu, _⟩
  · exact Or.inl hnone
  · rw [hu, List.mem_singleton] at hlog
    have hother : u = !w := Bool.eq_not.mpr (Ne.symm hlog)
    subst hother
    exact Or.inr ⟨b, hu, hlook, hshelf⟩
  · refine absurd ?_ hlog
    rw [hu]
    cases w <;> cases u <;> decide

/-- a commit after that of the other worker -/
theorem serial_second (hs : Sound file d) (hfresh : FreshKeys file s)
    (hw : d.phase w = .read a target) (hlog : d.log = [!w])
    (hlook : (file !w).look s.clusters = some b)
    (hshelf : d.shelf = s.commit U (file !w) b (s.target b.cluster b.found))
    (hsearch : (file w).look s.clusters = some a ∨ (file w).look d.shelf.clusters = some a)
    (hl : (file w).look d.shelf.clusters = some a ∨
      (file !w).look (a.writeCluster s.clusters) = (file !w).look s.clusters) :
    Serial U file s { d.set w .over with
      shelf := d.shelf.commit U (file w) a target, log := d.log ++ [w] } := by
  have hne : w ≠ !w := by cases w <;> decide
  have htarget := hs.read w a target hw
  have hcases : (file w).look d.shelf.clusters = some a ∨ ((file w).look s.clusters = some a ∧
      (file !w).look (a.writeCluster s.clusters) = some b) := by
    rcases hl with hcur | hsame
    · exact Or.inl hcur
    · rcases hsearch with ha | hcur
      · exact Or.inr ⟨ha, hsame.trans hlook⟩
      · exact Or.inl hcur
  rcases hcases with hcur | ⟨ha, hsame⟩
  · -- the report is filed after that of the other worker
    have hfirst := file_of_look (U := U) hfresh.clusters hfresh.events hlook
    have hsecond := file_of_look (U := U) hs.clusters hs.events hcur
    rw [← hshelf] at hfirst
    rw [← htarget] at hsecond
    exact ⟨[!w, w], d.shelf.commit U (file w) a target, by rw [hlog]; rfl, file_two hfirst hsecond,
      .refl _, .refl _⟩
  · -- and here before it
    obtain ⟨t, ht, hc, he⟩ := commit_comm (U := U) hfresh hne ha hlook hsame
    have hid := hfresh.apart hne ha hlook hsame
    have hboth : d.shelf.commit U (file w) a target =
        (s.commit U (file !w) b (s.target b.cluster b.found)).commit U (file w) a
          (s.target a.cluster a.found) := by
      rw [htarget, hshelf, target_commit hfresh.events (Or.inr hid.symm)]
    refine ⟨[w, !w], t, ?_, ht, ?_, ?_⟩
    · show [w, !w].Perm (d.log ++ [w])
      rw [hlog]
      exact .swap _ w []
    · rw [hboth]
      exact hc
    · rw [hboth]
      exact he

theorem Stage.commit (h : Stage U file s d) (hs : Sound file d) (hfresh : FreshKeys file s)
    (hw : d.phase w = .read a target) (hl : Harmless file s d (.commit w)) :
    Stage U file s { d.set w .over with
      shelf := d.shelf.commit U (file w) a target, log := d.log ++ [w] } := by
  have hasg : (d.phase w).assignment = some a := by rw [hw]; rfl
  have hbefore := h.before hw
  refine ⟨?_, ?_, ?_⟩
  · intro v b hb
    rw [show (d.set w .over).phase v = _ from Desk.set_phase d w v .over] at hb
    split at hb
    · cases hb
    · next hvw =>
      have hother : v = !w := Bool.eq_not.mpr hvw
      rcases hbefore with ⟨_, hshelf⟩ | ⟨_, hlog, _⟩
      · have hsearch := h.searched v b hb
        rw [hshelf, or_self] at hsearch
        exact Or.inl hsearch
      · have hended := h.ended v (by rw [hlog, hother]; exact List.mem_singleton_self _)
        rw [hended] at hb
        cases hb
  · intro v hv
    rw [show (d.set w .over).phase v = _ from Desk.set_phase d w v .over]
    split
    · rfl
    · next hvw =>
      rcases List.mem_append.mp hv with hv | hv
      · exact h.ended v hv
      · exact absurd (List.mem_singleton.mp hv) hvw
  · rcases hbefore with ⟨hlog, hshelf⟩ | ⟨b, hlog, hlook, hshelf⟩
    · refine Or.inr (Or.inl ⟨w, a, ?_, ?_, ?_⟩)
      · show d.log ++ [w] = [w]
        rw [hlog]
        rfl
      · have hsearch := h.searched w a hasg
        rw [hshelf, or_self] at hsearch
        exact hsearch
      · show d.shelf.commit U (file w) a target = _
        rw [hs.read w a target hw, hshelf]
    · refine Or.inr (Or.inr ⟨!w, ?_, ?_⟩)
      · show d.log ++ [w] = _
        rw [hlog, Bool.not_not]
        rfl
      · exact serial_second hs hfresh hw hlog hlook hshelf (h.searched w a hasg) (hl a hasg)

theorem stage_step (h : Stage U file s d) (hs : Sound file d) (hfresh : FreshKeys file s)
    (hl : Harmless file s d act) (hact : deskFire U file d act = some d') : Stage U file s d' := by
  cases desk_step hact with
  | look w a hw ha =>
    refine h.set (fun ho => nomatch hw.symm.trans ho) fun b hb => ?_
    cases hb
    exact Or.inr ha
  | place w a hw hfree =>
    refine h.set (fun ho => nomatch hw.symm.trans ho) fun b hb => Or.inl ?_
    rw [hw]
    exact hb
  | read w a hw =>
    refine h.set (fun ho => nomatch hw.symm.trans ho) fun b hb => Or.inl ?_
    rw [hw]
    exact hb
  | commit w a target hw => exact h.commit hs hfresh hw hl
  | abort w => exact h.set (fun _ => rfl) fun b hb => nomatch hb

/-- **Where every commit is harmless, two workers leave what the same reports leave one after
another**, in every interleaving of their steps and at every point of it. -/
theorem serial_of_harmless {as : List (DeskAct Bool)} (hfresh : FreshKeys file s)
    (hrun : exec (deskFire U file) (.start s) as = some d)
    (hl : Along (deskFire U file) (Harmless file s) (.start s) as) :
    d.log.Nodup ∧ Serial U file s d := by
  have hend : Sound file d ∧ Stage U file s d := by
    refine exec_invariant_along (deskFire U file) (I := fun d => Sound file d ∧ Stage U file s d) ?_
      hrun hl ⟨.start hfresh, .start⟩
    intro d act d' h hg hact
    exact ⟨sound_step h.1 hfresh hact, stage_step h.2 h.1 hfresh hg hact⟩
  exact hend.2.serial hfresh

end

/-! ## two runs -/

namespace Sample

/-- two reports of one disruption -/
def filings (w : Bool) : Filing where
  report := if w then later else report .moderate
  vector := [1]
  ranking := (env .moderate).ranking
  sqrt := id
  clusterKey := if w then 3 else 1
  eventKey := if w then 4 else 2

/-- both search before one of them commits -/
def crossed : List (DeskAct Bool) :=
  [.look false, .look true, .place false, .read false, .commit false, .place true, .read true,
    .commit true]

def inTurn : List (DeskAct Bool) :=
  [.look false, .place false, .read false, .commit false, .look true, .place true, .read true,
    .commit true]

theorem filings_fresh : FreshKeys filings ⟨[], []⟩ := by
  refine ⟨List.nodup_nil, List.nodup_nil, ?_, ?_, by decide, by decide⟩
  · intro w c hc
    cases hc
  · intro w e he
    cases he

end Sample

theorem serial_inTurn :
    ∃ d, exec (deskFire Unicode.latin Sample.filings) (.start ⟨[], []⟩) Sample.inTurn = some d ∧
      d.shelf.clusters.map (·.memberCount) = [2] ∧ d.shelf.events.length = 1 ∧
      d.log.Nodup ∧ Serial Unicode.latin Sample.filings ⟨[], []⟩ d := by
  have hrun : (exec (deskFire Unicode.latin Sample.filings) (.start ⟨[], []⟩) Sample.inTurn).map
      (fun d => (d.shelf.clusters.map (·.memberCount), d.shelf.events.length)) = some ([2], 1) := by
    decide +kernel
  obtain ⟨d, hd, hobs⟩ := Option.map_eq_some_iff.mp hrun
  exact ⟨d, hd, congrArg Prod.fst hobs, congrArg Prod.snd hobs,
    serial_of_harmless Sample.filings_fresh hd (by decide +kernel)⟩

/-- two reports that are one event one after another become two when both search first -/
theorem crossed_not_serial :
    ¬ ∀ (U : Unicode) (file : Bool → Filing) (s : Shelf) (as : List (DeskAct Bool)) (d : Desk Bool),
      FreshKeys file s → exec (deskFire U file) (.start s) as = some d → Serial U file s d := by
  intro h
  have hrun : (exec (deskFire Unicode.latin Sample.filings) (.start ⟨[], []⟩) Sample.crossed).map
      (fun d => (d.log, d.shelf.events.length)) = some ([false, true], 2) := by decide +kernel
  obtain ⟨d, hd, hobs⟩ := Option.map_eq_some_iff.mp hrun
  obtain ⟨order, t, hperm, ht, _, hevents⟩ := h _ _ _ _ d Sample.filings_fresh hd
  rw [show d.log = [false, true] from congrArg Prod.fst hobs] at hperm
  have hone : ∀ v w, [v, w].Perm [false, true] →
      (([v, w].map Sample.filings).foldlM (Shelf.file Unicode.latin) ⟨[], []⟩).toOption.map
        (·.events.length) = some 1 := by decide +kernel
  have htwo : t.events.length = 2 := hevents.length_eq.symm.trans (congrArg Prod.snd hobs)
  match order, hperm.length_eq with
  | [v, w], _ =>
    have hlen := hone v w hperm
    rw [ht] at hlen
    exact absurd (htwo.symm.trans (Option.some.inj hlen)) (by decide)

end GeoRisk
