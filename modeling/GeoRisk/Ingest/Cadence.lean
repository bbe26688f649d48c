import GeoRisk.Ingest.Block

/-!
# The cadence of a source

The interval of a source decides when it is fetched again, so a fetch counts only as far as its time
was committed: the time is written at the end of the run of the source and committed with the whole
tick.

* `Asked`, `asked`         the fetches of a run of ticks, each at the clock value of its tick;
* `Spaced`                 two fetches of one source are at least its interval apart;
* `Ticking`                keys, and the list of a tick, in every run;
* `Recorded`               nothing raises behind a fetch whose time is not committed;
* `spaced_of_recorded`     fetches keep their distance in a run where they are recorded.
-/

namespace GeoRisk
open Kit

/-- a fetch of a source, with the interval that was set for it then -/
structure Asked where
  sourceId : Nat
  time : DateTime
  interval : Nat
  deriving DecidableEq, Repr

/-- the fetch that a step performs -/
def asked (p : Poller) : PollAct → List Asked
  | .source env _ =>
    match p.running with
    | some ⟨now, id :: _, _, _⟩ =>
      match p.session.current.source? id with
      | some source => if env.asks then [⟨id, now, source.pollIntervalSeconds⟩] else []
      | none => []
    | _ => []
  | _ => []

/-- two fetches of one source are at least its interval apart -/
def Spaced (log : List Asked) : Prop :=
  log.Pairwise fun x y => x.sourceId = y.sourceId → x.time.addSeconds y.interval ≤ y.time

instance (log : List Asked) : Decidable (Spaced log) :=
  inferInstanceAs (Decidable (log.Pairwise _))

/-- the clock values of the ticks of a run -/
def clock (as : List PollAct) : List DateTime :=
  as.filterMap fun
    | .start now _ _ => some now
    | _ => none

/-- nothing raises behind a fetch whose time is not committed: not around the run that fetches, not
around the runs after it, and not in the last commit -/
def Recorded (p : Poller) : PollAct → Prop
  | .source env _ => env.steady = true ∨
    (env.asks = false ∧ p.session.current.sources = p.session.committed.sources)
  | .finish commits =>
    commits = true ∨ p.session.current.sources = p.session.committed.sources
  | _ => True

instance (p : Poller) (a : PollAct) : Decidable (Recorded p a) :=
  match a with
  | .source env _ => inferInstanceAs (Decidable (env.steady = true ∨
    (env.asks = false ∧ p.session.current.sources = p.session.committed.sources)))
  | .finish commits => inferInstanceAs (Decidable (commits = true ∨
    p.session.current.sources = p.session.committed.sources))
  | .start _ _ _ | .enable _ | .record _ => .isTrue trivial

/-! ## keys in every run -/

/-- the session of a tick knows the sources of the committed store, and so does its list -/
structure Ticking (p : Poller) : Prop where
  keys : SourceKeys p.session.committed
  ids : p.session.current.sources.map (·.id) = p.session.committed.sources.map (·.id)
  nextId : p.session.committed.nextId ≤ p.session.current.nextId
  idle : p.running = none → p.session.current = p.session.committed
  listed : ∀ t ∈ p.running, t.ids.Nodup ∧
    ∀ i ∈ t.ids, i ∈ p.session.committed.sources.map (·.id)

section
variable {U : Unicode} {sha : Text → Text} {p p' : Poller}

theorem Ticking.between {store : Store} {log : List Entry} (h : SourceKeys store) :
    Ticking { session := .start store, log := log } :=
  ⟨h, rfl, le_refl _, fun _ => rfl, fun _ ht => (by cases ht)⟩

theorem Ticking.keys_current (h : Ticking p) :
    (p.session.current.sources.map Source.id).Nodup := by
  have hc := h.keys.nodup
  rw [← h.ids] at hc
  exact hc

theorem Ticking.source? {t : Polling} {i : Nat} (h : Ticking p) (hr : p.running = some t)
    (hi : i ∈ t.ids) : ∃ x, p.session.current.source? i = some x := by
  have hmem := (h.listed t hr).2 i hi
  rw [← h.ids] at hmem
  obtain ⟨x, hx, rfl⟩ := List.mem_map.mp hmem
  exact ⟨x, lookup_of_mem h.keys_current hx⟩

/-- what a step on the list of a tick leads to: the next source returned or raised -/
theorem fire_source {env : SourceEnv} {handlerRaises : Bool} (h : Ticking p)
    (ha : pollFire U sha p (.source env handlerRaises) = some p') :
    ∃ t id rest source, p.running = some t ∧ t.ids = id :: rest ∧
      p.session.current.source? id = some source ∧
      asked p (.source env handlerRaises) =
        (if env.asks then [⟨id, t.now, source.pollIntervalSeconds⟩] else []) ∧
      ((∃ blocked store row runs b, env.asks = true ∧
          SourceEffect source t.now blocked p.session.current store row ∧
          p'.session = p.session.write store ∧
          p'.running = some ⟨t.now, rest, runs, b⟩) ∨
        (env.steady = false ∧ p'.session = p.session.rollback ∧
          (p'.running = none ∨ ∃ runs b, p'.running = some ⟨t.now, rest, runs, b⟩))) := by
  obtain ⟨t, id, rest, hr, hids, rfl⟩ := pollFire_source ha
  have hid : id ∈ t.ids := by
    rw [hids]
    exact List.mem_cons_self ..
  obtain ⟨source, hs⟩ := h.source? hr hid
  refine ⟨t, id, rest, source, hr, hids, hs, ?_, ?_⟩
  · obtain ⟨now, ids, runs, b⟩ := t
    cases hids
    simp only [asked, hr, hs]
  · rcases Poller.round_cases p t id rest env handlerRaises with
      ⟨source', store, row, blocked, hs', hasks, heff, hround⟩ |
      ⟨blocked, running, hsteady, _, hrunning, hround⟩
    · rw [hs] at hs'
      cases hs'
      rw [hround]
      exact Or.inl ⟨blocked, store, row, _, _, hasks, heff, rfl, rfl⟩
    · rw [hround]
      exact Or.inr ⟨hsteady source hs, rfl, hrunning.imp_right fun he => ⟨_, _, he⟩⟩

theorem Ticking.rest {t : Polling} {id : Nat} {rest : List Nat} (h : Ticking p)
    (hr : p.running = some t) (hids : t.ids = id :: rest) :
    rest.Nodup ∧ ∀ i ∈ rest, i ∈ p.session.committed.sources.map (·.id) := by
  obtain ⟨hnd, hlist⟩ := h.listed t hr
  rw [hids] at hnd hlist
  exact ⟨(List.nodup_cons.mp hnd).2, fun i hi => hlist i (List.mem_cons_of_mem _ hi)⟩

/-- **Every step keeps the keys.** -/
theorem ticking_step {a : PollAct} (h : Ticking p) (ha : pollFire U sha p a = some p') :
    Ticking p' := by
  cases a with
  | start now collate held =>
    obtain ⟨hr, rfl⟩ := pollFire_start ha
    refine ⟨h.keys, h.ids, h.nextId, fun hn => (by cases hn), fun t ht => ?_⟩
    cases ht
    have hsame := h.idle hr
    constructor
    · show (dueSources p.session.current now collate held).Nodup
      rw [hsame]
      exact nodup_dueSources h.keys now collate held
    · intro i hi
      obtain ⟨x, hx, rfl, _⟩ := mem_dueSources hi
      rw [hsame] at hx
      exact List.mem_map_of_mem hx
  | source env handlerRaises =>
    obtain ⟨t, id, rest, source, hr, hids, hs, _, hcase⟩ := fire_source h ha
    have hrest := h.rest hr hids
    rcases hcase with ⟨blocked, store, row, runs, b, _, heff, hp, hrun⟩ | ⟨_, hp, hrun⟩
    · obtain ⟨new, _, _, _, hsources, _⟩ := heff.fetched
      refine ⟨?_, ?_, ?_, ?_, ?_⟩
      · rw [hp]
        exact h.keys
      · rw [hp]
        show store.sources.map (·.id) = p.session.committed.sources.map (·.id)
        rw [hsources, ← h.ids]
        exact map_replace new _
      · rw [hp]
        exact le_trans h.nextId (le_of_lt heff.nextId)
      · rw [hrun]
        intro hn
        cases hn
      · rw [hrun, hp]
        intro t' ht'
        cases ht'
        exact hrest
    · refine ⟨?_, ?_, ?_, ?_, ?_⟩
      · rw [hp]
        exact h.keys
      · rw [hp]
        rfl
      · rw [hp]
        exact le_refl _
      · rw [hp]
        exact fun _ => rfl
      · rw [hp]
        intro t' ht'
        rcases hrun with hrun | ⟨runs, b, hrun⟩
        · rw [hrun] at ht'
          cases ht'
        · rw [hrun] at ht'
          cases ht'
          exact hrest
  | finish commits =>
    obtain ⟨t, _, rfl⟩ := pollFire_finish ha
    cases commits with
    | true => exact .between (h.keys.of_map h.ids h.nextId)
    | false => exact .between h.keys
  | enable id =>
    obtain ⟨_, source, _, rfl⟩ := pollFire_enable ha
    exact .between (h.keys.of_map (map_replace _ _) (le_refl _))
  | record a =>
    obtain ⟨_, store, hf, rfl⟩ := pollFire_record ha
    obtain ⟨hn, hsources | ⟨row, _, rfl⟩⟩ := fire_sources hf
    · exact .between (h.keys.of_map (by rw [hsources]) hn)
    · exact .between (h.keys.append (le_refl _) (Nat.lt_succ_self _))

end

/-! ## fetches keep their distance -/

/-- every fetch is recorded on its source, and what is still to be fetched is due -/
structure Spacing (log : List Asked) (p : Poller) : Prop where
  known : ∀ x ∈ log, x.sourceId < p.session.committed.nextId
  recorded : ∀ x ∈ log, ∀ row ∈ p.session.current.sources, row.id = x.sourceId →
    ∃ t, row.lastFetchedAt = some t ∧ x.time ≤ t
  due : ∀ t ∈ p.running, ∀ i ∈ t.ids, ∀ row ∈ p.session.current.sources, row.id = i →
    isDue row t.now = true
  spaced : Spaced log

section
variable {U : Unicode} {sha : Text → Text} {p p' : Poller} {log : List Asked}

/-- a due source that was fetched is past the end of its interval -/
theorem isDue_after {source : Source} {now t : DateTime} (h : isDue source now = true)
    (ht : source.lastFetchedAt = some t) : t.addSeconds source.pollIntervalSeconds ≤ now := by
  unfold isDue at h
  rw [ht] at h
  exact of_decide_eq_true h

theorem isDue_of_dueSources {store : Store} {now : DateTime} {collate : Text → Text → Bool}
    {held : Nat → Bool} (hkeys : SourceKeys store) {row : Source} (hrow : row ∈ store.sources)
    (h : row.id ∈ dueSources store now collate held) : isDue row now = true := by
  obtain ⟨x, hx, he⟩ := List.mem_map.mp h
  obtain ⟨hmem, hdue⟩ := List.mem_filter.mp hx
  have hx := (List.mem_filter.mp ((List.perm_insertionSort _ _).mem_iff.mp hmem)).1
  have hsame : some row = some x := by
    rw [← lookup_of_mem hkeys.nodup hrow, ← lookup_of_mem hkeys.nodup hx, he]
  rw [Option.some.inj hsame]
  exact hdue

/-- a step that puts nothing out and leaves the sources of the session as they are -/
theorem Spacing.same (h : Spacing log p)
    (hn : p.session.committed.nextId ≤ p'.session.committed.nextId)
    (hs : p'.session.current.sources = p.session.current.sources)
    (hd : ∀ t ∈ p'.running, ∀ i ∈ t.ids, ∀ row ∈ p.session.current.sources, row.id = i →
      isDue row t.now = true) : Spacing (log ++ []) p' := by
  rw [List.append_nil]
  refine ⟨fun x hx => lt_of_lt_of_le (h.known x hx) hn, ?_, ?_, h.spaced⟩
  · rw [hs]
    exact h.recorded
  · rw [hs]
    exact hd

/-- a run that returns puts its time on its source -/
theorem spacing_returned {t : Polling} {id : Nat} {rest : List Nat} {runs : List IngestionRun}
    {source : Source} {store : Store} {blocked b : Bool} {row : IngestionRun} (ht : Ticking p)
    (h : Spacing log p) (hr : p.running = some t) (hids : t.ids = id :: rest)
    (hs : p.session.current.source? id = some source)
    (heff : SourceEffect source t.now blocked p.session.current store row)
    (hp : p'.session = p.session.write store) (hrun : p'.running = some ⟨t.now, rest, runs, b⟩) :
    Spacing (log ++ [⟨id, t.now, source.pollIntervalSeconds⟩]) p' := by
  obtain ⟨new, hnew, htime, _, hsources, _⟩ := heff.fetched
  have hid : source.id = id := lookup_key hs
  have hmem : source ∈ p.session.current.sources := lookup_mem hs
  have hlisted : id ∈ t.ids := by
    rw [hids]
    exact List.mem_cons_self ..
  have hdue : isDue source t.now = true := h.due t hr id hlisted source hmem hid
  have hnot : id ∉ rest := by
    have hnd := (ht.listed t hr).1
    rw [hids] at hnd
    exact (List.nodup_cons.mp hnd).1
  -- an earlier fetch of this source lies an interval back
  have hback : ∀ x ∈ log, x.sourceId = id →
      x.time.addSeconds source.pollIntervalSeconds ≤ t.now := by
    intro x hx he
    obtain ⟨last, hlast, hle⟩ := h.recorded x hx source hmem (hid.trans he.symm)
    exact DateTime.le_trans (DateTime.addSeconds_mono hle _) (isDue_after hdue hlast)
  refine ⟨?_, ?_, ?_, ?_⟩
  · rw [hp]
    intro x hx
    rcases List.mem_append.mp hx with hx | hx
    · exact h.known x hx
    · rw [List.mem_singleton.mp hx]
      obtain ⟨y, hy, he⟩ := List.mem_map.mp ((ht.listed t hr).2 id hlisted)
      exact he ▸ ht.keys.fresh y hy
  · rw [hp]
    intro x hx y hy he
    rw [Session.write_current, hsources] at hy
    rcases mem_replace hy with rfl | ⟨hy, hne⟩
    · refine ⟨t.now, htime, ?_⟩
      rcases List.mem_append.mp hx with hx | hx
      · have hxid : x.sourceId = id := by rw [← he, hnew, hid]
        exact DateTime.le_trans (x.time.le_addSeconds _) (hback x hx hxid)
      · rw [List.mem_singleton.mp hx]
        exact le_refl t.now.micros
    · rcases List.mem_append.mp hx with hx | hx
      · exact h.recorded x hx y hy he
      · rw [List.mem_singleton.mp hx] at he
        rw [hnew, hid] at hne
        exact absurd he hne
  · rw [hp, hrun]
    intro t' ht' i hi y hy he
    cases ht'
    rw [Session.write_current, hsources] at hy
    rcases mem_replace hy with rfl | ⟨hy, _⟩
    · rw [hnew, hid] at he
      exact absurd (he ▸ hi) hnot
    · refine h.due t hr i ?_ y hy he
      rw [hids]
      exact List.mem_cons_of_mem _ hi
  · refine List.pairwise_append.mpr ⟨h.spaced, List.pairwise_singleton _ _, ?_⟩
    intro x hx y hy he
    rw [List.mem_singleton.mp hy] at he ⊢
    exact hback x hx he

/-- enabling a source leaves its time -/
theorem spacing_enable {id : Nat} {source : Source} (ht : Ticking p) (h : Spacing log p)
    (hr : p.running = none) (hs : p.session.committed.source? id = some source) :
    Spacing log
      { session := .start (p.session.committed.putSource { source with enabled := true })
        log := p.log ++ [.enabled id] } := by
  refine ⟨h.known, ?_, fun _ ht' => (by cases ht'), h.spaced⟩
  intro x hx row hrow he
  rcases mem_replace hrow with rfl | ⟨hrow, _⟩
  · refine h.recorded x hx source ?_ he
    rw [ht.idle hr]
    exact lookup_mem hs
  · rw [← ht.idle hr] at hrow
    exact h.recorded x hx row hrow he

theorem spacing_record {a : Act} {store : Store} (ht : Ticking p) (h : Spacing log p)
    (hr : p.running = none) (hf : fire U p.session.committed a = some store) :
    Spacing log { session := .start store, log := p.log } := by
  obtain ⟨hn, hsources⟩ := fire_sources hf
  refine ⟨fun x hx => lt_of_lt_of_le (h.known x hx) hn, ?_, fun _ ht' => (by cases ht'), h.spaced⟩
  intro x hx y hy he
  have hold : y ∈ p.session.committed.sources → ∃ t, y.lastFetchedAt = some t ∧ x.time ≤ t := by
    intro hy
    rw [← ht.idle hr] at hy
    exact h.recorded x hx y hy he
  rcases hsources with hsources | ⟨row, _, rfl⟩
  · rw [show (Session.start store).current.sources = _ from hsources] at hy
    exact hold hy
  · rcases List.mem_append.mp hy with hy | hy
    · exact hold hy
    · -- the new key has not been fetched
      rw [List.mem_singleton.mp hy] at he
      exact absurd (h.known x hx) (he ▸ lt_irrefl _)

/-- **A step that loses no fetch keeps the distance.** -/
theorem spacing_step {a : PollAct} (ht : Ticking p) (h : Spacing log p) (hg : Recorded p a)
    (ha : pollFire U sha p a = some p') : Spacing (log ++ asked p a) p' := by
  cases a with
  | start now collate held =>
    obtain ⟨hr, rfl⟩ := pollFire_start ha
    refine h.same (le_refl _) rfl ?_
    rintro t ⟨⟩ i hi row hrow rfl
    have hkeys : SourceKeys p.session.current := by
      rw [ht.idle hr]
      exact ht.keys
    exact isDue_of_dueSources hkeys hrow hi
  | source env handlerRaises =>
    obtain ⟨t, id, rest, source, hr, hids, hs, hout, hcase⟩ := fire_source ht ha
    rw [hout]
    rcases hcase with ⟨blocked, store, row, runs, b, hasks, heff, hp, hrun⟩ | ⟨hnot, hp, hrun⟩
    · rw [if_pos hasks]
      exact spacing_returned ht h hr hids hs heff hp hrun
    · obtain ⟨hasks, hsame⟩ := hg.resolve_left (Bool.eq_false_iff.mp hnot)
      rw [if_neg (Bool.eq_false_iff.mp hasks)]
      refine h.same ?_ ?_ ?_
      · rw [hp]
        exact le_refl _
      · rw [hp]
        exact hsame.symm
      · intro t' ht' i hi
        rcases hrun with hrun | ⟨runs, b, hrun⟩
        · rw [hrun] at ht'
          cases ht'
        · rw [hrun] at ht'
          cases ht'
          refine h.due t hr i ?_
          rw [hids]
          exact List.mem_cons_of_mem _ hi
  | finish commits =>
    obtain ⟨t, _, rfl⟩ := pollFire_finish ha
    cases commits with
    | true => exact h.same ht.nextId rfl fun _ ht' => (by cases ht')
    | false =>
      have hsame := hg.resolve_left Bool.false_ne_true
      exact h.same (le_refl _) hsame.symm fun _ ht' => (by cases ht')
  | enable id =>
    obtain ⟨hr, source, hs, rfl⟩ := pollFire_enable ha
    show Spacing (log ++ []) _
    rw [List.append_nil]
    exact spacing_enable ht h hr hs
  | record a =>
    obtain ⟨hr, store, hf, rfl⟩ := pollFire_record ha
    show Spacing (log ++ []) _
    rw [List.append_nil]
    exact spacing_record ht h hr hf

/-- **In every run of ticks in which nothing raises behind a fetch whose time is not committed, two
fetches of one source are at least its interval apart.** -/
theorem spaced_of_recorded (U : Unicode) (sha : Text → Text) {store : Store} {as : List PollAct}
    (hkeys : SourceKeys store) (hrun : exec (pollFire U sha) (.idle store) as = some p)
    (hl : Along (pollFire U sha) Recorded (.idle store) as) :
    Spaced (trace (pollFire U sha) asked (.idle store) as) := by
  have hstart : Spacing [] (.idle store) :=
    ⟨fun _ hx => (by cases hx), fun _ hx => (by cases hx), fun _ ht => (by cases ht),
      List.Pairwise.nil⟩
  have hend : Ticking p ∧ Spacing ([] ++ trace (pollFire U sha) asked (.idle store) as) p := by
    refine trace_invariant_along (pollFire U sha) (I := fun log p => Ticking p ∧ Spacing log p) ?_
      hrun hl ⟨.between hkeys, hstart⟩
    intro log p a p' hp hg ha
    exact ⟨ticking_step hp.1 ha, spacing_step hp.1 hp.2 hg ha⟩
  exact hend.2.spaced

end

/-! ## two runs -/

namespace Sample

/-- the payload of the first source does not parse, and the next tick fetches it again -/
def unrecorded : List PollAct :=
  [wake ⟨0⟩, unparsable, asked timeout, .finish true, wake ⟨1⟩, asked timeout]

/-- both sources are fetched again after their interval -/
def hourly : List PollAct :=
  [wake ⟨0⟩, asked timeout, asked timeout, .finish true,
    wake ⟨3600 * DateTime.microsPerSecond⟩, asked timeout]

end Sample

/-- a source whose run crashes is fetched again at the next tick -/
theorem unrecorded_not_spaced :
    ¬ ∀ (U : Unicode) (sha : Text → Text) (store : Store) (as : List PollAct) (p : Poller),
      SourceKeys store → (clock as).Pairwise (· ≤ ·) →
      exec (pollFire U sha) (.idle store) as = some p →
      Spaced (trace (pollFire U sha) asked (.idle store) as) := by
  intro h
  have hrun : (exec (pollFire Unicode.latin id) (.idle Sample.subscribed)
      Sample.unrecorded).isSome = true := by decide +kernel
  obtain ⟨p, hp⟩ := Option.isSome_iff_exists.mp hrun
  exact absurd (h _ _ _ _ p Sample.subscribed_keys (by decide +kernel) hp) (by decide +kernel)

theorem spaced_hourly :
    Spaced (trace (pollFire Unicode.latin id) asked (.idle Sample.subscribed) Sample.hourly) := by
  have hrun : (exec (pollFire Unicode.latin id) (.idle Sample.subscribed)
      Sample.hourly).isSome = true := by decide +kernel
  obtain ⟨p, hp⟩ := Option.isSome_iff_exists.mp hrun
  exact spaced_of_recorded _ _ Sample.subscribed_keys hp (by decide +kernel)

end GeoRisk
