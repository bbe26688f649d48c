import GeoRisk.Kit.Session
import GeoRisk.Ingest.Runner
import GeoRisk.Record.Gate

/-!
# A block is an answer

Runs of worker ticks.  A tick is one `session_scope` around `ingest_due_sources`: it is committed at
its end, and a source whose run raises rolls the whole session back.

* `PollAct`, `pollFire`    the start of a tick, the run of its next source, its end, and what happens
                           between two ticks;
* `Poller.round_cases`, `pollFire_start`, `pollFire_source`, …
                           what each step does;
* `barred`, `Respected`    a source that refused us and was not enabled since; no such source is
                           fetched;
* `Lasting`                nothing raises while a block is uncommitted;
* `respected_of_lasting`   no source is fetched after a block in a run where blocks last.
-/

namespace GeoRisk
open Kit

/-! ## the log of fetches -/

inductive Entry
  | fetched (sourceId : Nat) (blocked : Bool)
  /-- a human enables the source -/
  | enabled (sourceId : Nat)
  deriving DecidableEq

def barredBy (sourceId : Nat) (barred : Bool) : Entry → Bool
  | .fetched j blocked => barred || (decide (j = sourceId) && blocked)
  | .enabled j => barred && decide (j ≠ sourceId)

/-- the source has refused us and no human has enabled it since -/
def barred (sourceId : Nat) (log : List Entry) : Bool := log.foldl (barredBy sourceId) false

/-- no barred source is fetched -/
def Respected (log : List Entry) : Prop :=
  ∀ before i blocked after, log = before ++ .fetched i blocked :: after → barred i before = false

theorem barred_snoc (i : Nat) (log : List Entry) (e : Entry) :
    barred i (log ++ [e]) = barredBy i (barred i log) e := by
  unfold barred
  rw [List.foldl_append]
  rfl

theorem barred_fetched_ne {i j : Nat} {blocked : Bool} {log : List Entry} (h : i ≠ j) :
    barred j (log ++ [.fetched i blocked]) = barred j log := by
  rw [barred_snoc, barredBy, decide_eq_false h, Bool.false_and, Bool.or_false]

theorem barred_fetched {i : Nat} {blocked : Bool} {log : List Entry} (h : barred i log = false) :
    barred i (log ++ [.fetched i blocked]) = blocked := by
  rw [barred_snoc, barredBy, h, decide_eq_true rfl, Bool.true_and, Bool.false_or]

theorem Respected.snoc {log : List Entry} {e : Entry} (h : Respected log)
    (he : ∀ i blocked, e = .fetched i blocked → barred i log = false) : Respected (log ++ [e]) := by
  intro before i blocked after heq
  refine forall_entry_snoc
    (P := fun log e => ∀ i blocked, e = .fetched i blocked → barred i log = false)
    (fun before e after hlog i blocked hfetched => ?_) he heq i blocked rfl
  subst hfetched
  exact h before i blocked after hlog

/-! ## ticks -/

/-- a tick under way -/
structure Polling where
  now : DateTime
  ids : List Nat
  runs : List IngestionRun := []
  /-- a source has been blocked since the last rollback -/
  blocked : Bool := false

structure Poller where
  session : Session Store
  running : Option Polling := none
  log : List Entry := []

def Poller.idle (store : Store) : Poller := { session := .start store }

inductive PollAct
  | start (now : DateTime) (collate : Text → Text → Bool) (held : Nat → Bool)
  /-- the run of the next source; the handler of a crash raises when the session refuses to load
  the source it logs -/
  | source (env : SourceEnv) (handlerRaises : Bool)
  | finish (commits : Bool)
  /-- a human enables a source -/
  | enable (sourceId : Nat)
  /-- another call writes records -/
  | record (a : Act)

section
variable (U : Unicode) (sha : Text → Text)

def Poller.round (p : Poller) (t : Polling) (id : Nat) (rest : List Nat) (env : SourceEnv)
    (handlerRaises : Bool) : Poller :=
  let run : SourceRun :=
    match p.session.current.source? id with
    | none => ⟨none, .error refused⟩
    | some source => ingestSource U sha p.session.current source env t.now
  let log := p.log ++ (run.blocked.map (Entry.fetched id)).toList
  match run.result with
  | .ok (store, row) =>
    { session := p.session.write store
      running := some { t with
        ids := rest, runs := t.runs ++ [row], blocked := t.blocked || run.blocked = some true }
      log := log }
  | .error _ =>
    { session := p.session.rollback
      running := if handlerRaises then none else some { t with ids := rest, blocked := false }
      log := log }

def pollFire (p : Poller) : PollAct → Option Poller
  | .start now collate held =>
    match p.running with
    | some _ => none
    | none => some { p with
        running := some { now := now, ids := dueSources p.session.current now collate held } }
  | .source env handlerRaises =>
    match p.running with
    | some ⟨now, id :: rest, runs, blocked⟩ =>
      some (p.round U sha ⟨now, id :: rest, runs, blocked⟩ id rest env handlerRaises)
    | _ => none
  | .finish commits =>
    match p.running with
    | some ⟨_, [], _, _⟩ => some { p with
        session := if commits then p.session.commit else p.session.rollback
        running := none }
    | _ => none
  | .enable id =>
    match p.running with
    | some _ => none
    | none => (p.session.committed.source? id).map fun source =>
      { p with
        session := .start (p.session.committed.putSource { source with enabled := true })
        log := p.log ++ [.enabled id] }
  | .record a =>
    match p.running with
    | some _ => none
    | none => (fire U p.session.committed a).map fun s => { p with session := .start s }

end

/-! ### what a step does -/

section
variable {U : Unicode} {sha : Text → Text} {p p' : Poller}

/-- the run of a source returns, or raises and rolls the session back -/
theorem Poller.round_cases (p : Poller) (t : Polling) (id : Nat) (rest : List Nat) (env : SourceEnv)
    (handlerRaises : Bool) :
    (∃ source store row blocked, p.session.current.source? id = some source ∧ env.asks = true ∧
        SourceEffect source t.now blocked p.session.current store row ∧
        p.round U sha t id rest env handlerRaises =
          { session := p.session.write store
            running := some { t with
              ids := rest, runs := t.runs ++ [row], blocked := t.blocked || blocked }
            log := p.log ++ [.fetched id blocked] }) ∨
      (∃ blocked running, (∀ source, p.session.current.source? id = some source →
          env.steady = false) ∧
        (blocked = some true → env.fetch.isBlocked = true) ∧
        (running = none ∨ running = some { t with ids := rest, blocked := false }) ∧
        p.round U sha t id rest env handlerRaises =
          { session := p.session.rollback
            running := running
            log := p.log ++ (blocked.map (Entry.fetched id)).toList }) := by
  have hraises : (if handlerRaises then none else some { t with ids := rest, blocked := false }) =
        none ∨
      (if handlerRaises then none else some { t with ids := rest, blocked := false }) =
        some { t with ids := rest, blocked := false } := by
    cases handlerRaises with
    | true => exact Or.inl rfl
    | false => exact Or.inr rfl
  unfold Poller.round
  cases hs : p.session.current.source? id with
  | none => exact Or.inr ⟨none, _, fun _ he => (by cases he), fun he => (by cases he), hraises, rfl⟩
  | some source =>
    simp only
    cases hres : (ingestSource U sha p.session.current source env t.now).result with
    | ok x =>
      obtain ⟨store, row⟩ := x
      obtain ⟨blocked, hb, heff⟩ := ingestSource_ok hres
      have hasks : env.asks = true := by
        rw [← blocked_isSome, hb]
        rfl
      refine Or.inl ⟨source, store, row, blocked, rfl, hasks, heff, ?_⟩
      simp only [hb]
      cases blocked <;> rfl
    | error e =>
      exact Or.inr ⟨_, _, fun _ _ => not_steady_of_error hres, isBlocked_of_run, hraises, rfl⟩

theorem pollFire_start {now : DateTime} {collate : Text → Text → Bool} {held : Nat → Bool}
    (h : pollFire U sha p (.start now collate held) = some p') :
    p.running = none ∧ p' = { p with
      running := some { now := now, ids := dueSources p.session.current now collate held } } := by
  simp only [pollFire] at h
  split at h
  · cases h
  · next hr =>
    cases h
    exact ⟨hr, rfl⟩

theorem pollFire_source {env : SourceEnv} {handlerRaises : Bool}
    (h : pollFire U sha p (.source env handlerRaises) = some p') :
    ∃ t id rest, p.running = some t ∧ t.ids = id :: rest ∧
      p' = p.round U sha t id rest env handlerRaises := by
  simp only [pollFire] at h
  split at h
  · next now id rest runs blocked hr =>
    cases h
    exact ⟨_, id, rest, hr, rfl, rfl⟩
  · cases h

theorem pollFire_finish {commits : Bool} (h : pollFire U sha p (.finish commits) = some p') :
    ∃ t, p.running = some t ∧
      p' = { session := if commits then p.session.commit else p.session.rollback, log := p.log } := by
  simp only [pollFire] at h
  split at h
  · next hr =>
    cases h
    exact ⟨_, hr, rfl⟩
  · cases h

theorem pollFire_enable {id : Nat} (h : pollFire U sha p (.enable id) = some p') :
    p.running = none ∧ ∃ source, p.session.committed.source? id = some source ∧
      p' = { session := .start (p.session.committed.putSource { source with enabled := true })
             log := p.log ++ [.enabled id] } := by
  simp only [pollFire] at h
  split at h
  · cases h
  · next hr =>
    obtain ⟨source, hs, rfl⟩ := Option.map_eq_some_iff.mp h
    rw [hr]
    exact ⟨rfl, source, hs, rfl⟩

theorem pollFire_record {a : Act} (h : pollFire U sha p (.record a) = some p') :
    p.running = none ∧ ∃ store, fire U p.session.committed a = some store ∧
      p' = { session := .start store, log := p.log } := by
  simp only [pollFire] at h
  split at h
  · cases h
  · next hr =>
    obtain ⟨store, hs, rfl⟩ := Option.map_eq_some_iff.mp h
    rw [hr]
    exact ⟨rfl, store, hs, rfl⟩

end

/-- nothing raises while a block is uncommitted: not around the run of a source that is refused, not
around the runs after it, and not in the last commit -/
def Lasting (p : Poller) : PollAct → Prop
  | .source env _ => ∀ t ∈ p.running, env.steady = true ∨
    (t.blocked = false ∧ env.fetch.isBlocked = false)
  | .finish commits => ∀ t ∈ p.running, commits = true ∨ t.blocked = false
  | _ => True

instance (p : Poller) (a : PollAct) : Decidable (Lasting p a) :=
  match a with
  | .source env _ => inferInstanceAs (Decidable (∀ t ∈ p.running, env.steady = true ∨
    (t.blocked = false ∧ env.fetch.isBlocked = false)))
  | .finish commits =>
    inferInstanceAs (Decidable (∀ t ∈ p.running, commits = true ∨ t.blocked = false))
  | .start _ _ _ | .enable _ | .record _ => .isTrue trivial

/-! ## keys of sources -/

/-- source keys are distinct and were drawn from the counter -/
def SourceKeys (s : Store) : Prop := Numbered Source.id s.sources s.nextId

section
variable {U : Unicode} {s t : Store}

theorem fire_sources {a : Act} (h : fire U s a = some t) :
    s.nextId ≤ t.nextId ∧
      (t.sources = s.sources ∨ ∃ row, a = .source row ∧ t = s.addSource row) := by
  cases a with
  | source row => cases h; exact ⟨Nat.le_succ _, Or.inr ⟨row, rfl, rfl⟩⟩
  | document row => cases h; exact ⟨Nat.le_succ _, Or.inl rfl⟩
  | process i env =>
    obtain ⟨document, o, _, _, hun⟩ := fire_process h
    exact ⟨hun.nextId, Or.inl hun.sources⟩
  | decide i input =>
    obtain ⟨e, _, rfl | ⟨verb, changes, _, rfl⟩⟩ := fire_decide h
    · exact ⟨le_refl _, Or.inl rfl⟩
    · exact ⟨Nat.le_succ _, Or.inl rfl⟩

theorem mem_dueSources {now : DateTime} {collate : Text → Text → Bool} {held : Nat → Bool} {i : Nat}
    (h : i ∈ dueSources s now collate held) : ∃ x ∈ s.sources, x.id = i ∧ x.enabled = true := by
  obtain ⟨x, hx, rfl⟩ := List.mem_map.mp h
  have hx := (List.perm_insertionSort _ _).mem_iff.mp (List.mem_filter.mp hx).1
  obtain ⟨hmem, hen⟩ := List.mem_filter.mp hx
  exact ⟨x, hmem, rfl, (Bool.and_eq_true_iff.mp hen).1⟩

theorem nodup_dueSources (h : SourceKeys s) (now : DateTime) (collate : Text → Text → Bool)
    (held : Nat → Bool) : (dueSources s now collate held).Nodup := by
  have hperm := List.perm_insertionSort (fun a b : Source => collate a.slug b.slug = true)
    (s.sources.filter fun x => x.enabled && !held x.id)
  refine List.Nodup.sublist (List.filter_sublist.map _) ?_
  rw [(hperm.map _).nodup_iff]
  exact h.nodup.sublist (List.filter_sublist.map _)

end

/-! ## blocks last -/

/-- barred sources are disabled in the session, and in the committed store as long as the tick has
no uncommitted block; what is still to be fetched is not barred -/
structure Barring (p : Poller) : Prop where
  keys : SourceKeys p.session.committed
  ids : p.session.current.sources.map (·.id) = p.session.committed.sources.map (·.id)
  nextId : p.session.committed.nextId ≤ p.session.current.nextId
  idle : p.running = none → p.session.current = p.session.committed
  known : ∀ i, barred i p.log = true → i < p.session.committed.nextId
  off : ∀ x ∈ p.session.current.sources, barred x.id p.log = true → x.enabled = false
  settled : (∀ t ∈ p.running, t.blocked = false) →
    ∀ x ∈ p.session.committed.sources, barred x.id p.log = true → x.enabled = false
  listed : ∀ t ∈ p.running, t.ids.Nodup ∧
    ∀ i ∈ t.ids, i ∈ p.session.committed.sources.map (·.id) ∧ barred i p.log = false
  respected : Respected p.log

section
variable {U : Unicode} {sha : Text → Text} {p p' : Poller}

theorem Barring.settled_idle (h : Barring p) (hr : p.running = none) :
    ∀ x ∈ p.session.committed.sources, barred x.id p.log = true → x.enabled = false := by
  apply h.settled
  intro t ht
  rw [hr] at ht
  cases ht

theorem Barring.settled_running {t : Polling} (h : Barring p) (hr : p.running = some t)
    (hb : t.blocked = false) :
    ∀ x ∈ p.session.committed.sources, barred x.id p.log = true → x.enabled = false := by
  apply h.settled
  intro t' ht
  rw [hr] at ht
  cases ht
  exact hb

/-- what is still listed behind a fetched source stays free -/
theorem free_rest {known ids : List Nat} {id : Nat} {log log' : List Entry}
    (hnd : (id :: ids).Nodup) (hlist : ∀ i ∈ id :: ids, i ∈ known ∧ barred i log = false)
    (hlog : ∀ i, id ≠ i → barred i log' = barred i log) :
    ids.Nodup ∧ ∀ i ∈ ids, i ∈ known ∧ barred i log' = false := by
  obtain ⟨hnot, hrest⟩ := List.nodup_cons.mp hnd
  refine ⟨hrest, ?_⟩
  intro i hi
  have hne : id ≠ i := fun he => hnot (he ▸ hi)
  obtain ⟨hmem, hfree⟩ := hlist i (List.mem_cons_of_mem _ hi)
  rw [hlog i hne]
  exact ⟨hmem, hfree⟩

theorem source?_of_listed {i : Nat} (h : Barring p)
    (hi : i ∈ p.session.committed.sources.map (·.id)) :
    ∃ x, p.session.current.source? i = some x := by
  rw [← h.ids] at hi
  obtain ⟨x, hx, rfl⟩ := List.mem_map.mp hi
  have hnd : (p.session.current.sources.map Source.id).Nodup := by
    have hc := h.keys.nodup
    rw [← h.ids] at hc
    exact hc
  exact ⟨x, lookup_of_mem hnd hx⟩

/-- a run that returns: its source is disabled if it is barred now -/
theorem barring_returned {t : Polling} {id : Nat} {rest : List Nat} {runs : List IngestionRun}
    {source : Source} {store : Store} {now : DateTime} {blocked : Bool} {run : IngestionRun}
    (h : Barring p) (hr : p.running = some t) (hids : t.ids = id :: rest)
    (hs : p.session.current.source? id = some source)
    (heff : SourceEffect source now blocked p.session.current store run) :
    Barring
      { session := p.session.write store
        running := some { t with ids := rest, runs := runs, blocked := t.blocked || blocked }
        log := p.log ++ [.fetched id blocked] } := by
  obtain ⟨hnd, hlist⟩ := h.listed t hr
  rw [hids] at hnd hlist
  have hfree : barred id p.log = false := (hlist id (List.mem_cons_self ..)).2
  obtain ⟨row, hrow, _, _, hsources, hoff, _⟩ := heff.fetched
  have hid : source.id = id := lookup_key hs
  refine ⟨h.keys, ?_, le_trans h.nextId (le_of_lt heff.nextId), fun hn => (by cases hn), ?_, ?_, ?_,
    ?_, h.respected.snoc ?_⟩
  · show store.sources.map (·.id) = p.session.committed.sources.map (·.id)
    rw [hsources, ← h.ids]
    exact map_replace row _
  · intro i hi
    by_cases hne : id = i
    · subst hne
      obtain ⟨y, hy, he⟩ := List.mem_map.mp (hlist id (List.mem_cons_self ..)).1
      exact he ▸ h.keys.fresh y hy
    · simp only at hi
      rw [barred_fetched_ne hne] at hi
      exact h.known i hi
  · intro x hx hbar
    simp only [Session.write_current] at hx
    simp only at hbar
    rw [hsources] at hx
    rcases mem_replace hx with rfl | ⟨hx, hne⟩
    · rw [hrow, hid, barred_fetched hfree] at hbar
      exact hoff hbar
    · rw [hrow, hid] at hne
      rw [barred_fetched_ne (Ne.symm hne)] at hbar
      exact h.off x hx hbar
  · intro hb x hx hbar
    have hb := hb _ rfl
    simp only [Bool.or_eq_false_iff] at hb
    simp only at hbar
    have hset := h.settled_running hr hb.1 x hx
    by_cases hne : id = x.id
    · rw [← hne, barred_fetched hfree, hb.2] at hbar
      cases hbar
    · rw [barred_fetched_ne hne] at hbar
      exact hset hbar
  · intro t' ht'
    cases ht'
    exact free_rest hnd hlist fun i hne => barred_fetched_ne hne
  · intro i b he
    cases he
    exact hfree

/-- a run that raises where no block is uncommitted: the rollback forgets none -/
theorem barring_raised {t : Polling} {id : Nat} {rest : List Nat} {blocked : Option Bool}
    {running : Option Polling} (h : Barring p) (hr : p.running = some t)
    (hids : t.ids = id :: rest) (hb : t.blocked = false) (hno : blocked ≠ some true)
    (hrun : running = none ∨ running = some { t with ids := rest, blocked := false }) :
    Barring
      { session := p.session.rollback
        running := running
        log := p.log ++ (blocked.map (Entry.fetched id)).toList } := by
  obtain ⟨hnd, hlist⟩ := h.listed t hr
  rw [hids] at hnd hlist
  have hfree : barred id p.log = false := (hlist id (List.mem_cons_self ..)).2
  have hsame : ∀ i, barred i (p.log ++ (blocked.map (Entry.fetched id)).toList) =
      barred i p.log := by
    intro i
    cases blocked with
    | none => exact congrArg (barred i) (List.append_nil _)
    | some b =>
      cases b with
      | true => exact absurd rfl hno
      | false =>
        show barred i (p.log ++ [.fetched id false]) = _
        by_cases hi : id = i
        · rw [← hi, barred_fetched hfree, hfree]
        · exact barred_fetched_ne hi
  have hset := h.settled_running hr hb
  refine ⟨h.keys, rfl, le_refl _, fun _ => rfl, ?_, ?_, ?_, ?_, ?_⟩
  · intro i hi
    simp only [hsame] at hi
    exact h.known i hi
  · intro x hx hbar
    simp only [hsame] at hbar
    exact hset x hx hbar
  · intro _ x hx hbar
    simp only [hsame] at hbar
    exact hset x hx hbar
  · intro t' ht'
    rcases hrun with rfl | rfl
    · cases ht'
    · cases ht'
      exact free_rest hnd hlist fun i _ => hsame i
  · cases blocked with
    | none =>
      show Respected (p.log ++ [])
      rw [List.append_nil]
      exact h.respected
    | some b =>
      refine h.respected.snoc fun i b' he => ?_
      cases he
      exact hfree

/-- **A run that does not raise after a block keeps the sources barred.** -/
theorem barring_source {env : SourceEnv} {handlerRaises : Bool} (h : Barring p)
    (hl : Lasting p (.source env handlerRaises))
    (ha : pollFire U sha p (.source env handlerRaises) = some p') : Barring p' := by
  obtain ⟨t, id, rest, hr, hids, rfl⟩ := pollFire_source ha
  rcases Poller.round_cases p t id rest env handlerRaises with
    ⟨source, store, row, blocked, hs, _, heff, hround⟩ |
    ⟨blocked, running, hsteady, hblocked, hrunning, hround⟩
  · rw [hround]
    exact barring_returned h hr hids hs heff
  · rw [hround]
    have hid : id ∈ t.ids := by
      rw [hids]
      exact List.mem_cons_self ..
    obtain ⟨source, hs⟩ := source?_of_listed h ((h.listed t hr).2 id hid).1
    obtain ⟨hb, hfetch⟩ := (hl t hr).resolve_left (Bool.eq_false_iff.mp (hsteady source hs))
    refine barring_raised h hr hids hb (fun ht => ?_) hrunning
    rw [hblocked ht] at hfetch
    cases hfetch

/-- a store between two ticks -/
theorem Barring.between {store : Store} {log : List Entry} (hkeys : SourceKeys store)
    (hknown : ∀ i, barred i log = true → i < store.nextId)
    (hoff : ∀ x ∈ store.sources, barred x.id log = true → x.enabled = false)
    (hlog : Respected log) : Barring { session := .start store, log := log } :=
  ⟨hkeys, rfl, le_refl _, fun _ => rfl, hknown, hoff, fun _ => hoff, fun _ ht => (by cases ht),
    hlog⟩

theorem barring_idle {store : Store} (hkeys : SourceKeys store) : Barring (.idle store) := by
  refine .between hkeys ?_ ?_ ?_
  · intro i hi
    cases hi
  · intro x _ hb
    cases hb
  · intro before i blocked after he
    cases before <;> cases he

theorem barring_enable {id : Nat} {source : Source} (h : Barring p) (hr : p.running = none)
    (hs : p.session.committed.source? id = some source) :
    Barring
      { session := .start (p.session.committed.putSource { source with enabled := true })
        log := p.log ++ [.enabled id] } := by
  have hbar : ∀ j, barred j (p.log ++ [.enabled id]) = (barred j p.log && decide (id ≠ j)) :=
    fun j => barred_snoc j p.log _
  have hid : source.id = id := lookup_key hs
  refine .between (h.keys.of_map (map_replace _ _) (le_refl _)) ?_ ?_
    (h.respected.snoc fun _ _ he => (by cases he))
  · intro i hi
    rw [hbar, Bool.and_eq_true] at hi
    exact h.known i hi.1
  · intro x hx hb
    rw [hbar, Bool.and_eq_true, decide_eq_true_eq] at hb
    rcases mem_replace hx with rfl | ⟨hx, _⟩
    · exact absurd hid.symm hb.2
    · exact h.settled_idle hr x hx hb.1

theorem barring_record {a : Act} {store : Store} (h : Barring p) (hr : p.running = none)
    (hf : fire U p.session.committed a = some store) :
    Barring { session := .start store, log := p.log } := by
  have hset := h.settled_idle hr
  obtain ⟨hn, hsources | ⟨row, _, rfl⟩⟩ := fire_sources hf
  · refine .between (h.keys.of_map (by rw [hsources]) hn)
      (fun i hi => lt_of_lt_of_le (h.known i hi) hn) ?_ h.respected
    rw [hsources]
    exact hset
  · refine .between (h.keys.append (le_refl _) (Nat.lt_succ_self _))
      (fun i hi => lt_of_lt_of_le (h.known i hi) hn) ?_ h.respected
    intro x hx hb
    rcases List.mem_append.mp hx with hx | hx
    · exact hset x hx hb
    · -- the new key has not been fetched
      rw [List.mem_singleton.mp hx] at hb
      exact absurd (h.known _ hb) (lt_irrefl _)

/-- **A step that loses no block keeps the sources barred.** -/
theorem barring_step {a : PollAct} (h : Barring p) (hl : Lasting p a)
    (ha : pollFire U sha p a = some p') : Barring p' := by
  cases a with
  | start now collate held =>
    obtain ⟨hr, rfl⟩ := pollFire_start ha
    refine ⟨h.keys, h.ids, h.nextId, fun hn => (by cases hn), h.known, h.off,
      fun _ => h.settled_idle hr, fun t ht => ?_, h.respected⟩
    cases ht
    refine ⟨?_, fun i hi => ?_⟩
    · simp only
      rw [h.idle hr]
      exact nodup_dueSources h.keys now collate held
    · obtain ⟨x, hx, rfl, hen⟩ := mem_dueSources hi
      refine ⟨?_, Bool.eq_false_iff.mpr fun hb => ?_⟩
      · simp only
        rw [← h.ids]
        exact List.mem_map_of_mem hx
      · rw [h.off x hx hb] at hen
        cases hen
  | source env handlerRaises => exact barring_source h hl ha
  | finish commits =>
    obtain ⟨t, hr, rfl⟩ := pollFire_finish ha
    cases commits with
    | true =>
      exact .between (h.keys.of_map h.ids h.nextId)
        (fun i hi => lt_of_lt_of_le (h.known i hi) h.nextId) h.off h.respected
    | false =>
      have hb := (hl t hr).resolve_left Bool.false_ne_true
      exact .between h.keys h.known (h.settled_running hr hb) h.respected
  | enable id =>
    obtain ⟨hr, source, hs, rfl⟩ := pollFire_enable ha
    exact barring_enable h hr hs
  | record a =>
    obtain ⟨hr, store, hs, rfl⟩ := pollFire_record ha
    exact barring_record h hr hs

/-- **In every run of ticks in which nothing raises while a block is uncommitted, a source that
refused us is not fetched again until a human enables it.** -/
theorem respected_of_lasting (U : Unicode) (sha : Text → Text) {store : Store} {as : List PollAct}
    (hkeys : SourceKeys store) (hrun : exec (pollFire U sha) (.idle store) as = some p)
    (hl : Along (pollFire U sha) Lasting (.idle store) as) : Respected p.log := by
  have h : Barring p := by
    refine exec_invariant_along (pollFire U sha) ?_ hrun hl (barring_idle hkeys)
    intro p a p' h hg ha
    exact barring_step h hg ha
  exact h.respected

end

/-! ## two runs -/

namespace Sample

def subscribed : Store := (Store.empty.addSource source).addSource
  { source with slug := txt "strait-notices" }

theorem subscribed_keys : SourceKeys subscribed := by
  have h : SourceKeys (Store.empty.addSource source) :=
    Numbered.append Numbered.nil (Nat.zero_le _) (Nat.lt_succ_self _)
  exact Numbered.append h (le_refl _) (Nat.lt_succ_self _)

def wake (now : DateTime) : PollAct :=
  .start now (fun a b => decide (a.length ≤ b.length)) fun _ => false

def asked (fetch : Fetch) : PollAct := .source { fetch := fetch, finishedAt := ⟨0⟩ } false

def unparsable : PollAct :=
  .source { fetch := .returned { url := source.feedUrl, statusCode := 200, retrievedAt := ⟨0⟩ }
            items := .error (txt "unexpected payload"), finishedAt := ⟨0⟩ } false

def forbidden : Fetch := .blocked (txt "403 Forbidden")
def timeout : Fetch := .failed (txt "timeout")

/-- the first source refuses us, the second crashes, and the next tick asks the first again -/
def forgotten : List PollAct :=
  [wake ⟨0⟩, asked forbidden, unparsable, .finish true, wake ⟨1⟩, asked timeout]

/-- the first source refuses us, and is asked again after a human has enabled it -/
def reviewedSource : List PollAct :=
  [wake ⟨0⟩, asked forbidden, asked timeout, .finish true,
    wake ⟨DateTime.microsPerDay⟩, asked timeout, .finish true, .enable 0,
    wake ⟨DateTime.microsPerDay + 1⟩, asked timeout]

end Sample

/-- a crash of a later source makes the next tick fetch a source that refused us -/
theorem forgotten_not_respected :
    ¬ ∀ (U : Unicode) (sha : Text → Text) (store : Store) (as : List PollAct) (p : Poller),
      SourceKeys store → exec (pollFire U sha) (.idle store) as = some p → Respected p.log := by
  intro h
  have hrun : (exec (pollFire Unicode.latin id) (.idle Sample.subscribed) Sample.forgotten).map
      (·.log) = some [.fetched 0 true, .fetched 1 false, .fetched 0 false] := by decide +kernel
  obtain ⟨p, hp, hlog⟩ := Option.map_eq_some_iff.mp hrun
  have := h _ _ _ _ p Sample.subscribed_keys hp [.fetched 0 true, .fetched 1 false] 0 false [] hlog
  exact absurd this (by decide)

theorem respected_reviewed :
    ∃ p, exec (pollFire Unicode.latin id) (.idle Sample.subscribed) Sample.reviewedSource = some p ∧
      p.log = [.fetched 0 true, .fetched 1 false, .fetched 1 false, .enabled 0, .fetched 0 false] ∧
      Respected p.log := by
  have hrun : (exec (pollFire Unicode.latin id) (.idle Sample.subscribed)
      Sample.reviewedSource).map (·.log) =
        some [.fetched 0 true, .fetched 1 false, .fetched 1 false, .enabled 0, .fetched 0 false] := by
    decide +kernel
  obtain ⟨p, hp, hlog⟩ := Option.map_eq_some_iff.mp hrun
  exact ⟨p, hp, hlog,
    respected_of_lasting _ _ Sample.subscribed_keys hp (by decide +kernel)⟩

end GeoRisk
