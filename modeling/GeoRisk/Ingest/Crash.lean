import Mathlib.Data.List.Perm.Basic
import GeoRisk.Ingest.Cadence

/-!
# A source whose run crashes

All sources of a tick share one session, and the handler of a crash rolls the session back.  What the
tick leaves behind is then not what the other sources wrote.

* `ingestDueSources`        the loop over the due sources with its handler;
* `exec_tick`               it is what the steps of a tick do;
* `committed_after_crash`   a crash leaves only what follows it;
* `running_tick`            no tick leaves a new row open;
* `Contained`               the crashing sources leave nothing but an open row each;
* `contained_iff`           they do exactly when there are none.
-/

namespace GeoRisk
open Kit

/-- a due source with the surroundings of its run -/
structure DueSource where
  id : Nat
  env : SourceEnv
  /-- the handler of a crash raises when the session refuses to load the source it logs -/
  handlerRaises : Bool := false

/-- the loop of `ingest_due_sources` -/
structure IngestTick where
  session : Session Store
  runs : List IngestionRun := []
  crashed : List Nat := []
  /-- an exception left the loop -/
  raised : Bool := false

/-- `session_scope` at the end of the tick -/
def IngestTick.committed (t : IngestTick) : Store :=
  if t.raised then t.session.committed else t.session.current

section
variable (U : Unicode) (sha : Text → Text) (now : DateTime)

def runDue (store : Store) (x : DueSource) : Except Text (Store × IngestionRun) :=
  match store.source? x.id with
  | none => .error refused
  | some source => (ingestSource U sha store source x.env now).result

def ingestDue (t : IngestTick) (x : DueSource) : IngestTick :=
  if t.raised then t
  else
    match runDue U sha now t.session.current x with
    | .ok (store, row) => { t with session := t.session.write store, runs := t.runs ++ [row] }
    | .error _ => { t with
        session := t.session.rollback, crashed := t.crashed ++ [x.id], raised := x.handlerRaises }

def ingestDueSources (store : Store) (due : List DueSource) : IngestTick :=
  due.foldl (ingestDue U sha now) { session := .start store }

/-- no call of `ingest_source` raises -/
def Returning : Store → List DueSource → Prop
  | _, [] => True
  | store, x :: due =>
    ∃ store' row, runDue U sha now store x = .ok (store', row) ∧ Returning store' due

end

section
variable {U : Unicode} {sha : Text → Text} {now : DateTime} {t t' : IngestTick} {store : Store}
  {x : DueSource} {due : List DueSource}

theorem ingestDue_raised (h : t.raised = true) : ingestDue U sha now t x = t := if_pos h

theorem ingestDue_ok {store' : Store} {row : IngestionRun} (h : t.raised = false)
    (hx : runDue U sha now t.session.current x = .ok (store', row)) :
    ingestDue U sha now t x =
      { t with session := t.session.write store', runs := t.runs ++ [row] } := by
  unfold ingestDue
  rw [if_neg (Bool.eq_false_iff.mp h), hx]

theorem ingestDue_error {e : Text} (h : t.raised = false)
    (hx : runDue U sha now t.session.current x = .error e) :
    ingestDue U sha now t x = { t with
      session := t.session.rollback, crashed := t.crashed ++ [x.id], raised := x.handlerRaises } := by
  unfold ingestDue
  rw [if_neg (Bool.eq_false_iff.mp h), hx]

/-! ## the loop and the steps of a tick -/

/-- the steps of a tick that commits -/
def tickActs (now : DateTime) (collate : Text → Text → Bool) (held : Nat → Bool)
    (due : List DueSource) : List PollAct :=
  .start now collate held :: (due.map fun x => .source x.env x.handlerRaises) ++ [.finish true]

variable (U sha) in
/-- one round, where the handler does not raise -/
theorem round_due {p : Poller} (running : Polling) (rest : List Nat) (hp : p.session = t.session)
    (hruns : running.runs = t.runs) (hnow : running.now = now) (ht : t.raised = false)
    (hx : x.handlerRaises = false) :
    ∃ b, (p.round U sha running x.id rest x.env x.handlerRaises).session =
        (ingestDue U sha now t x).session ∧
      (p.round U sha running x.id rest x.env x.handlerRaises).running =
        some ⟨now, rest, (ingestDue U sha now t x).runs, b⟩ ∧
      (ingestDue U sha now t x).raised = false := by
  unfold Poller.round
  rw [hp, hruns, hnow]
  cases hs : t.session.current.source? x.id with
  | none =>
    have he : runDue U sha now t.session.current x = .error refused := by
      unfold runDue
      rw [hs]
    rw [ingestDue_error ht he, hx]
    exact ⟨false, rfl, rfl, rfl⟩
  | some source =>
    have hrun : runDue U sha now t.session.current x =
        (ingestSource U sha t.session.current source x.env now).result := by
      unfold runDue
      rw [hs]
    cases hres : (ingestSource U sha t.session.current source x.env now).result with
    | ok y =>
      obtain ⟨store', row⟩ := y
      rw [ingestDue_ok ht (hrun.trans hres)]
      simp only
      rw [hres]
      exact ⟨_, rfl, rfl, ht⟩
    | error e =>
      rw [ingestDue_error ht (hrun.trans hres), hx]
      simp only
      rw [hres]
      exact ⟨false, rfl, rfl, trivial⟩

variable (U sha) in
/-- the rounds of a tick, one step each -/
theorem exec_due {p : Poller} (blocked : Bool) (hp : p.session = t.session)
    (hr : p.running = some ⟨now, due.map (·.id), t.runs, blocked⟩) (ht : t.raised = false)
    (hd : ∀ x ∈ due, x.handlerRaises = false) :
    ∃ p' b, exec (pollFire U sha) p (due.map fun x => .source x.env x.handlerRaises) = some p' ∧
      p'.session = (due.foldl (ingestDue U sha now) t).session ∧
      p'.running = some ⟨now, [], (due.foldl (ingestDue U sha now) t).runs, b⟩ ∧
      (due.foldl (ingestDue U sha now) t).raised = false := by
  induction due generalizing p t blocked with
  | nil => exact ⟨p, blocked, rfl, hp, hr, ht⟩
  | cons x due ih =>
    obtain ⟨b, h2, h3, h4⟩ := round_due U sha ⟨now, x.id :: due.map (·.id), t.runs, blocked⟩
      (due.map (·.id)) hp rfl rfl ht (hd x (List.mem_cons_self ..))
    obtain ⟨p', b', k1, k2⟩ := ih b h2 h3 h4 fun y hy => hd y (List.mem_cons_of_mem _ hy)
    refine ⟨p', b', ?_, k2⟩
    rw [List.map_cons, exec_cons_eq_some]
    refine ⟨_, ?_, k1⟩
    simp only [pollFire, hr, List.map_cons]

/-- **The steps of a tick commit what the loop leaves.** -/
theorem exec_tick {collate : Text → Text → Bool} {held : Nat → Bool}
    (hdue : due.map (·.id) = dueSources store now collate held)
    (hd : ∀ x ∈ due, x.handlerRaises = false) :
    ∃ p, exec (pollFire U sha) (.idle store) (tickActs now collate held due) = some p ∧
      p.session = .start (ingestDueSources U sha now store due).committed ∧ p.running = none := by
  obtain ⟨p, b, h1, h2, h3, h4⟩ := exec_due U sha false (t := { session := .start store })
    (p := { Poller.idle store with running := some { now := now, ids := due.map (·.id) } })
    rfl rfl rfl hd
  have hend : pollFire U sha p (.finish true) =
      some { p with session := p.session.commit, running := none } := by
    simp only [pollFire, h3, if_true]
  refine ⟨{ p with session := p.session.commit, running := none }, ?_, ?_, rfl⟩
  · rw [tickActs, List.cons_append, exec_cons_eq_some]
    refine ⟨_, ?_, exec_snoc (pollFire U sha) h1 hend⟩
    show some _ = some _
    rw [hdue]
    rfl
  · show p.session.commit = _
    rw [h2]
    unfold IngestTick.committed ingestDueSources
    rw [h4, if_neg Bool.false_ne_true]
    rfl

/-! ## what a crash leaves -/

/-- the session depends neither on the runs nor on the crashes before -/
theorem session_foldl (hs : t.session = t'.session) (hr : t.raised = t'.raised) :
    (due.foldl (ingestDue U sha now) t).session = (due.foldl (ingestDue U sha now) t').session ∧
      (due.foldl (ingestDue U sha now) t).raised =
        (due.foldl (ingestDue U sha now) t').raised := by
  induction due generalizing t t' with
  | nil => exact ⟨hs, hr⟩
  | cons x due ih =>
    rw [List.foldl_cons, List.foldl_cons]
    cases hraised : t.raised with
    | true =>
      rw [ingestDue_raised hraised, ingestDue_raised (hr.symm.trans hraised)]
      exact ih hs hr
    | false =>
      have hraised' := hr.symm.trans hraised
      cases hx : runDue U sha now t.session.current x with
      | ok y =>
        rw [ingestDue_ok hraised hx, ingestDue_ok hraised' (hs ▸ hx)]
        exact ih (by rw [hs]) hr
      | error e =>
        rw [ingestDue_error hraised hx, ingestDue_error hraised' (hs ▸ hx)]
        exact ih (by rw [hs]) rfl

theorem committed_congr (h : t.session = t'.session ∧ t.raised = t'.raised) :
    t.committed = t'.committed := by
  unfold IngestTick.committed
  rw [h.1, h.2]

/-- the committed state does not change inside a tick -/
theorem committed_foldl :
    (due.foldl (ingestDue U sha now) t).session.committed = t.session.committed := by
  induction due generalizing t with
  | nil => rfl
  | cons x due ih =>
    rw [List.foldl_cons, ih]
    cases hraised : t.raised with
    | true => rw [ingestDue_raised hraised]
    | false =>
      cases hx : runDue U sha now t.session.current x with
      | ok y =>
        rw [ingestDue_ok hraised hx]
        rfl
      | error e =>
        rw [ingestDue_error hraised hx]
        rfl

/-- **What was written before a crash is lost**: the tick commits what the sources behind the crash
write, as if it had begun with them. -/
theorem committed_after_crash {before after : List DueSource} {e : Text}
    (hraised : (ingestDueSources U sha now store before).raised = false)
    (hx : runDue U sha now (ingestDueSources U sha now store before).session.current x = .error e)
    (hhandler : x.handlerRaises = false) :
    (ingestDueSources U sha now store (before ++ x :: after)).committed =
      (ingestDueSources U sha now store after).committed := by
  have hfold : ingestDueSources U sha now store (before ++ x :: after) =
      after.foldl (ingestDue U sha now)
        (ingestDue U sha now (ingestDueSources U sha now store before) x) := by
    unfold ingestDueSources
    rw [List.foldl_append, List.foldl_cons]
  have hback : (ingestDueSources U sha now store before).session.rollback = .start store := by
    show Session.start (ingestDueSources U sha now store before).session.committed = _
    rw [ingestDueSources, committed_foldl]
    rfl
  rw [ingestDue_error hraised hx, hback, hhandler] at hfold
  rw [hfold]
  exact committed_congr (session_foldl rfl rfl)

/-! ## open rows -/

/-- run keys are distinct and were drawn from the counter -/
def RunKeys (s : Store) : Prop := Numbered IngestionRun.id s.runs s.nextId

def IngestionRun.isRunning (run : IngestionRun) : Bool := decide (run.status = .running)

/-- a run that returns has closed its row, and no row is open that was not before -/
theorem running_returned {source : Source} {blocked : Bool} {after : Store} {row : IngestionRun}
    (hkeys : RunKeys store) (h : SourceEffect source now blocked store after row) :
    RunKeys after ∧ after.runs.filter (·.isRunning) = store.runs.filter (·.isRunning) := by
  have hruns : after.runs = store.runs ++ [row] := by
    rw [h.runs, replace_append, replace_of_ne]
    · show store.runs ++ [if store.nextId = row.id then row else _] = _
      rw [if_pos h.row.1.symm]
    · intro r hr
      rw [h.row.1]
      exact Nat.ne_of_lt (hkeys.fresh r hr)
  constructor
  · show Numbered IngestionRun.id after.runs after.nextId
    rw [hruns]
    exact hkeys.append (le_of_eq h.row.1.symm) (h.row.1 ▸ h.nextId)
  · have hclosed : ¬ row.isRunning = true := fun hopen => h.closed.1 (of_decide_eq_true hopen)
    rw [hruns, List.filter_append, List.filter_cons_of_neg hclosed, List.filter_nil,
      List.append_nil]

theorem running_foldl (hc : RunKeys t.session.committed) (hk : RunKeys t.session.current)
    (h : t.session.current.runs.filter (·.isRunning) =
      t.session.committed.runs.filter (·.isRunning)) :
    (due.foldl (ingestDue U sha now) t).session.current.runs.filter (·.isRunning) =
      t.session.committed.runs.filter (·.isRunning) := by
  induction due generalizing t with
  | nil => exact h
  | cons x due ih =>
    rw [List.foldl_cons]
    cases hraised : t.raised with
    | true =>
      rw [ingestDue_raised hraised]
      exact ih hc hk h
    | false =>
      cases hx : runDue U sha now t.session.current x with
      | ok y =>
        obtain ⟨store', row⟩ := y
        rw [ingestDue_ok hraised hx]
        unfold runDue at hx
        split at hx
        · cases hx
        · next source _ =>
          obtain ⟨blocked, _, heff⟩ := ingestSource_ok hx
          obtain ⟨hk', hrun⟩ := running_returned hk heff
          exact ih hc hk' (hrun.trans h)
      | error e =>
        rw [ingestDue_error hraised hx]
        exact ih hc hc rfl

/-- **No tick leaves a row open that was not open before it**, whatever crashes in it. -/
theorem running_tick (hkeys : RunKeys store) :
    (ingestDueSources U sha now store due).committed.runs.filter (·.isRunning) =
      store.runs.filter (·.isRunning) := by
  unfold IngestTick.committed
  split
  · rw [ingestDueSources, committed_foldl]
    rfl
  · exact running_foldl (t := { session := .start store }) hkeys hkeys rfl

/-! ## containment -/

variable (U sha now due) in
theorem prefix_crashed (t : IngestTick) : t.crashed <+: (due.foldl (ingestDue U sha now) t).crashed := by
  induction due generalizing t with
  | nil => exact List.prefix_rfl
  | cons x due ih =>
    rw [List.foldl_cons]
    refine List.IsPrefix.trans ?_ (ih _)
    cases hraised : t.raised with
    | true =>
      rw [ingestDue_raised hraised]
    | false =>
      cases hx : runDue U sha now t.session.current x with
      | ok y =>
        rw [ingestDue_ok hraised hx]
      | error e =>
        rw [ingestDue_error hraised hx]
        exact List.prefix_append _ _

/-- the tick names the sources that crashed: none exactly when all calls return -/
theorem crashed_foldl (hraised : t.raised = false) :
    (due.foldl (ingestDue U sha now) t).crashed = t.crashed ↔
      Returning U sha now t.session.current due := by
  induction due generalizing t with
  | nil => exact iff_of_true rfl trivial
  | cons x due ih =>
    rw [List.foldl_cons]
    cases hx : runDue U sha now t.session.current x with
    | ok y =>
      obtain ⟨store', row⟩ := y
      rw [ingestDue_ok hraised hx]
      refine Iff.trans (ih hraised) ⟨fun h => ⟨store', row, hx, h⟩, ?_⟩
      rintro ⟨_, _, hx', h⟩
      rw [hx] at hx'
      cases hx'
      exact h
    | error e =>
      rw [ingestDue_error hraised hx]
      constructor
      · intro h
        have hlen := (prefix_crashed U sha now due { t with
          session := t.session.rollback
          crashed := t.crashed ++ [x.id]
          raised := x.handlerRaises }).length_le
        rw [h, List.length_append, List.length_singleton] at hlen
        omega
      · rintro ⟨_, _, hx', _⟩
        rw [hx] at hx'
        cases hx'

end

/-- a document as it was written, whatever its keys -/
def RawDocument.written (d : RawDocument) : RawDocument := { d with id := 0, fetchRunId := none }

def IngestionRun.written (r : IngestionRun) : IngestionRun := { r with id := 0 }

/-- `after` holds what `alone` holds, and an open row for every crashed source -/
structure Contained (alone after : Store) (crashed : List Nat) : Prop where
  sources : after.sources = alone.sources
  documents : after.documents.map (·.written) = alone.documents.map (·.written)
  closed : (after.runs.filter (!·.isRunning)).map (·.written) =
    (alone.runs.filter (!·.isRunning)).map (·.written)
  running : ((after.runs.filter (·.isRunning)).map (·.sourceId)).Perm
    ((alone.runs.filter (·.isRunning)).map (·.sourceId) ++ crashed)

section
variable {store : Store}

/-- the due sources without those that crash -/
def spared (crashed : List Nat) (due : List DueSource) : List DueSource :=
  due.filter fun x => x.id ∉ crashed

/-- **The crashing sources of a tick leave nothing but an open row each exactly when no call of
`ingest_source` raises.** -/
theorem contained_iff (U : Unicode) (sha : Text → Text) (now : DateTime) (due : List DueSource)
    (hkeys : RunKeys store) :
    (let tick := ingestDueSources U sha now store due
     Contained (ingestDueSources U sha now store (spared tick.crashed due)).committed tick.committed
       tick.crashed) ↔ Returning U sha now store due := by
  have hcrashed : (ingestDueSources U sha now store due).crashed = [] ↔
      Returning U sha now store due := crashed_foldl (t := { session := .start store }) rfl
  rw [← hcrashed]
  constructor
  · intro h
    -- neither tick leaves a new row open
    have hlen := h.running.length_eq
    simp only [running_tick hkeys, List.length_append, List.length_map] at hlen
    exact List.eq_nil_of_length_eq_zero (by omega)
  · intro h
    have hall : spared [] due = due := List.filter_eq_self.mpr fun _ _ => rfl
    simp only [h, hall]
    refine ⟨rfl, rfl, rfl, ?_⟩
    rw [List.append_nil]

end

/-! ## two ticks -/

namespace Sample

/-- both sources are due; the fetch of the first fails, and the payload of the second does not
parse -/
def crashing : List DueSource :=
  [{ id := 0, env := { fetch := timeout, finishedAt := ⟨0⟩ } },
    { id := 1, env := { fetch := .returned { url := source.feedUrl, statusCode := 200,
                                             retrievedAt := ⟨0⟩ }
                        items := .error (txt "unexpected payload"), finishedAt := ⟨0⟩ } }]

def returning : List DueSource :=
  [{ id := 0, env := { fetch := timeout, finishedAt := ⟨0⟩ } },
    { id := 1, env := { fetch := timeout, finishedAt := ⟨0⟩ } }]

theorem subscribed_runs : RunKeys subscribed := Numbered.nil

end Sample

/-- the crash of the second source takes the closed row of the first with it, and its own -/
theorem crash_not_contained :
    ¬ ∀ (U : Unicode) (sha : Text → Text) (store : Store) (now : DateTime) (due : List DueSource),
      RunKeys store → (∃ collate held, due.map (·.id) = dueSources store now collate held) →
      (∀ x ∈ due, x.handlerRaises = false) →
      let tick := ingestDueSources U sha now store due
      Contained (ingestDueSources U sha now store (spared tick.crashed due)).committed
        tick.committed tick.crashed := by
  intro h
  have hbad := (h Unicode.latin id Sample.subscribed ⟨0⟩ Sample.crashing Sample.subscribed_runs
    ⟨fun a b => decide (a.length ≤ b.length), fun _ => false, by decide +kernel⟩
    (by decide +kernel)).closed
  exact absurd hbad (by decide +kernel)

theorem contained_returning :
    (let tick := ingestDueSources Unicode.latin id ⟨0⟩ Sample.subscribed Sample.returning
     Contained (ingestDueSources Unicode.latin id ⟨0⟩ Sample.subscribed
       (spared tick.crashed Sample.returning)).committed tick.committed tick.crashed) ↔
      Returning Unicode.latin id ⟨0⟩ Sample.subscribed Sample.returning :=
  contained_iff Unicode.latin id ⟨0⟩ Sample.returning Sample.subscribed_runs

end GeoRisk
