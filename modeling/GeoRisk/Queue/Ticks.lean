import GeoRisk.Kit.Session
import GeoRisk.Queue.Pending
import GeoRisk.Record.Run

/-!
# The ticks of one worker

`process_pending` under the `session_scope` of `run_once`, one round of its loop at a time, so that
everything that can happen around a document stands between two rounds.  Between the ticks other
calls write records.  The worker's state carries, next to its session, what the provider was paid
so far, every submission to it, and every document handed to `process_document`.

* `QueueAct`, `queueFire`    start of a tick, one round, its end, an exception that leaves it;
* `Worker.handed`            the document that a round hands over;
* `submissions`              what an attempt sends to the provider;
* `round_cases`              what a round does;
* `queueFire_cases`          what a step does;
* `Durable`, `Saved`         a tick whose end loses no rows; everything is committed between two
                             ticks, and between two documents of a tick with `commit_each`.
-/

namespace GeoRisk
open Kit

structure ProcessingTick where
  considered : Nat := 0
  processed : Nat := 0
  skippedLocked : Nat := 0
  failed : Nat := 0
  stoppedForBudget : Bool := false
  spentTodayUsd : ℚ := 0

structure Settings where
  limit : Int
  dailyBudgetUsd : ℚ
  commitEach : Bool

/-- the answer to `FOR UPDATE SKIP LOCKED` -/
inductive Lock
  | taken
  | held
  | raises
  deriving DecidableEq

/-- the surroundings of one round of the loop -/
structure Round where
  /-- the clock of the budget check -/
  checkedAt : DateTime
  lock : Lock
  call : CallEnv
  /-- whether `session.commit()` returns -/
  commits : Bool

structure Running where
  settings : Settings
  ids : List Nat
  tick : ProcessingTick

/-- a document passed to `process_document` -/
structure HandOver where
  documentId : Nat
  /-- the attempt left a terminal outcome -/
  answered : Bool

/-- a document submitted to the provider, by either pass -/
structure Sent where
  documentId : Nat
  model : Text
  dailyBudgetUsd : ℚ
  /-- what the provider had been paid before -/
  charged : ℚ

structure Worker where
  session : Session Store
  running : Option Running := none
  ticks : List ProcessingTick := []
  charged : ℚ := 0
  sent : List Sent := []
  log : List HandOver := []

inductive QueueAct
  /-- another call writes records between two ticks -/
  | record (a : Act)
  | start (settings : Settings)
  | round (env : Round)
  /-- the loop is over and `session_scope` commits -/
  | finish (checkedAt : DateTime) (commits : Bool)
  /-- a query outside the `try` raises, and `session_scope` rolls back -/
  | crash

inductive Admission
  | budgetReached
  | skipped
  | failed
  | admitted (document : RawDocument)

/-- what stands before the call of `process_document` in a round -/
def admission (settings : Settings) (store : Store) (id : Nat) (checkedAt : DateTime) (lock : Lock) :
    Admission :=
  if settings.dailyBudgetUsd ≤ spentTodayUsd store.extractions checkedAt then .budgetReached
  else
    match lock with
    | .held => .skipped
    | .raises => .failed
    | .taken =>
      match store.document? id with
      | none => .skipped
      | some document => .admitted document

theorem admitted_spec {settings : Settings} {store : Store} {id : Nat} {checkedAt : DateTime}
    {lock : Lock} {document : RawDocument}
    (h : admission settings store id checkedAt lock = .admitted document) :
    document.id = id ∧ spentTodayUsd store.extractions checkedAt < settings.dailyBudgetUsd := by
  unfold admission at h
  split at h
  · cases h
  · next hb =>
    split at h
    · cases h
    · cases h
    · split at h
      · cases h
      · next hd =>
        cases h
        exact ⟨lookup_key hd, not_le.mp hb⟩

def cost (calls : List ExtractionCall) : ℚ := (calls.map (·.costUsd)).sum

/-- what an attempt sends to the provider; the calls before a request have returned -/
def submissions (documentId : Nat) (settings : Settings) (charged : ℚ) (p : Processed) : List Sent :=
  p.asked.zipIdx.map fun x =>
    ⟨documentId, x.1.model, settings.dailyBudgetUsd, charged + cost (p.calls.take x.2)⟩

/-- a call that writes records outside the queue -/
def elsewhere (U : Unicode) (s : Store) : Act → Option Store
  | .process _ _ => none
  | a => fire U s a

namespace Worker

/-- a worker between two ticks, when all that was spent today is recorded -/
def idle (s : Store) (now : DateTime) : Worker :=
  { session := .start s, charged := spentTodayUsd s.extractions now }

def begin (w : Worker) (settings : Settings) : Worker :=
  let ids :=
    if settings.limit ≤ 0 ∨ settings.dailyBudgetUsd ≤ 0 then []
    else pendingDocumentIds w.session.current settings.limit
  { w with running := some ⟨settings, ids, { considered := ids.length }⟩ }

def round (U : Unicode) (w : Worker) (r : Running) (id : Nat) (rest : List Nat) (env : Round) :
    Worker :=
  let store := w.session.current
  let tick := { r.tick with spentTodayUsd := spentTodayUsd store.extractions env.checkedAt }
  match admission r.settings store id env.checkedAt env.lock with
  | .budgetReached =>
    { w with running := some { r with ids := [], tick := { tick with stoppedForBudget := true } } }
  | .skipped =>
    { w with running := some { r with
        ids := rest, tick := { tick with skippedLocked := tick.skippedLocked + 1 } } }
  | .failed =>
    { w with running := some { r with
        ids := rest, tick := { tick with failed := tick.failed + 1 } } }
  | .admitted document =>
    let p := attempt U store env.call document
    let w := { w with
      charged := w.charged + cost p.calls
      sent := w.sent ++ submissions id r.settings w.charged p }
    match p.result with
    | .error _ =>
      -- the savepoint is rolled back, and nothing is committed
      { w with
        running := some { r with ids := rest, tick := { tick with failed := tick.failed + 1 } }
        log := w.log ++ [⟨id, false⟩] }
    | .ok (after, _) =>
      if r.settings.commitEach && !env.commits then
        -- `session.commit()` raises outside the `try`
        { w with session := w.session.rollback, running := none, log := w.log ++ [⟨id, false⟩] }
      else
        let session := w.session.write after
        { w with
          session := if r.settings.commitEach then session.commit else session
          running := some { r with
            ids := rest, tick := { tick with processed := tick.processed + 1 } }
          log := w.log ++ [⟨id, terminal after.extractions id⟩] }

/-- the document that the next round hands over -/
def handed (w : Worker) (env : Round) : Option (Settings × RawDocument) :=
  match w.running with
  | some ⟨settings, id :: _, _⟩ =>
    match admission settings w.session.current id env.checkedAt env.lock with
    | .admitted document => some (settings, document)
    | _ => none
  | _ => none

end Worker

def queueFire (U : Unicode) (w : Worker) : QueueAct → Option Worker
  | .record a =>
    match w.running with
    | some _ => none
    | none => (elsewhere U w.session.committed a).map fun s => { w with session := .start s }
  | .start settings =>
    match w.running with
    | some _ => none
    | none => some (w.begin settings)
  | .round env =>
    match w.running with
    | some ⟨settings, id :: rest, tick⟩ =>
      some (w.round U ⟨settings, id :: rest, tick⟩ id rest env)
    | _ => none
  | .finish checkedAt commits =>
    match w.running with
    | some ⟨_, [], tick⟩ =>
      some { w with
        session := if commits then w.session.commit else w.session.rollback
        running := none
        ticks := w.ticks ++ [{ tick with
          spentTodayUsd := spentTodayUsd w.session.current.extractions checkedAt }] }
    | _ => none
  | .crash => w.running.map fun _ => { w with session := w.session.rollback, running := none }

/-! ## a round -/

/-- the attempt returns, and where it is committed at once the commit succeeds -/
def Kept (U : Unicode) (w : Worker) (env : Round) (x : Settings × RawDocument) : Prop :=
  (attempt U w.session.current env.call x.2).result.isOk = true ∧
    (x.1.commitEach = true → env.commits = true)

instance (U : Unicode) (w : Worker) (env : Round) (x : Settings × RawDocument) :
    Decidable (Kept U w env x) := inferInstanceAs (Decidable (_ ∧ _))

section
variable {U : Unicode} {w w' : Worker} {env : Round}

/-- **A document is handed over below the budget, and is the next of the tick.** -/
theorem handed_spec {settings : Settings} {document : RawDocument}
    (h : w.handed env = some (settings, document)) :
    ∃ rest tick, w.running = some ⟨settings, document.id :: rest, tick⟩ ∧
      spentTodayUsd w.session.current.extractions env.checkedAt < settings.dailyBudgetUsd := by
  unfold Worker.handed at h
  split at h
  · next settings' id rest tick hr =>
    split at h
    · next d ha =>
      cases h
      obtain ⟨hid, hb⟩ := admitted_spec ha
      exact ⟨rest, tick, hid ▸ hr, hb⟩
    · cases h
  · cases h

/-- what a round does -/
inductive RoundEffect (U : Unicode) (w : Worker) (env : Round) : Worker → Prop
  /-- no document is handed over -/
  | passed (r : Running) (ids : List Nat) (tick : ProcessingTick) (hr : w.running = some r)
      (hids : ids.Sublist r.ids) :
      RoundEffect U w env { w with running := some { r with ids := ids, tick := tick } }
  /-- the attempt raises -/
  | raised (settings : Settings) (document : RawDocument) (rest : List Nat)
      (tick tick' : ProcessingTick) (hx : w.handed env = some (settings, document))
      (hr : w.running = some ⟨settings, document.id :: rest, tick⟩)
      (hk : ¬Kept U w env (settings, document)) :
      RoundEffect U w env { w with
        running := some ⟨settings, rest, tick'⟩
        charged := w.charged + cost (attempt U w.session.current env.call document).calls
        sent := w.sent ++
          submissions document.id settings w.charged (attempt U w.session.current env.call document)
        log := w.log ++ [⟨document.id, false⟩] }
  /-- the attempt returns and its commit fails -/
  | uncommitted (settings : Settings) (document : RawDocument) (rest : List Nat)
      (tick : ProcessingTick) (hx : w.handed env = some (settings, document))
      (hr : w.running = some ⟨settings, document.id :: rest, tick⟩)
      (hk : ¬Kept U w env (settings, document)) (heach : settings.commitEach = true) :
      RoundEffect U w env { w with
        session := w.session.rollback
        running := none
        charged := w.charged + cost (attempt U w.session.current env.call document).calls
        sent := w.sent ++
          submissions document.id settings w.charged (attempt U w.session.current env.call document)
        log := w.log ++ [⟨document.id, false⟩] }
  /-- the attempt returns and is kept -/
  | kept (settings : Settings) (document : RawDocument) (rest : List Nat)
      (tick tick' : ProcessingTick) (after : Store) (res : PipelineResult)
      (session : Session Store) (hx : w.handed env = some (settings, document))
      (hr : w.running = some ⟨settings, document.id :: rest, tick⟩)
      (hk : Kept U w env (settings, document))
      (hok : (attempt U w.session.current env.call document).result = .ok (after, res))
      (hcur : session.current = after)
      (hcom : session.committed = if settings.commitEach then after else w.session.committed) :
      RoundEffect U w env { w with
        session := session
        running := some ⟨settings, rest, tick'⟩
        charged := w.charged + cost (attempt U w.session.current env.call document).calls
        sent := w.sent ++
          submissions document.id settings w.charged (attempt U w.session.current env.call document)
        log := w.log ++ [⟨document.id, terminal after.extractions document.id⟩] }

/-- **Every round does one of these.** -/
theorem round_cases (h : queueFire U w (.round env) = some w') : RoundEffect U w env w' := by
  simp only [queueFire] at h
  split at h
  · next settings id rest tick hr =>
    cases h
    unfold Worker.round
    simp only
    cases ha : admission settings w.session.current id env.checkedAt env.lock with
    | budgetReached => exact .passed _ [] _ hr (List.nil_sublist _)
    | skipped => exact .passed _ rest _ hr (List.sublist_cons_self _ _)
    | failed => exact .passed _ rest _ hr (List.sublist_cons_self _ _)
    | admitted document =>
      have hx : w.handed env = some (settings, document) := by
        simp only [Worker.handed, hr, ha]
      obtain ⟨rest', tick', hr', _⟩ := handed_spec hx
      rw [hr] at hr'
      cases hr'
      simp only
      cases hp : (attempt U w.session.current env.call document).result with
      | error e =>
        refine .raised settings document rest tick _ hx hr fun hk => ?_
        have := hk.1
        simp only [hp] at this
        cases this
      | ok x =>
        obtain ⟨after, res⟩ := x
        simp only
        by_cases hc : (settings.commitEach && !env.commits) = true
        · rw [if_pos hc]
          rw [Bool.and_eq_true, Bool.not_eq_true'] at hc
          refine .uncommitted settings document rest tick hx hr (fun hk => ?_) hc.1
          have := hk.2 hc.1
          rw [hc.2] at this
          cases this
        · rw [if_neg hc]
          refine .kept settings document rest tick _ after res _ hx hr ⟨?_, fun he => ?_⟩ hp ?_ ?_
          · simp only [hp]
            rfl
          · rw [he, Bool.true_and, Bool.not_eq_true'] at hc
            exact Bool.eq_true_of_not_eq_false hc
          · split <;> rfl
          · split <;> rfl
  · cases h

end

/-! ## a step -/

/-- the tick does not lose what it has not committed: only a tick with `commit_each` may end by an
exception or without its last commit -/
def Durable (w : Worker) : QueueAct → Prop
  | .finish _ commits => commits = true ∨ ∀ r ∈ w.running, r.settings.commitEach = true
  | .crash => ∀ r ∈ w.running, r.settings.commitEach = true
  | _ => True

instance (w : Worker) (a : QueueAct) : Decidable (Durable w a) :=
  match a with
  | .finish _ commits =>
    inferInstanceAs (Decidable (commits = true ∨ ∀ r ∈ w.running, r.settings.commitEach = true))
  | .crash => inferInstanceAs (Decidable (∀ r ∈ w.running, r.settings.commitEach = true))
  | .record _ | .start _ | .round _ => .isTrue trivial

/-- what a step does -/
inductive StepEffect (U : Unicode) (w : Worker) : QueueAct → Worker → Prop
  | recorded (act : Act) (s : Store) (hr : w.running = none)
      (hs : elsewhere U w.session.committed act = some s) :
      StepEffect U w (.record act) { w with session := .start s }
  | began (settings : Settings) (ids : List Nat) (tick : ProcessingTick) (hr : w.running = none)
      (hids : ids = [] ∨ ids = pendingDocumentIds w.session.current settings.limit) :
      StepEffect U w (.start settings) { w with running := some ⟨settings, ids, tick⟩ }
  | round (env : Round) (w' : Worker) (h : RoundEffect U w env w') : StepEffect U w (.round env) w'
  | ended (a : QueueAct) (session : Session Store) (ticks : List ProcessingTick)
      (hs : session = w.session.commit ∨ (session = w.session.rollback ∧
        (Durable w a → ∀ r ∈ w.running, r.settings.commitEach = true))) :
      StepEffect U w a { w with session := session, running := none, ticks := ticks }

section
variable {U : Unicode} {w w' : Worker} {a : QueueAct}

/-- **Every step does one of these.** -/
theorem queueFire_cases (h : queueFire U w a = some w') : StepEffect U w a w' := by
  cases a with
  | record act =>
    simp only [queueFire] at h
    split at h
    · cases h
    · next hr =>
      obtain ⟨s, hs, rfl⟩ := Option.map_eq_some_iff.mp h
      exact .recorded act s hr hs
  | start settings =>
    simp only [queueFire] at h
    split at h
    · cases h
    · next hr =>
      cases h
      refine .began settings _ _ hr ?_
      split
      · exact Or.inl rfl
      · exact Or.inr rfl
  | round env => exact .round env w' (round_cases h)
  | finish checkedAt commits =>
    simp only [queueFire] at h
    split at h
    · cases h
      refine .ended _ _ _ ?_
      cases commits with
      | true => exact Or.inl rfl
      | false => exact Or.inr ⟨rfl, fun hd => hd.resolve_left Bool.false_ne_true⟩
    · cases h
  | crash =>
    obtain ⟨r, _, rfl⟩ := Option.map_eq_some_iff.mp h
    exact .ended _ _ _ (Or.inr ⟨rfl, id⟩)

/-- between two ticks, and in a tick with `commit_each`, everything is committed -/
def Saved (w : Worker) : Prop :=
  (∀ r ∈ w.running, r.settings.commitEach = true) → w.session.current = w.session.committed

theorem Saved.of_running {settings : Settings} {ids : List Nat} {tick : ProcessingTick}
    (h : Saved w) (hr : w.running = some ⟨settings, ids, tick⟩) (he : settings.commitEach = true) :
    w.session.current = w.session.committed := by
  refine h fun r hr' => ?_
  rw [hr] at hr'
  cases hr'
  exact he

theorem saved_round {env : Round} (h : Saved w) (he : RoundEffect U w env w') : Saved w' := by
  cases he with
  | passed r ids tick hr _ =>
    exact fun heach => h.of_running hr (heach { r with ids := ids, tick := tick } rfl)
  | raised settings document rest tick tick' _ hr _ =>
    exact fun heach => h.of_running hr (heach ⟨settings, rest, tick'⟩ rfl)
  | uncommitted => exact fun _ => rfl
  | kept settings document rest tick tick' after res session _ _ _ _ hcur hcom =>
    intro heach
    have heach : settings.commitEach = true := heach ⟨settings, rest, tick'⟩ rfl
    rw [if_pos heach] at hcom
    exact hcur.trans hcom.symm

theorem saved_step (h : Saved w) (ha : queueFire U w a = some w') : Saved w' := by
  cases queueFire_cases ha with
  | recorded act s _ _ => exact fun _ => rfl
  | began settings ids tick hr _ => exact fun _ => h (by simp [hr])
  | round env w' he => exact saved_round h he
  | ended a session ticks hs =>
    intro _
    rcases hs with rfl | ⟨rfl, _⟩ <;> rfl

/-- **The end of a durable tick keeps the rows of the session.** -/
theorem current_of_ended {session : Session Store} (h : Saved w) (hd : Durable w a)
    (hs : session = w.session.commit ∨ (session = w.session.rollback ∧
      (Durable w a → ∀ r ∈ w.running, r.settings.commitEach = true))) :
    session.current = w.session.current := by
  rcases hs with rfl | ⟨rfl, he⟩
  · rfl
  · exact (h (he hd)).symm

theorem fire_of_elsewhere {s t : Store} {act : Act} (h : elsewhere U s act = some t) :
    fire U s act = some t := by
  cases act with
  | process i env => cases h
  | source row => exact h
  | document row => exact h
  | decide i input => exact h

theorem elsewhere_extractions {s t : Store} {act : Act} (h : elsewhere U s act = some t) :
    t.extractions = s.extractions := by
  cases act with
  | source row => cases h; rfl
  | document row => cases h; rfl
  | process i env => cases h
  | decide i input =>
    obtain ⟨e, _, rfl | ⟨verb, changes, _, rfl⟩⟩ := fire_decide (fire_of_elsewhere h)
    · rfl
    · rfl

end

end GeoRisk
