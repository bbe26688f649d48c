import Mathlib.Algebra.Group.Action.Defs
import Mathlib.Algebra.Order.BigOperators.Group.List
import GeoRisk.Queue.Workers

/-!
# Old documents do not starve

A tick that processes something, and skips and fails nothing, has processed the oldest document that
waited, for the list is made oldest first.  An attempt that returns uses one of the `MAX_ATTEMPTS` of
its document up, and one that raises fails its tick.  So the attempts that are left to a document and
to those before it go down with every such tick, whatever the provider answers and whatever arrives
behind it.

* `attemptsLeft`, `backlog`    what is left to one document, and to all up to one;
* `served_backlog`             an attempt that returns takes one off;
* `Turn`, `turn_of_round`      what a round does to the tick that runs;
* `Draining`                   the ticks so far and the backlog fit into the documents up to `d`;
* `waiting_bounded`            how long a document waits.
-/

namespace GeoRisk
open Kit

/-- the attempts that are left to a document, two errors for each that was made -/
def attemptsLeft (rows : List Extraction) (documentId : Nat) : Nat :=
  if terminal rows documentId then 0 else (maxErrorRows - errorRows rows documentId + 1) / 2

/-- the documents with quotable text that stand no later than `d` in the queue -/
def upTo (s : Store) (d : RawDocument) : List RawDocument :=
  s.documents.filter fun x =>
    x.cleanText.isSome && !x.isTombstoned && decide (OldestFirst x d)

def backlog (s : Store) (d : RawDocument) : Nat :=
  ((upTo s d).map fun x => attemptsLeft s.extractions x.id).sum

/-- the tick processed something, and nothing kept it from what stood before -/
def ProcessingTick.Clean (t : ProcessingTick) : Prop :=
  0 < t.processed ∧ t.skippedLocked = 0 ∧ t.failed = 0

instance (t : ProcessingTick) : Decidable t.Clean := inferInstanceAs (Decidable (_ ∧ _ ∧ _))

def cleanTicks (ticks : List ProcessingTick) : Nat := ticks.countP fun t => decide t.Clean

/-- the ticks so far, with the one that runs -/
def Worker.served (w : Worker) : List ProcessingTick :=
  w.ticks ++ (w.running.map (·.tick)).toList

/-! ## the order of the queue -/

theorem OldestFirst.trans {a b c : RawDocument} (h : OldestFirst a b) (k : OldestFirst b c) :
    OldestFirst a c := by
  rcases h with h | ⟨h, hid⟩
  · rcases k with k | ⟨k, _⟩
    · exact Or.inl (Int.lt_trans h k)
    · exact Or.inl (k ▸ h)
  · rcases k with k | ⟨k, kid⟩
    · exact Or.inl (h ▸ k)
    · exact Or.inr ⟨h.trans k, le_trans hid kid⟩

theorem OldestFirst.total (a b : RawDocument) : OldestFirst a b ∨ OldestFirst b a := by
  rcases Int.lt_trichotomy a.retrievedAt.micros b.retrievedAt.micros with h | h | h
  · exact Or.inl (Or.inl h)
  · have heq : a.retrievedAt = b.retrievedAt := by
      cases ha : a.retrievedAt
      cases hb : b.retrievedAt
      rw [ha, hb] at h
      exact congrArg DateTime.mk h
    rcases le_total a.id b.id with hid | hid
    · exact Or.inl (Or.inr ⟨heq, hid⟩)
    · exact Or.inr (Or.inr ⟨heq.symm, hid⟩)
  · exact Or.inr (Or.inl h)

instance : IsTrans RawDocument OldestFirst := ⟨fun _ _ _ => OldestFirst.trans⟩
instance : Std.Total OldestFirst := ⟨OldestFirst.total⟩

section
variable {s t : Store} {d : RawDocument}

theorem isPending_iff {x : RawDocument} : isPending s x = true ↔
    (x.cleanText.isSome = true ∧ x.isTombstoned = false) ∧
      terminal s.extractions x.id = false ∧ errorRows s.extractions x.id < maxErrorRows := by
  unfold isPending
  simp only [Bool.and_eq_true, Bool.not_eq_true', decide_eq_true_eq, and_assoc]

/-- **The first document of a selection is no younger than any that waits.** -/
theorem head_pendingDocumentIds {limit : Int} {id : Nat} {rest : List Nat}
    (h : pendingDocumentIds s limit = id :: rest) (hd : d ∈ s.documents)
    (hp : isPending s d = true) : ∃ x ∈ upTo s d, x.id = id := by
  unfold pendingDocumentIds at h
  split at h
  · cases h
  · have hperm := List.perm_insertionSort OldestFirst (s.documents.filter (isPending s))
    have hsorted := List.pairwise_insertionSort OldestFirst (s.documents.filter (isPending s))
    have hmem := hperm.mem_iff.mpr (List.mem_filter.mpr ⟨hd, hp⟩)
    cases hl : (s.documents.filter (isPending s)).insertionSort OldestFirst with
    | nil =>
      rw [hl] at hmem
      cases hmem
    | cons x xs =>
      rw [hl] at h hmem hsorted
      have hx := List.mem_filter.mp (hperm.mem_iff.mp (hl ▸ List.mem_cons_self))
      refine ⟨x, List.mem_filter.mpr ⟨hx.1, ?_⟩, ?_⟩
      · obtain ⟨⟨htext, htomb⟩, _⟩ := isPending_iff.mp hx.2
        have hle : OldestFirst x d := by
          rcases List.mem_cons.mp hmem with rfl | hmem
          · exact Or.inr ⟨rfl, le_refl _⟩
          · exact List.rel_of_pairwise_cons hsorted hmem
        simp only [htext, htomb, Bool.not_false, Bool.and_self, Bool.true_and, decide_eq_true_eq]
        exact hle
      · cases hn : limit.toNat with
        | zero =>
          rw [hn] at h
          cases h
        | succ n =>
          rw [hn] at h
          exact (List.cons.inj h).1

/-! ## what is left -/

theorem attemptsLeft_le (rows : List Extraction) (i : Nat) : attemptsLeft rows i ≤ maxAttempts := by
  unfold attemptsLeft maxErrorRows maxAttempts
  split <;> omega

/-- an attempt that returns leaves the others what they had -/
theorem attemptsLeft_other {now : DateTime} {i j : Nat} {calls : List ExtractionCall}
    {rows more : List Extraction} (h : Rows now i calls more) (hne : i ≠ j) :
    attemptsLeft (rows ++ more) j = attemptsLeft rows j := by
  obtain ⟨hterm, herr⟩ := h.other hne
  unfold attemptsLeft
  simp only [terminal_append, errorRows_append, hterm, herr, Bool.or_false, Nat.add_zero]

/-- **An attempt that returns takes one from its document.** -/
theorem attemptsLeft_own {now : DateTime} {i : Nat} {calls : List ExtractionCall}
    {rows more : List Extraction} (h : Rows now i calls more) (ht : terminal rows i = false)
    (he : errorRows rows i < maxErrorRows) :
    attemptsLeft (rows ++ more) i < attemptsLeft rows i := by
  unfold attemptsLeft
  rw [terminal_append, errorRows_append, ht, Bool.false_or, if_neg Bool.false_ne_true]
  rcases h.own with hterm | htwo
  · rw [hterm, if_pos rfl]
    omega
  · rw [htwo]
    split <;> omega

theorem attemptsLeft_pending (hp : isPending s d = true) : 0 < attemptsLeft s.extractions d.id := by
  obtain ⟨_, ht, he⟩ := isPending_iff.mp hp
  unfold attemptsLeft
  rw [ht, if_neg Bool.false_ne_true]
  omega

theorem backlog_le (s : Store) (d : RawDocument) :
    backlog s d ≤ maxAttempts * (upTo s d).length := by
  have h := List.sum_le_card_nsmul ((upTo s d).map fun x => attemptsLeft s.extractions x.id)
    maxAttempts (by
      intro n hn
      obtain ⟨x, _, rfl⟩ := List.mem_map.mp hn
      exact attemptsLeft_le _ _)
  rw [List.length_map, smul_eq_mul, Nat.mul_comm] at h
  exact h

/-- a document that waits is part of its own backlog -/
theorem backlog_pos (hd : d ∈ s.documents) (hp : isPending s d = true) : 0 < backlog s d := by
  obtain ⟨⟨htext, htomb⟩, _⟩ := isPending_iff.mp hp
  have hmem : d ∈ upTo s d := by
    refine List.mem_filter.mpr ⟨hd, ?_⟩
    simp only [htext, htomb, Bool.not_false, Bool.and_self, Bool.true_and, decide_eq_true_eq]
    exact Or.inr ⟨rfl, le_refl _⟩
  refine lt_of_lt_of_le (attemptsLeft_pending hp) ?_
  exact List.single_le_sum (fun _ _ => Nat.zero_le _) _ (List.mem_map_of_mem hmem)

/-- a served document takes one off the backlogs that it is part of, and leaves the others -/
theorem served_backlog {now : DateTime} {i : Nat} {calls : List ExtractionCall}
    {rows : List Extraction} (hdocuments : t.documents = s.documents)
    (hrows : t.extractions = s.extractions ++ rows) (hspec : Rows now i calls rows)
    (ht : terminal s.extractions i = false) (he : errorRows s.extractions i < maxErrorRows) :
    backlog t d ≤ backlog s d ∧ ((∃ x ∈ upTo s d, x.id = i) → backlog t d < backlog s d) := by
  have hsame : upTo t d = upTo s d := by
    unfold upTo
    rw [hdocuments]
  have hle : ∀ x ∈ upTo s d, attemptsLeft t.extractions x.id ≤ attemptsLeft s.extractions x.id := by
    intro x _
    rw [hrows]
    by_cases hi : i = x.id
    · rw [← hi]
      exact le_of_lt (attemptsLeft_own hspec ht he)
    · exact le_of_eq (attemptsLeft_other hspec hi)
  unfold backlog
  rw [hsame]
  refine ⟨List.sum_le_sum hle, ?_⟩
  rintro ⟨x, hx, rfl⟩
  refine List.sum_lt_sum _ _ hle ⟨x, hx, ?_⟩
  rw [hrows]
  exact attemptsLeft_own hspec ht he

/-- documents that arrive bring their own attempts -/
theorem arrived_backlog {more : List RawDocument} (hdocuments : t.documents = s.documents ++ more)
    (hrows : t.extractions = s.extractions) {n : Nat}
    (h : n + backlog s d ≤ maxAttempts * (upTo s d).length) :
    n + backlog t d ≤ maxAttempts * (upTo t d).length := by
  have hsplit : upTo t d = upTo s d ++ upTo { t with documents := more } d := by
    unfold upTo
    rw [hdocuments, List.filter_append]
  have hsum : backlog t d = backlog s d + backlog { t with documents := more } d := by
    unfold backlog
    rw [hsplit, List.map_append, List.sum_append, hrows]
  have hmore := backlog_le { t with documents := more } d
  rw [hsum, hsplit, List.length_append, Nat.mul_add]
  omega

/-- once a document does not wait, it never waits again -/
theorem isPending_of_append {rows : List Extraction} (hrows : t.extractions = s.extractions ++ rows)
    (h : isPending t d = true) : isPending s d = true := by
  obtain ⟨htext, ht, he⟩ := isPending_iff.mp h
  rw [hrows, terminal_append, Bool.or_eq_false_iff] at ht
  rw [hrows, errorRows_append] at he
  exact isPending_iff.mpr ⟨htext, ht.1, lt_of_le_of_lt (Nat.le_add_right _ _) he⟩

end

/-! ## one round -/

/-- what a round does to the tick that runs -/
inductive Turn (U : Unicode) (w : Worker) (settings : Settings) (id : Nat) (rest : List Nat)
    (tick : ProcessingTick) : Worker → Prop
  /-- the budget is reached -/
  | stopped (w' : Worker) (tick' : ProcessingTick) (hs : w'.session = w.session)
      (ht : w'.ticks = w.ticks) (hr : w'.running = some ⟨settings, [], tick'⟩)
      (hc : tick'.Clean ↔ tick.Clean) : Turn U w settings id rest tick w'
  /-- the document is locked, or its attempt raises -/
  | disturbed (w' : Worker) (tick' : ProcessingTick) (hs : w'.session = w.session)
      (ht : w'.ticks = w.ticks) (hr : w'.running = some ⟨settings, rest, tick'⟩)
      (hc : 0 < tick'.skippedLocked + tick'.failed) : Turn U w settings id rest tick w'
  /-- its commit fails -/
  | lost (w' : Worker) (hs : w'.session = w.session.rollback) (ht : w'.ticks = w.ticks)
      (heach : settings.commitEach = true) (hr : w'.running = none) :
      Turn U w settings id rest tick w'
  | served (w' : Worker) (tick' : ProcessingTick) (document : RawDocument) (call : CallEnv)
      (res : PipelineResult) (hid : document.id = id)
      (hok : (attempt U w.session.current call document).result = .ok (w'.session.current, res))
      (hcom : w'.session.committed = w'.session.current ∨
        w'.session.committed = w.session.committed)
      (ht : w'.ticks = w.ticks) (hr : w'.running = some ⟨settings, rest, tick'⟩)
      (hc : tick'.processed = tick.processed + 1 ∧ tick'.skippedLocked = tick.skippedLocked ∧
        tick'.failed = tick.failed) : Turn U w settings id rest tick w'

section
variable {U : Unicode} {w w' : Worker} {d : RawDocument}

theorem turn_of_round {env : Round} (h : queueFire U w (.round env) = some w') :
    ∃ settings id rest tick, w.running = some ⟨settings, id :: rest, tick⟩ ∧
      Turn U w settings id rest tick w' := by
  simp only [queueFire] at h
  split at h
  · next settings id rest tick hr =>
    cases h
    refine ⟨settings, id, rest, tick, hr, ?_⟩
    unfold Worker.round
    simp only
    cases ha : admission settings w.session.current id env.checkedAt env.lock with
    | budgetReached => exact .stopped _ _ rfl rfl rfl Iff.rfl
    | skipped => exact .disturbed _ _ rfl rfl rfl (by simp only; omega)
    | failed => exact .disturbed _ _ rfl rfl rfl (by simp only; omega)
    | admitted document =>
      simp only
      cases hp : (attempt U w.session.current env.call document).result with
      | error e => exact .disturbed _ _ rfl rfl rfl (by simp only; omega)
      | ok x =>
        obtain ⟨after, res⟩ := x
        simp only
        by_cases hc : (settings.commitEach && !env.commits) = true
        · rw [if_pos hc]
          exact .lost _ rfl rfl ((Bool.and_eq_true _ _).mp hc).1 rfl
        · rw [if_neg hc]
          refine .served _ _ document env.call res (admitted_spec ha).1 ?_ ?_ rfl rfl
            ⟨rfl, rfl, rfl⟩
          · rw [hp]
            cases settings.commitEach <;> rfl
          · cases settings.commitEach with
            | true => exact Or.inl rfl
            | false => exact Or.inr rfl
  · cases h

/-! ## the invariant -/

/-- the clean ticks so far and the attempts that are left up to `d` fit into the documents up to it,
as long as it waits -/
structure Draining (d : RawDocument) (w : Worker) : Prop where
  saved : Saved w
  committed : DocumentKeys w.session.committed
  current : DocumentKeys w.session.current
  known : d ∈ w.session.current.documents
  /-- what the tick has still to process -/
  listed : ∀ r ∈ w.running, r.ids.Nodup ∧ ∀ i ∈ r.ids,
    terminal w.session.current.extractions i = false ∧
      errorRows w.session.current.extractions i < maxErrorRows
  /-- before a tick has processed, skipped or failed anything, it holds what it has selected -/
  fresh : ∀ r ∈ w.running, r.tick.processed = 0 → r.tick.skippedLocked + r.tick.failed = 0 →
    r.ids = [] ∨ ∃ limit, r.ids = pendingDocumentIds w.session.current limit
  counted : isPending w.session.current d = true →
    cleanTicks w.served + backlog w.session.current d ≤
      maxAttempts * (upTo w.session.current d).length

theorem cleanTicks_append (ticks more : List ProcessingTick) :
    cleanTicks (ticks ++ more) = cleanTicks ticks + cleanTicks more := List.countP_append

theorem cleanTicks_single (t : ProcessingTick) : cleanTicks [t] = if t.Clean then 1 else 0 := by
  unfold cleanTicks
  rw [List.countP_singleton]
  simp only [decide_eq_true_eq]

theorem served_running {r : Running} (hr : w.running = some r) :
    w.served = w.ticks ++ [r.tick] := by
  unfold Worker.served
  rw [hr]
  rfl

theorem served_idle (hr : w.running = none) : w.served = w.ticks := by
  unfold Worker.served
  rw [hr]
  exact List.append_nil _

theorem draining_idle {s : Store} {now : DateTime} (hkeys : DocumentKeys s) (hd : d ∈ s.documents) :
    Draining d (.idle s now) := by
  refine ⟨fun _ => rfl, hkeys, hkeys, hd, ?_, ?_, fun _ => ?_⟩
  · intro r hr
    cases hr
  · intro r hr
    cases hr
  show cleanTicks [] + backlog s d ≤ _
  exact le_trans (le_of_eq (Nat.zero_add _)) (backlog_le s d)

/-- the count of a tick that has not become cleaner -/
theorem served_le {r r' : Running} (hr : w.running = some r) (hr' : w'.running = some r')
    (ht : w'.ticks = w.ticks) (hc : r'.tick.Clean → r.tick.Clean) :
    cleanTicks w'.served ≤ cleanTicks w.served := by
  rw [served_running hr, served_running hr', ht, cleanTicks_append, cleanTicks_append,
    cleanTicks_single, cleanTicks_single]
  refine Nat.add_le_add_left ?_ _
  split
  · next h => rw [if_pos (hc h)]
  · exact Nat.zero_le _

theorem Draining.served {settings : Settings} {id : Nat} {rest : List Nat}
    {tick tick' : ProcessingTick} {document : RawDocument} {call : CallEnv} {res : PipelineResult}
    (h : Draining d w) (hsaved : Saved w') (hrun : w.running = some ⟨settings, id :: rest, tick⟩)
    (hid : document.id = id)
    (hok : (attempt U w.session.current call document).result = .ok (w'.session.current, res))
    (hcom : w'.session.committed = w'.session.current ∨
      w'.session.committed = w.session.committed)
    (ht : w'.ticks = w.ticks) (hr : w'.running = some ⟨settings, rest, tick'⟩)
    (hc : tick'.processed = tick.processed + 1 ∧ tick'.skippedLocked = tick.skippedLocked ∧
      tick'.failed = tick.failed) : Draining d w' := by
  obtain ⟨⟨rows, hrows, hspec⟩, hun⟩ := rows_of_ok hok
  rw [hid] at hspec
  obtain ⟨hnd, hlist⟩ := h.listed _ hrun
  obtain ⟨hterm, herr⟩ := hlist id List.mem_cons_self
  have hkeys : DocumentKeys w'.session.current := h.current.of_documents hun.documents hun.nextId
  refine ⟨hsaved, ?_, hkeys, hun.documents ▸ h.known, ?_, ?_, ?_⟩
  · rcases hcom with hcom | hcom
    · exact hcom ▸ hkeys
    · exact hcom ▸ h.committed
  · intro r hm
    rw [hr] at hm
    cases hm
    refine ⟨(List.nodup_cons.mp hnd).2, fun i hi => ?_⟩
    -- the rest of the list does not name the document again
    have hne : id ≠ i := fun he => (List.nodup_cons.mp hnd).1 (he ▸ hi)
    obtain ⟨hterm', herr'⟩ := hspec.other hne
    rw [hrows, terminal_append, errorRows_append, hterm', herr', Bool.or_false, Nat.add_zero]
    exact hlist i (List.mem_cons_of_mem _ hi)
  · intro r hm hp
    rw [hr] at hm
    cases hm
    rw [hc.1] at hp
    exact absurd hp (Nat.succ_ne_zero _)
  · intro hwait
    have hwait' : isPending w.session.current d = true := isPending_of_append hrows hwait
    have hcount := h.counted hwait'
    obtain ⟨hle, hlt⟩ := served_backlog (d := d) hun.documents hrows hspec hterm herr
    have hsame : upTo w'.session.current d = upTo w.session.current d := by
      unfold upTo
      rw [hun.documents]
    rw [hsame]
    by_cases hclean : tick'.Clean → tick.Clean
    · have := served_le hrun hr ht hclean
      omega
    · -- the tick becomes clean with this document, so it is the first of its selection
      obtain ⟨hnew, hold⟩ := Classical.not_imp.mp hclean
      obtain ⟨_, hskipped, hfailed⟩ := hnew
      rw [hc.2.1] at hskipped
      rw [hc.2.2] at hfailed
      have hfirst : tick.processed = 0 := by
        by_contra hp
        exact hold ⟨Nat.pos_of_ne_zero hp, hskipped, hfailed⟩
      have hhead : ∃ x ∈ upTo w.session.current d, x.id = id := by
        rcases h.fresh _ hrun hfirst (by rw [hskipped, hfailed]) with hnil | ⟨limit, hids⟩
        · cases hnil
        · exact head_pendingDocumentIds hids.symm h.known hwait'
      have hserved : cleanTicks w'.served ≤ cleanTicks w.served + 1 := by
        rw [served_running hrun, served_running hr, ht, cleanTicks_append, cleanTicks_append,
          cleanTicks_single, cleanTicks_single, if_neg hold]
        split <;> omega
      have := hlt hhead
      omega

theorem draining_round {env : Round} (h : Draining d w)
    (ha : queueFire U w (.round env) = some w') : Draining d w' := by
  have hsaved := saved_step h.saved ha
  obtain ⟨settings, id, rest, tick, hrun, hturn⟩ := turn_of_round ha
  obtain ⟨hnd, hlist⟩ := h.listed _ hrun
  cases hturn with
  | stopped tick' hs ht hr hc =>
    refine ⟨hsaved, hs ▸ h.committed, hs ▸ h.current, hs ▸ h.known, ?_, ?_, fun hwait => ?_⟩
    · intro r hm
      rw [hr] at hm
      cases hm
      exact ⟨List.nodup_nil, fun i hi => by cases hi⟩
    · intro r hm _ _
      rw [hr] at hm
      cases hm
      exact Or.inl rfl
    · rw [hs] at hwait ⊢
      exact le_trans (Nat.add_le_add_right (served_le hrun hr ht hc.mp) _) (h.counted hwait)
  | disturbed tick' hs ht hr hc =>
    refine ⟨hsaved, hs ▸ h.committed, hs ▸ h.current, hs ▸ h.known, ?_, ?_, fun hwait => ?_⟩
    · intro r hm
      rw [hr] at hm
      cases hm
      rw [hs]
      exact ⟨(List.nodup_cons.mp hnd).2, fun i hi => hlist i (List.mem_cons_of_mem _ hi)⟩
    · intro r hm _ hz
      rw [hr] at hm
      cases hm
      simp only at hz
      omega
    · rw [hs] at hwait ⊢
      refine le_trans (Nat.add_le_add_right (served_le hrun hr ht fun hclean => ?_) _)
        (h.counted hwait)
      obtain ⟨_, hskipped, hfailed⟩ := hclean
      simp only at hskipped hfailed
      omega
  | lost hs ht heach hr =>
    have hcur : w'.session.current = w.session.current := by
      rw [hs]
      exact (h.saved.of_running hrun heach).symm
    have hcom : w'.session.committed = w.session.committed := by rw [hs]; rfl
    refine ⟨hsaved, hcom ▸ h.committed, hcur ▸ h.current, hcur ▸ h.known, ?_, ?_, fun hwait => ?_⟩
    · intro r hm
      rw [hr] at hm
      cases hm
    · intro r hm
      rw [hr] at hm
      cases hm
    · rw [hcur] at hwait ⊢
      refine le_trans (Nat.add_le_add_right ?_ _) (h.counted hwait)
      rw [served_idle hr, served_running hrun, ht, cleanTicks_append]
      exact Nat.le_add_right _ _
  | served tick' document call res hid hok hcom ht hr hc =>
    exact h.served hsaved hrun hid hok hcom ht hr hc

/-- the end of a tick, which keeps the rows of the session -/
theorem draining_ended {session : Session Store} {ticks : List ProcessingTick} {a : QueueAct}
    (h : Draining d w) (hdur : Durable w a)
    (hs : session = w.session.commit ∨ (session = w.session.rollback ∧
      (Durable w a → ∀ r ∈ w.running, r.settings.commitEach = true)))
    (ht : cleanTicks ticks ≤ cleanTicks w.served) :
    Draining d { w with session := session, running := none, ticks := ticks } := by
  have hcur := current_of_ended h.saved hdur hs
  have hkeys : DocumentKeys session.committed := by
    rcases hs with rfl | ⟨rfl, _⟩
    · exact h.current
    · exact h.committed
  refine ⟨?_, hkeys, hcur ▸ h.current, hcur ▸ h.known, ?_, ?_, fun hwait => ?_⟩
  · intro _
    rcases hs with rfl | ⟨rfl, _⟩ <;> rfl
  · intro r hr
    cases hr
  · intro r hr
    cases hr
  · simp only at hwait ⊢
    rw [hcur] at hwait ⊢
    refine le_trans (Nat.add_le_add_right ?_ _) (h.counted hwait)
    rw [served_idle rfl]
    exact ht

theorem elsewhere_documents {s t : Store} {act : Act} (h : elsewhere U s act = some t) :
    s.documents <+: t.documents := by
  cases act with
  | source row => cases h; exact List.prefix_refl _
  | document row => cases h; exact List.prefix_append _ _
  | process i env => cases h
  | decide i input =>
    obtain ⟨e, _, rfl | ⟨verb, changes, _, rfl⟩⟩ := fire_decide (fire_of_elsewhere h)
    · exact List.prefix_refl _
    · exact List.prefix_refl _

/-- **Every step of a worker whose ticks lose nothing keeps the count.** -/
theorem draining_step {a : QueueAct} (h : Draining d w) (hdur : Durable w a)
    (ha : queueFire U w a = some w') : Draining d w' := by
  cases a with
  | record act =>
    simp only [queueFire] at ha
    split at ha
    · cases ha
    · next hr =>
      obtain ⟨s, hs, rfl⟩ := Option.map_eq_some_iff.mp ha
      have hcur : w.session.committed = w.session.current := (h.saved (by simp [hr])).symm
      rw [hcur] at hs
      have hkeys := h.current.fire (fire_of_elsewhere hs)
      have hrows := elsewhere_extractions hs
      obtain ⟨more, hmore⟩ := elsewhere_documents hs
      refine ⟨fun _ => rfl, hkeys, hkeys, ?_, fun r hm => ?_, fun r hm => ?_, fun hwait => ?_⟩
      · show d ∈ s.documents
        rw [← hmore]
        exact List.mem_append_left _ h.known
      · simp only [hr] at hm
        cases hm
      · simp only [hr] at hm
        cases hm
      · have hwait' : isPending w.session.current d = true :=
          isPending_of_append (hrows.trans (List.append_nil _).symm) hwait
        exact arrived_backlog hmore.symm hrows (h.counted hwait')
  | start settings =>
    simp only [queueFire] at ha
    split at ha
    · cases ha
    · next hr =>
      cases ha
      have hids : ∃ limit, (w.begin settings).running =
          some ⟨settings, pendingDocumentIds w.session.current limit,
            { considered := (pendingDocumentIds w.session.current limit).length }⟩ := by
        unfold Worker.begin
        simp only
        split
        · exact ⟨0, rfl⟩
        · exact ⟨settings.limit, rfl⟩
      obtain ⟨limit, hids⟩ := hids
      refine ⟨?_, h.committed, h.current, h.known, ?_, ?_, fun hwait => ?_⟩
      · exact fun _ => h.saved (by simp [hr])
      · intro r hm
        rw [hids] at hm
        cases hm
        exact ⟨nodup_pendingDocumentIds h.current.nodup _, fun i hi => mem_pendingDocumentIds hi⟩
      · intro r hm _ _
        rw [hids] at hm
        cases hm
        exact Or.inr ⟨limit, rfl⟩
      · have hserved : cleanTicks (w.begin settings).served = cleanTicks w.served := by
          rw [served_running hids, served_idle hr, cleanTicks_append, cleanTicks_single,
            if_neg fun hclean => absurd hclean.1 (Nat.lt_irrefl 0)]
          rfl
        rw [hserved]
        exact h.counted hwait
  | round env => exact draining_round h ha
  | finish checkedAt commits =>
    simp only [queueFire] at ha
    split at ha
    · next settings tick hr =>
      cases ha
      refine draining_ended h hdur ?_ ?_
      · cases commits with
        | true => exact Or.inl rfl
        | false => exact Or.inr ⟨rfl, fun hd => hd.resolve_left Bool.false_ne_true⟩
      · rw [served_running hr, cleanTicks_append, cleanTicks_append, cleanTicks_single,
          cleanTicks_single]
        exact le_of_eq rfl
    · cases ha
  | crash =>
    obtain ⟨r, hr, rfl⟩ := Option.map_eq_some_iff.mp ha
    refine draining_ended h hdur (Or.inr ⟨rfl, id⟩) ?_
    rw [served_running hr, cleanTicks_append]
    exact Nat.le_add_right _ _

/-- **No document starves.**  In every run whose ticks lose no rows, however the provider answers or
raises and whatever arrives behind it, a document that still waits has seen fewer ticks that
processed something, and skipped and failed nothing, than `MAX_ATTEMPTS` for each document that
stands no later in the queue. -/
theorem waiting_bounded (U : Unicode) {s : Store} {now : DateTime} {as : List QueueAct}
    (hkeys : DocumentKeys s) (hd : d ∈ s.documents)
    (hrun : exec (queueFire U) (.idle s now) as = some w)
    (hdur : Along (queueFire U) Durable (.idle s now) as)
    (hwait : isPending w.session.current d = true) :
    cleanTicks w.ticks < maxAttempts * (upTo w.session.current d).length := by
  have h : Draining d w := exec_invariant_along (queueFire U)
    (fun _ _ _ h hg ha => draining_step h hg ha) hrun hdur (draining_idle hkeys hd)
  have hcount := h.counted hwait
  have hpos := backlog_pos h.known hwait
  unfold Worker.served at hcount
  rw [cleanTicks_append] at hcount
  omega

end

/-- the provider is unavailable in the first of three ticks -/
theorem waiting_bounded_unavailable :
    ∃ w, exec (queueFire Unicode.latin) (.idle Sample.arrived ⟨0⟩)
        (Sample.tick Sample.unavailable) = some w ∧
      cleanTicks w.ticks < maxAttempts *
        (upTo w.session.current { Sample.document Sample.text with id := 1 }).length := by
  have hrun : (exec (queueFire Unicode.latin) (.idle Sample.arrived ⟨0⟩)
      (Sample.tick Sample.unavailable)).map (fun w =>
        isPending w.session.current { Sample.document Sample.text with id := 1 }) =
          some true := by decide +kernel
  obtain ⟨w, hw, hwait⟩ := Option.map_eq_some_iff.mp hrun
  exact ⟨w, hw, waiting_bounded Unicode.latin Sample.arrived_keys (List.mem_singleton.mpr rfl) hw
    (by decide +kernel) hwait⟩

end GeoRisk
