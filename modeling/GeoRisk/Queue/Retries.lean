import GeoRisk.Queue.Budget

/-!
# Bounded retries

Attempts are not counted: they are inferred from the `error` rows, two for each.  That is exact for
an attempt that returns (`Rows.own`), and an attempt that raises leaves none.

* `unanswered`            how often a document was handed over without a terminal outcome;
* `Returns`               every attempt on the document returns and is committed;
* `Retried`               two errors for each such attempt, and what a tick has selected;
* `unanswered_bounded`    at most `MAX_ATTEMPTS` of them, and none of the document after that.
-/

namespace GeoRisk
open Kit

/-- the attempts on the document that left no terminal outcome -/
def unanswered (documentId : Nat) (log : List HandOver) : Nat :=
  log.countP fun h => decide (h.documentId = documentId) && !h.answered

/-- an attempt on the document returns and is committed, and a tick does not lose its rows -/
def Returns (U : Unicode) (documentId : Nat) (w : Worker) : QueueAct → Prop
  | .round env => ∀ x ∈ w.handed env, x.2.id = documentId → Kept U w env x
  | a => Durable w a

instance (U : Unicode) (documentId : Nat) (w : Worker) (a : QueueAct) :
    Decidable (Returns U documentId w a) :=
  match a with
  | .round env =>
    inferInstanceAs (Decidable (∀ x ∈ w.handed env, x.2.id = documentId → Kept U w env x))
  | .record act => inferInstanceAs (Decidable (Durable w (.record act)))
  | .start settings => inferInstanceAs (Decidable (Durable w (.start settings)))
  | .finish t c => inferInstanceAs (Decidable (Durable w (.finish t c)))
  | .crash => inferInstanceAs (Decidable (Durable w .crash))

/-! ## document keys -/

/-- document keys are distinct and were drawn from the counter -/
def DocumentKeys (s : Store) : Prop := Numbered RawDocument.id s.documents s.nextId

section
variable {U : Unicode} {s t : Store}

theorem DocumentKeys.empty : DocumentKeys .empty := Numbered.nil

theorem DocumentKeys.of_documents (h : DocumentKeys s) (hd : t.documents = s.documents)
    (hn : s.nextId ≤ t.nextId) : DocumentKeys t := h.of_map (by rw [hd]) hn

theorem DocumentKeys.addDocument (h : DocumentKeys s) (row : RawDocument) :
    DocumentKeys (s.addDocument row) := h.append (le_refl _) (Nat.lt_succ_self _)

theorem DocumentKeys.fire {act : Act} (h : DocumentKeys s) (hf : fire U s act = some t) :
    DocumentKeys t := by
  cases act with
  | source row => cases hf; exact h.of_documents rfl (Nat.le_succ _)
  | document row => cases hf; exact h.addDocument row
  | process i env =>
    obtain ⟨document, o, _, _, hun⟩ := fire_process hf
    exact h.of_documents hun.documents hun.nextId
  | decide i input =>
    obtain ⟨e, _, rfl | ⟨verb, changes, _, rfl⟩⟩ := fire_decide hf
    · exact h
    · exact h.of_documents rfl (Nat.le_succ _)

end

/-! ## the count -/

/-- two errors stand for each attempt without an answer, and what is listed is still pending -/
structure Retried (documentId : Nat) (w : Worker) : Prop where
  saved : Saved w
  committed : DocumentKeys w.session.committed
  current : DocumentKeys w.session.current
  counted : 2 * unanswered documentId w.log ≤ errorRows w.session.current.extractions documentId
  bounded : unanswered documentId w.log ≤ maxAttempts
  answered : (∃ h ∈ w.log, h.documentId = documentId ∧ h.answered = true) →
    terminal w.session.current.extractions documentId = true
  listed : ∀ r ∈ w.running, r.ids.Nodup ∧ (documentId ∈ r.ids →
    errorRows w.session.current.extractions documentId < maxErrorRows)

section
variable {U : Unicode} {w w' : Worker} {d : Nat}

theorem retried_idle {s : Store} {now : DateTime} (hkeys : DocumentKeys s) :
    Retried d (.idle s now) := by
  refine ⟨?_, hkeys, hkeys, Nat.zero_le _, Nat.zero_le _, ?_, ?_⟩
  · intro _
    rfl
  · rintro ⟨x, hx, _⟩
    cases hx
  · intro r hr
    cases hr

theorem unanswered_snoc (log : List HandOver) (x : HandOver) :
    unanswered d (log ++ [x]) =
      unanswered d log + if x.documentId = d ∧ x.answered = false then 1 else 0 := by
  unfold unanswered
  rw [List.countP_append, List.countP_singleton]
  simp

theorem unanswered_other {log : List HandOver} {x : HandOver} (h : x.documentId ≠ d) :
    unanswered d (log ++ [x]) = unanswered d log := by
  rw [unanswered_snoc, if_neg fun hx => h hx.1, Nat.add_zero]

theorem answered_other {log : List HandOver} {x : HandOver} (h : x.documentId ≠ d)
    (hx : ∃ y ∈ log ++ [x], y.documentId = d ∧ y.answered = true) :
    ∃ y ∈ log, y.documentId = d ∧ y.answered = true := by
  obtain ⟨y, hy, hd, ha⟩ := hx
  rcases List.mem_append.mp hy with hy | hy
  · exact ⟨y, hy, hd, ha⟩
  · rw [List.mem_singleton.mp hy] at hd
    exact absurd hd h

/-- **An attempt that returns adds two errors or an answer.** -/
theorem counted_kept {now : DateTime} {i : Nat} {calls : List ExtractionCall}
    {before rows : List Extraction} {log : List HandOver}
    (hspec : Rows now i calls rows) (h : 2 * unanswered d log ≤ errorRows before d) :
    2 * unanswered d (log ++ [⟨i, terminal (before ++ rows) i⟩]) ≤
      errorRows (before ++ rows) d := by
  rw [errorRows_append]
  by_cases hi : i = d
  · subst hi
    rw [unanswered_snoc]
    rcases hspec.own with ht | h2
    · rw [terminal_append, ht, Bool.or_true, if_neg (by simp)]
      omega
    · split <;> omega
  · rw [unanswered_other hi]
    omega

theorem answered_kept {i : Nat} {before rows : List Extraction} {log : List HandOver}
    (h : (∃ x ∈ log, x.documentId = d ∧ x.answered = true) → terminal before d = true)
    (ha : ∃ x ∈ log ++ [⟨i, terminal (before ++ rows) i⟩],
      HandOver.documentId x = d ∧ x.answered = true) : terminal (before ++ rows) d = true := by
  obtain ⟨x, hx, rfl, hxa⟩ := ha
  rcases List.mem_append.mp hx with hx | hx
  · rw [terminal_append, h ⟨x, hx, rfl, hxa⟩, Bool.true_or]
  · rw [List.mem_singleton.mp hx] at hxa ⊢
    exact hxa

theorem bounded_snoc {log : List HandOver} {x : HandOver} {rows : List Extraction}
    (h : 2 * unanswered d log ≤ errorRows rows d) (hb : unanswered d log ≤ maxAttempts)
    (hlt : x.documentId = d → errorRows rows d < maxErrorRows) :
    unanswered d (log ++ [x]) ≤ maxAttempts := by
  by_cases hx : x.documentId = d
  · have hlt := hlt hx
    rw [unanswered_snoc]
    unfold maxErrorRows maxAttempts at *
    split <;> omega
  · rw [unanswered_other hx]
    exact hb

theorem listed_rest {settings : Settings} {id : Nat} {rest : List Nat} {tick tick' : ProcessingTick}
    {rows : List Extraction} (h : Retried d w)
    (hr : w.running = some ⟨settings, id :: rest, tick⟩)
    (hrows : d ∈ rest → errorRows rows d = errorRows w.session.current.extractions d) :
    ∀ r ∈ some (Running.mk settings rest tick'), r.ids.Nodup ∧
      (d ∈ r.ids → errorRows rows d < maxErrorRows) := by
  obtain ⟨hnd, hlist⟩ := h.listed _ hr
  intro r hm
  cases hm
  refine ⟨(List.nodup_cons.mp hnd).2, fun hd => ?_⟩
  rw [hrows hd]
  exact hlist (List.mem_cons_of_mem _ hd)

theorem retried_round {env : Round} (h : Retried d w) (hret : Returns U d w (.round env))
    (he : RoundEffect U w env w') : Retried d w' := by
  have hsaved := saved_round h.saved he
  cases he with
  | passed r ids tick hr hids =>
    obtain ⟨hnd, hlist⟩ := h.listed r hr
    refine ⟨hsaved, h.committed, h.current, h.counted, h.bounded, h.answered, ?_⟩
    intro r' hr'
    cases hr'
    exact ⟨hnd.sublist hids, fun hd => hlist (hids.subset hd)⟩
  | raised settings document rest tick tick' hx hr hk =>
    have hne : document.id ≠ d := fun hd => hk (hret _ hx hd)
    refine ⟨hsaved, h.committed, h.current, ?_, ?_, fun ha => h.answered (answered_other hne ha),
      listed_rest h hr fun _ => rfl⟩
    · simp only
      rw [unanswered_other hne]
      exact h.counted
    · simp only
      rw [unanswered_other hne]
      exact h.bounded
  | uncommitted settings document rest tick hx hr hk heach =>
    have hne : document.id ≠ d := fun hd => hk (hret _ hx hd)
    have hcur : w.session.rollback.current = w.session.current :=
      (h.saved.of_running hr heach).symm
    refine ⟨hsaved, h.committed, h.committed, ?_, ?_, fun ha => ?_, fun r hr => by cases hr⟩
    · simp only
      rw [unanswered_other hne, hcur]
      exact h.counted
    · simp only
      rw [unanswered_other hne]
      exact h.bounded
    · simp only
      rw [hcur]
      exact h.answered (answered_other hne ha)
  | kept settings document rest tick tick' after res session hx hr hk hok hcur hcom =>
    obtain ⟨⟨rows, hrows, hspec⟩, hun⟩ := rows_of_ok hok
    have hkeys : DocumentKeys after := h.current.of_documents hun.documents hun.nextId
    obtain ⟨hnd, hlist⟩ := h.listed _ hr
    refine ⟨hsaved, ?_, ?_, ?_, ?_, ?_, listed_rest h hr fun hd => ?_⟩
    · simp only
      rw [hcom]
      split
      · exact hkeys
      · exact h.committed
    · simp only
      rw [hcur]
      exact hkeys
    · simp only
      rw [hcur, hrows]
      exact counted_kept hspec h.counted
    · exact bounded_snoc h.counted h.bounded fun hd =>
        hlist (List.mem_cons.mpr (Or.inl hd.symm))
    · simp only
      rw [hcur, hrows]
      exact answered_kept h.answered
    · -- the rest of the list does not name the document again
      have hne : document.id ≠ d := fun he => (List.nodup_cons.mp hnd).1 (he ▸ hd)
      rw [hcur, hrows, errorRows_append, (hspec.other hne).2, Nat.add_zero]

/-- **A step whose attempt on the document returns keeps the count.** -/
theorem retried_step {a : QueueAct} (h : Retried d w) (hret : Returns U d w a)
    (ha : queueFire U w a = some w') : Retried d w' := by
  have hsaved := saved_step h.saved ha
  cases queueFire_cases ha with
  | recorded act s hr hs =>
    have hrows : s.extractions = w.session.current.extractions := by
      rw [elsewhere_extractions hs, h.saved (by simp [hr])]
    have hkeys := h.committed.fire (fire_of_elsewhere hs)
    refine ⟨hsaved, hkeys, hkeys, ?_, h.bounded, fun ha => ?_, fun r hm => ?_⟩
    · show _ ≤ errorRows s.extractions d
      rw [hrows]
      exact h.counted
    · show terminal s.extractions d = true
      rw [hrows]
      exact h.answered ha
    · simp only at hm
      rw [hr] at hm
      cases hm
  | began settings ids tick hr hids =>
    refine ⟨hsaved, h.committed, h.current, h.counted, h.bounded, h.answered, fun r hm => ?_⟩
    cases hm
    rcases hids with rfl | rfl
    · exact ⟨List.nodup_nil, fun hd => by cases hd⟩
    · exact ⟨nodup_pendingDocumentIds h.current.nodup _,
        fun hd => (mem_pendingDocumentIds hd).2⟩
  | round env w' he => exact retried_round h hret he
  | ended a session ticks hs =>
    have hd : Durable w a := by
      cases a <;> first | exact hret | trivial
    have hcur := current_of_ended h.saved hd hs
    have hkeys : DocumentKeys session.committed := by
      rcases hs with rfl | ⟨rfl, _⟩
      · exact h.current
      · exact h.committed
    refine ⟨hsaved, hkeys, hcur ▸ h.current, ?_, h.bounded, ?_, fun r hr => by cases hr⟩
    · simp only
      rw [hcur]
      exact h.counted
    · simp only
      rw [hcur]
      exact h.answered

/-- **In every run in which the attempts on a document return, at most `MAX_ATTEMPTS` of them leave
no answer; after these, and after an answer, the document is not selected again.** -/
theorem unanswered_bounded (U : Unicode) (d : Nat) {s : Store} {now : DateTime}
    {as : List QueueAct} {w : Worker} (hkeys : DocumentKeys s)
    (hrun : exec (queueFire U) (.idle s now) as = some w)
    (hret : Along (queueFire U) (Returns U d) (.idle s now) as) :
    unanswered d w.log ≤ maxAttempts ∧
      (unanswered d w.log = maxAttempts ∨ (∃ h ∈ w.log, h.documentId = d ∧ h.answered = true) →
        ∀ limit, d ∉ pendingDocumentIds w.session.current limit) := by
  have h : Retried d w := by
    refine exec_invariant_along (queueFire U) ?_ hrun hret (retried_idle hkeys)
    intro w a w' h hg ha
    exact retried_step h hg ha
  refine ⟨h.bounded, ?_⟩
  intro hstop limit hsel
  obtain ⟨hterm, herr⟩ := mem_pendingDocumentIds hsel
  rcases hstop with hfull | hans
  · have hcount := h.counted
    rw [hfull] at hcount
    unfold maxErrorRows at herr
    omega
  · rw [h.answered hans] at hterm
    cases hterm

end

/-! ## two runs -/

namespace Sample

/-- the provider raises -/
def exploding : CallEnv := { env .moderate with
  provider := fun _ => .error (txt "the provider exploded") }

/-- both passes return an error -/
def unavailable : CallEnv := { env .moderate with
  provider := fun _ =>
    .ok { call .moderate with result := none, error := some (txt "overloaded"), costUsd := 0 } }

def threeTicks (call : CallEnv) : List QueueAct :=
  arrivals ++ tick call ++ tick call ++ tick call

end Sample

/-- a document whose attempts raise is handed over a fourth time -/
theorem exploding_not_bounded :
    ¬ ∀ (U : Unicode) (d : Nat) (s : Store) (now : DateTime) (as : List QueueAct) (w : Worker),
      DocumentKeys s → exec (queueFire U) (.idle s now) as = some w →
      unanswered d w.log ≤ maxAttempts := by
  intro h
  have hrun : (exec (queueFire Unicode.latin) (.idle Store.empty ⟨0⟩)
      (Sample.threeTicks Sample.exploding ++ Sample.tick Sample.exploding)).map
        (fun w => unanswered 1 w.log) = some 4 := by decide +kernel
  obtain ⟨w, hw, hcount⟩ := Option.map_eq_some_iff.mp hrun
  have := h _ 1 _ _ _ w .empty hw
  rw [hcount] at this
  exact absurd this (by decide)

theorem unanswered_bounded_unavailable :
    ∃ w, exec (queueFire Unicode.latin) (.idle Store.empty ⟨0⟩)
        (Sample.threeTicks Sample.unavailable) = some w ∧
      unanswered 1 w.log = maxAttempts ∧ ∀ limit, 1 ∉ pendingDocumentIds w.session.current limit := by
  have hrun : (exec (queueFire Unicode.latin) (.idle Store.empty ⟨0⟩)
      (Sample.threeTicks Sample.unavailable)).map (fun w => unanswered 1 w.log) =
        some maxAttempts := by decide +kernel
  obtain ⟨w, hw, hcount⟩ := Option.map_eq_some_iff.mp hrun
  have h := unanswered_bounded Unicode.latin 1 .empty hw
    (by decide +kernel)
  exact ⟨w, hw, hcount, h.2 (Or.inl hcount)⟩

end GeoRisk
