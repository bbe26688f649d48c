import Mathlib.Data.Fintype.Basic
import GeoRisk.Queue.Retries

/-!
# Several workers over one store

Each worker computes the list of its tick once, then locks one document after the other and commits
after each.  The lists of two workers may name the same document; the lock keeps them apart only
while it is held, and taking it does not ask again whether the document is still pending.

* `Fleet`, `FleetAct`, `fleetFire`    the committed store, the ticks under way and the locks, at any
                                      interleaving of their steps;
* `Unshared`                          an answer is committed for a document no other list names;
* `Orderly`                           what is listed is unanswered;
* `handed_unanswered`                 no answered document is handed over in a run whose answers
                                      are committed unshared.
-/

namespace GeoRisk
open Kit

/-- a locked document, with the rows of its attempt once that has returned -/
structure Holding where
  documentId : Nat
  rows : Option (List Extraction) := none

def Holding.answered (h : Holding) : Bool := h.rows.any fun rows => terminal rows h.documentId

/-- a tick under way: the rest of its list, and the document in hand -/
structure Shift where
  settings : Settings
  ids : List Nat
  holding : Option Holding := none

structure Fleet (ι : Type) where
  store : Store
  shifts : ι → Option Shift
  locks : List Nat := []
  /-- the documents handed over, and whether an answer for them was committed before -/
  log : List (Nat × Bool) := []

inductive FleetAct (ι : Type)
  /-- another call writes records -/
  | record (a : Act)
  | start (worker : ι) (settings : Settings)
  /-- the budget check and the lock of the next document -/
  | take (worker : ι) (checkedAt : DateTime) (raises : Bool)
  /-- the attempt returns or raises; `view` is what its session sees -/
  | attempt (worker : ι) (view : Store) (call : CallEnv)
  /-- the attempt is committed; `tables` has what it wrote besides its rows -/
  | commit (worker : ι) (tables : Store)
  /-- the end of the tick, or an exception that leaves it -/
  | stop (worker : ι)

section
variable {ι : Type} [DecidableEq ι]

namespace Fleet

def set (s : Fleet ι) (i : ι) (shift : Option Shift) : Fleet ι :=
  { s with shifts := Function.update s.shifts i shift }

/-- the store before the first tick -/
def idle (store : Store) : Fleet ι := { store := store, shifts := fun _ => none }

end Fleet

def fleetFire (U : Unicode) (s : Fleet ι) : FleetAct ι → Option (Fleet ι)
  | .record a => (elsewhere U s.store a).map fun store => { s with store := store }
  | .start i settings =>
    match s.shifts i with
    | some _ => none
    | none =>
      let ids :=
        if settings.limit ≤ 0 ∨ settings.dailyBudgetUsd ≤ 0 then []
        else pendingDocumentIds s.store settings.limit
      some (s.set i (some ⟨settings, ids, none⟩))
  | .take i checkedAt raises =>
    match s.shifts i with
    | some ⟨settings, id :: rest, none⟩ =>
      let lock := if raises then Lock.raises else if id ∈ s.locks then .held else .taken
      match admission settings s.store id checkedAt lock with
      | .budgetReached => some (s.set i (some ⟨settings, [], none⟩))
      | .skipped | .failed => some (s.set i (some ⟨settings, rest, none⟩))
      | .admitted document =>
        some { s.set i (some ⟨settings, rest, some ⟨document.id, none⟩⟩) with
          locks := document.id :: s.locks
          log := s.log ++ [(document.id, terminal s.store.extractions document.id)] }
    | _ => none
  | .attempt i view call =>
    match s.shifts i with
    | some ⟨settings, ids, some ⟨id, none⟩⟩ =>
      if view.documents = s.store.documents then
        (view.document? id).map fun document =>
          match (GeoRisk.attempt U view call document).result with
          | .error _ =>
            -- the savepoint is rolled back, and its lock with it
            { s.set i (some ⟨settings, ids, none⟩) with locks := s.locks.erase id }
          | .ok (after, _) =>
            s.set i (some ⟨settings, ids,
              some ⟨id, some (after.extractions.drop view.extractions.length)⟩⟩)
      else none
    | _ => none
  | .commit i tables =>
    match s.shifts i with
    | some ⟨settings, ids, some ⟨id, some rows⟩⟩ =>
      some { s.set i (some ⟨settings, ids, none⟩) with
        store := { tables with
          nextId := s.store.nextId
          documents := s.store.documents
          extractions := s.store.extractions ++ rows }
        locks := s.locks.erase id }
    | _ => none
  | .stop i =>
    match s.shifts i with
    | some ⟨_, _, some h⟩ => some { s.set i none with locks := s.locks.erase h.documentId }
    | some ⟨_, _, none⟩ => some (s.set i none)
    | none => none

/-- no other tick has the document on its list -/
def Unlisted (s : Fleet ι) (i : ι) (id : Nat) : Prop :=
  ∀ j, j ≠ i → ∀ u ∈ s.shifts j, id ∉ u.ids

/-- an answer is committed for a document that no other list names -/
def Unshared (s : Fleet ι) : FleetAct ι → Prop
  | .commit i _ => ∀ t ∈ s.shifts i, ∀ h ∈ t.holding, h.answered = true →
    Unlisted s i h.documentId
  | _ => True

instance [Fintype ι] (s : Fleet ι) (i : ι) (id : Nat) : Decidable (Unlisted s i id) :=
  inferInstanceAs (Decidable (∀ j, j ≠ i → ∀ u ∈ s.shifts j, id ∉ u.ids))

instance [Fintype ι] (s : Fleet ι) (a : FleetAct ι) : Decidable (Unshared s a) :=
  match a with
  | .commit i _ => inferInstanceAs (Decidable (∀ t ∈ s.shifts i, ∀ h ∈ t.holding,
    h.answered = true → Unlisted s i h.documentId))
  | .record _ | .start _ _ | .take _ _ _ | .attempt _ _ _ | .stop _ => .isTrue trivial

/-- the list of a tick names unanswered documents, each once, and not the one in hand -/
structure ShiftOk (store : Store) (t : Shift) : Prop where
  nodup : t.ids.Nodup
  unanswered : ∀ id ∈ t.ids, terminal store.extractions id = false
  holding : ∀ h ∈ t.holding, h.documentId ∉ t.ids ∧
    ∀ rows ∈ h.rows, ∀ x ∈ rows, x.documentId = h.documentId

structure Orderly (s : Fleet ι) : Prop where
  keys : DocumentKeys s.store
  shifts : ∀ i, ∀ t ∈ s.shifts i, ShiftOk s.store t
  log : ∀ x ∈ s.log, x.2 = false

variable {U : Unicode} {s s' : Fleet ι}

omit [DecidableEq ι] in
theorem orderly_idle {store : Store} (hkeys : DocumentKeys store) :
    Orderly (.idle store : Fleet ι) := by
  refine ⟨hkeys, ?_, ?_⟩
  · intro i t ht
    cases ht
  · intro x hx
    cases hx

theorem forall_update {P : Shift → Prop} {f : ι → Option Shift} {i : ι} {o : Option Shift}
    (hf : ∀ j, j ≠ i → ∀ t ∈ f j, P t) (ho : ∀ t ∈ o, P t) :
    ∀ j, ∀ t ∈ Function.update f i o j, P t := by
  intro j t ht
  by_cases hj : j = i
  · subst hj
    rw [Function.update_self] at ht
    exact ho t ht
  · rw [Function.update_of_ne hj] at ht
    exact hf j hj t ht

theorem Orderly.set {i : ι} {o : Option Shift} (h : Orderly s) (ho : ∀ t ∈ o, ShiftOk s.store t) :
    ∀ j, ∀ t ∈ (s.set i o).shifts j, ShiftOk s.store t :=
  forall_update (fun j _ => h.shifts j) ho

theorem Orderly.set_some {i : ι} {shift : Shift} (h : Orderly s) (ho : ShiftOk s.store shift) :
    ∀ j, ∀ t ∈ (s.set i (some shift)).shifts j, ShiftOk s.store t := by
  apply h.set
  intro t ht
  cases ht
  exact ho

theorem ShiftOk.stopped (store : Store) (settings : Settings) :
    ShiftOk store ⟨settings, [], none⟩ := by
  refine ⟨List.nodup_nil, ?_, ?_⟩
  · intro id hid
    cases hid
  · intro g hg
    cases hg

/-- the document in hand is dropped -/
theorem ShiftOk.released {store : Store} {settings : Settings} {ids : List Nat}
    {holding : Option Holding} (h : ShiftOk store ⟨settings, ids, holding⟩) :
    ShiftOk store ⟨settings, ids, none⟩ := by
  refine ⟨h.nodup, h.unanswered, ?_⟩
  intro g hg
  cases hg

theorem ShiftOk.rest {store : Store} {settings : Settings} {id : Nat} {rest : List Nat}
    (h : ShiftOk store ⟨settings, id :: rest, none⟩) :
    ShiftOk store ⟨settings, rest, none⟩ ∧ ShiftOk store ⟨settings, rest, some ⟨id, none⟩⟩ := by
  obtain ⟨hnot, hnd⟩ := List.nodup_cons.mp h.nodup
  have hun : ∀ x ∈ rest, terminal store.extractions x = false := by
    intro x hx
    exact h.unanswered x (List.mem_cons_of_mem _ hx)
  have hheld : ShiftOk store ⟨settings, rest, some ⟨id, none⟩⟩ := by
    refine ⟨hnd, hun, ?_⟩
    intro g hg
    cases hg
    refine ⟨hnot, ?_⟩
    intro rows hrows
    cases hrows
  exact ⟨hheld.released, hheld⟩

theorem orderly_take {i : ι} {checkedAt : DateTime} {raises : Bool} (h : Orderly s)
    (ha : fleetFire U s (.take i checkedAt raises) = some s') : Orderly s' := by
  simp only [fleetFire] at ha
  split at ha
  · next settings id rest hi =>
    have hok := h.shifts i _ hi
    obtain ⟨hrest, hheld⟩ := hok.rest
    split at ha
    · cases ha
      exact ⟨h.keys, h.set_some (.stopped _ _), h.log⟩
    · cases ha
      exact ⟨h.keys, h.set_some hrest, h.log⟩
    · cases ha
      exact ⟨h.keys, h.set_some hrest, h.log⟩
    · next document hadm =>
      cases ha
      have hid : document.id = id := (admitted_spec hadm).1
      rw [hid]
      refine ⟨h.keys, h.set_some hheld, ?_⟩
      intro x hx
      rcases List.mem_append.mp hx with hx | hx
      · exact h.log x hx
      · rw [List.mem_singleton.mp hx]
        exact hok.unanswered id (List.mem_cons_self ..)
  · cases ha

theorem orderly_attempt {i : ι} {view : Store} {call : CallEnv} (h : Orderly s)
    (ha : fleetFire U s (.attempt i view call) = some s') : Orderly s' := by
  simp only [fleetFire] at ha
  split at ha
  · next settings ids id hi =>
    have hok := h.shifts i _ hi
    split at ha
    · obtain ⟨document, hd, rfl⟩ := Option.map_eq_some_iff.mp ha
      split
      · exact ⟨h.keys, h.set_some hok.released, h.log⟩
      · next after res hres =>
        obtain ⟨⟨rows, hrows, hspec⟩, _⟩ := rows_of_ok hres
        have hid : document.id = id := lookup_key hd
        refine ⟨h.keys, h.set_some ⟨hok.nodup, hok.unanswered, ?_⟩, h.log⟩
        intro g hg
        cases hg
        refine ⟨(hok.holding _ rfl).1, ?_⟩
        intro rows' hm x hx
        cases hm
        rw [hrows, List.drop_left] at hx
        exact (hspec.documentId x hx).trans hid
    · cases ha
  · cases ha

/-- a list stays unanswered unless it names the document of the rows and these have an answer -/
theorem unanswered_append {before rows : List Extraction} {id : Nat} {list : List Nat}
    (hrows : ∀ x ∈ rows, x.documentId = id) (hlist : ∀ x ∈ list, terminal before x = false)
    (hmem : terminal rows id = true → id ∉ list) :
    ∀ x ∈ list, terminal (before ++ rows) x = false := by
  intro x hx
  rw [terminal_append, hlist x hx, Bool.false_or]
  by_cases hxi : id = x
  · subst hxi
    rw [Bool.eq_false_iff]
    intro ht
    exact hmem ht hx
  · exact terminal_of_ne hrows hxi

theorem orderly_commit {i : ι} {tables : Store} (h : Orderly s) (hu : Unshared s (.commit i tables))
    (ha : fleetFire U s (.commit i tables) = some s') : Orderly s' := by
  simp only [fleetFire] at ha
  split at ha
  · next settings ids id rows hi =>
    cases ha
    have hok := h.shifts i _ hi
    obtain ⟨hnot, hrows⟩ := hok.holding _ rfl
    have hmine : ∀ x ∈ rows, x.documentId = id := hrows _ rfl
    refine ⟨h.keys.of_documents rfl (le_refl _), forall_update ?_ ?_, h.log⟩
    · intro j hj u huj
      have hother := h.shifts j u huj
      refine ⟨hother.nodup, unanswered_append hmine hother.unanswered ?_, hother.holding⟩
      intro ht
      exact hu _ hi _ rfl ht j hj u huj
    · intro t ht
      cases ht
      refine ⟨hok.nodup, unanswered_append hmine hok.unanswered fun _ => hnot, ?_⟩
      intro g hg
      cases hg
  · cases ha

/-- **A step that commits no answer for a document another list names keeps the fleet orderly.** -/
theorem orderly_step {a : FleetAct ι} (h : Orderly s) (hu : Unshared s a)
    (ha : fleetFire U s a = some s') : Orderly s' := by
  cases a with
  | record act =>
    obtain ⟨store, hs, rfl⟩ := Option.map_eq_some_iff.mp ha
    refine ⟨h.keys.fire (fire_of_elsewhere hs), fun i t ht => ?_, h.log⟩
    obtain ⟨hnd, hun, hhold⟩ := h.shifts i t ht
    refine ⟨hnd, fun x hx => ?_, hhold⟩
    rw [elsewhere_extractions hs]
    exact hun x hx
  | start i settings =>
    simp only [fleetFire] at ha
    split at ha
    · cases ha
    · cases ha
      refine ⟨h.keys, h.set_some ⟨?_, ?_, ?_⟩, h.log⟩
      · simp only
        split
        · exact List.nodup_nil
        · exact nodup_pendingDocumentIds h.keys.nodup _
      · intro x hx
        simp only at hx
        split at hx
        · cases hx
        · exact (mem_pendingDocumentIds hx).1
      · intro g hg
        cases hg
  | take i checkedAt raises => exact orderly_take h ha
  | attempt i view call => exact orderly_attempt h ha
  | commit i tables => exact orderly_commit h hu ha
  | stop i =>
    simp only [fleetFire] at ha
    split at ha
    · cases ha
      exact ⟨h.keys, h.set fun _ ht => (by cases ht), h.log⟩
    · cases ha
      exact ⟨h.keys, h.set fun _ ht => (by cases ht), h.log⟩
    · cases ha

/-- **In every run of any number of workers whose answers are committed for documents that no other
list names, no answered document is handed over.** -/
theorem handed_unanswered (U : Unicode) {store : Store} {as : List (FleetAct ι)}
    (hkeys : DocumentKeys store) (hrun : exec (fleetFire U) (.idle store) as = some s)
    (hu : Along (fleetFire U) Unshared (.idle store) as) :
    ∀ x ∈ s.log, x.2 = false := by
  have h : Orderly s := by
    refine exec_invariant_along (fleetFire U) ?_ hrun hu (orderly_idle hkeys)
    intro s a s' h hg ha
    exact orderly_step h hg ha
  exact h.log

end

/-! ## two runs of two workers -/

namespace Sample

def arrived : Store := (Store.empty.addSource source).addDocument (document text)

def extracted : List (FleetAct Bool) :=
  [.attempt true arrived (env .moderate), .commit true arrived]

/-- both workers list the notice, and the second comes to it after the commit -/
def relisted : List (FleetAct Bool) :=
  [.start true settings, .start false ⟨1, 1, true⟩, .take true ⟨0⟩ false] ++ extracted ++
    [.take false ⟨0⟩ false]

/-- the second worker comes to it while it is locked -/
def skipped : List (FleetAct Bool) :=
  [.start true settings, .start false ⟨1, 1, true⟩, .take true ⟨0⟩ false, .take false ⟨0⟩ false] ++
    extracted

theorem arrived_keys : DocumentKeys arrived := by
  have h : DocumentKeys (Store.empty.addSource source) :=
    DocumentKeys.empty.of_documents rfl (Nat.le_succ _)
  exact h.addDocument _

end Sample

/-- a document listed by both workers is handed over again after its answer is committed -/
theorem relisted_handed_twice :
    ¬ ∀ (U : Unicode) (store : Store) (as : List (FleetAct Bool)) (s : Fleet Bool),
      DocumentKeys store → exec (fleetFire U) (.idle store) as = some s →
      ∀ x ∈ s.log, x.2 = false := by
  intro h
  have hrun : (exec (fleetFire Unicode.latin) (.idle Sample.arrived) Sample.relisted).map
      (·.log) = some [(1, false), (1, true)] := by decide +kernel
  obtain ⟨s, hs, hlog⟩ := Option.map_eq_some_iff.mp hrun
  have := h _ _ _ s Sample.arrived_keys hs (1, true) (by rw [hlog]; decide)
  cases this

theorem handed_unanswered_skipped :
    ∃ s, exec (fleetFire Unicode.latin) (.idle Sample.arrived) Sample.skipped = some s ∧
      terminal s.store.extractions 1 = true ∧ s.log.length = 1 ∧ ∀ x ∈ s.log, x.2 = false := by
  have hrun : (exec (fleetFire Unicode.latin) (.idle Sample.arrived) Sample.skipped).map
      (fun s => (terminal s.store.extractions 1, s.log.length)) = some (true, 1) := by
    decide +kernel
  obtain ⟨s, hs, hobs⟩ := Option.map_eq_some_iff.mp hrun
  exact ⟨s, hs, congrArg Prod.fst hobs, congrArg Prod.snd hobs,
    handed_unanswered _ Sample.arrived_keys hs (by decide +kernel)⟩

end GeoRisk
