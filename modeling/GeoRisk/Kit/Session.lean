import Mathlib.Data.List.Basic

/-!
# Transactions of a session

A session works on an uncommitted copy of the committed state.  `write` changes the copy, `commit`
makes it the committed state, `rollback` returns to the last commit.  A savepoint needs no
operation of its own: leaving it by an exception is not writing.

Two sessions that work on one row are put together column by column.  A session that read `seen`
and left `wrote` sends only what it changed, to a row that may have become another one since:

* `column seen wrote current`      a column, untouched where `wrote = seen`;
* `inserted seen wrote current`    child rows, with the new ones behind the current ones.
-/

namespace Kit

structure Session (σ : Type) where
  committed : σ
  current : σ
  deriving Repr

namespace Session
variable {σ : Type}

def start (s : σ) : Session σ := ⟨s, s⟩
def write (t : Session σ) (s : σ) : Session σ := { t with current := s }
def commit (t : Session σ) : Session σ := ⟨t.current, t.current⟩
def rollback (t : Session σ) : Session σ := ⟨t.committed, t.committed⟩

@[simp] theorem write_current (t : Session σ) (s : σ) : (t.write s).current = s := rfl

end Session

/-! ## writing what changed -/

section
variable {α : Type*}

def column [DecidableEq α] (seen wrote current : α) : α := if wrote = seen then current else wrote

def inserted (seen wrote current : List α) : List α := current ++ wrote.drop seen.length

@[simp] theorem column_unchanged [DecidableEq α] (seen current : α) :
    column seen seen current = current := if_pos rfl

theorem column_changed [DecidableEq α] {seen wrote : α} (h : wrote ≠ seen) (current : α) :
    column seen wrote current = wrote := if_neg h

theorem column_cases [DecidableEq α] (seen wrote current : α) :
    (wrote = seen ∧ column seen wrote current = current) ∨
      (wrote ≠ seen ∧ column seen wrote current = wrote) := by
  by_cases h : wrote = seen
  · exact Or.inl ⟨h, if_pos h⟩
  · exact Or.inr ⟨h, if_neg h⟩

@[simp] theorem column_current [DecidableEq α] (seen wrote : α) : column seen wrote seen = wrote := by
  unfold column
  split
  · next h => exact h.symm
  · rfl

@[simp] theorem inserted_unchanged (seen current : List α) : inserted seen seen current = current := by
  rw [inserted, List.drop_length, List.append_nil]

theorem inserted_current {seen wrote : List α} (h : seen <+: wrote) :
    inserted seen wrote seen = wrote := by
  obtain ⟨more, rfl⟩ := h
  rw [inserted, List.drop_left]

end

end Kit
