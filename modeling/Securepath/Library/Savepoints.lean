import Mathlib.Data.List.Basic

/-!
# A session with named savepoints

A session sees the content of a database as its own writes have left it. A savepoint remembers
the content under a name; the stack of them is a transaction, which is open as long as the stack
is not empty. `release` forgets the innermost savepoint of a name and those above it, and commits
with the last one; `rollbackTo` takes the content back to the innermost savepoint of a name, which
stays.
-/

namespace Savepoints

/-- What the session sees, what is committed, and the savepoints, the innermost one first. -/
structure Session (ν σ : Type) where
  content : σ
  committed : σ
  savepoints : List (ν × σ)

namespace Session

variable {ν σ : Type} [DecidableEq ν]

/-- Everything is committed. -/
def fresh (c : σ) : Session ν σ := ⟨c, c, []⟩

/-- A write; without a transaction it is committed at once. -/
def write (f : σ → σ) (s : Session ν σ) : Session ν σ :=
  { s with
    content := f s.content
    committed := if s.savepoints.isEmpty then f s.content else s.committed }

def savepoint (name : ν) (s : Session ν σ) : Session ν σ :=
  { s with savepoints := (name, s.content) :: s.savepoints }

/-- The innermost savepoint of a name and what is below it. -/
def innermost (name : ν) (s : Session ν σ) : List (ν × σ) :=
  s.savepoints.dropWhile fun p => p.1 ≠ name

def release (name : ν) (s : Session ν σ) : Option (Session ν σ) :=
  match s.innermost name with
  | [] => none
  | _ :: below =>
      some { s with
        committed := if below.isEmpty then s.content else s.committed
        savepoints := below }

def rollbackTo (name : ν) (s : Session ν σ) : Option (Session ν σ) :=
  match s.innermost name with
  | [] => none
  | (_, content) :: below => some { s with content := content, savepoints := (name, content) :: below }

/-! ## The innermost savepoint has the name -/

theorem innermost_cons {name : ν} {s : Session ν σ} {content : σ} {below : List (ν × σ)}
    (h : s.savepoints = (name, content) :: below) :
    s.innermost name = (name, content) :: below := by
  unfold innermost
  rw [h]
  exact List.dropWhile_cons_of_neg (by simp)

theorem release_cons {name : ν} {s : Session ν σ} {content : σ} {below : List (ν × σ)}
    (h : s.savepoints = (name, content) :: below) :
    s.release name = some { s with
      committed := if below.isEmpty then s.content else s.committed
      savepoints := below } := by
  unfold release
  rw [innermost_cons h]

theorem rollbackTo_cons {name : ν} {s : Session ν σ} {content : σ} {below : List (ν × σ)}
    (h : s.savepoints = (name, content) :: below) :
    s.rollbackTo name = some { s with content := content } := by
  unfold rollbackTo
  rw [innermost_cons h]
  simp only [← h]

omit [DecidableEq ν] in
/-- Without a transaction a write is committed at once. -/
theorem committed_write {s : Session ν σ} (h : s.savepoints = []) (f : σ → σ) :
    (s.write f).committed = f s.content := by
  unfold write
  rw [h]
  rfl

end Session

end Savepoints
