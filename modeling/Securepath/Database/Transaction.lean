import Securepath.Library.Savepoints

/-!
# Transactions

`transaction` (`database/connection.cpp`) begins a transaction of its connection and ends it in
the destructor, with a commit unless an exception is on its way. `sqlite_connection` makes each of
them a savepoint of one name.
-/

namespace Securepath.Database

open Savepoints

/-- The names of savepoints that the statements of `sqlite_connection` use. -/
inductive SavepointName where
  /-- "securepath_transaction" -/
  | securepathTransaction
deriving DecidableEq

variable {σ : Type}

/-- `sqlite_connection`, with a content that is read and written as a whole. -/
abbrev SqliteConnection (σ : Type) := Session SavepointName σ

namespace SqliteConnection

/-- `begin_transaction`. -/
def beginTransaction (c : SqliteConnection σ) : SqliteConnection σ :=
  c.savepoint .securepathTransaction

/-- `end_transaction`; nothing when the statement fails. -/
def endTransaction (c : SqliteConnection σ) (commit : Bool) : Option (SqliteConnection σ) :=
  if commit then c.release .securepathTransaction else c.rollbackTo .securepathTransaction

end SqliteConnection

/-- `transaction`: the number of exceptions on their way when it was constructed. -/
structure Transaction where
  exCount : Nat

namespace Transaction

/-- The constructor. -/
def construct (uncaught : Nat) (c : SqliteConnection σ) : Transaction × SqliteConnection σ :=
  (⟨uncaught⟩, c.beginTransaction)

/-- The destructor; what the statement throws is caught. -/
def destruct (t : Transaction) (uncaught : Nat) (c : SqliteConnection σ) : SqliteConnection σ :=
  (c.endTransaction (t.exCount = uncaught)).getD c

end Transaction

/-! ## Scopes -/

/-- What a thread does with a connection: a write, or a scope with a `transaction`, which is left
by an exception or not. -/
inductive Op (σ : Type) where
  | write (f : σ → σ)
  | scope (body : List (Op σ)) (throws : Bool)

mutual

/-- One operation, with some exceptions on their way already. -/
def Op.run (uncaught : Nat) (c : SqliteConnection σ) : Op σ → SqliteConnection σ
  | .write f => c.write f
  | .scope body throws =>
      let t := Transaction.construct uncaught c
      t.1.destruct (if throws then uncaught + 1 else uncaught) (runOps uncaught t.2 body)

def runOps (uncaught : Nat) (c : SqliteConnection σ) : List (Op σ) → SqliteConnection σ
  | [] => c
  | op :: ops => runOps uncaught (op.run uncaught c) ops

end

mutual

/-- The scopes that are left by an exception, at any depth. -/
def Op.aborted : Op σ → Nat
  | .write _ => 0
  | .scope body throws => abortedOps body + if throws then 1 else 0

def abortedOps : List (Op σ) → Nat
  | [] => 0
  | op :: ops => op.aborted + abortedOps ops

end

mutual

/-- What the writes make of a content that are in no scope that is left by an exception. -/
def Op.surviving (content : σ) : Op σ → σ
  | .write f => f content
  | .scope body throws => if throws then content else survivingOps content body

def survivingOps (content : σ) : List (Op σ) → σ
  | [] => content
  | op :: ops => survivingOps (op.surviving content) ops

end

/-- The scopes nest as they should: the content is that of the surviving writes, no savepoint is
left open, and the next write is committed at once. -/
structure NestsLikeScopes (uncaught : Nat) (content : σ) (ops : List (Op σ)) : Prop where
  visible : (runOps uncaught (.fresh content) ops).content = survivingOps content ops
  closed : (runOps uncaught (.fresh content) ops).savepoints = []
  immediate : ∀ f : σ → σ, ((runOps uncaught (.fresh content) ops).write f).committed =
    f (survivingOps content ops)

/-! ## The end of a scope -/

section Ends

variable {c : SqliteConnection σ} {start : σ}
  {below : List (SavepointName × σ)} {uncaught : Nat}

/-- A scope that is left normally pops the innermost savepoint. -/
theorem destruct_normally (uncaught : Nat) (h : c.savepoints = (.securepathTransaction, start) :: below) :
    (⟨uncaught⟩ : Transaction).destruct uncaught c = { c with
      committed := if below.isEmpty then c.content else c.committed
      savepoints := below } := by
  unfold Transaction.destruct SqliteConnection.endTransaction
  rw [if_pos (decide_eq_true rfl), Session.release_cons h]
  rfl

/-- A scope that is left by an exception undoes what came after the innermost savepoint, and
leaves it on the stack. -/
theorem destruct_by_exception (h : c.savepoints = (.securepathTransaction, start) :: below) :
    (⟨uncaught⟩ : Transaction).destruct (uncaught + 1) c = { c with content := start } := by
  have habort : ¬ decide (uncaught = uncaught + 1) = true :=
    fun h => Nat.succ_ne_self uncaught (of_decide_eq_true h).symm
  unfold Transaction.destruct SqliteConnection.endTransaction
  rw [if_neg habort, Session.rollbackTo_cons h]
  rfl

/-- The end of a scope, of whichever kind, behind an inner run. -/
theorem length_destruct (uncaught : Nat) (throws : Bool) (h : c.savepoints ≠ []) :
    ((⟨uncaught⟩ : Transaction).destruct (if throws then uncaught + 1 else uncaught)
      c).savepoints.length + 1 = c.savepoints.length + if throws then 1 else 0 := by
  obtain ⟨⟨⟨⟩, start⟩, below, hstack⟩ := List.exists_cons_of_ne_nil h
  cases throws with
  | true =>
      rw [if_pos rfl, if_pos rfl, destruct_by_exception hstack]
  | false =>
      rw [if_neg Bool.false_ne_true, if_neg Bool.false_ne_true, destruct_normally uncaught hstack, hstack]
      rfl

end Ends

/-! ## Runs -/

mutual

/-- Every scope that is left by an exception leaves a savepoint behind. -/
theorem Op.length_run (uncaught : Nat) (c : SqliteConnection σ) (op : Op σ) :
    (op.run uncaught c).savepoints.length = c.savepoints.length + op.aborted := by
  match op with
  | .write f => rfl
  | .scope body throws =>
      have hbody := length_runOps uncaught c.beginTransaction body
      have hbegin : c.beginTransaction.savepoints.length = c.savepoints.length + 1 := rfl
      have hopen : (runOps uncaught c.beginTransaction body).savepoints ≠ [] := by
        intro h
        rw [h, hbegin] at hbody
        simp only [List.length_nil] at hbody
        omega
      have hend := length_destruct uncaught throws hopen
      unfold Op.run Op.aborted
      simp only [Transaction.construct]
      omega

theorem length_runOps (uncaught : Nat) (c : SqliteConnection σ) (ops : List (Op σ)) :
    (runOps uncaught c ops).savepoints.length = c.savepoints.length + abortedOps ops := by
  match ops with
  | [] => rfl
  | op :: ops =>
      unfold runOps abortedOps
      rw [length_runOps uncaught (op.run uncaught c) ops, Op.length_run uncaught c op]
      omega

end

/-- What a run without an exception does to a connection. -/
structure CleanRun (c d : SqliteConnection σ) (content : σ) : Prop where
  content : d.content = content
  savepoints : d.savepoints = c.savepoints
  committed : c.savepoints = [] → c.committed = c.content → d.committed = d.content

mutual

theorem Op.run_clean (uncaught : Nat) (c : SqliteConnection σ) (op : Op σ) (h : op.aborted = 0) :
    CleanRun c (op.run uncaught c) (op.surviving c.content) := by
  match op with
  | .write f =>
      refine ⟨rfl, rfl, ?_⟩
      intro hnone _
      exact Session.committed_write hnone f
  | .scope body true =>
      unfold Op.aborted at h
      simp only [if_true] at h
      omega
  | .scope body false =>
      have hbody : abortedOps body = 0 := by simpa [Op.aborted] using h
      obtain ⟨hcontent, hsavepoints, -⟩ := runOps_clean uncaught c.beginTransaction body hbody
      have hend := destruct_normally uncaught hsavepoints
      unfold Op.run Op.surviving
      simp only [Transaction.construct, Bool.false_eq_true, if_false]
      rw [hend]
      refine ⟨hcontent, rfl, ?_⟩
      intro hnone _
      simp only [hnone, List.isEmpty_nil, if_true]

theorem runOps_clean (uncaught : Nat) (c : SqliteConnection σ) (ops : List (Op σ))
    (h : abortedOps ops = 0) :
    CleanRun c (runOps uncaught c ops) (survivingOps c.content ops) := by
  match ops with
  | [] => exact ⟨rfl, rfl, fun _ hsame => hsame⟩
  | op :: ops =>
      have hparts : op.aborted = 0 ∧ abortedOps ops = 0 := by
        unfold abortedOps at h
        omega
      obtain ⟨hcontent, hsavepoints, hcommitted⟩ := Op.run_clean uncaught c op hparts.1
      obtain ⟨hcontent', hsavepoints', hcommitted'⟩ :=
        runOps_clean uncaught (op.run uncaught c) ops hparts.2
      unfold runOps survivingOps
      refine ⟨?_, hsavepoints'.trans hsavepoints, ?_⟩
      · rw [hcontent', hcontent]
      · intro hnone hsame
        exact hcommitted' (hsavepoints.trans hnone) (hcommitted hnone hsame)

end

/-- The scopes nest as they should exactly when none of them is left by an exception. -/
theorem nestsLikeScopes_iff (uncaught : Nat) (content : σ) (ops : List (Op σ)) :
    NestsLikeScopes uncaught content ops ↔ abortedOps ops = 0 := by
  constructor
  · intro h
    have hlength := length_runOps uncaught (.fresh content) ops
    rw [h.closed] at hlength
    simpa [Session.fresh] using hlength.symm
  · intro h
    obtain ⟨hcontent, hsavepoints, -⟩ := runOps_clean uncaught (.fresh content) ops h
    refine ⟨hcontent, hsavepoints, ?_⟩
    intro f
    rw [Session.committed_write hsavepoints, hcontent]
    rfl

/-- One scope that is left by an exception: the savepoint stays, and a later write is not
committed. -/
theorem nestsLikeScopes_fails : ¬ NestsLikeScopes 0 ([] : List Nat) [.scope [] true] := by
  intro h
  have himmediate := h.immediate (1 :: ·)
  cases himmediate

/-- An inner scope that is left by an exception takes the place of the outer one: the write behind
it is undone, the write before it is not. -/
example : (runOps 0 (.fresh []) [.scope [.write (1 :: ·), .scope [] true, .write (2 :: ·)]
    true]).content = [1] := by decide

end Securepath.Database
