import Securepath.Library.Machine
import Mathlib.Data.List.Basic

/-!
# The server of encrypted connections

`encrypted_server` (`network/encryption/encrypted_server.cpp`): an accept that completes is a
handler that waits for a thread; it puts its connection into the sessions in one critical section
and starts the next accept in another. `close` closes the acceptor and takes the sessions in one
critical section, and closes them behind it.
-/

namespace Securepath.Network

/-- A connection of `create_connection`, by number. -/
abbrev SessionId := Nat

/-- What an accept completes with. -/
inductive AcceptError where
  | operationAborted
  | other
deriving DecidableEq, Repr

/-- Where the call of `close` is. -/
inductive ClosePhase where
  | notCalled
  | closing
  | returned
deriving DecidableEq, Repr

structure EncryptedServer where
  /-- `acceptor_.is_open()` -/
  isOpen : Bool
  /-- the accepts that are outstanding -/
  accepting : List SessionId
  /-- the completions that wait to be run -/
  queued : List (SessionId × Option AcceptError)
  /-- in `on_accepted`, behind the first critical section -/
  registered : List SessionId
  /-- in `on_accepted`, behind `start_server_handshake` -/
  started : List SessionId
  sessions : List SessionId
  phase : ClosePhase
  /-- what `close` has swapped out and not closed yet -/
  toClose : List SessionId
  /-- every connection that was put into `sessions` -/
  ever : List SessionId
  closed : List SessionId
  next : SessionId
deriving DecidableEq

namespace EncryptedServer

/-- `start_accept`. -/
def startAccept (s : EncryptedServer) : EncryptedServer :=
  { s with accepting := s.next :: s.accepting, next := s.next + 1 }

/-- A server behind `start`. -/
def init : EncryptedServer := startAccept ⟨true, [], [], [], [], [], .notCalled, [], [], [], 0⟩

/-- The critical section that ends `on_accepted`. -/
def acceptNext (s : EncryptedServer) : EncryptedServer :=
  if s.isOpen then s.startAccept else s

/-- The first critical section of `on_accepted`. -/
def register (s : EncryptedServer) (c : SessionId) : EncryptedServer :=
  { s with
    sessions := c :: s.sessions
    ever := c :: s.ever
    registered := c :: s.registered }

/-- The critical section of `close`: what was outstanding is aborted. -/
def closeAcceptor (s : EncryptedServer) : EncryptedServer :=
  { s with
    isOpen := false
    accepting := []
    queued := s.queued ++ s.accepting.map fun c => (c, some .operationAborted)
    toClose := s.sessions
    sessions := []
    phase := .closing }

end EncryptedServer

inductive ServerAction where
  /-- an outstanding accept completes: its handler is queued -/
  | acceptCompletes (c : SessionId) (error : Option AcceptError)
  /-- a queued completion runs up to the end of its first critical section -/
  | onAccepted (c : SessionId) (error : Option AcceptError)
  /-- `on_accept` and `start_server_handshake` -/
  | sessionStarts (c : SessionId)
  | acceptNext (c : SessionId)
  /-- the critical section of `close` -/
  | close
  /-- `close` closes one of the sessions that it has swapped out -/
  | closeSession (c : SessionId)
  | closeReturns
  /-- a connection is closed by its peer, its timer or its owner -/
  | sessionEnds (c : SessionId)
  /-- `remove`, of a connection that is closed -/
  | remove (c : SessionId)
deriving DecidableEq

open EncryptedServer in
/-- One critical section, or what happens between two of them. -/
def ServerAction.step (a : ServerAction) (s : EncryptedServer) : Option EncryptedServer :=
  match a with
  | .acceptCompletes c error =>
      if c ∈ s.accepting ∧ error ≠ some .operationAborted then
        some { s with accepting := s.accepting.erase c, queued := s.queued ++ [(c, error)] }
      else none
  | .onAccepted c error =>
      if (c, error) ∈ s.queued then
        let s := { s with queued := s.queued.erase (c, error) }
        match error with
        | none => some (s.register c)
        | some .operationAborted => some s
        | some .other => some s.acceptNext
      else none
  | .sessionStarts c =>
      if c ∈ s.registered then
        some { s with registered := s.registered.erase c, started := c :: s.started }
      else none
  | .acceptNext c =>
      if c ∈ s.started then some { s with started := s.started.erase c }.acceptNext else none
  | .close => if s.phase = .notCalled then some s.closeAcceptor else none
  | .closeSession c =>
      if c ∈ s.toClose then
        some { s with toClose := s.toClose.erase c, closed := c :: s.closed }
      else none
  | .closeReturns =>
      if s.phase = .closing ∧ s.toClose = [] then some { s with phase := .returned } else none
  | .sessionEnds c => if c ∈ s.ever then some { s with closed := c :: s.closed } else none
  | .remove c => if c ∈ s.closed then some { s with sessions := s.sessions.erase c } else none

/-- `close` has returned and no completion is queued or still running. -/
def EncryptedServer.Quiet (s : EncryptedServer) : Prop :=
  s.phase = .returned ∧ s.queued = [] ∧ s.registered = [] ∧ s.started = []

/-- Nothing is left of the server. -/
structure EncryptedServer.Finished (s : EncryptedServer) : Prop where
  sessions : s.sessions = []
  accepting : s.accepting = []
  closed : ∀ c ∈ s.ever, c ∈ s.closed

/-- A completion that has a connection registers it before `close` has been there. -/
def RegistersInTime (a : ServerAction) (s : EncryptedServer) : Prop :=
  ∀ c, a = .onAccepted c none → s.isOpen = true

namespace EncryptedServer

variable {s s' : EncryptedServer} {a : ServerAction}

/-- What holds in every run that registers in time. -/
structure ServerInv (s : EncryptedServer) : Prop where
  kept : ∀ c ∈ s.ever, c ∈ s.sessions ∨ c ∈ s.toClose ∨ c ∈ s.closed
  notCalled : s.phase = .notCalled → s.isOpen = true
  accepting : s.isOpen = false → s.accepting = []
  sessions : s.isOpen = false → s.sessions = []
  called : s.phase ≠ .notCalled → s.isOpen = false
  toClose : s.phase ≠ .closing → s.toClose = []

theorem serverInv_init : ServerInv init := by
  refine ⟨fun c hc => ?_, fun _ => rfl, nofun, nofun, fun h => absurd rfl h, fun _ => rfl⟩
  cases hc

theorem ServerInv.acceptNext (h : ServerInv s) : ServerInv s.acceptNext := by
  unfold EncryptedServer.acceptNext
  split
  next hopen =>
    refine ⟨h.kept, h.notCalled, ?_, h.sessions, h.called, h.toClose⟩
    intro hclosed
    exact absurd (hclosed.symm.trans hopen) Bool.false_ne_true
  next => exact h

theorem ServerInv.register (h : ServerInv s) (hopen : s.isOpen = true) (c : SessionId) :
    ServerInv (s.register c) := by
  refine ⟨?_, h.notCalled, h.accepting, ?_, h.called, h.toClose⟩
  · intro d hd
    rcases List.mem_cons.mp hd with rfl | hd
    · exact Or.inl (List.mem_cons_self ..)
    · exact (h.kept d hd).imp (List.mem_cons_of_mem c) id
  · intro hclosed
    exact absurd (hclosed.symm.trans hopen) Bool.false_ne_true

theorem ServerInv.closeAcceptor (h : ServerInv s) (hphase : s.phase = .notCalled) :
    ServerInv s.closeAcceptor := by
  refine ⟨?_, nofun, fun _ => rfl, fun _ => rfl, fun _ => rfl, fun h => absurd rfl h⟩
  intro c hc
  rcases h.kept c hc with hsession | htoClose | hclosed
  · exact Or.inr (Or.inl hsession)
  · rw [h.toClose (hphase ▸ nofun)] at htoClose
    cases htoClose
  · exact Or.inr (Or.inr hclosed)

theorem ServerInv.closeSession (h : ServerInv s) (hphase : s.toClose ≠ []) (c : SessionId) :
    ServerInv { s with toClose := s.toClose.erase c, closed := c :: s.closed } := by
  refine ⟨?_, h.notCalled, h.accepting, h.sessions, h.called, ?_⟩
  · intro d hd
    rcases h.kept d hd with hsession | htoClose | hclosed
    · exact Or.inl hsession
    · by_cases heq : d = c
      · exact Or.inr (Or.inr (heq ▸ List.mem_cons_self ..))
      · exact Or.inr (Or.inl ((List.mem_erase_of_ne heq).mpr htoClose))
    · exact Or.inr (Or.inr (List.mem_cons_of_mem c hclosed))
  · intro hnot
    exact absurd (h.toClose hnot) hphase

theorem ServerInv.sessionEnds (h : ServerInv s) (c : SessionId) :
    ServerInv { s with closed := c :: s.closed } := by
  refine ⟨?_, h.notCalled, h.accepting, h.sessions, h.called, h.toClose⟩
  intro d hd
  exact (h.kept d hd).imp id (Or.imp id (List.mem_cons_of_mem c))

theorem ServerInv.remove (h : ServerInv s) {c : SessionId} (hclosed : c ∈ s.closed) :
    ServerInv { s with sessions := s.sessions.erase c } := by
  refine ⟨?_, h.notCalled, h.accepting, ?_, h.called, h.toClose⟩
  · intro d hd
    rcases h.kept d hd with hsession | hrest
    · by_cases heq : d = c
      · exact Or.inr (Or.inr (heq ▸ hclosed))
      · exact Or.inl ((List.mem_erase_of_ne heq).mpr hsession)
    · exact Or.inr hrest
  · intro hopen
    rw [h.sessions hopen]
    rfl

theorem ServerInv.step (h : ServerInv s) (hgood : RegistersInTime a s)
    (hstep : a.step s = some s') : ServerInv s' := by
  cases a with
  | acceptCompletes c error =>
      obtain ⟨-, ⟨⟩⟩ := Option.ite_none_right_eq_some.mp hstep
      refine ⟨h.kept, h.notCalled, ?_, h.sessions, h.called, h.toClose⟩
      intro hclosed
      rw [h.accepting hclosed]
      rfl
  | onAccepted c error =>
      obtain ⟨-, hrun⟩ := Option.ite_none_right_eq_some.mp hstep
      have hqueue : ServerInv { s with queued := s.queued.erase (c, error) } :=
        ⟨h.kept, h.notCalled, h.accepting, h.sessions, h.called, h.toClose⟩
      cases error with
      | none =>
          obtain rfl := Option.some.inj hrun
          exact hqueue.register (hgood c rfl) c
      | some error =>
          cases error with
          | operationAborted =>
              obtain rfl := Option.some.inj hrun
              exact hqueue
          | other =>
              obtain rfl := Option.some.inj hrun
              exact hqueue.acceptNext
  | sessionStarts c =>
      obtain ⟨-, ⟨⟩⟩ := Option.ite_none_right_eq_some.mp hstep
      exact ⟨h.kept, h.notCalled, h.accepting, h.sessions, h.called, h.toClose⟩
  | acceptNext c =>
      obtain ⟨-, ⟨⟩⟩ := Option.ite_none_right_eq_some.mp hstep
      have hstarted : ServerInv { s with started := s.started.erase c } :=
        ⟨h.kept, h.notCalled, h.accepting, h.sessions, h.called, h.toClose⟩
      exact hstarted.acceptNext
  | close =>
      obtain ⟨hphase, ⟨⟩⟩ := Option.ite_none_right_eq_some.mp hstep
      exact h.closeAcceptor hphase
  | closeSession c =>
      obtain ⟨hc, ⟨⟩⟩ := Option.ite_none_right_eq_some.mp hstep
      exact h.closeSession (List.ne_nil_of_mem hc) c
  | closeReturns =>
      obtain ⟨⟨hphase, hnone⟩, ⟨⟩⟩ := Option.ite_none_right_eq_some.mp hstep
      refine ⟨h.kept, nofun, h.accepting, h.sessions, ?_, fun _ => hnone⟩
      intro _
      exact h.called (hphase ▸ nofun)
  | sessionEnds c =>
      obtain ⟨-, ⟨⟩⟩ := Option.ite_none_right_eq_some.mp hstep
      exact h.sessionEnds c
  | remove c =>
      obtain ⟨hc, ⟨⟩⟩ := Option.ite_none_right_eq_some.mp hstep
      exact h.remove hc

theorem ServerInv.finished (h : ServerInv s) (hphase : s.phase = .returned) : Finished s := by
  have hclosed : s.isOpen = false := h.called (hphase ▸ nofun)
  refine ⟨h.sessions hclosed, h.accepting hclosed, ?_⟩
  intro c hc
  have hkept := h.kept c hc
  rw [h.sessions hclosed, h.toClose (hphase ▸ nofun)] at hkept
  exact (hkept.resolve_left List.not_mem_nil).resolve_left List.not_mem_nil

/-- `close` is final in every run in which no completion registers its connection behind it. -/
theorem close_final {as : List ServerAction} {s : EncryptedServer}
    (hgood : Machine.EachStep ServerAction.step RegistersInTime as init)
    (hrun : Machine.run ServerAction.step as init = some s) : s.Quiet → s.Finished := by
  have hinv : ServerInv s := Machine.invariant
    (fun _ _ _ hgood hinv hstep => hinv.step hgood hstep) hgood serverInv_init hrun
  intro hquiet
  exact hinv.finished hquiet.1

/-- An accept, its session, the next accept, and `close`. -/
theorem close_final_one_session :
    ∃ s, Machine.run ServerAction.step [.acceptCompletes 0 none, .onAccepted 0 none,
      .sessionStarts 0, .acceptNext 0, .close, .onAccepted 1 (some .operationAborted),
      .closeSession 0, .closeReturns, .remove 0] init = some s ∧ s.Quiet ∧ s.Finished := by
  have hgood : Machine.EachStep ServerAction.step RegistersInTime [.acceptCompletes 0 none,
      .onAccepted 0 none, .sessionStarts 0, .acceptNext 0, .close,
      .onAccepted 1 (some .operationAborted), .closeSession 0, .closeReturns, .remove 0] init := by
    refine .cons nofun rfl (.cons (fun _ _ => rfl) rfl (.cons nofun rfl (.cons nofun rfl
      (.cons nofun rfl (.cons nofun rfl (.cons nofun rfl (.cons nofun rfl (.cons nofun rfl
        trivial))))))))
  have hquiet : ∀ s, Machine.run ServerAction.step [.acceptCompletes 0 none, .onAccepted 0 none,
      .sessionStarts 0, .acceptNext 0, .close, .onAccepted 1 (some .operationAborted),
      .closeSession 0, .closeReturns, .remove 0] init = some s → s.Quiet := by
    intro s hrun
    obtain rfl := Option.some.inj hrun
    exact ⟨rfl, rfl, rfl, rfl⟩
  exact ⟨_, rfl, hquiet _ rfl, close_final hgood rfl (hquiet _ rfl)⟩

/-- The accept has completed, `close` returns, and the completion registers its connection. -/
theorem close_final_fails :
    ∃ s, Machine.run ServerAction.step [.acceptCompletes 0 none, .close, .closeReturns,
      .onAccepted 0 none, .sessionStarts 0, .acceptNext 0] init = some s ∧
      s.Quiet ∧ ¬ s.Finished := by
  refine ⟨_, rfl, ⟨rfl, rfl, rfl, rfl⟩, ?_⟩
  intro hfinished
  cases hfinished.sessions

end EncryptedServer

end Securepath.Network
