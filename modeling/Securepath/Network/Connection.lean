import Securepath.Network.Framing

/-!
# An encrypted connection

The life of one `encrypted_connection_impl`
(`network/encryption/detail/encrypted_connection_impl.cpp`): the completions on its
strand, the calls of `close` and `close_later`, and the callbacks of its client.

A callback is invoked within the function that notifies, and may call `close`;
what that function still does is a `Cont`. `close` marks the connection closed on
the caller's thread, and only then goes to the strand.
-/

namespace Securepath.Network

/-- The operation that the connection waits for, of those that follow one another. -/
inductive Phase where
  | unused
  | resolving
  | connecting
  /-- the dispatched `start_server_handshake` -/
  | accepting
  | tlsHandshake
  | handshake
  | data
  | ended
deriving DecidableEq, Repr

/-- `connection_state`. -/
inductive ConnectionState where
  | notConnected
  | connecting
  | connected
deriving DecidableEq, Repr

/-- `handshake_op_state`. -/
inductive HandshakeOpState where
  | inProgress
  | succeeded
  | error
deriving DecidableEq, Repr

inductive Event where
  | onConnected
  | onReceived
  | onSent
  | onDisconnected (error : Option Code)
  | closeReturned
deriving DecidableEq, Repr

/-- What is left to do when a callback has returned. -/
inductive Cont where
  /-- `receive_data` and `do_send` behind `notify_connected` -/
  | connected
  /-- `receive_data` behind `notify_received` -/
  | received
  /-- `do_send` behind `notify_sent` -/
  | sent
  /-- the end of `disconnect_with` -/
  | disconnected
  /-- `disconnect_with`, when `close_later` has marked the connection closed -/
  | closeLater (error : Code)
deriving DecidableEq, Repr

structure Connection where
  phase : Phase
  state : ConnectionState
  /-- `client_` is set -/
  client : Bool
  isConnected : Bool
  isClosed : Bool
  disconnected : Bool
  writing : Bool
  timer : Bool
  /-- the payloads in `out_queue_`, the posted calls of `do_send`, and the frames of the
  handshake that are being sent -/
  outQueue : Nat
  doSends : Nat
  handshakeSends : Nat
  /-- the calls of `close` that wait for the strand, and the posted `close_later` -/
  closes : Nat
  laters : List Code
  /-- the functions on the strand that have invoked a callback -/
  conts : List Cont
  log : List Event

namespace Connection

/-- The constructor. -/
def init : Connection where
  phase := .unused
  state := .notConnected
  client := true
  isConnected := false
  isClosed := false
  disconnected := false
  writing := false
  timer := false
  outQueue := 0
  doSends := 0
  handshakeSends := 0
  closes := 0
  laters := []
  conts := []
  log := []

variable (c : Connection)

/-! ## Callbacks -/

/-- A callback is invoked. -/
def notify (e : Event) (k : Cont) : Connection :=
  { c with log := c.log ++ [e], conts := k :: c.conts }

/-- The end of `disconnect_with`. -/
def finishDisconnect : Connection := { c with isClosed := true, state := .notConnected }

/-- `disconnect_with`. -/
def disconnectWith (error : Option Code) : Connection :=
  if c.disconnected then c
  else
    let c := { c with disconnected := true, isConnected := false }
    if c.client then notify { c with client := false } (.onDisconnected error) .disconnected
    else c.finishDisconnect

/-- `do_close`. -/
def doClose : Connection := disconnectWith { c with client := false } none

/-- `receive_data`. -/
def receiveData : Connection :=
  if !c.isConnected || !c.client then { c with phase := .ended } else { c with phase := .data }

/-- `do_send`. -/
def doSend : Connection :=
  if c.writing || c.outQueue = 0 || !c.isConnected then c
  else { c with writing := true, outQueue := c.outQueue - 1 }

/-- What follows a callback. -/
def resume : Cont → Connection
  | .connected => c.receiveData.doSend
  | .received => c.receiveData
  | .sent => c.doSend
  | .disconnected => c.finishDisconnect
  | .closeLater error => c.disconnectWith (some error)

/-- `notify_connected`, `notify_received` and `notify_sent`, with what follows. -/
def notifyClient (e : Event) (k : Cont) : Connection :=
  if c.client then c.notify e k else c.resume k

/-! ## The way to a connection -/

/-- The outcome of `on_resolve` and `on_connect`. -/
def advance (error : Option Code) (next : Phase) : Connection :=
  if error.isNone && c.client then { c with phase := next }
  else
    let c := { c with phase := .ended }
    if error = some .operationAborted then c else c.disconnectWith error

/-- `become_connected`. -/
def becomeConnected : Connection :=
  notifyClient { c with phase := .ended, state := .connected, isConnected := true }
    .onConnected .connected

/-- `advance_handshake`, with a packet to be sent or without one. -/
def advanceHandshake (state : HandshakeOpState) (packet : Bool) : Connection :=
  match state with
  | .error => disconnectWith { c with phase := .ended } (some .handshakeFailed)
  | _ =>
      let c := if packet then { c with handshakeSends := c.handshakeSends + 1 } else c
      match state with
      | .succeeded => c.becomeConnected
      | _ => { c with phase := .handshake }

/-- `on_tls_handshake`: the client sends its hello, the server waits for it. -/
def onTlsHandshake (ec : Option Code) (isClient : Bool) : Connection :=
  match ec with
  | some ec => disconnectWith { c with phase := .ended } (some ec)
  | none => if isClient then c.advanceHandshake .inProgress true else { c with phase := .handshake }

/-- `on_handshake_frame`. -/
def onHandshakeFrame (ec : Option Code) (state : HandshakeOpState) (packet : Bool) : Connection :=
  match ec with
  | some ec => disconnectWith { c with phase := .ended } (some ec)
  | none => c.advanceHandshake state packet

/-- `on_data_frame`. -/
def onDataFrame (ec : Option Code) : Connection :=
  match ec with
  | some ec => disconnectWith { c with phase := .ended } (some ec)
  | none => notifyClient { c with phase := .ended } .onReceived .received

/-- The handler of a frame of `do_send`. -/
def onFrameSent (ec : Option Code) : Connection :=
  let c := { c with writing := false }
  match ec with
  | some ec => c.disconnectWith (some ec)
  | none => c.notifyClient .onSent .sent

/-- `on_timeout`. -/
def onTimeout (ec : Option Code) : Connection :=
  let c := { c with timer := false }
  if ec.isNone && c.state ≠ .connected then c.disconnectWith (some .timedOut) else c

/-- `close` on the strand. -/
def closeOnStrand : Connection :=
  let c := if c.isClosed then c else doClose { c with isClosed := true }
  { c with log := c.log ++ [.closeReturned] }

/-- `close` on another thread, up to the strand. -/
def closeElsewhere : Connection :=
  if c.isClosed then { c with log := c.log ++ [.closeReturned] }
  else { c with isClosed := true, closes := c.closes + 1 }

end Connection

/-! ## Steps -/

inductive ConnectionAction where
  | connect
  | startServerHandshake
  | onResolve (error : Option Code)
  | onConnect (error : Option Code)
  | onAccept
  | onTlsHandshake (ec : Option Code) (isClient : Bool)
  | onHandshakeFrame (ec : Option Code) (state : HandshakeOpState) (packet : Bool)
  | onHandshakeSent (ec : Option Code)
  | onDataFrame (ec : Option Code)
  | onFrameSent (ec : Option Code)
  | onTimeout (ec : Option Code)
  | send
  | runDoSend
  | closeOnStrand
  | closeElsewhere
  /-- the strand runs what `close` has dispatched -/
  | runClose
  | closeLater (error : Code)
  | runCloseLater
  /-- a callback returns -/
  | returns
deriving DecidableEq, Repr

open Connection in
/-- A step. The strand runs one function after the other; `connect`, `send` and `close`
may be called at any time. -/
def ConnectionAction.step (a : ConnectionAction) (c : Connection) : Option Connection :=
  match a with
  | .connect =>
      if c.phase = .unused ∧ c.isClosed = false then
        some { c with phase := .resolving, state := .connecting, timer := true }
      else none
  | .startServerHandshake =>
      if c.phase = .unused then
        some { c with phase := .accepting, state := .connecting, timer := true }
      else none
  | .onResolve error =>
      if c.conts = [] ∧ c.phase = .resolving then some (c.advance error .connecting) else none
  | .onConnect error =>
      if c.conts = [] ∧ c.phase = .connecting then some (c.advance error .tlsHandshake) else none
  | .onAccept =>
      if c.conts = [] ∧ c.phase = .accepting then
        some { c with phase := if c.client then .tlsHandshake else .ended }
      else none
  | .onTlsHandshake ec isClient =>
      if c.conts = [] ∧ c.phase = .tlsHandshake then some (c.onTlsHandshake ec isClient) else none
  | .onHandshakeFrame ec state packet =>
      if c.conts = [] ∧ c.phase = .handshake then some (c.onHandshakeFrame ec state packet) else none
  | .onHandshakeSent ec =>
      if c.conts = [] ∧ c.handshakeSends ≠ 0 then
        let c := { c with handshakeSends := c.handshakeSends - 1 }
        some (if ec.isSome then c.disconnectWith ec else c)
      else none
  | .onDataFrame ec =>
      if c.conts = [] ∧ c.phase = .data then some (c.onDataFrame ec) else none
  | .onFrameSent ec => if c.conts = [] ∧ c.writing then some (c.onFrameSent ec) else none
  | .onTimeout ec => if c.conts = [] ∧ c.timer then some (c.onTimeout ec) else none
  | .send => some { c with
      outQueue := c.outQueue + 1
      doSends := if c.isConnected then c.doSends + 1 else c.doSends }
  | .runDoSend =>
      if c.conts = [] ∧ c.doSends ≠ 0 then some (doSend { c with doSends := c.doSends - 1 }) else none
  | .closeOnStrand => some c.closeOnStrand
  | .closeElsewhere => some c.closeElsewhere
  | .runClose =>
      if c.conts = [] ∧ c.closes ≠ 0 then
        let c := doClose { c with closes := c.closes - 1 }
        some { c with log := c.log ++ [.closeReturned] }
      else none
  | .closeLater error => some { c with laters := c.laters ++ [error] }
  | .runCloseLater =>
      match c.conts, c.laters with
      | [], error :: rest =>
          if c.isClosed then some { c with laters := rest }
          else some { c with laters := rest, isClosed := true, conts := [.closeLater error] }
      | _, _ => none
  | .returns =>
      match c.conts with
      | [] => none
      | k :: ks => some (resume { c with conts := ks } k)

/-! ## The order of the callbacks -/

def Event.isCallback : Event → Bool
  | .closeReturned => false
  | _ => true

/-- Behind the event there is no callback. -/
def Event.isEnd : Event → Bool
  | .onDisconnected _ => true
  | .closeReturned => true
  | _ => false

/-- Behind the event there is no `on_connected`. -/
def Event.isConnectedOrData : Event → Bool
  | .onConnected => true
  | .onReceived => true
  | .onSent => true
  | _ => false

/-- What may be behind an event. -/
def Follows (a b : Event) : Prop :=
  (b.isCallback = true → a.isEnd = false) ∧
    (b = .onConnected → a.isConnectedOrData = false)

/-- `on_connected` comes once, `on_received` and `on_sent` behind it, `on_disconnected`
once and behind them; and nothing behind a `close` that has returned. -/
structure Lifecycle (log : List Event) : Prop where
  ordered : log.Pairwise Follows
  connected : .onReceived ∈ log ∨ .onSent ∈ log → .onConnected ∈ log

/-- An event joins the log. -/
theorem Lifecycle.append {log : List Event} (h : Lifecycle log) {e : Event}
    (hcallback : e.isCallback = true → ∀ a ∈ log, a.isEnd = false)
    (hconnected : e = .onConnected → ∀ a ∈ log, a.isConnectedOrData = false)
    (hdata : e = .onReceived ∨ e = .onSent → .onConnected ∈ log) : Lifecycle (log ++ [e]) := by
  constructor
  · rw [List.pairwise_append]
    refine ⟨h.ordered, List.pairwise_singleton _ _, ?_⟩
    intro a ha b hb
    rw [List.mem_singleton.mp hb]
    exact ⟨fun hcall => hcallback hcall a ha, fun hconn => hconnected hconn a ha⟩
  · intro hmem
    rw [List.mem_append, List.mem_append, List.mem_singleton, List.mem_singleton] at hmem
    refine List.mem_append_left _ ?_
    rcases hmem with (hold | hnew) | (hold | hnew)
    · exact h.connected (Or.inl hold)
    · exact hdata (Or.inl hnew.symm)
    · exact h.connected (Or.inr hold)
    · exact hdata (Or.inr hnew.symm)

/-- The connection is not connected yet. -/
def Phase.isEarly : Phase → Bool
  | .data => false
  | .ended => false
  | _ => true

namespace Connection

/-- What the callbacks go by. -/
structure LifecycleInv (c : Connection) : Prop where
  lifecycle : Lifecycle c.log
  live : ∀ e ∈ c.log, e.isEnd = true → c.client = false
  early : c.phase.isEarly = true → .onConnected ∉ c.log
  known : c.phase = .data ∨ c.isConnected = true ∨ c.writing = true →
    .onConnected ∈ c.log ∨ c.client = false

/-- No `close` finds the connection marked closed by a call that has not been on the
strand yet. -/
def WaitsForStrand : ConnectionAction → Connection → Prop
  | .closeOnStrand, c => c.isClosed = true → c.client = false
  | .closeElsewhere, c => c.isClosed = true → c.client = false
  | _, _ => True

variable {c d : Connection}

/-- Nothing happens that the client sees. -/
theorem LifecycleInv.quiet (h : LifecycleInv c) (hlog : d.log = c.log)
    (hclient : d.client = true → c.client = true)
    (hearly : d.phase.isEarly = true → c.phase.isEarly = true)
    (hknown : d.phase = .data ∨ d.isConnected = true ∨ d.writing = true →
      c.phase = .data ∨ c.isConnected = true ∨ c.writing = true) : LifecycleInv d := by
  have hfalse : c.client = false → d.client = false := by
    intro hc
    rw [Bool.eq_false_iff]
    intro hd
    exact absurd (hc.symm.trans (hclient hd)) (by decide)
  constructor
  · rw [hlog]
    exact h.lifecycle
  · rw [hlog]
    exact fun e he hend => hfalse (h.live e he hend)
  · rw [hlog]
    exact fun hd => h.early (hearly hd)
  · rw [hlog]
    exact fun hd => (h.known (hknown hd)).imp_right hfalse

/-- Nor where the connection goes to a phase without data. -/
theorem LifecycleInv.withoutData (h : LifecycleInv c)
    (hview : (d.log, d.client, d.isConnected, d.writing) =
      (c.log, c.client, c.isConnected, c.writing))
    (hearly : d.phase.isEarly = true → c.phase.isEarly = true) (hphase : d.phase ≠ .data) :
    LifecycleInv d := by
  simp only [Prod.mk.injEq] at hview
  rcases hview with ⟨hlog, hclient, hconnected, hwriting⟩
  refine h.quiet hlog (fun hd => hclient.symm.trans hd) hearly ?_
  rw [hconnected, hwriting]
  exact Or.imp_left fun hdata => absurd hdata hphase

theorem LifecycleInv.no_end (h : LifecycleInv c) (hclient : c.client = true) :
    ∀ a ∈ c.log, a.isEnd = false := by
  intro a ha
  rw [Bool.eq_false_iff]
  intro hend
  exact absurd ((h.live a ha hend).symm.trans hclient) (by decide)

/-- `on_received` and `on_sent`. -/
theorem LifecycleInv.notifyData (h : LifecycleInv c) (hclient : c.client = true)
    (hmem : .onConnected ∈ c.log) (hphase : c.phase.isEarly = false) {e : Event}
    (he : e = .onReceived ∨ e = .onSent) (k : Cont) : LifecycleInv (c.notify e k) := by
  have hnot : e ≠ .onConnected ∧ e.isEnd = false := by
    rcases he with rfl | rfl <;> decide
  constructor
  · exact h.lifecycle.append (fun _ => h.no_end hclient) (fun hconn => absurd hconn hnot.1)
      fun _ => hmem
  · intro a ha hend
    rcases List.mem_append.mp ha with ha | ha
    · exact h.live a ha hend
    · rw [List.mem_singleton.mp ha] at hend
      exact absurd (hnot.2.symm.trans hend) (by decide)
  · exact fun hearly => absurd (hphase.symm.trans hearly) (by decide)
  · exact fun _ => Or.inl (List.mem_append_left _ hmem)

theorem LifecycleInv.finishDisconnect (h : LifecycleInv c) : LifecycleInv c.finishDisconnect :=
  h.quiet rfl id id id

theorem LifecycleInv.disconnectWith (h : LifecycleInv c) (error : Option Code) :
    LifecycleInv (c.disconnectWith error) := by
  unfold Connection.disconnectWith
  split
  · exact h
  have hoff : LifecycleInv { c with disconnected := true, isConnected := false } := by
    refine h.quiet rfl id id ?_
    rintro (hdata | hfalse | hwriting)
    · exact Or.inl hdata
    · cases hfalse
    · exact Or.inr (Or.inr hwriting)
  simp only
  split
  next hclient =>
    -- `client_` is cleared before the callback, so this one is the last
    constructor
    · refine h.lifecycle.append (fun _ => h.no_end hclient) nofun ?_
      rintro (hfalse | hfalse) <;> cases hfalse
    · exact fun _ _ _ => rfl
    · intro hearly hmem
      rcases List.mem_append.mp hmem with hmem | hmem
      · exact h.early hearly hmem
      · cases List.mem_singleton.mp hmem
    · exact fun _ => Or.inr rfl
  next => exact hoff.finishDisconnect

theorem LifecycleInv.doClose (h : LifecycleInv c) : LifecycleInv c.doClose := by
  have hclient : LifecycleInv { c with client := false } := by
    refine h.quiet rfl ?_ id id
    intro hfalse
    cases hfalse
  exact hclient.disconnectWith none

theorem client_disconnectWith (error : Option Code) (hclient : c.client = false) :
    (c.disconnectWith error).client = false := by
  unfold Connection.disconnectWith
  simp only [hclient]
  split
  · exact hclient
  · rfl

/-- A `close` returns when the client is not called any more. -/
theorem LifecycleInv.closeReturned (h : LifecycleInv c) (hclient : c.client = false) :
    LifecycleInv { c with log := c.log ++ [.closeReturned] } := by
  constructor
  · refine h.lifecycle.append nofun nofun ?_
    rintro (hfalse | hfalse) <;> cases hfalse
  · exact fun _ _ _ => hclient
  · intro hearly hmem
    rcases List.mem_append.mp hmem with hmem | hmem
    · exact h.early hearly hmem
    · cases List.mem_singleton.mp hmem
  · exact fun _ => Or.inr hclient

theorem LifecycleInv.receiveData (h : LifecycleInv c) : LifecycleInv c.receiveData := by
  unfold Connection.receiveData
  split
  · exact h.withoutData rfl nofun nofun
  next hguard =>
    -- the phase of the data is entered by a connection that is connected
    rw [Bool.or_eq_true, not_or, Bool.not_eq_true, Bool.not_eq_true, Bool.not_eq_false',
      Bool.not_eq_false'] at hguard
    exact h.quiet rfl id nofun fun _ => Or.inr (Or.inl hguard.1)

theorem LifecycleInv.doSend (h : LifecycleInv c) : LifecycleInv c.doSend := by
  unfold Connection.doSend
  split
  · exact h
  next hguard =>
    simp only [Bool.or_eq_true, not_or, Bool.not_eq_true, Bool.not_eq_false'] at hguard
    exact h.quiet rfl id id fun _ => Or.inr (Or.inl hguard.2)

theorem LifecycleInv.resume (h : LifecycleInv c) (k : Cont) : LifecycleInv (c.resume k) := by
  cases k with
  | connected => exact h.receiveData.doSend
  | received => exact h.receiveData
  | sent => exact h.doSend
  | disconnected => exact h.finishDisconnect
  | closeLater error => exact h.disconnectWith (some error)

theorem LifecycleInv.endPhase (h : LifecycleInv c) : LifecycleInv { c with phase := .ended } :=
  h.withoutData rfl nofun nofun

theorem LifecycleInv.advance (h : LifecycleInv c) (error : Option Code) {next : Phase}
    (hc : c.phase.isEarly = true) (hnext : next ≠ .data) :
    LifecycleInv (c.advance error next) := by
  unfold Connection.advance
  split
  · exact h.withoutData rfl (fun _ => hc) hnext
  · simp only
    split
    · exact h.endPhase
    · exact h.endPhase.disconnectWith error

theorem LifecycleInv.becomeConnected (h : LifecycleInv c) (hc : c.phase.isEarly = true) :
    LifecycleInv c.becomeConnected := by
  have hnone := h.early hc
  unfold Connection.becomeConnected notifyClient
  split
  next hclient =>
    -- data comes behind `on_connected` only, and that has not been called
    have hdata : ∀ a ∈ c.log, a.isConnectedOrData = false := by
      intro a ha
      cases a with
      | onConnected => exact absurd ha hnone
      | onReceived => exact absurd (h.lifecycle.connected (Or.inl ha)) hnone
      | onSent => exact absurd (h.lifecycle.connected (Or.inr ha)) hnone
      | onDisconnected error => rfl
      | closeReturned => rfl
    constructor
    · refine h.lifecycle.append (fun _ => h.no_end hclient) (fun _ => hdata) ?_
      rintro (hfalse | hfalse) <;> cases hfalse
    · intro a ha hend
      rcases List.mem_append.mp ha with ha | ha
      · exact h.live a ha hend
      · rw [List.mem_singleton.mp ha] at hend
        cases hend
    · nofun
    · exact fun _ => Or.inl (List.mem_append_right _ (List.mem_singleton.mpr rfl))
  next hclient =>
    rw [Bool.not_eq_true] at hclient
    have hconnected : LifecycleInv
        { c with phase := .ended, state := .connected, isConnected := true } := by
      constructor
      · exact h.lifecycle
      · exact h.live
      · nofun
      · exact fun _ => Or.inr hclient
    exact hconnected.resume .connected

theorem LifecycleInv.advanceHandshake (h : LifecycleInv c) (state : HandshakeOpState)
    (packet : Bool) (hc : c.phase.isEarly = true) :
    LifecycleInv (c.advanceHandshake state packet) := by
  have hpacket : LifecycleInv
      (if packet then { c with handshakeSends := c.handshakeSends + 1 } else c) ∧
      Phase.isEarly
        (if packet then { c with handshakeSends := c.handshakeSends + 1 } else c).phase = true := by
    split
    · exact ⟨h.quiet rfl id id id, hc⟩
    · exact ⟨h, hc⟩
  unfold Connection.advanceHandshake
  cases state with
  | error => exact h.endPhase.disconnectWith _
  | succeeded => exact hpacket.1.becomeConnected hpacket.2
  | inProgress => exact hpacket.1.withoutData rfl (fun _ => hpacket.2) nofun

theorem LifecycleInv.onTlsHandshake (h : LifecycleInv c) (ec : Option Code) (isClient : Bool)
    (hc : c.phase.isEarly = true) : LifecycleInv (c.onTlsHandshake ec isClient) := by
  unfold Connection.onTlsHandshake
  cases ec with
  | some ec => exact h.endPhase.disconnectWith _
  | none =>
      simp only
      split
      · exact h.advanceHandshake .inProgress true hc
      · exact h.withoutData rfl (fun _ => hc) nofun

theorem LifecycleInv.onDataFrame (h : LifecycleInv c) (ec : Option Code)
    (hdata : c.phase = .data) : LifecycleInv (c.onDataFrame ec) := by
  unfold Connection.onDataFrame
  cases ec with
  | some ec => exact h.endPhase.disconnectWith _
  | none =>
      simp only [notifyClient]
      split
      next hclient =>
        -- the client is still there, so `become_connected` has told it
        have hmem : .onConnected ∈ c.log := by
          refine (h.known (Or.inl hdata)).resolve_right ?_
          exact fun hfalse => absurd (hfalse.symm.trans hclient) (by decide)
        exact h.endPhase.notifyData hclient hmem rfl (Or.inl rfl) .received
      next => exact h.endPhase.resume .received

theorem LifecycleInv.onFrameSent (h : LifecycleInv c) (ec : Option Code)
    (hwriting : c.writing = true) : LifecycleInv (c.onFrameSent ec) := by
  have hidle : LifecycleInv { c with writing := false } := by
    refine h.quiet rfl id id ?_
    rintro (hdata | hconnected | hfalse)
    · exact Or.inl hdata
    · exact Or.inr (Or.inl hconnected)
    · cases hfalse
  unfold Connection.onFrameSent
  cases ec with
  | some ec => exact hidle.disconnectWith _
  | none =>
      simp only [notifyClient]
      split
      next hclient =>
        have hmem : .onConnected ∈ c.log := by
          refine (h.known (Or.inr (Or.inr hwriting))).resolve_right ?_
          exact fun hfalse => absurd (hfalse.symm.trans hclient) (by decide)
        have hphase : c.phase.isEarly = false := by
          rw [Bool.eq_false_iff]
          exact fun hearly => h.early hearly hmem
        exact hidle.notifyData hclient hmem hphase (Or.inr rfl) .sent
      next => exact hidle.resume .sent

theorem LifecycleInv.onTimeout (h : LifecycleInv c) (ec : Option Code) :
    LifecycleInv (c.onTimeout ec) := by
  have hfired : LifecycleInv { c with timer := false } := h.quiet rfl id id id
  unfold Connection.onTimeout
  simp only
  split
  · exact hfired.disconnectWith _
  · exact hfired

theorem LifecycleInv.closeOnStrand (h : LifecycleInv c)
    (hgood : c.isClosed = true → c.client = false) : LifecycleInv c.closeOnStrand := by
  unfold Connection.closeOnStrand
  cases hclosed : c.isClosed with
  | true => exact h.closeReturned (hgood hclosed)
  | false =>
      have hmarked : LifecycleInv { c with isClosed := true } := h.quiet rfl id id id
      exact hmarked.doClose.closeReturned (client_disconnectWith none rfl)

theorem LifecycleInv.closeElsewhere (h : LifecycleInv c)
    (hgood : c.isClosed = true → c.client = false) : LifecycleInv c.closeElsewhere := by
  unfold Connection.closeElsewhere
  split
  next hclosed => exact h.closeReturned (hgood hclosed)
  next => exact h.quiet rfl id id id

theorem LifecycleInv.step {a : ConnectionAction} (h : LifecycleInv c) (hgood : WaitsForStrand a c)
    (hstep : a.step c = some d) : LifecycleInv d := by
  cases a with
  | connect =>
      simp only [ConnectionAction.step, Option.ite_none_right_eq_some, Option.some.injEq] at hstep
      rcases hstep with ⟨⟨hphase, _⟩, rfl⟩
      exact h.withoutData rfl (fun _ => by rw [hphase]; rfl) nofun
  | startServerHandshake =>
      simp only [ConnectionAction.step, Option.ite_none_right_eq_some, Option.some.injEq] at hstep
      rcases hstep with ⟨hphase, rfl⟩
      exact h.withoutData rfl (fun _ => by rw [hphase]; rfl) nofun
  | onResolve error =>
      simp only [ConnectionAction.step, Option.ite_none_right_eq_some, Option.some.injEq] at hstep
      rcases hstep with ⟨⟨_, hphase⟩, rfl⟩
      exact h.advance error (by rw [hphase]; rfl) (by decide)
  | onConnect error =>
      simp only [ConnectionAction.step, Option.ite_none_right_eq_some, Option.some.injEq] at hstep
      rcases hstep with ⟨⟨_, hphase⟩, rfl⟩
      exact h.advance error (by rw [hphase]; rfl) (by decide)
  | onAccept =>
      simp only [ConnectionAction.step, Option.ite_none_right_eq_some, Option.some.injEq] at hstep
      rcases hstep with ⟨⟨_, hphase⟩, rfl⟩
      refine h.withoutData rfl (fun _ => by rw [hphase]; rfl) ?_
      intro hfalse
      simp only at hfalse
      split at hfalse <;> cases hfalse
  | onTlsHandshake ec isClient =>
      simp only [ConnectionAction.step, Option.ite_none_right_eq_some, Option.some.injEq] at hstep
      rcases hstep with ⟨⟨_, hphase⟩, rfl⟩
      exact h.onTlsHandshake ec isClient (by rw [hphase]; rfl)
  | onHandshakeFrame ec state packet =>
      simp only [ConnectionAction.step, Option.ite_none_right_eq_some, Option.some.injEq] at hstep
      rcases hstep with ⟨⟨_, hphase⟩, rfl⟩
      cases ec with
      | some ec => exact h.endPhase.disconnectWith _
      | none => exact h.advanceHandshake state packet (by rw [hphase]; rfl)
  | onHandshakeSent ec =>
      simp only [ConnectionAction.step, Option.ite_none_right_eq_some, Option.some.injEq] at hstep
      rcases hstep with ⟨_, rfl⟩
      have hsent : LifecycleInv { c with handshakeSends := c.handshakeSends - 1 } :=
        h.quiet rfl id id id
      split
      · exact hsent.disconnectWith ec
      · exact hsent
  | onDataFrame ec =>
      simp only [ConnectionAction.step, Option.ite_none_right_eq_some, Option.some.injEq] at hstep
      rcases hstep with ⟨⟨_, hphase⟩, rfl⟩
      exact h.onDataFrame ec hphase
  | onFrameSent ec =>
      simp only [ConnectionAction.step, Option.ite_none_right_eq_some, Option.some.injEq] at hstep
      rcases hstep with ⟨⟨_, hwriting⟩, rfl⟩
      exact h.onFrameSent ec hwriting
  | onTimeout ec =>
      simp only [ConnectionAction.step, Option.ite_none_right_eq_some, Option.some.injEq] at hstep
      rcases hstep with ⟨_, rfl⟩
      exact h.onTimeout ec
  | send =>
      obtain rfl := Option.some.inj hstep
      exact h.quiet rfl id id id
  | runDoSend =>
      simp only [ConnectionAction.step, Option.ite_none_right_eq_some, Option.some.injEq] at hstep
      rcases hstep with ⟨_, rfl⟩
      have hposted : LifecycleInv { c with doSends := c.doSends - 1 } := h.quiet rfl id id id
      exact hposted.doSend
  | closeOnStrand =>
      obtain rfl := Option.some.inj hstep
      exact h.closeOnStrand hgood
  | closeElsewhere =>
      obtain rfl := Option.some.inj hstep
      exact h.closeElsewhere hgood
  | runClose =>
      simp only [ConnectionAction.step, Option.ite_none_right_eq_some, Option.some.injEq] at hstep
      rcases hstep with ⟨_, rfl⟩
      have htaken : LifecycleInv { c with closes := c.closes - 1 } := h.quiet rfl id id id
      exact htaken.doClose.closeReturned (client_disconnectWith none rfl)
  | closeLater error =>
      obtain rfl := Option.some.inj hstep
      exact h.quiet rfl id id id
  | runCloseLater =>
      simp only [ConnectionAction.step] at hstep
      split at hstep
      next =>
        split at hstep
        · obtain rfl := Option.some.inj hstep
          exact h.quiet rfl id id id
        · obtain rfl := Option.some.inj hstep
          exact h.quiet rfl id id id
      next => cases hstep
  | returns =>
      simp only [ConnectionAction.step] at hstep
      split at hstep
      next => cases hstep
      next k ks _ =>
        obtain rfl := Option.some.inj hstep
        have hpopped : LifecycleInv { c with conts := ks } := h.quiet rfl id id id
        exact hpopped.resume k

/-- The life of a connection, where every `close` waits for the strand. -/
theorem callbacks_in_order {as : List ConnectionAction}
    (hgood : Machine.EachStep ConnectionAction.step WaitsForStrand as init)
    (hrun : Machine.run ConnectionAction.step as init = some c) : Lifecycle c.log := by
  have hinit : LifecycleInv init := by
    constructor
    · constructor
      · exact List.Pairwise.nil
      · rintro (hfalse | hfalse) <;> cases hfalse
    · nofun
    · nofun
    · rintro (hfalse | hfalse | hfalse) <;> cases hfalse
  have h := @Machine.invariant _ _ ConnectionAction.step WaitsForStrand LifecycleInv
    (fun _ _ _ hgood hinv hstep => hinv.step hgood hstep) as init c hgood hinit hrun
  exact h.lifecycle

/-- A connection of a client, up to the callback. -/
def toConnected : List ConnectionAction := [
  .connect, .onResolve none, .onConnect none, .onTlsHandshake none true,
  .onHandshakeFrame none .succeeded true, .returns]

/-- A frame is received, sent, and the connection closed. -/
def orderlyLife : List ConnectionAction :=
  toConnected ++ [.onDataFrame none, .send, .returns, .runDoSend, .onFrameSent none, .returns,
    .closeElsewhere, .runClose]

theorem callbacks_in_order_orderlyLife :
    ∃ c, Machine.run ConnectionAction.step orderlyLife init = some c ∧ Lifecycle c.log ∧
      c.log = [.onConnected, .onReceived, .onSent, .closeReturned] := by
  have hrun : Machine.run ConnectionAction.step orderlyLife init = some _ := rfl
  have hgood : Machine.EachStep ConnectionAction.step WaitsForStrand orderlyLife init := by
    unfold orderlyLife toConnected
    iterate 12 refine Machine.EachStep.cons trivial rfl ?_
    refine Machine.EachStep.cons nofun rfl ?_
    exact Machine.EachStep.cons trivial rfl trivial
  exact ⟨_, hrun, callbacks_in_order hgood hrun, by decide⟩

/-- While one thread's `close` waits for the strand, a callback that runs there calls
`close`, which returns at once; the handler of a frame is still to come. -/
def closeTwice : List ConnectionAction :=
  toConnected ++ [.send, .runDoSend, .closeElsewhere, .onDataFrame none, .closeOnStrand, .returns,
    .onFrameSent none]

/-- A callback comes behind a `close` that has returned. -/
theorem callback_behind_close :
    ¬ ∀ (as : List ConnectionAction) (c : Connection),
      Machine.run ConnectionAction.step as init = some c → Lifecycle c.log := by
  intro h
  have hrun : Machine.run ConnectionAction.step closeTwice init = some _ := rfl
  have hlife : Lifecycle [.onConnected, .onReceived, .closeReturned, .onSent] := h _ _ hrun
  have hordered := hlife.ordered
  rw [List.pairwise_cons, List.pairwise_cons, List.pairwise_cons] at hordered
  have hfollows := hordered.2.2.1 .onSent (List.mem_singleton.mpr rfl)
  cases hfollows.1 rfl

end Connection

end Securepath.Network
