import Securepath.Library.Machine
import Securepath.Serialisation.Types

/-!
# The TLS stream

`tls_stream` (`network/encryption/tls_stream.cpp`) on its strand. Botan is what
may happen in a call of its channel: the callbacks that it makes, and whether it
throws. The socket completes what was started on it at any time, with any error.

The handler of a read is invoked within `deliver_read`, so that it may call the
stream again before the function that delivered goes on; what that function still
does is a `Frame`. All other handlers are posted.
-/

namespace Securepath.Network

open Serialisation

/-! ## Errors and handlers -/

/-- `std::error_code`. -/
inductive Code where
  | connectionClosed
  | tlsFailure
  | handshakeFailed
  | alreadyConnected
  | invalidData
  | invalidRecord
  | operationInProgress
  | timedOut
  | eof
  | connectionReset
  | operationAborted
  /-- any other code of the system -/
  | system (n : Nat)
deriving DecidableEq, Repr

/-- `map_socket_error`. -/
def mapSocketError : Code → Code
  | .eof => .connectionClosed
  | .connectionReset => .connectionClosed
  | .operationAborted => .connectionClosed
  | ec => ec

/-- A completion handler, as the number of the call that it was given to. -/
abbrev Handler := Nat

/-- A handler and the arguments that it is invoked with. -/
structure Completion where
  handler : Handler
  ec : Option Code
  bytes : Nat
deriving DecidableEq, Repr

/-- `out_item`: a record, or the marker behind the records of a write. -/
structure OutItem where
  data : Octets
  handler : Option Handler
  userBytes : Nat
deriving DecidableEq, Repr

/-- `tls_alert`. -/
inductive Alert where
  | closeNotify
  | fatal
  | warning
deriving DecidableEq, Repr

/-- A callback of Botan. -/
inductive Callback where
  | emit (data : Octets)
  | record (data : Octets)
  | alert (a : Alert)
  | activated
deriving DecidableEq, Repr

/-- What a call of the channel does. -/
structure ChannelCall where
  callbacks : List Callback
  throws : Bool
deriving DecidableEq, Repr

/-- What is left to do behind `deliver_read`. -/
inductive Frame where
  | startRead
  | finishShutdown
deriving DecidableEq, Repr

/-- What the users and the peer see of the reading, in its order. -/
inductive ReadEvent where
  | received (data : Octets)
  | delivered (h : Handler) (data : Octets)
  /-- a read ends because the peer has closed -/
  | ended (h : Handler)
deriving DecidableEq, Repr

/-! ## State -/

structure TlsStream where
  channel : Bool
  handshake : Option Handler
  shutdown : Option Handler
  pendingBuffer : Nat
  pendingRead : Option Handler
  plainIn : Octets
  plainPos : Nat
  outQueue : List OutItem
  error : Option Code
  reading : Bool
  writing : Bool
  activated : Bool
  peerClosed : Bool
  closing : Bool
  closed : Bool
  /-- the functions that have invoked a handler, the innermost first -/
  frames : List Frame
  /-- the handlers that the strand has to run -/
  posted : List Completion
  /-- the writes that the socket has not completed -/
  inFlight : List Octets
  /-- the calls of the `async_` functions so far -/
  calls : Nat
  invoked : List Completion
  /-- the records that Botan has emitted, that were given to the socket, and that
  the socket has written -/
  emitted : List Octets
  submitted : List Octets
  written : List Octets
  /-- the accepted writes, with the number of records emitted until then -/
  accepted : List (Handler × Nat)
  /-- the completions of accepted writes -/
  completed : List Completion
  /-- the accepted `async_shutdown` -/
  shutdownCall : Option Handler
  reads : List ReadEvent

namespace TlsStream

/-- The constructor. -/
def init : TlsStream where
  channel := false
  handshake := none
  shutdown := none
  pendingBuffer := 0
  pendingRead := none
  plainIn := []
  plainPos := 0
  outQueue := []
  error := none
  reading := false
  writing := false
  activated := false
  peerClosed := false
  closing := false
  closed := false
  frames := []
  posted := []
  inFlight := []
  calls := 0
  invoked := []
  emitted := []
  submitted := []
  written := []
  accepted := []
  completed := []
  shutdownCall := none
  reads := []

/-- `read_high_water_mark`. -/
def readHighWaterMark : Nat := 1024 * 1024

variable (s : TlsStream)

/-- `asio::post` of a handler. -/
def post (h : Handler) (ec : Option Code) (bytes : Nat) : TlsStream :=
  { s with posted := s.posted ++ [⟨h, ec, bytes⟩] }

/-- The posted completion of a handler that may be empty. -/
def completionOf (h : Option Handler) (ec : Option Code) : List Completion :=
  (h.map fun h => ⟨h, ec, 0⟩).toList

/-! ## Ending a handler -/

def endHandshake (ec : Option Code) : TlsStream :=
  { s with posted := s.posted ++ completionOf s.handshake ec, handshake := none }

def endRead (ec : Option Code) : TlsStream :=
  { s with posted := s.posted ++ completionOf s.pendingRead ec, pendingRead := none }

def endShutdown (ec : Option Code) : TlsStream :=
  { s with posted := s.posted ++ completionOf s.shutdown ec, shutdown := none }

/-- The completions of the markers among `items`. -/
def markerCompletions (ec : Option Code) (items : List OutItem) : List Completion :=
  items.filterMap fun item => item.handler.map fun h =>
    ⟨h, ec, if ec.isSome then 0 else item.userBytes⟩

/-- The first `n` items leave the queue with the completions of their markers. -/
def endItems (ec : Option Code) (n : Nat) : TlsStream :=
  { s with
    outQueue := s.outQueue.drop n
    posted := s.posted ++ markerCompletions ec (s.outQueue.take n)
    completed := s.completed ++ markerCompletions ec (s.outQueue.take n) }

/-! ## Shutdown, close and errors -/

def finishShutdown : TlsStream :=
  if !s.closing || s.writing || s.outQueue ≠ [] || s.closed then s
  else
    -- without a peer that has closed, the stream goes on reading
    endShutdown { s with closed := s.peerClosed } none

def failPending (ec : Code) : TlsStream :=
  (((s.endHandshake (some ec)).endRead (some ec)).endItems (some ec) s.outQueue.length).endShutdown
    (some ec)

def fail (ec : Code) : TlsStream :=
  if s.error.isSome || s.closed then s
  else failPending { s with error := some ec, closed := true } ec

/-! ## Writing to the socket -/

/-- The empty items at the front of the queue are taken off it. -/
def completeWriteMarkers : TlsStream :=
  s.endItems s.error (s.outQueue.takeWhile (·.data.isEmpty)).length

def startWrite : TlsStream :=
  if s.writing || s.closed then s
  else
    let s := s.completeWriteMarkers
    match s.outQueue with
    | [] => if s.closing then s.finishShutdown else s
    | item :: _ => { s with
        writing := true
        inFlight := s.inFlight ++ [item.data]
        submitted := s.submitted ++ [item.data] }

/-- `on_written`, for a write of `data`. -/
def onWritten (ec : Option Code) (data : Octets) : TlsStream :=
  let s := { s with
    writing := false
    written := if ec.isSome then s.written else s.written ++ [data] }
  if s.closed then s
  else
    let s := { s with outQueue := s.outQueue.tail }
    match ec with
    | some ec => s.fail (mapSocketError ec)
    | none => s.startWrite

/-! ## The callbacks of Botan -/

def onEmit (data : Octets) : TlsStream :=
  startWrite { s with
    outQueue := s.outQueue ++ [⟨data, none, 0⟩]
    -- an empty emission is no record
    emitted := if data.isEmpty then s.emitted else s.emitted ++ [data] }

def onRecord (data : Octets) : TlsStream :=
  { s with
    plainIn := s.plainIn ++ data
    reads := s.reads ++ [.received data] }

def onActivated : TlsStream :=
  endHandshake { s with activated := true } none

def onAlert : Alert → TlsStream
  | .closeNotify => { s with peerClosed := true }
  | .fatal => s.fail (if s.activated then .tlsFailure else .handshakeFailed)
  | .warning => s

def callback : Callback → TlsStream
  | .emit data => s.onEmit data
  | .record data => s.onRecord data
  | .alert a => s.onAlert a
  | .activated => s.onActivated

def callbacks (cs : List Callback) : TlsStream := cs.foldl callback s

/-! ## Reading -/

/-- `start_read`: pausing while much waits for the user. -/
def startRead : TlsStream :=
  if s.reading || s.closed || s.error.isSome || s.peerClosed ||
      readHighWaterMark ≤ s.plainIn.length - s.plainPos then s
  else { s with reading := true }

def compactPlainIn : TlsStream :=
  if s.plainPos = s.plainIn.length then { s with plainIn := [], plainPos := 0 }
  else if s.plainIn.length / 2 < s.plainPos then
    { s with plainIn := s.plainIn.drop s.plainPos, plainPos := 0 }
  else s

/-- `deliver_read`, when it invokes the handler `h`. -/
def deliverTo (h : Handler) : TlsStream :=
  let available := s.plainIn.length - s.plainPos
  if 0 < available then
    let n := min available s.pendingBuffer
    let data := (s.plainIn.drop s.plainPos).take n
    let s := compactPlainIn { s with plainPos := s.plainPos + n }
    { s with
      pendingRead := none
      invoked := s.invoked ++ [⟨h, none, n⟩]
      reads := s.reads ++ [.delivered h data] }
  else
    { s with
      pendingRead := none
      invoked := s.invoked ++ [⟨h, some (s.error.getD .connectionClosed), 0⟩]
      reads := if s.error.isSome then s.reads else s.reads ++ [.ended h] }

/-- What a frame does when the handler has returned. -/
def runFrame : Frame → TlsStream
  | .startRead => s.startRead
  | .finishShutdown => s.finishShutdown

/-- `deliver_read` and what is behind it. -/
def deliverRead (f : Frame) : TlsStream :=
  match s.pendingRead with
  | none => s.runFrame f
  | some h =>
      if 0 < s.plainIn.length - s.plainPos ∨ s.error.isSome ∨ s.peerClosed then
        { s.deliverTo h with frames := f :: s.frames }
      else
        s.runFrame f

def onRead (ec : Option Code) (call : ChannelCall) : TlsStream :=
  let s := { s with reading := false }
  if s.closed then s
  else
    match ec with
    | some ec =>
        if s.closing || s.activated then
          deliverRead { s with peerClosed := true } .finishShutdown
        else
          s.fail (mapSocketError ec)
    | none =>
        let s := s.callbacks call.callbacks
        if call.throws then s.fail (if s.activated then .tlsFailure else .handshakeFailed)
        else s.deliverRead .startRead

/-! ## The calls of the users -/

def doHandshake (call : ChannelCall) : TlsStream :=
  let s := s.callbacks call.callbacks
  if call.throws then s.fail .handshakeFailed
  else startRead { s with channel := true }

def asyncHandshake (call : ChannelCall) : TlsStream :=
  let h := s.calls
  let s := { s with calls := s.calls + 1 }
  if s.channel || s.closed then s.post h (some .alreadyConnected) 0
  else doHandshake { s with handshake := some h } call

/-- `do_read_some`, for a buffer of `size` octets. -/
def asyncReadSome (size : Nat) : TlsStream :=
  let h := s.calls
  let s := { s with calls := s.calls + 1 }
  if s.pendingRead.isSome then s.post h (some .operationInProgress) 0
  else if s.closed || s.closing then s.post h (some (s.error.getD .connectionClosed)) 0
  else deliverRead { s with pendingBuffer := size, pendingRead := some h } .startRead

/-- `do_write`, of `size` octets. -/
def asyncWrite (size : Nat) (call : ChannelCall) : TlsStream :=
  let h := s.calls
  let s := { s with calls := s.calls + 1 }
  if s.error.isSome || s.closed || s.closing || !s.activated then
    s.post h (some (s.error.getD .connectionClosed)) 0
  else
    let s := s.callbacks call.callbacks
    if call.throws then
      let s := s.fail .tlsFailure
      s.post h s.error 0
    else
      startWrite { s with
        outQueue := s.outQueue ++ [⟨[], some h, size⟩]
        accepted := s.accepted ++ [(h, s.emitted.length)] }

/-- `channel_->close()`; there is no call when Botan has closed the channel for
writing. What it throws is only logged. -/
def closeChannel (call : Option ChannelCall) : TlsStream :=
  match call with
  | none => s
  | some call => if s.channel then s.callbacks call.callbacks else s

def asyncShutdown (call : Option ChannelCall) : TlsStream :=
  let h := s.calls
  let s := { s with calls := s.calls + 1 }
  if s.closed || s.closing || s.error.isSome then
    s.post h (some (s.error.getD .connectionClosed)) 0
  else
    let s := { s with closing := true, shutdown := some h, shutdownCall := some h }
    startWrite ((s.endRead (some .connectionClosed)).closeChannel call)

def close : TlsStream :=
  if s.closed then s
  else failPending { s with closed := true } (s.error.getD .connectionClosed)

/-! ## Steps -/

inductive Action where
  | asyncHandshake (call : ChannelCall)
  | asyncReadSome (size : Nat)
  | asyncWrite (size : Nat) (call : ChannelCall)
  | asyncShutdown (call : Option ChannelCall)
  | close
  | onRead (ec : Option Code) (call : ChannelCall)
  | onWritten (ec : Option Code)
  /-- the handler of a read returns -/
  | returns
  /-- the strand runs the next handler -/
  | invoke
deriving DecidableEq, Repr

/-- A step on the strand; the socket and the posted handlers wait while a handler
has not returned. -/
def step : Action → TlsStream → Option TlsStream
  | .asyncHandshake call, s => some (s.asyncHandshake call)
  | .asyncReadSome size, s => some (s.asyncReadSome size)
  | .asyncWrite size call, s => some (s.asyncWrite size call)
  | .asyncShutdown call, s => some (s.asyncShutdown call)
  | .close, s => some s.close
  | .onRead ec call, s =>
      if s.frames = [] ∧ s.reading then some (s.onRead ec call) else none
  | .onWritten ec, s =>
      match s.frames, s.inFlight with
      | [], data :: rest => some (onWritten { s with inFlight := rest } ec data)
      | _, _ => none
  | .returns, s =>
      match s.frames with
      | [] => none
      | f :: fs => some (runFrame { s with frames := fs } f)
  | .invoke, s =>
      match s.frames, s.posted with
      | [], c :: cs => some { s with posted := cs, invoked := s.invoked ++ [c] }
      | _, _ => none

/-! ## Inversions -/

variable {s} {t : TlsStream}

theorem onWritten_of_step {ec : Option Code} (h : step (.onWritten ec) s = some t) :
    ∃ data rest, s.frames = [] ∧ s.inFlight = data :: rest ∧
      t = onWritten { s with inFlight := rest } ec data := by
  simp only [step] at h
  split at h
  next data rest hframes hflight =>
    exact ⟨data, rest, hframes, hflight, (Option.some.inj h).symm⟩
  next => cases h

theorem returns_of_step (h : step .returns s = some t) :
    ∃ f fs, s.frames = f :: fs ∧ t = runFrame { s with frames := fs } f := by
  simp only [step] at h
  split at h
  next => cases h
  next f fs hframes => exact ⟨f, fs, hframes, (Option.some.inj h).symm⟩

theorem invoke_of_step (h : step .invoke s = some t) :
    ∃ c cs, s.frames = [] ∧ s.posted = c :: cs ∧
      t = { s with posted := cs, invoked := s.invoked ++ [c] } := by
  simp only [step] at h
  split at h
  next c cs hframes hposted => exact ⟨c, cs, hframes, hposted, (Option.some.inj h).symm⟩
  next => cases h

end TlsStream

end Securepath.Network
