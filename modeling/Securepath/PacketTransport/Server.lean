import Securepath.PacketTransport.StorageCorrectness

/-!
# The packet server

The server over its storage
(`infrastructure/packet_transport/server/server_lib/connection.cpp`,
`packet_server.cpp`). The packets of one connection are handled one after the
other, those of different connections at the same time: `Handler` is where the
handler of a connection is, and a step goes to the next lock. A handle of the
storage is marked as acked in one place, `ackPacket`.
-/

namespace Securepath.PacketTransport

/-- A connection, as what `notify` captures knows it. -/
abbrev ConnectionId := Nat

/-- What the handler of a connection does next. -/
inductive Handler (K P : Type) where
  | idle
  /-- `on_connect`, behind `conns[id] = conn` -/
  | published
  /-- `get_pending_packets`, behind its locked section -/
  | found (packets : List (StoredPacket P))
  /-- `send` of the pending packets, before its lock -/
  | collected (packets : List (StoredPacket P))
  | sending (packets : List (StoredPacket P))
  /-- `transport_packet`, behind the insertion -/
  | forwarding (receiver : K) (handle : PacketHandle) (packet : P)
deriving DecidableEq

/-- `connection` and `packet_server_client`; it is `alive` while its weak
pointers lock. -/
structure Connection (K P : Type) where
  remoteKeyId : K
  id : Option K
  connectionGood : Bool
  alive : Bool
  handler : Handler K P
  ackMap : List (Nat × PacketHandle)
deriving DecidableEq

namespace Connection

variable {K P : Type} [DecidableEq K] (conn : Connection K P)

/-- The connection can handle its next packet. -/
def Ready : Prop := conn.alive = true ∧ conn.handler matches .idle

instance : Decidable conn.Ready := inferInstanceAs (Decidable (_ ∧ _))

/-- `ack_map_.insert`, which leaves an entry that is there. -/
def insertAck (h : PacketHandle) : Connection K P :=
  if conn.ackMap.any (·.1 = h.ack) then conn
  else { conn with ackMap := (h.ack, h) :: conn.ackMap }

/-- The insertions of `send` for the pending packets. -/
def insertAcks (packets : List (StoredPacket P)) : Connection K P :=
  packets.foldl (fun conn x => conn.insertAck x.handle) conn

/-- `ack_map_.find` -/
def findAck (ack : Nat) : Option PacketHandle :=
  (conn.ackMap.find? (·.1 = ack)).map Prod.snd

end Connection

structure Server (K P : Type) where
  store : History K P ConnectionId
  connections : ConnectionId → Option (Connection K P)
  conns : K → Option ConnectionId
  /-- the packets that were sent, by connection and ack -/
  sent : List (ConnectionId × Nat)
  acksSent : List (ConnectionId × Nat)
  /-- the calls of `mark_as_acked` -/
  marked : List (ConnectionId × Nat)

/-- What a connection does. -/
inductive ConnectionAction (K P : Type) where
  | hello
  | readIndex
  | readStored
  | insertPending
  | sendNext
  | transportPacket (receiver : K) (packet : P) (ack : Nat)
  | forward
  | ackPacket (ack : Nat)
  | errorPacket (ack : Nat)
  | disconnect
deriving DecidableEq

inductive ServerAction (K P : Type) where
  | connected (c : ConnectionId) (remoteKeyId : K)
  | connection (c : ConnectionId) (a : ConnectionAction K P)
  | storage (a : StorageAction K P ConnectionId)
deriving DecidableEq

/-- The steps that the storage takes by itself. -/
def StorageAction.ofStorage {K P N : Type} : StorageAction K P N → Bool
  | .pushRemove _ | .nextPacket | .testFlag | .threadWrite _ | .threadNotify
  | .threadRemove _ => true
  | _ => false

namespace Server

variable {K P : Type} [DecidableEq K] (s : Server K P)

def init (table : List (Row K P)) : Server K P where
  store := .init table
  connections := fun _ => none
  conns := fun _ => none
  sent := []
  acksSent := []
  marked := []

def setConnection (c : ConnectionId) (conn : Connection K P) : Server K P :=
  { s with connections := Function.update s.connections c (some conn) }

/-- `lock()` of the weak pointer that `conns` has for a key. -/
def findConnection (k : K) : Option (ConnectionId × Connection K P) :=
  match s.conns k with
  | none => none
  | some c =>
      match s.connections c with
      | none => none
      | some conn => if conn.alive then some (c, conn) else none

/-! ## `on_connect` -/

/-- `operator()(hello)`, up to the lock of `packet_server::impl::on_connect`. -/
def hello (c : ConnectionId) (conn : Connection K P) : Server K P :=
  { s.setConnection c { conn with id := some conn.remoteKeyId, handler := .published } with
    -- a newer connection of a key takes the place of the older one
    conns := Function.update s.conns conn.remoteKeyId (some c) }

def readIndex (c : ConnectionId) (conn : Connection K P) : Server K P :=
  s.setConnection c { conn with
    handler := .found (s.store.storage.pendingQueued conn.remoteKeyId) }

def readStored (c : ConnectionId) (conn : Connection K P) (packets : List (StoredPacket P)) :
    Server K P :=
  { s.setConnection c { conn with
      handler := .collected (PacketStorage.sortPending
        (s.store.storage.pendingStored conn.remoteKeyId ++ packets)) } with
    store := s.store.query conn.remoteKeyId }

def insertPending (c : ConnectionId) (conn : Connection K P) (packets : List (StoredPacket P)) :
    Server K P :=
  s.setConnection c { conn.insertAcks packets with handler := .sending packets }

/-- The loop of `send`, and the end of `operator()(hello)` behind it. -/
def sendNext (c : ConnectionId) (conn : Connection K P) : List (StoredPacket P) → Server K P
  | [] => s.setConnection c { conn with handler := .idle, connectionGood := true }
  | x :: packets =>
      { s.setConnection c { conn with handler := .sending packets } with
        sent := s.sent ++ [(c, x.handle.ack)] }

/-! ## The packets -/

/-- `transport_packet`, up to the insertion. -/
def transportPacket (issuer : P → K) (c : ConnectionId) (conn : Connection K P) (receiver : K)
    (packet : P) (ack : Nat) : Server K P :=
  match conn.id with
  | none => s
  | some id =>
      -- a packet of another issuer is dropped, and its sender is not told
      if issuer packet = id then
        { s.setConnection c { conn with
            handler := .forwarding receiver ⟨s.store.storage.sequence + 1, true⟩ packet } with
          store := s.store.insert receiver packet ack id c }
      else
        s

/-- `transport_packet` behind the insertion: under the lock the packet is sent
to the connection of its receiver. -/
def forward (c : ConnectionId) (conn : Connection K P) (receiver : K) (handle : PacketHandle) :
    Server K P :=
  let s' := s.setConnection c { conn with handler := .idle }
  match s'.findConnection receiver with
  | none => s'
  | some (d, found) =>
      { s'.setConnection d (found.insertAck handle) with sent := s.sent ++ [(d, handle.ack)] }

def ackPacket (c : ConnectionId) (conn : Connection K P) (ack : Nat) : Server K P :=
  match conn.findAck ack with
  -- not an ack that was sent to this connection
  | none => s
  | some h => { s with store := s.store.markAsAcked h, marked := (c, h.ack) :: s.marked }

/-- `terminate`, for a packet before the hello. -/
def terminate (c : ConnectionId) (conn : Connection K P) : Server K P :=
  s.setConnection c { conn with alive := false }

/-- A packet other than the hello. -/
def onPacket (c : ConnectionId) (conn : Connection K P) (handled : Server K P) :
    Option (Server K P) :=
  if conn.Ready then some (if conn.connectionGood then handled else s.terminate c conn) else none

def connectionStep (issuer : P → K) (c : ConnectionId) (conn : Connection K P) :
    ConnectionAction K P → Option (Server K P)
  | .hello => if conn.Ready then some (s.hello c conn) else none
  | .readIndex =>
      match conn.handler with
      | .published => some (s.readIndex c conn)
      | _ => none
  | .readStored =>
      match conn.handler with
      | .found packets => some (s.readStored c conn packets)
      | _ => none
  | .insertPending =>
      match conn.handler with
      | .collected packets => some (s.insertPending c conn packets)
      | _ => none
  | .sendNext =>
      match conn.handler with
      | .sending packets => some (s.sendNext c conn packets)
      | _ => none
  | .transportPacket receiver packet ack =>
      s.onPacket c conn (s.transportPacket issuer c conn receiver packet ack)
  | .forward =>
      match conn.handler with
      | .forwarding receiver handle _ => some (s.forward c conn receiver handle)
      | _ => none
  | .ackPacket ack => s.onPacket c conn (s.ackPacket c conn ack)
  | .errorPacket _ => s.onPacket c conn s
  | .disconnect => if conn.Ready then some (s.terminate c conn) else none

/-! ## The storage -/

/-- The connection that `do_ack` sends to: the one that sent the packet, or a
newer one of the same key. -/
def ackTo (p : QueuedPacket K P ConnectionId) : Option ConnectionId :=
  match s.connections p.notify with
  -- `wconn.lock()`
  | some conn => if conn.alive then some p.notify else (s.findConnection p.sender).map Prod.fst
  | none => (s.findConnection p.sender).map Prod.fst

/-- The acks that `do_ack` sends in a step of the storage. -/
def doAck : StorageAction K P ConnectionId → List (ConnectionId × Nat)
  | .threadNotify =>
      match s.store.storage.p with
      | none => []
      | some p => (s.ackTo p).toList.map fun c => (c, p.senderAck)
  | _ => []

def step (issuer : P → K) : ServerAction K P → Server K P → Option (Server K P)
  | .connected c remoteKeyId, s =>
      if (s.connections c).isNone then
        some (s.setConnection c ⟨remoteKeyId, none, false, true, .idle, []⟩)
      else
        none
  | .connection c a, s =>
      match s.connections c with
      | none => none
      | some conn => s.connectionStep issuer c conn a
  | .storage a, s =>
      if a.ofStorage then
        (History.step a s.store).map fun t =>
          { s with store := t, acksSent := s.acksSent ++ s.doAck a }
      else
        none

end Server

end Securepath.PacketTransport
