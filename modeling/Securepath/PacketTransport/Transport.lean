import Securepath.PacketTransport.Client

/-!
# The packet transport

Clients and their server, with the packets that are on the way between them. A
connection delivers in order and may end at any time, with what it still has to
deliver; so may a client, which keeps its tables, and the server, which keeps
its table and comes back without connections. A connection of the transport has
a number of its own.
-/

namespace Securepath.PacketTransport

structure Transport (K P : Type) where
  server : Server K P
  clients : K → Client K P
  toServer : ConnectionId → List (ToServer K P)
  toClient : ConnectionId → List (ToClient P)
  nextConnection : ConnectionId

inductive TransportAction (K P : Type) where
  /-- the client of a key connects -/
  | connect (k : K)
  | client (k : K) (a : ClientAction K P)
  /-- the client of a key handles the next packet of its connection -/
  | receive (k : K)
  /-- the server handles the next packet of a connection -/
  | deliver (c : ConnectionId)
  | server (a : ServerAction K P)
  | crash
deriving DecidableEq

/-- What the server does for a packet of a client. -/
def ToServer.action {K P : Type} : ToServer K P → ConnectionAction K P
  | .hello => .hello
  | .transportPacket p => .transportPacket p.receiver p.packet p.ack
  | .ackPacket ack => .ackPacket ack

/-- The steps that the server takes without a packet of a client. -/
def ServerAction.ofServer {K P : Type} : ServerAction K P → Bool
  | .connection _ .readIndex | .connection _ .readStored | .connection _ .insertPending
  | .connection _ .sendNext | .connection _ .forward | .connection _ .disconnect
  | .storage _ => true
  | _ => false

namespace Server

variable {K P : Type} [DecidableEq K] (s : Server K P)

/-- What a connection sends in a step. -/
def emittedBy (c : ConnectionId) (conn : Connection K P) :
    ConnectionAction K P → List (ConnectionId × ToClient P)
  -- the hello of the client goes back, with its error, which is none
  | .hello => [(c, .hello false)]
  | .sendNext =>
      match conn.handler with
      | .sending (x :: _) => [(c, .transportPacket x.handle.ack x.packet)]
      | _ => []
  | .forward =>
      match conn.handler with
      | .forwarding receiver handle packet =>
          ((s.setConnection c { conn with handler := .idle }).findConnection receiver).toList.map
            fun found => (found.1, .transportPacket handle.ack packet)
      | _ => []
  | _ => []

/-- What the server sends in a step. -/
def emitted : ServerAction K P → List (ConnectionId × ToClient P)
  | .connected .. => []
  | .connection c a =>
      match s.connections c with
      | none => []
      | some conn => s.emittedBy c conn a
  | .storage a => (s.doAck a).map fun m => (m.1, .ackPacket m.2)

end Server

namespace Transport

variable {K P : Type} [DecidableEq K] (t : Transport K P)

/-- Clients with empty tables, and a server over a table. -/
def init (table : List (Row K P)) : Transport K P where
  server := .init table
  clients := fun _ => .init
  toServer := fun _ => []
  toClient := fun _ => []
  nextConnection := 0

/-- The packets on the way to the clients, behind those that are sent. -/
def post (messages : List (ConnectionId × ToClient P)) (c : ConnectionId) : List (ToClient P) :=
  t.toClient c ++ (messages.filter (·.1 = c)).map Prod.snd

/-- A client goes on and sends on its connection, if it has one. -/
def setClient (k : K) (client : Client K P) (out : List (ToServer K P)) :
    Transport K P :=
  { t with
    clients := Function.update t.clients k client
    toServer := match (t.clients k).connection with
      | none => t.toServer
      | some c => Function.update t.toServer c (t.toServer c ++ out) }

/-- The server goes on. -/
def serverStep (issuer : P → K) (a : ServerAction K P) : Option (Transport K P) :=
  (t.server.step issuer a).map fun s =>
    { t with server := s, toClient := t.post (t.server.emitted a) }

def connect (issuer : P → K) (k : K) : Option (Transport K P) :=
  if (t.clients k).state = .notConnected then
    (t.serverStep issuer (.connected t.nextConnection k)).map fun t' =>
      { t' with
        clients := Function.update t.clients k { t.clients k with
          connection := some t.nextConnection, state := .connecting, greeted := false }
        nextConnection := t.nextConnection + 1 }
  else
    none

def receive (k : K) : Option (Transport K P) :=
  match (t.clients k).connection with
  | none => none
  | some c =>
      match t.toClient c with
      | [] => none
      | m :: rest =>
          if (t.clients k).greeted = true ∧ (t.clients k).pending.isEmpty then
            some { t.setClient k ((t.clients k).handle m).1 ((t.clients k).handle m).2 with
              toClient := Function.update t.toClient c rest }
          else
            none

def deliver (issuer : P → K) (c : ConnectionId) : Option (Transport K P) :=
  match t.toServer c with
  | [] => none
  | m :: rest =>
      (t.serverStep issuer (.connection c m.action)).map fun t' =>
        { t' with toServer := Function.update t.toServer c rest }

/-- The server ends and starts again; its connections are gone. -/
def crash : Transport K P :=
  { t with server := .init t.server.store.storage.table }

def step (issuer : P → K) : TransportAction K P → Transport K P → Option (Transport K P)
  | .connect k, t => t.connect issuer k
  -- a packet of a client is signed with the client's key
  | .client k (.insertPacket receiver packet), t =>
      if issuer packet = k then
        some (t.setClient k ((t.clients k).insertPacket receiver packet) [])
      else
        none
  | .client k a, t =>
      ((t.clients k).step a).map fun r => t.setClient k r.1 r.2
  | .receive k, t => t.receive k
  | .deliver c, t => t.deliver issuer c
  | .server a, t => if a.ofServer then t.serverStep issuer a else none
  | .crash, t => some t.crash

/-! ## Pieces of runs -/

namespace Session

/-- A client connects and gets its hello. -/
def greet (k : Nat) (c : ConnectionId) : List (TransportAction Nat Nat) :=
  [.connect k, .client k .becomeConnected, .client k .onConnected, .deliver c,
    .server (.connection c .readIndex), .server (.connection c .readStored),
    .server (.connection c .insertPending), .server (.connection c .sendNext), .receive k]

/-- The storage thread handles a packet, up to the notification. -/
def stored : List (TransportAction Nat Nat) :=
  [.server (.storage .nextPacket), .server (.storage .testFlag),
    .server (.storage (.threadWrite true)), .server (.storage .threadNotify)]

end Session

end Transport

end Securepath.PacketTransport
