import Securepath.PacketTransport.Server

/-!
# The packet client

The client of the packet server
(`infrastructure/packet_transport/client/packet_client.cpp`) over its two tables
(`out_packets.cpp`, `in_packets.cpp`). A packet that is sent stands in
`out_packets` until an ack with its key comes. `send_packet` runs on the threads
of the application, the handlers run on the one of the connection: a step goes
to the next statement of the database, to the test of `send_packet` or to a send.
-/

namespace Securepath.PacketTransport

/-- A row of the table `out_packets`; the ack of the packet is the key of its row. -/
structure OutPacket (K P : Type) where
  ack : Nat
  receiver : K
  packet : P
deriving DecidableEq

/-- A row of the table `in_packets`. -/
structure InPacket (P : Type) where
  key : Nat
  packet : P
deriving DecidableEq

/-- What a client sends. -/
inductive ToServer (K P : Type) where
  | hello
  | transportPacket (p : OutPacket K P)
  | ackPacket (ack : Nat)
deriving DecidableEq

/-- What a client handles; an error of the hello is whether there is one. -/
inductive ToClient (P : Type) where
  | hello (error : Bool)
  | errorPacket (ack : Nat)
  | transportPacket (ack : Nat) (packet : P)
  | ackPacket (ack : Nat)
deriving DecidableEq

/-- The key of the row that is removed for a packet of the server. -/
def ToClient.removed {P : Type} : ToClient P → Option Nat
  | .errorPacket ack | .ackPacket ack => some ack
  | _ => none

/-- `encrypted_connection::connection_state` -/
inductive ConnectionState where
  | notConnected
  | connecting
  | connected
deriving DecidableEq

/-- `INTEGER PRIMARY KEY`: a new row gets the key behind the largest one. -/
def nextKey (keys : List Nat) : Nat := keys.foldr max 0 + 1

theorem le_foldr_max {keys : List Nat} {key : Nat} (h : key ∈ keys) : key ≤ keys.foldr max 0 := by
  induction keys with
  | nil => exact absurd h List.not_mem_nil
  | cons first keys ih =>
      rcases List.mem_cons.mp h with rfl | h
      · exact Nat.le_max_left ..
      · exact (ih h).trans (Nat.le_max_right ..)

theorem lt_nextKey {keys : List Nat} {key : Nat} (h : key ∈ keys) : key < nextKey keys :=
  Nat.lt_succ_of_le (le_foldr_max h)

structure Client (K P : Type) where
  outPackets : List (OutPacket K P)
  inPackets : List (InPacket P)
  /-- the connection that the client has or is making -/
  connection : Option ConnectionId
  state : ConnectionState
  /-- `on_connected` has run on the connection -/
  greeted : Bool
  helloDone : Bool
  /-- the calls of `send_packet` before their test -/
  inserted : List (OutPacket K P)
  /-- the calls of `send_packet` before `send` -/
  tested : List (OutPacket K P)
  /-- what the loop of `handle(hello)` still sends -/
  pending : List (OutPacket K P)
  /-- the packets that `send_packet` was called with -/
  sent : List (OutPacket K P)
  /-- the rows that `in_packets` was ever given -/
  received : List (InPacket P)
  /-- the keys that `mark_seen` was called for -/
  seen : List Nat

/-- What the application and the network do to a client. -/
inductive ClientAction (K P : Type) where
  | becomeConnected
  | onConnected
  | onDisconnected
  /-- the end of the process, which leaves the tables -/
  | restart
  | insertPacket (receiver : K) (packet : P)
  | testConnection (call : Nat)
  | sendPacket (call : Nat)
  | sendPending
  | markSeen (key : Nat)
deriving DecidableEq

namespace Client

variable {K P : Type} (s : Client K P)

def init : Client K P where
  outPackets := []
  inPackets := []
  connection := none
  state := .notConnected
  greeted := false
  helloDone := false
  inserted := []
  tested := []
  pending := []
  sent := []
  received := []
  seen := []

/-! ## `out_packets` -/

/-- The key that `out_packets::insert` gives out. -/
def outKey : Nat := nextKey (s.outPackets.map OutPacket.ack)

/-- `out_packets::remove` -/
def removeOut (ack : Nat) : Client K P :=
  { s with outPackets := s.outPackets.filter (·.ack ≠ ack) }

/-- `send_packet`, up to the row of `out_packets`. -/
def insertPacket (receiver : K) (packet : P) : Client K P :=
  { s with
    outPackets := s.outPackets ++ [⟨s.outKey, receiver, packet⟩]
    inserted := s.inserted ++ [⟨s.outKey, receiver, packet⟩]
    sent := s.sent ++ [⟨s.outKey, receiver, packet⟩] }

/-! ## `in_packets` -/

def inKey : Nat := nextKey (s.inPackets.map InPacket.key)

/-- `in_packets::insert` -/
def insertIn (packet : P) : Client K P :=
  { s with
    inPackets := s.inPackets ++ [⟨s.inKey, packet⟩]
    received := s.received ++ [⟨s.inKey, packet⟩] }

/-- `mark_seen` of an `in_packet`. -/
def markSeen (key : Nat) : Client K P :=
  { s with inPackets := s.inPackets.filter (·.key ≠ key), seen := key :: s.seen }

/-! ## Handling a packet of the server -/

/-- `shutdown`, and what else ends the connection; `hello_done` stays. -/
def onDisconnected : Client K P :=
  { s with connection := none, state := .notConnected, greeted := false, pending := [] }

/-- The handlers, with what is sent at once. -/
def handle : ToClient P → Client K P × List (ToServer K P)
  -- the packets of `get_pending_packets` are sent one by one
  | .hello false => ({ s with helloDone := true, pending := s.outPackets }, [])
  | .hello true => (s.onDisconnected, [])
  | .errorPacket ack => (s.removeOut ack, [])
  | .transportPacket ack packet => (s.insertIn packet, [.ackPacket ack])
  | .ackPacket ack => (s.removeOut ack, [])


/-! ## The steps -/

/-- A step of a client by itself, with what it sends. -/
def step : ClientAction K P → Client K P → Option (Client K P × List (ToServer K P))
  | .becomeConnected, s =>
      if s.state = .connecting then some ({ s with state := .connected }, []) else none
  | .onConnected, s =>
      if s.state = .connected ∧ s.greeted = false then
        some ({ s with helloDone := false, greeted := true }, [.hello])
      else
        none
  | .onDisconnected, s => some (s.onDisconnected, [])
  | .restart, s =>
      some ({ s.onDisconnected with helloDone := false, inserted := [], tested := [] }, [])
  | .insertPacket receiver packet, s => some (s.insertPacket receiver packet, [])
  | .testConnection call, s =>
      s.inserted[call]?.map fun p =>
        -- without a connection the packet is in the table, waiting
        ({ s with
          inserted := s.inserted.eraseIdx call
          tested := if s.state = .connected ∧ s.helloDone then s.tested ++ [p] else s.tested }, [])
  -- the connection may be another one than the one that was tested
  | .sendPacket call, s =>
      s.tested[call]?.map fun p =>
        ({ s with tested := s.tested.eraseIdx call }, [.transportPacket p])
  | .sendPending, s =>
      match s.pending with
      | [] => none
      | p :: pending => some ({ s with pending := pending }, [.transportPacket p])
  | .markSeen key, s => some (s.markSeen key, [])

/-! ## What a step does -/

/-- The packets that the client has in its hands, beside its table. -/
def underWay : List (OutPacket K P) := s.inserted ++ s.tested ++ s.pending

/-- A packet was inserted into `in_packets`. -/
def Received (packet : P) : Prop := ∃ row ∈ s.received, row.packet = packet

variable {s} {t : Client K P} {out : List (ToServer K P)}

theorem mem_removeOut {ack : Nat} {row : OutPacket K P} :
    row ∈ (s.removeOut ack).outPackets ↔ row ∈ s.outPackets ∧ row.ack ≠ ack := by
  simp [removeOut]

theorem underWay_onDisconnected {p : OutPacket K P} (h : p ∈ s.onDisconnected.underWay) :
    p ∈ s.underWay := by
  simp only [underWay, onDisconnected, List.append_nil] at h ⊢
  exact List.mem_append_left _ h

/-- What a step of a client other than `insertPacket` keeps. -/
structure Frame (s t : Client K P) (out : List (ToServer K P)) : Prop where
  outPackets : t.outPackets = s.outPackets
  sent : t.sent = s.sent
  received : t.received = s.received
  connection : t.connection = s.connection ∨ t.connection = none
  underWay : ∀ p ∈ t.underWay, p ∈ s.underWay
  out : ∀ m ∈ out, m = .hello ∨ ∃ p ∈ s.underWay, m = .transportPacket p

theorem frame_of_step {a : ClientAction K P}
    (ha : ∀ receiver packet, a ≠ .insertPacket receiver packet)
    (hstep : step a s = some (t, out)) : Frame s t out := by
  cases a with
  | becomeConnected =>
      simp only [step, Option.ite_none_right_eq_some, Option.some.injEq, Prod.mk.injEq] at hstep
      rcases hstep with ⟨_, rfl, rfl⟩
      exact ⟨rfl, rfl, rfl, Or.inl rfl, fun _ hp => hp, by simp⟩
  | onConnected =>
      simp only [step, Option.ite_none_right_eq_some, Option.some.injEq, Prod.mk.injEq] at hstep
      rcases hstep with ⟨_, rfl, rfl⟩
      exact ⟨rfl, rfl, rfl, Or.inl rfl, fun _ hp => hp, by simp⟩
  | onDisconnected =>
      simp only [step, Option.some.injEq, Prod.mk.injEq] at hstep
      rcases hstep with ⟨rfl, rfl⟩
      exact ⟨rfl, rfl, rfl, Or.inr rfl, fun _ hp => underWay_onDisconnected hp, by simp⟩
  | restart =>
      simp only [step, Option.some.injEq, Prod.mk.injEq] at hstep
      rcases hstep with ⟨rfl, rfl⟩
      exact ⟨rfl, rfl, rfl, Or.inr rfl, by simp [underWay, onDisconnected], by simp⟩
  | insertPacket receiver packet => exact absurd rfl (ha receiver packet)
  | testConnection call =>
      simp only [step, Option.map_eq_some_iff, Prod.mk.injEq] at hstep
      rcases hstep with ⟨p, hp, rfl, rfl⟩
      refine ⟨rfl, rfl, rfl, Or.inl rfl, ?_, by simp⟩
      intro q hq
      have hcall : p ∈ s.inserted := List.mem_of_getElem? hp
      simp only [underWay, List.mem_append] at hq ⊢
      rcases hq with (hq | hq) | hq
      · exact Or.inl (Or.inl (List.mem_of_mem_eraseIdx hq))
      · split at hq
        · rcases List.mem_append.mp hq with hq | hq
          · exact Or.inl (Or.inr hq)
          · rw [List.mem_singleton.mp hq]
            exact Or.inl (Or.inl hcall)
        · exact Or.inl (Or.inr hq)
      · exact Or.inr hq
  | sendPacket call =>
      simp only [step, Option.map_eq_some_iff, Prod.mk.injEq] at hstep
      rcases hstep with ⟨p, hp, rfl, rfl⟩
      have hcall : p ∈ s.tested := List.mem_of_getElem? hp
      refine ⟨rfl, rfl, rfl, Or.inl rfl, ?_, ?_⟩
      · intro q hq
        simp only [underWay, List.mem_append] at hq ⊢
        rcases hq with (hq | hq) | hq
        · exact Or.inl (Or.inl hq)
        · exact Or.inl (Or.inr (List.mem_of_mem_eraseIdx hq))
        · exact Or.inr hq
      · intro m hm
        refine Or.inr ⟨p, ?_, List.mem_singleton.mp hm⟩
        simp [underWay, hcall]
  | sendPending =>
      cases hpending : s.pending with
      | nil => simp [step, hpending] at hstep
      | cons p pending =>
          simp only [step, hpending, Option.some.injEq, Prod.mk.injEq] at hstep
          rcases hstep with ⟨rfl, rfl⟩
          refine ⟨rfl, rfl, rfl, Or.inl rfl, ?_, ?_⟩
          · intro q hq
            simp only [underWay, hpending, List.mem_append, List.mem_cons] at hq ⊢
            exact hq.imp_right Or.inr
          · intro m hm
            refine Or.inr ⟨p, ?_, List.mem_singleton.mp hm⟩
            simp [underWay, hpending]
  | markSeen key =>
      simp only [step, Option.some.injEq, Prod.mk.injEq] at hstep
      rcases hstep with ⟨rfl, rfl⟩
      exact ⟨rfl, rfl, rfl, Or.inl rfl, fun _ hp => hp, by simp⟩

/-! ## What a handler does -/

theorem received_of_append (h : ∃ rows, t.received = s.received ++ rows) {packet : P}
    (hp : s.Received packet) : t.Received packet := by
  rcases h with ⟨rows, hrows⟩
  rcases hp with ⟨row, hrow, rfl⟩
  exact ⟨row, by rw [hrows]; exact List.mem_append_left _ hrow, rfl⟩

/-- The handlers of a client leave its connection or end it. -/
theorem connection_handle (m : ToClient P) :
    (s.handle m).1.connection = s.connection ∨ (s.handle m).1.connection = none := by
  cases m with
  | hello e => cases e <;> simp [handle, onDisconnected]
  | _ => simp [handle, removeOut, insertIn]

theorem received_handle (m : ToClient P) :
    ∃ rows, (s.handle m).1.received = s.received ++ rows := by
  cases m with
  | hello e => cases e <;> exact ⟨[], by simp [handle, onDisconnected]⟩
  | transportPacket n packet => exact ⟨[⟨s.inKey, packet⟩], rfl⟩
  | _ => exact ⟨[], by simp [handle, removeOut]⟩

theorem sent_handle (m : ToClient P) : (s.handle m).1.sent = s.sent := by
  cases m with
  | hello e => cases e <;> rfl
  | _ => rfl

/-- A handler removes the row that the packet names, and no other. -/
theorem outPackets_handle (m : ToClient P) {row : OutPacket K P} :
    row ∈ (s.handle m).1.outPackets ↔ row ∈ s.outPackets ∧ m.removed ≠ some row.ack := by
  cases m with
  | hello e => cases e <;> simp [handle, onDisconnected, ToClient.removed]
  | transportPacket n packet => simp [handle, insertIn, ToClient.removed]
  | _ => simp [handle, mem_removeOut, ToClient.removed, eq_comm]

/-- What a handler sends again is in the table. -/
theorem underWay_handle (m : ToClient P) {p : OutPacket K P}
    (hp : p ∈ (s.handle m).1.underWay) : p ∈ s.underWay ∨ p ∈ s.outPackets := by
  cases m with
  | hello e =>
      cases e with
      | false =>
          simp only [handle, underWay, List.mem_append] at hp ⊢
          rcases hp with hp | hp
          · exact Or.inl (Or.inl hp)
          · exact Or.inr hp
      | true => exact Or.inl (underWay_onDisconnected hp)
  | _ => exact Or.inl hp

theorem out_handle (m : ToClient P) {p : OutPacket K P} :
    .transportPacket p ∉ (s.handle m).2 := by
  cases m with
  | hello e => cases e <;> simp [handle]
  | _ => simp [handle]

end Client

end Securepath.PacketTransport
