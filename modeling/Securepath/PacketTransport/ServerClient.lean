import Securepath.PacketTransport.SendPacket
import Securepath.Serialisation.PacketDeserialiser

/-!
# A terminated connection

`packet_server_client` (`infrastructure/packet_transport/server/server_lib`,
`packet_server.cpp` and `connection.cpp`) over the `packet_deserialiser` that calls it.
`Act` records what a connection has the server do; what it sends to the client is left out.
After `close` the transport delivers nothing more, but the packets that are already in the
hands of `do_check` are.
-/

namespace Securepath.PacketTransport

open Serialisation StateExcept

/-! ## The connection -/

/-- `ack_type`. -/
abbrev AckType := FixedInt int64

/-- What a connection does to the server. -/
inductive Act where
  /-- `on_connect` of the server, which registers the connection -/
  | onConnect (id : Octets)
  /-- `transport_packet` of the server, which inserts into the storage -/
  | transportPacket (id : Octets) (packet : transportPacketBody.Val)
  | markAsAcked (ack : AckType)
  | terminate

/-- `packet_server_client`; it is `closed` when its transport has let go of it. -/
structure ServerClient where
  remoteKeyId : Octets
  id : Octets
  connectionGood : Bool
  closed : Bool
  ackMap : List AckType
  acts : List Act

/-- A connection behind its handshake. -/
def ServerClient.init (remoteKeyId : Octets) : ServerClient where
  remoteKeyId := remoteKeyId
  id := []
  connectionGood := false
  closed := false
  ackMap := []
  acts := []

/-- What `on_connect` of the server gives: the acks of the pending packets it sends, or
nothing where it throws. -/
abbrev PacketServerContext := List Act → Option (List AckType)

/-- Something was thrown. -/
inductive Thrown where
  | serialisation (e : Error)
  | onConnect

namespace ServerClient

variable (c : ServerClient)

def act (a : Act) : ServerClient := { c with acts := c.acts ++ [a] }

def terminate : ServerClient := { c.act .terminate with closed := true }

abbrev Visit := EStateM Thrown ServerClient

/-- `connection::on_connect`, which finds no error. -/
def onConnect (context : PacketServerContext) (id : Octets) : Visit (Option Error) := fun c =>
  let c := { c with id := id }.act (.onConnect id)
  match context c.acts with
  | none => .error .onConnect c
  | some acks => .ok none { c with ackMap := c.ackMap ++ acks }

/-- `operator()(hello)`. -/
def visitHello (context : PacketServerContext) : Visit Unit := do
  let c ← get
  let err ← onConnect context c.remoteKeyId
  match err with
  | some _ => modify terminate
  | none => modify fun c => { c with connectionGood := true }

/-- `handle(transport_packet)`; what the server throws is caught. -/
def handleTransport (p : transportPacketBody.Val) : ServerClient :=
  -- the issuer of the signature of the payload
  if p.2.1.2.1.2.1.1 = c.id then c.act (.transportPacket c.id p) else c

/-- `handle(ack_packet)` -/
def handleAck (ack : AckType) : ServerClient :=
  if ack ∈ c.ackMap then c.act (.markAsAcked ack) else c

/-- `operator()` of every other packet. -/
def visitPacket (handle : ServerClient → ServerClient) : Visit Unit :=
  modify fun c => if c.connectionGood then handle c else c.terminate

/-- The visitor of the `choice`. -/
def visit (context : PacketServerContext) : types.Val → Visit Unit
  | .inl _ => visitHello context
  | .inr (.inl p) => visitPacket (handleTransport · p)
  | .inr (.inr (.inl p)) => visitPacket (handleAck · p.1)
  | .inr (.inr (.inr (.inl _))) => visitPacket fun c => c

end ServerClient

section Run

variable [KeyOrder]

/-- The packet that `choice::deserialise` gives to the visitor. -/
def decodePacket (deser : Deserialiser) : Except Error types.Val :=
  match (Schema.choice types).deserialise () deser with
  | .ok v _ => .ok v
  | .error e _ => .error e

/-- The callback of `packet_deserialiser::handle`. -/
def handlePacket (context : PacketServerContext) : Callback Thrown ServerClient := fun deser _ c =>
  match decodePacket deser with
  | .ok v => ServerClient.visit context v c
  | .error e => .error (.serialisation e) c

/-- `on_received`, when the transport still has the connection. -/
def onReceived (context : PacketServerContext) (data : Octets)
    (s : PacketDeserialiserBase × ServerClient) : PacketDeserialiserBase × ServerClient :=
  if s.2.closed then
    s
  else
    match doCheck (handlePacket context) data s with
    | .ok () s => s
    | .error _ (p, c) => (p, c.terminate)

/-- What happens to a connection. -/
inductive Input where
  | frame (data : Octets)
  /-- another connection sends a packet to this one -/
  | send (ack : AckType)
  | close

def Input.step (context : PacketServerContext) (s : PacketDeserialiserBase × ServerClient) :
    Input → PacketDeserialiserBase × ServerClient
  | .frame data => onReceived context data s
  | .send ack => (s.1, { s.2 with ackMap := s.2.ackMap ++ [ack] })
  | .close => (s.1, s.2.terminate)

def runInputs (context : PacketServerContext) (inputs : List Input)
    (s : PacketDeserialiserBase × ServerClient) : PacketDeserialiserBase × ServerClient :=
  inputs.foldl (Input.step context) s

/-- What a connection with the key `remoteKeyId` has the server do. -/
def actsOf (context : PacketServerContext) (remoteKeyId : Octets) (inputs : List Input) :
    List Act :=
  (runInputs context inputs (.ofMax bufMaxSize, .init remoteKeyId)).2.acts

/-- Nothing is done behind `terminate`. -/
def EndsTerminated (acts : List Act) : Prop :=
  ∀ before after, acts = before ++ .terminate :: after → ∀ a ∈ after, a = .terminate

/-! ## The packets that matter -/

/-- A hello is among the packets, in front of the first that cannot be decoded. -/
def HelloAhead : List Call → Prop
  | [] => False
  | c :: cs =>
      match decodePacket c.deser with
      | .ok (.inl _) => True
      | .ok (.inr _) => HelloAhead cs
      | .error _ => False

/-- The first packet is not a hello, and a hello comes with it. -/
def HelloBehind : List Call → Prop
  | [] => False
  | c :: cs =>
      match decodePacket c.deser with
      | .ok (.inr _) => HelloAhead cs
      | _ => False

/-- The packets of the first frame that completes one, behind the octets `buf`. -/
def firstPackets : Octets → List Input → List Call
  | _, [] => []
  | buf, .send _ :: inputs => firstPackets buf inputs
  | _, .close :: _ => []
  | buf, .frame data :: inputs =>
      if bufMaxSize < buf.length + data.length then []
      else if callsOf (buf ++ data) = [] then firstPackets (buf ++ data) inputs
      else callsOf (buf ++ data)

end Run

/-! ## Lists of acts -/

theorem endsTerminated_of_not_mem {acts : List Act} (h : .terminate ∉ acts) :
    EndsTerminated acts := by
  rintro before after rfl
  exact absurd (List.mem_append_right before List.mem_cons_self) h

theorem endsTerminated_of_all {acts : List Act} (h : ∀ a ∈ acts, a = .terminate) :
    EndsTerminated acts := by
  rintro before after rfl a ha
  exact h a (List.mem_append_right before (List.mem_cons_of_mem _ ha))

theorem EndsTerminated.append_terminate {acts : List Act} (h : EndsTerminated acts) :
    EndsTerminated (acts ++ [.terminate]) := by
  intro before after heq a ha
  rcases List.eq_nil_or_concat after with rfl | ⟨l, x, rfl⟩
  · cases ha
  · rw [List.concat_eq_append, ← List.cons_append, ← List.append_assoc] at heq
    obtain ⟨hacts, hx⟩ := List.append_inj' heq rfl
    rcases List.mem_append.mp (List.concat_eq_append ▸ ha) with ha | ha
    · exact h before l hacts a ha
    · rw [List.mem_singleton.mp ha]
      exact (List.cons.inj hx).1.symm

theorem EndsTerminated.of_append {acts l : List Act} (h : EndsTerminated (acts ++ l)) :
    EndsTerminated acts := by
  rintro before after rfl a ha
  refine h before (after ++ l) ?_ a (List.mem_append_left _ ha)
  rw [List.append_assoc, List.cons_append]

/-- What was done behind `terminate` stays done. -/
theorem not_endsTerminated {acts after : List Act} {id : Octets} (h : .terminate ∈ acts) :
    ¬ EndsTerminated (acts ++ .onConnect id :: after) := by
  intro hends
  obtain ⟨before, rest, rfl⟩ := List.append_of_mem h
  have hall := hends before (rest ++ .onConnect id :: after) (by
    rw [List.append_assoc, List.cons_append])
  exact absurd (hall (.onConnect id) (List.mem_append_right _ List.mem_cons_self)) nofun

/-! ## What a packet does -/

section Packets

variable {context : PacketServerContext} {c : ServerClient}

/-- The connection has sent its hello, and all is well. -/
def ServerClient.Good (c : ServerClient) : Prop :=
  .terminate ∉ c.acts ∧ c.connectionGood = true ∧ c.closed = false

/-- The connection was terminated before its hello. -/
def ServerClient.Strayed (c : ServerClient) : Prop :=
  .terminate ∈ c.acts ∧ (∀ a ∈ c.acts, a = .terminate) ∧ c.connectionGood = false ∧
    c.closed = true

theorem ServerClient.Good.act (h : c.Good) {a : Act} (ha : a ≠ .terminate) : (c.act a).Good := by
  refine ⟨?_, h.2⟩
  intro hmem
  rcases List.mem_append.mp hmem with hmem | hmem
  · exact h.1 hmem
  · exact ha (List.mem_singleton.mp hmem).symm

/-- The connection is fit for what is still to come, or terminated for good. -/
def ServerClient.Settled (c : ServerClient) : Prop :=
  c.Good ∨ (c.closed = true ∧ EndsTerminated c.acts)

theorem ServerClient.terminate_settled (c : ServerClient) (h : .terminate ∉ c.acts) :
    c.terminate.Settled :=
  .inr ⟨rfl, (endsTerminated_of_not_mem h).append_terminate⟩

/-- A hello registers the connection, whatever was before. -/
theorem visitHello_spec (context : PacketServerContext) (c : ServerClient) :
    (∃ acks, ServerClient.visitHello context c = .ok () { { c with id := c.remoteKeyId }.act
      (.onConnect c.remoteKeyId) with ackMap := c.ackMap ++ acks, connectionGood := true }) ∨
    ServerClient.visitHello context c = .error .onConnect
      ({ c with id := c.remoteKeyId }.act (.onConnect c.remoteKeyId)) := by
  have hget : (get : ServerClient.Visit ServerClient) c = .ok c c := rfl
  cases hcontext : context (c.acts ++ [.onConnect c.remoteKeyId]) with
  | none =>
    right
    have hthrows : ServerClient.onConnect context c.remoteKeyId c = .error .onConnect
        ({ c with id := c.remoteKeyId }.act (.onConnect c.remoteKeyId)) := by
      unfold ServerClient.onConnect ServerClient.act
      simp only [hcontext]
    rw [ServerClient.visitHello, bind_of_ok hget, bind_of_error hthrows]
  | some acks =>
    left
    refine ⟨acks, ?_⟩
    have hreturns : ServerClient.onConnect context c.remoteKeyId c = .ok none
        { { c with id := c.remoteKeyId }.act (.onConnect c.remoteKeyId) with
          ackMap := c.ackMap ++ acks } := by
      unfold ServerClient.onConnect ServerClient.act
      simp only [hcontext]
    rw [ServerClient.visitHello, bind_of_ok hget, bind_of_ok hreturns]
    rfl

/-- A packet other than the hello. -/
theorem visit_inr (context : PacketServerContext) (p : _) : ∃ handle : ServerClient → ServerClient,
    (∀ c, handle c = c ∨ ∃ a, a ≠ .terminate ∧ handle c = c.act a) ∧
      ServerClient.visit context (.inr p) = ServerClient.visitPacket handle := by
  rcases p with p | p | p | p
  · refine ⟨(ServerClient.handleTransport · p), ?_, rfl⟩
    intro c
    show ServerClient.handleTransport c p = c ∨ ∃ a, _ ∧ ServerClient.handleTransport c p = _
    unfold ServerClient.handleTransport
    split
    · exact .inr ⟨.transportPacket c.id p, nofun, rfl⟩
    · exact .inl rfl
  · refine ⟨(ServerClient.handleAck · p.1), ?_, rfl⟩
    intro c
    show ServerClient.handleAck c p.1 = c ∨ ∃ a, _ ∧ ServerClient.handleAck c p.1 = _
    unfold ServerClient.handleAck
    split
    · exact .inr ⟨.markAsAcked p.1, nofun, rfl⟩
    · exact .inl rfl
  · exact ⟨fun c => c, fun _ => .inl rfl, rfl⟩
  · exact nomatch p

end Packets

/-! ## What the packets of a frame do -/

section Frames

variable [KeyOrder] {context : PacketServerContext} {c : ServerClient} {cs : List Call}

/-- The connection behind the packets of a frame. -/
def afterPackets (context : PacketServerContext) (cs : List Call) (c : ServerClient) :
    ServerClient :=
  match runCalls (handlePacket context) cs c with
  | .ok _ c => c
  | .error _ c => c.terminate

theorem afterPackets_error {call : Call} {e : Error} (h : decodePacket call.deser = .error e)
    (cs : List Call) (c : ServerClient) : afterPackets context (call :: cs) c = c.terminate := by
  have hthrows : handlePacket context call.deser call.packet c = .error (.serialisation e) c := by
    unfold handlePacket
    rw [h]
  unfold afterPackets
  rw [runCalls_cons_of_error hthrows]

/-- A packet other than a hello, on a connection that is not good and on one that is. -/
theorem afterPackets_inr (context : PacketServerContext) {call : Call} {p : _}
    (h : decodePacket call.deser = .ok (.inr p)) (cs : List Call) (c : ServerClient) :
    (c.connectionGood = false ∧
      afterPackets context (call :: cs) c = afterPackets context cs c.terminate) ∨
    c.connectionGood = true ∧ ∃ c', (c' = c ∨ ∃ a, a ≠ .terminate ∧ c' = c.act a) ∧
      afterPackets context (call :: cs) c = afterPackets context cs c' := by
  obtain ⟨handle, hact, hvisit⟩ := visit_inr context p
  have hreturns : handlePacket context call.deser call.packet c =
      .ok () (if c.connectionGood then handle c else c.terminate) := by
    unfold handlePacket
    rw [h]
    show ServerClient.visit context (.inr p) c = _
    rw [hvisit]
    rfl
  unfold afterPackets
  rw [runCalls_cons_of_ok hreturns]
  cases hgood : c.connectionGood with
  | false => exact .inl ⟨rfl, rfl⟩
  | true => exact .inr ⟨rfl, handle c, hact c, rfl⟩

theorem afterPackets_inl (context : PacketServerContext) {call : Call} {p : _}
    (h : decodePacket call.deser = .ok (.inl p)) (cs : List Call) (c : ServerClient) :
    (∃ acks, afterPackets context (call :: cs) c = afterPackets context cs
      { { c with id := c.remoteKeyId }.act (.onConnect c.remoteKeyId) with
        ackMap := c.ackMap ++ acks, connectionGood := true }) ∨
    afterPackets context (call :: cs) c =
      ({ c with id := c.remoteKeyId }.act (.onConnect c.remoteKeyId)).terminate := by
  have hcall : handlePacket context call.deser call.packet c =
      ServerClient.visitHello context c := by
    unfold handlePacket
    rw [h]
    rfl
  unfold afterPackets
  rcases visitHello_spec context c with ⟨acks, hrun⟩ | hrun
  · left
    exact ⟨acks, by rw [runCalls_cons_of_ok (hcall.trans hrun)]⟩
  · right
    rw [runCalls_cons_of_error (hcall.trans hrun)]

/-- What was done stays on record. -/
theorem afterPackets_acts (context : PacketServerContext) (cs : List Call) (c : ServerClient) :
    ∃ l, (afterPackets context cs c).acts = c.acts ++ l := by
  induction cs generalizing c with
  | nil => exact ⟨[], (List.append_nil _).symm⟩
  | cons call cs ih =>
    cases hdecode : decodePacket call.deser with
    | error e =>
      rw [afterPackets_error hdecode]
      exact ⟨[.terminate], rfl⟩
    | ok v =>
      rcases v with p | p
      · rcases afterPackets_inl context hdecode cs c with ⟨acks, hrun⟩ | hrun
        · obtain ⟨l, hl⟩ := ih { { c with id := c.remoteKeyId }.act (.onConnect c.remoteKeyId) with
            ackMap := c.ackMap ++ acks, connectionGood := true }
          exact ⟨.onConnect c.remoteKeyId :: l, by rw [hrun, hl]; exact List.append_assoc ..⟩
        · exact ⟨[.onConnect c.remoteKeyId, .terminate], by rw [hrun]; exact List.append_assoc ..⟩
      · rcases afterPackets_inr context hdecode cs c with
          ⟨-, hrun⟩ | ⟨-, c', hc' | ⟨a, -, hc'⟩, hrun⟩
        · obtain ⟨l, hl⟩ := ih c.terminate
          exact ⟨.terminate :: l, by rw [hrun, hl]; exact List.append_assoc ..⟩
        · rw [hrun, hc']
          exact ih c
        · obtain ⟨l, hl⟩ := ih (c.act a)
          exact ⟨a :: l, by rw [hrun, hc', hl]; exact List.append_assoc ..⟩

/-- Behind its hello a connection is good until it is terminated for good. -/
theorem afterPackets_good (cs : List Call) (hc : c.Good) :
    (afterPackets context cs c).Settled := by
  induction cs generalizing c with
  | nil => exact .inl hc
  | cons call cs ih =>
    cases hdecode : decodePacket call.deser with
    | error e =>
      rw [afterPackets_error hdecode]
      exact c.terminate_settled hc.1
    | ok v =>
      rcases v with p | p
      · have hgood := ServerClient.Good.act (c := { c with id := c.remoteKeyId }) hc
          (a := .onConnect c.remoteKeyId) nofun
        rcases afterPackets_inl context hdecode cs c with ⟨acks, hrun⟩ | hrun
        · rw [hrun]
          exact ih ⟨hgood.1, rfl, hgood.2.2⟩
        · rw [hrun]
          exact ServerClient.terminate_settled _ hgood.1
      · rcases afterPackets_inr context hdecode cs c with
          ⟨hbad, -⟩ | ⟨-, c', hc' | ⟨a, ha, hc'⟩, hrun⟩
        · exact absurd (hbad.symm.trans hc.2.1) nofun
        · rw [hrun, hc']
          exact ih hc
        · rw [hrun, hc']
          exact ih (hc.act ha)

/-- Behind a packet that came before the hello, only a hello does anything. -/
theorem afterPackets_strayed (context : PacketServerContext) (cs : List Call) (hc : c.Strayed) :
    (¬ HelloAhead cs ∧ (afterPackets context cs c).closed = true ∧
      EndsTerminated (afterPackets context cs c).acts) ∨
    HelloAhead cs ∧ ¬ EndsTerminated (afterPackets context cs c).acts := by
  induction cs generalizing c with
  | nil => exact .inl ⟨id, hc.2.2.2, endsTerminated_of_all hc.2.1⟩
  | cons call cs ih =>
    unfold HelloAhead
    cases hdecode : decodePacket call.deser with
    | error e =>
      rw [afterPackets_error hdecode]
      exact .inl ⟨id, rfl, (endsTerminated_of_all hc.2.1).append_terminate⟩
    | ok v =>
      rcases v with p | p
      · right
        -- the hello is taken: the connection is registered behind its termination
        refine ⟨trivial, ?_⟩
        rcases afterPackets_inl context hdecode cs c with ⟨acks, hrun⟩ | hrun
        · obtain ⟨l, hl⟩ := afterPackets_acts context cs
            { { c with id := c.remoteKeyId }.act (.onConnect c.remoteKeyId) with
              ackMap := c.ackMap ++ acks, connectionGood := true }
          rw [hrun, hl]
          show ¬ EndsTerminated ((c.acts ++ [_]) ++ l)
          rw [List.append_assoc]
          exact not_endsTerminated hc.1
        · rw [hrun]
          show ¬ EndsTerminated ((c.acts ++ [_]) ++ [.terminate])
          rw [List.append_assoc]
          exact not_endsTerminated hc.1
      · rcases afterPackets_inr context hdecode cs c with
          ⟨-, hrun⟩ | ⟨hgood, -⟩
        · rw [hrun]
          -- terminated once more, which is still all that was done
          refine ih ⟨List.mem_append_right _ List.mem_cons_self, ?_, hc.2.2.1, rfl⟩
          intro a ha
          rcases List.mem_append.mp ha with ha | ha
          · exact hc.2.1 a ha
          · exact List.mem_singleton.mp ha
        · exact absurd (hc.2.2.1.symm.trans hgood) nofun

/-- Nothing was received yet. -/
def ServerClient.Fresh (c : ServerClient) : Prop :=
  c.acts = [] ∧ c.connectionGood = false ∧ c.closed = false

/-- The first packets decide. -/
theorem afterPackets_fresh (context : PacketServerContext) (hcs : cs ≠ []) (hc : c.Fresh) :
    (¬ HelloBehind cs ∧ (afterPackets context cs c).Settled) ∨
    HelloBehind cs ∧ ¬ EndsTerminated (afterPackets context cs c).acts := by
  obtain ⟨hacts, hbad, hopen⟩ := hc
  have hnone : ∀ a, a ∉ c.acts := by
    intro a
    rw [hacts]
    exact List.not_mem_nil
  cases cs with
  | nil => exact absurd rfl hcs
  | cons call cs =>
    rw [HelloBehind]
    cases hdecode : decodePacket call.deser with
    | error e =>
      rw [afterPackets_error hdecode]
      exact .inl ⟨id, c.terminate_settled (hnone _)⟩
    | ok v =>
      rcases v with p | p
      · left
        refine ⟨id, ?_⟩
        -- the hello comes first, as it should
        have hconnected : .terminate ∉ c.acts ++ [Act.onConnect c.remoteKeyId] := by
          rw [hacts]
          exact List.not_mem_cons_of_ne_of_not_mem nofun List.not_mem_nil
        rcases afterPackets_inl context hdecode cs c with ⟨acks, hrun⟩ | hrun
        · rw [hrun]
          exact afterPackets_good cs ⟨hconnected, rfl, hopen⟩
        · rw [hrun]
          exact ServerClient.terminate_settled _ hconnected
      · rcases afterPackets_inr context hdecode cs c with
          ⟨-, hrun⟩ | ⟨hgood, -⟩
        · rw [hrun]
          -- another packet comes first: terminated, but the frame goes on
          have hstrayed : c.terminate.Strayed := by
            refine ⟨List.mem_append_right _ List.mem_cons_self, ?_, hbad, rfl⟩
            intro a ha
            rcases List.mem_append.mp ha with ha | ha
            · exact absurd ha (hnone a)
            · exact List.mem_singleton.mp ha
          exact (afterPackets_strayed context cs hstrayed).imp
            (fun h => ⟨h.1, .inr h.2⟩) id
        · exact absurd (hbad.symm.trans hgood) nofun

end Frames

/-! ## Runs -/

section Runs

variable [KeyOrder] {context : PacketServerContext} {c : ServerClient}
  {p : PacketDeserialiserBase} {inputs : List Input}

theorem onReceived_closed (data : Octets) (h : c.closed = true) :
    onReceived context data (p, c) = (p, c) := if_pos h

theorem onReceived_tooLong {data : Octets} (h : c.closed = false)
    (hlong : p.bufMaxSize < p.buf.length + data.length) :
    onReceived context data (p, c) = (p, c.terminate) := by
  have hcheck : doCheck (handlePacket context) data (p, c) = .error .maxBufferSize (p, c) :=
    if_pos hlong
  unfold onReceived
  rw [if_neg (by rw [h]; exact Bool.false_ne_true), hcheck]

/-- A frame that fits. -/
theorem onReceived_fits (context : PacketServerContext) {data : Octets} (h : c.closed = false)
    (hfit : p.buf.length + data.length ≤ p.bufMaxSize) :
    (onReceived context data (p, c)).2 = afterPackets context (callsOf (p.buf ++ data)) c ∧
      (onReceived context data (p, c)).1.bufMaxSize = p.bufMaxSize ∧
      (callsOf (p.buf ++ data) = [] →
        (onReceived context data (p, c)).1 = { p with buf := p.buf ++ data }) := by
  unfold onReceived afterPackets
  rw [if_neg (by rw [h]; exact Bool.false_ne_true), doCheck_spec _ _ _ _ hfit]
  cases hrun : runCalls (handlePacket context) (callsOf (p.buf ++ data)) c with
  | ok u c' =>
    refine ⟨rfl, rfl, ?_⟩
    intro hnone
    have hzero : derFraming.first (p.buf ++ data) = 0 := by
      by_contra hne
      exact absurd ((callsOf_of_ne_zero hne).symm.trans hnone) nofun
    rw [derFraming.remainder_of_first_eq_zero hzero]
  | error e c' =>
    refine ⟨rfl, rfl, ?_⟩
    intro hnone
    rw [hnone] at hrun
    cases hrun

theorem runInputs_cons (input : Input) (s : PacketDeserialiserBase × ServerClient) :
    runInputs context (input :: inputs) s = runInputs context inputs (input.step context s) := rfl

/-- What was done stays on record. -/
theorem runInputs_acts (context : PacketServerContext) (inputs : List Input)
    (s : PacketDeserialiserBase × ServerClient) :
    ∃ l, (runInputs context inputs s).2.acts = s.2.acts ++ l := by
  induction inputs generalizing s with
  | nil => exact ⟨[], (List.append_nil _).symm⟩
  | cons input inputs ih =>
    obtain ⟨p, c⟩ := s
    have hstep : ∃ l, (input.step context (p, c)).2.acts = c.acts ++ l := by
      cases input with
      | send ack => exact ⟨[], (List.append_nil _).symm⟩
      | close => exact ⟨[.terminate], rfl⟩
      | frame data =>
        show ∃ l, (onReceived context data (p, c)).2.acts = _
        cases hclosed : c.closed with
        | true =>
          rw [onReceived_closed data hclosed]
          exact ⟨[], (List.append_nil _).symm⟩
        | false =>
          by_cases hfit : p.buf.length + data.length ≤ p.bufMaxSize
          · rw [(onReceived_fits context hclosed hfit).1]
            exact afterPackets_acts context _ c
          · rw [onReceived_tooLong hclosed (by omega)]
            exact ⟨[.terminate], rfl⟩
    obtain ⟨l, hl⟩ := hstep
    obtain ⟨l', hl'⟩ := ih (input.step context (p, c))
    exact ⟨l ++ l', by rw [runInputs_cons, hl', hl, List.append_assoc]⟩

/-- A connection that is settled stays so. -/
theorem runInputs_settled (hc : c.Settled) :
    EndsTerminated (runInputs context inputs (p, c)).2.acts := by
  induction inputs generalizing p c with
  | nil =>
    rcases hc with hc | hc
    · exact endsTerminated_of_not_mem hc.1
    · exact hc.2
  | cons input inputs ih =>
    rw [runInputs_cons]
    cases input with
    | send ack => exact ih hc
    | close =>
      apply ih
      rcases hc with hc | hc
      · exact c.terminate_settled hc.1
      · exact .inr ⟨rfl, hc.2.append_terminate⟩
    | frame data =>
      show EndsTerminated (runInputs context inputs (onReceived context data (p, c))).2.acts
      rcases hc with hc | hc
      · by_cases hfit : p.buf.length + data.length ≤ p.bufMaxSize
        · have hsettled : (onReceived context data (p, c)).2.Settled := by
            rw [(onReceived_fits context hc.2.2 hfit).1]
            exact afterPackets_good _ hc
          exact ih (p := (onReceived context data (p, c)).1) hsettled
        · rw [onReceived_tooLong hc.2.2 (by omega)]
          exact ih (c.terminate_settled hc.1)
      · rw [onReceived_closed data hc.1]
        exact ih (.inr hc)

theorem runInputs_fresh (hc : c.Fresh) (hmax : p.bufMaxSize = bufMaxSize) :
    EndsTerminated (runInputs context inputs (p, c)).2.acts ↔
      ¬ HelloBehind (firstPackets p.buf inputs) := by
  induction inputs generalizing p c with
  | nil =>
    refine iff_of_true ?_ id
    exact endsTerminated_of_not_mem (by
      show .terminate ∉ c.acts
      rw [hc.1]
      exact List.not_mem_nil)
  | cons input inputs ih =>
    rw [runInputs_cons]
    have hnone : .terminate ∉ c.acts := by
      rw [hc.1]
      exact List.not_mem_nil
    cases input with
    | send ack => exact ih hc hmax
    | close => exact iff_of_true (runInputs_settled (c.terminate_settled hnone)) id
    | frame data =>
      show EndsTerminated (runInputs context inputs (onReceived context data (p, c))).2.acts ↔ _
      unfold firstPackets
      by_cases hfit : p.buf.length + data.length ≤ p.bufMaxSize
      · obtain ⟨hafter, hmax', hbuf⟩ := onReceived_fits context hc.2.2 hfit
        rw [if_neg (by omega)]
        split
        · -- no packet is complete yet
          next hempty =>
          have hstate : onReceived context data (p, c) = ({ p with buf := p.buf ++ data }, c) := by
            refine Prod.ext (hbuf hempty) ?_
            rw [hafter, hempty]
            rfl
          rw [hstate]
          exact ih hc hmax
        · next hpackets =>
          rcases afterPackets_fresh context hpackets hc with
            ⟨hnot, hsettled⟩ | ⟨hbehind, hbroken⟩
          · refine iff_of_true ?_ hnot
            rw [← hafter] at hsettled
            exact runInputs_settled (p := (onReceived context data (p, c)).1) hsettled
          -- what was done behind the termination stays on record
          · refine iff_of_false ?_ (not_not.mpr hbehind)
            intro hends
            obtain ⟨l, hl⟩ := runInputs_acts context inputs
              (onReceived context data (p, c))
            rw [hl, hafter] at hends
            exact hbroken hends.of_append
      · rw [onReceived_tooLong hc.2.2 (by omega), if_pos (by omega)]
        exact iff_of_true (runInputs_settled (c.terminate_settled hnone)) id

end Runs

/-- A connection does nothing behind its termination, unless the frame with its first packet
begins with something other than a hello and has a hello behind it. -/
theorem terminated_acts_on_nothing_iff [KeyOrder] (context : PacketServerContext)
    (remoteKeyId : Octets) (inputs : List Input) :
    EndsTerminated (actsOf context remoteKeyId inputs) ↔ ¬ HelloBehind (firstPackets [] inputs) :=
  runInputs_fresh ⟨rfl, rfl, rfl⟩ rfl

/-- An ack packet, and the hello of a client behind it. -/
def strayAck : Octets := [0xa3, 0x03, 0x02, 0x01, 0x00]

def clientHello : Octets :=
  [0xa1, 0x11, 0x02, 0x01, 0x01, 0x02, 0x01, 0x00,
    0x30, 0x09, 0x02, 0x01, 0x00, 0x14, 0x00, 0x14, 0x00, 0x14, 0x00]

/-- In one frame, the connection is terminated by the ack and registered by the hello. -/
theorem terminated_acts : ¬ EndsTerminated
    (@actsOf .unordered (fun _ => some []) [0x2a] [.frame (strayAck ++ clientHello)]) := by
  have hacts : (@actsOf .unordered (fun _ => some []) [0x2a] [.frame (strayAck ++ clientHello)]).map
      (fun a => match a with | .terminate => true | _ => false) = [true, false] := by
    decide +kernel
  intro hends
  obtain ⟨a, l, hl, ha, hrest⟩ := List.map_eq_cons_iff.mp hacts
  obtain ⟨b, l', rfl, hb, -⟩ := List.map_eq_cons_iff.mp hrest
  cases a with
  | terminate =>
    obtain rfl := hends [] (b :: l') hl b List.mem_cons_self
    cases hb
  | onConnect id => cases ha
  | transportPacket id packet => cases ha
  | markAsAcked ack => cases ha

end Securepath.PacketTransport
