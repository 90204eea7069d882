import Mathlib
import Securepath.Library.Machine

/-!
# The key client

The requests of `key_client::client::impl` (`infrastructure/key_client/key_client.cpp`)
and their promises. The three maps are guarded by one mutex, which `fail_all` takes
for one map after the other; what a promise resumes runs on the strand, and may make
requests.
-/

namespace Securepath.KeyServer

/-- The kind of a request, and the map that it waits in. -/
inductive RequestKind where
  | registerKey
  | findKey
  | findCertificate
deriving DecidableEq, Repr

/-- How a promise is completed. -/
inductive Outcome where
  /-- by the response of the kind with the id -/
  | response (kind : RequestKind) (id : Nat)
  /-- by `fail_all` -/
  | failed
  /-- it was destroyed, since its id was taken -/
  | broken
deriving DecidableEq, Repr

/-- A promise, as the number of its request, and how it is completed. -/
structure Settled where
  promise : Nat
  outcome : Outcome
deriving DecidableEq, Repr

/-- The callback that the strand runs. -/
inductive Running where
  | idle
  | response
  /-- `on_disconnected`, with the maps that `fail_all` has still to take -/
  | failAll (kinds : List RequestKind)
deriving DecidableEq, Repr

structure KeyClient where
  nextId : Nat
  pending : RequestKind → List (Nat × Nat)
  /-- the requests so far, each with its id -/
  requests : List (RequestKind × Nat)
  /-- the promises that the callback has taken off the maps, in its order -/
  taken : List Settled
  settled : List Settled
  running : Running
  /-- the connection has its client still -/
  live : Bool
  closed : Bool

namespace KeyClient

def init : KeyClient where
  nextId := 0
  pending _ := []
  requests := []
  taken := []
  settled := []
  running := .idle
  live := true
  closed := false

variable (s : KeyClient)

/-- The maps that `fail_all` has still to take. -/
def sweeping : List RequestKind :=
  match s.running with
  | .failAll kinds => kinds
  | _ => []

/-- `emplace` under the next id, which keeps what the map has. -/
def request (kind : RequestKind) : KeyClient :=
  let id := (s.nextId + 1) % 2 ^ 32
  let promise := s.requests.length
  let s := { s with nextId := id, requests := s.requests ++ [(kind, id)] }
  if (s.pending kind).any (·.1 = id) then
    { s with settled := s.settled ++ [⟨promise, .broken⟩] }
  else
    { s with pending := Function.update s.pending kind (s.pending kind ++ [(id, promise)]) }

/-- `take` for a response; one without a request is ignored. -/
def respond (kind : RequestKind) (id : Nat) : KeyClient :=
  match (s.pending kind).find? (·.1 = id) with
  | none => s
  | some entry => { s with
      pending := Function.update s.pending kind ((s.pending kind).erase entry)
      taken := [⟨entry.2, .response kind id⟩]
      running := .response }

/-- `take_all`. -/
def takeAll (kind : RequestKind) (rest : List RequestKind) : KeyClient :=
  { s with
    pending := Function.update s.pending kind []
    taken := s.taken ++ (s.pending kind).map fun entry => ⟨entry.2, .failed⟩
    running := .failAll rest }

end KeyClient

inductive ClientAction where
  | request (kind : RequestKind)
  | response (kind : RequestKind) (id : Nat)
  /-- the transport fails, or the peer closes: `on_disconnected` -/
  | disconnect
  | takeAll
  /-- the next of the promises that were taken is completed -/
  | settle
  /-- the callback returns -/
  | returns
  | close
  | connect
deriving DecidableEq, Repr

open KeyClient in
/-- A step. `close` leaves the connection without its client, so that nothing is told;
`connect` makes another connection. -/
def ClientAction.step (a : ClientAction) (s : KeyClient) : Option KeyClient :=
  match a with
  | .request kind => some (s.request kind)
  | .response kind id => if s.running = .idle ∧ s.live then some (s.respond kind id) else none
  | .disconnect =>
      if s.running = .idle ∧ s.live then
        some { s with
          live := false
          running := .failAll [.registerKey, .findKey, .findCertificate] }
      else none
  | .takeAll =>
      match s.running with
      | .failAll (kind :: rest) => some (s.takeAll kind rest)
      | _ => none
  | .settle =>
      match s.taken with
      | [] => none
      | c :: cs =>
          if s.sweeping = [] then some { s with taken := cs, settled := s.settled ++ [c] } else none
  | .returns =>
      if s.taken = [] ∧ s.sweeping = [] then
        some { s with
          closed := if s.running = .failAll [] then true else s.closed
          running := .idle }
      else none
  | .close => some { s with live := false, closed := true }
  | .connect =>
      if s.running = .idle ∧ s.closed then some { s with live := true, closed := false } else none

namespace KeyClient

variable {s t : KeyClient}

/-! ## The promises -/

/-- How often the client has a promise. -/
def load (s : KeyClient) (p : Nat) : Nat :=
  ((s.pending .registerKey).map (·.2)).count p + ((s.pending .findKey).map (·.2)).count p +
    ((s.pending .findCertificate).map (·.2)).count p +
    ((s.taken ++ s.settled).map (·.promise)).count p

/-- A response completes the promise of its request. -/
def Answers (requests : List (RequestKind × Nat)) (c : Settled) : Prop :=
  ∀ kind id, c.outcome = .response kind id → requests[c.promise]? = some (kind, id)

/-- Every promise is in one place, with its request. -/
structure PromiseInv (s : KeyClient) : Prop where
  once : ∀ p, s.load p = if p < s.requests.length then 1 else 0
  requested : ∀ kind, ∀ e ∈ s.pending kind, s.requests[e.2]? = some (kind, e.1)
  answers : ∀ c ∈ s.taken ++ s.settled, Answers s.requests c
  idle : s.running = .idle → s.taken = []

/-- The load, when one map changes. -/
theorem load_update {kind : RequestKind} {entries : List (Nat × Nat)}
    (hpending : t.pending = Function.update s.pending kind entries) (p : Nat) :
    t.load p + ((s.pending kind).map (·.2)).count p +
        ((s.taken ++ s.settled).map (·.promise)).count p =
      s.load p + (entries.map (·.2)).count p +
        ((t.taken ++ t.settled).map (·.promise)).count p := by
  cases kind <;> simp [load, hpending] <;> omega

theorem PromiseInv.request (h : PromiseInv s) (kind : RequestKind) :
    PromiseInv (s.request kind) := by
  have hlt : ∀ {p : Nat} {e : RequestKind × Nat}, s.requests[p]? = some e →
      (s.requests ++ [(kind, (s.nextId + 1) % 2 ^ 32)])[p]? = some e := by
    intro p e hp
    rw [List.getElem?_append_left (List.getElem?_eq_some_iff.mp hp).1]
    exact hp
  have hnext : ∀ (load p : Nat), load = (if p < s.requests.length then 1 else 0) →
      load + [s.requests.length].count p =
        if p < (s.requests ++ [(kind, (s.nextId + 1) % 2 ^ 32)]).length then 1 else 0 := by
    intro load p hload
    rw [hload, List.count_singleton, List.length_append, List.length_singleton]
    split_ifs <;> simp_all <;> omega
  unfold KeyClient.request
  simp only
  split
  · constructor
    · intro p
      rw [← hnext _ p (h.once p)]
      simp only [load, List.map_append, List.count_append, List.map_cons, List.map_nil]
      omega
    · exact fun k e he => hlt (h.requested k e he)
    · intro c hc
      rw [← List.append_assoc] at hc
      rcases List.mem_append.mp hc with hc | hc
      · exact fun k id hout => hlt (h.answers c hc k id hout)
      · rw [List.mem_singleton.mp hc]
        nofun
    · exact h.idle
  · constructor
    · intro p
      have hload := load_update (s := s) (t := { s with
        nextId := (s.nextId + 1) % 2 ^ 32
        requests := s.requests ++ [(kind, (s.nextId + 1) % 2 ^ 32)]
        pending := Function.update s.pending kind
          (s.pending kind ++ [((s.nextId + 1) % 2 ^ 32, s.requests.length)]) }) rfl p
      rw [← hnext _ p (h.once p)]
      simp only [List.map_append, List.count_append, List.map_cons, List.map_nil] at hload
      omega
    · intro k e he
      simp only [Function.update_apply] at he
      split at he
      next heq =>
        subst heq
        rcases List.mem_append.mp he with he | he
        · exact hlt (h.requested k e he)
        · rw [List.mem_singleton.mp he]
          exact List.getElem?_concat_length
      next => exact hlt (h.requested k e he)
    · exact fun c hc k id hout => hlt (h.answers c hc k id hout)
    · exact h.idle

theorem PromiseInv.respond (h : PromiseInv s) (kind : RequestKind) (id : Nat)
    (hidle : s.running = .idle) : PromiseInv (s.respond kind id) := by
  have htaken := h.idle hidle
  unfold KeyClient.respond
  split
  · exact h
  next entry hfind =>
  have hmem := List.mem_of_find?_eq_some hfind
  have hid : entry.1 = id := by simpa using List.find?_some hfind
  constructor
  · intro p
    rw [← h.once p]
    have hload := load_update (s := s) (t := { s with
      pending := Function.update s.pending kind ((s.pending kind).erase entry)
      taken := [⟨entry.2, .response kind id⟩]
      running := .response }) rfl p
    -- the promise goes from its map to those that are being completed
    have herase := ((List.perm_cons_erase hmem).map (·.2)).count_eq p
    rw [List.map_cons, List.count_cons] at herase
    simp only [htaken, List.nil_append, List.map_cons, List.cons_append, List.count_cons] at hload
    omega
  · intro k e he
    simp only [Function.update_apply] at he
    split at he
    next heq =>
      subst heq
      exact h.requested k e (List.mem_of_mem_erase he)
    next => exact h.requested k e he
  · intro c hc
    rcases List.mem_cons.mp hc with rfl | hc
    · rintro k i ⟨rfl, rfl⟩
      rw [← hid]
      exact h.requested kind entry hmem
    · exact h.answers c (List.mem_append_right _ hc)
  · intro hfalse
    cases hfalse

theorem PromiseInv.takeAll (h : PromiseInv s) (kind : RequestKind) (rest : List RequestKind) :
    PromiseInv (s.takeAll kind rest) := by
  constructor
  · intro p
    show (s.takeAll kind rest).load p = if p < s.requests.length then 1 else 0
    rw [← h.once p]
    have hload := load_update (s := s) (t := s.takeAll kind rest) rfl p
    simp only [KeyClient.takeAll, List.map_append, List.map_map, List.count_append, List.map_nil,
      List.count_nil] at hload
    have hmap : (s.pending kind).map ((·.promise) ∘ fun entry => (⟨entry.2, .failed⟩ : Settled)) =
        (s.pending kind).map (·.2) := rfl
    rw [hmap] at hload
    show load (s.takeAll kind rest) p = s.load p
    unfold KeyClient.takeAll
    omega
  · intro k e he
    simp only [KeyClient.takeAll, Function.update_apply] at he
    split at he
    · cases he
    · exact h.requested k e he
  · intro c hc
    rw [KeyClient.takeAll, List.append_assoc] at hc
    rcases List.mem_append.mp hc with hc | hc
    · exact h.answers c (List.mem_append_left _ hc)
    -- what `fail_all` completes is no answer
    rcases List.mem_append.mp hc with hc | hc
    · rcases List.mem_map.mp hc with ⟨e, _, rfl⟩
      nofun
    · exact h.answers c (List.mem_append_right _ hc)
  · intro hfalse
    cases hfalse

theorem PromiseInv.settle (h : PromiseInv s) {c : Settled} {cs : List Settled}
    (htaken : s.taken = c :: cs) :
    PromiseInv { s with taken := cs, settled := s.settled ++ [c] } := by
  have hperm : (cs ++ (s.settled ++ [c])).Perm (s.taken ++ s.settled) := by
    rw [htaken, ← List.append_assoc]
    exact List.perm_append_singleton c _
  constructor
  · intro p
    rw [← h.once p]
    have hcount := (hperm.map (·.promise)).count_eq p
    simp only [load]
    omega
  · exact h.requested
  · exact fun d hd => h.answers d (hperm.mem_iff.mp hd)
  · intro hidle
    cases htaken.symm.trans (h.idle hidle)

theorem PromiseInv.step {a : ClientAction} (h : PromiseInv s) (hstep : a.step s = some t) :
    PromiseInv t := by
  cases a with
  | request kind =>
      obtain rfl := Option.some.inj hstep
      exact h.request kind
  | response kind id =>
      simp only [ClientAction.step, Option.ite_none_right_eq_some, Option.some.injEq] at hstep
      rcases hstep with ⟨⟨hidle, _⟩, rfl⟩
      exact h.respond kind id hidle
  | disconnect =>
      simp only [ClientAction.step, Option.ite_none_right_eq_some, Option.some.injEq] at hstep
      rcases hstep with ⟨_, rfl⟩
      exact ⟨h.once, h.requested, h.answers, nofun⟩
  | takeAll =>
      simp only [ClientAction.step] at hstep
      split at hstep
      next kind rest _ =>
        obtain rfl := Option.some.inj hstep
        exact h.takeAll kind rest
      next => cases hstep
  | settle =>
      simp only [ClientAction.step] at hstep
      split at hstep
      next => cases hstep
      next c cs htaken =>
        rw [Option.ite_none_right_eq_some] at hstep
        obtain rfl := Option.some.inj hstep.2
        exact h.settle htaken
  | returns =>
      simp only [ClientAction.step, Option.ite_none_right_eq_some, Option.some.injEq] at hstep
      rcases hstep with ⟨⟨htaken, _⟩, rfl⟩
      exact ⟨h.once, h.requested, h.answers, fun _ => htaken⟩
  | close =>
      obtain rfl := Option.some.inj hstep
      exact ⟨h.once, h.requested, h.answers, h.idle⟩
  | connect =>
      simp only [ClientAction.step, Option.ite_none_right_eq_some, Option.some.injEq] at hstep
      rcases hstep with ⟨_, rfl⟩
      exact ⟨h.once, h.requested, h.answers, h.idle⟩

theorem promiseInv_init : PromiseInv init :=
  ⟨fun _ => rfl, nofun, nofun, fun _ => rfl⟩

/-! ## The end of a connection -/

/-- No request hangs: each promise is completed at most once, a response completes the
promise of its request, and behind the end of the connection every promise is
completed. -/
structure NoneHangs (s : KeyClient) : Prop where
  once : (s.settled.map (·.promise)).Nodup
  answers : ∀ c ∈ s.settled, Answers s.requests c
  ended : s.closed = true → s.running = .idle → (∀ kind, s.pending kind = []) ∧
    ∀ p < s.requests.length, ∃ c ∈ s.settled, c.promise = p

/-- The client closes when nothing is pending, and makes no request that the sweep of
an ended connection has passed. -/
def ClosesDrained : ClientAction → KeyClient → Prop
  | .request kind, s => s.live = true ∨ kind ∈ s.sweeping
  | .close, s => s.live = true → ∀ kind, s.pending kind = []
  | _, _ => True

/-- Where the connection has ended, only what is still to be swept is pending. -/
structure EndInv (s : KeyClient) : Prop where
  closed : s.closed = true → s.live = false
  swept : s.live = false → ∀ kind, kind ∉ s.sweeping → s.pending kind = []
  failing : ∀ kinds, s.running = .failAll kinds → s.live = false

theorem pending_request_of_ne {kind k : RequestKind} (hne : k ≠ kind) :
    (s.request kind).pending k = s.pending k := by
  unfold request
  simp only
  split
  · rfl
  · exact Function.update_of_ne hne _ _

theorem EndInv.request (h : EndInv s) (kind : RequestKind)
    (hgood : s.live = true ∨ kind ∈ s.sweeping) : EndInv (s.request kind) := by
  have hfields : (s.request kind).live = s.live ∧ (s.request kind).closed = s.closed ∧
      (s.request kind).running = s.running := by
    unfold KeyClient.request
    simp only
    split <;> exact ⟨rfl, rfl, rfl⟩
  rcases hfields with ⟨hlive, hclosed, hrunning⟩
  constructor
  · rw [hlive, hclosed]
    exact h.closed
  · intro hended k hk
    rw [hlive] at hended
    rw [sweeping, hrunning] at hk
    -- behind the end, a request joins a map that is still to be swept
    have hne : k ≠ kind := by
      rintro rfl
      rcases hgood with htrue | hmem
      · exact absurd (hended.symm.trans htrue) (by decide)
      · exact hk hmem
    rw [pending_request_of_ne hne]
    exact h.swept hended k hk
  · rw [hlive, hrunning]
    exact h.failing

theorem EndInv.step {a : ClientAction} (h : EndInv s) (hgood : ClosesDrained a s)
    (hstep : a.step s = some t) : EndInv t := by
  cases a with
  | request kind =>
      obtain rfl := Option.some.inj hstep
      exact h.request kind hgood
  | response kind id =>
      simp only [ClientAction.step, Option.ite_none_right_eq_some, Option.some.injEq] at hstep
      rcases hstep with ⟨⟨_, hlive⟩, rfl⟩
      unfold respond
      split
      · exact h
      · refine ⟨h.closed, fun hended => ?_, nofun⟩
        exact absurd (hended.symm.trans hlive) (by decide)
  | disconnect =>
      simp only [ClientAction.step, Option.ite_none_right_eq_some, Option.some.injEq] at hstep
      rcases hstep with ⟨_, rfl⟩
      refine ⟨fun _ => rfl, fun _ kind hnot => ?_, fun _ _ => rfl⟩
      cases kind <;> simp [sweeping] at hnot
  | takeAll =>
      simp only [ClientAction.step] at hstep
      split at hstep
      next kind rest hrunning =>
        obtain rfl := Option.some.inj hstep
        refine ⟨h.closed, fun hended k hk => ?_, fun _ _ => h.failing _ hrunning⟩
        show Function.update s.pending kind [] k = []
        by_cases heq : k = kind
        · rw [heq, Function.update_self]
        · rw [Function.update_of_ne heq]
          refine h.swept hended k ?_
          rw [sweeping, hrunning, List.mem_cons, not_or]
          exact ⟨heq, hk⟩
      next => cases hstep
  | settle =>
      simp only [ClientAction.step] at hstep
      split at hstep
      next => cases hstep
      next c cs _ =>
        rw [Option.ite_none_right_eq_some] at hstep
        obtain rfl := Option.some.inj hstep.2
        exact ⟨h.closed, h.swept, h.failing⟩
  | returns =>
      simp only [ClientAction.step, Option.ite_none_right_eq_some, Option.some.injEq] at hstep
      rcases hstep with ⟨⟨_, hsweeping⟩, rfl⟩
      refine ⟨fun hclosed => ?_, fun hended kind _ => ?_, nofun⟩
      · simp only at hclosed
        split at hclosed
        next hrunning => exact h.failing _ hrunning
        next => exact h.closed hclosed
      -- the last kind was swept, so nothing is left to be
      · refine h.swept hended kind ?_
        rw [hsweeping]
        exact List.not_mem_nil
  | close =>
      obtain rfl := Option.some.inj hstep
      refine ⟨fun _ => rfl, fun _ kind hk => ?_, fun _ _ => rfl⟩
      cases hlive : s.live with
      | true => exact hgood hlive kind
      | false => exact h.swept hlive kind hk
  | connect =>
      simp only [ClientAction.step, Option.ite_none_right_eq_some, Option.some.injEq] at hstep
      rcases hstep with ⟨⟨hidle, _⟩, rfl⟩
      exact ⟨nofun, nofun, fun _ hfalse => by cases hidle.symm.trans hfalse⟩

theorem EndInv.noneHangs (h : EndInv s) (hinv : PromiseInv s) : NoneHangs s := by
  constructor
  · rw [List.nodup_iff_count_le_one]
    intro p
    have hload := hinv.once p
    simp only [load, List.map_append, List.count_append] at hload
    split at hload <;> omega
  · exact fun c hc => hinv.answers c (List.mem_append_right _ hc)
  · intro hclosed hidle
    have hempty : ∀ kind, s.pending kind = [] := by
      intro kind
      refine h.swept (h.closed hclosed) kind ?_
      rw [sweeping, hidle]
      exact List.not_mem_nil
    refine ⟨hempty, fun p hp => ?_⟩
    -- the one place that is left for a promise is among the completed ones
    have hload := hinv.once p
    simp only [load, hempty, hinv.idle hidle, List.map_nil, List.count_nil, List.nil_append,
      if_pos hp] at hload
    have hmem : p ∈ s.settled.map (·.promise) := List.count_pos_iff.mp (by omega)
    rcases List.mem_map.mp hmem with ⟨c, hc, heq⟩
    exact ⟨c, hc, heq⟩

/-- No request hangs, where `close` comes when nothing is pending and no request comes
behind the sweep. -/
theorem no_request_hangs {as : List ClientAction}
    (hgood : Machine.EachStep ClientAction.step ClosesDrained as init)
    (hrun : Machine.run ClientAction.step as init = some s) : NoneHangs s := by
  have hinit : EndInv init := ⟨nofun, nofun, nofun⟩
  have h := @Machine.invariant _ _ ClientAction.step ClosesDrained
    (fun s => PromiseInv s ∧ EndInv s)
    (fun _ _ _ hgood hinv hstep => ⟨hinv.1.step hstep, hinv.2.step hgood hstep⟩) as init s hgood
    ⟨promiseInv_init, hinit⟩ hrun
  exact h.2.noneHangs h.1

/-- One request is answered, and the peer closes before the other one is. -/
def answeredAndFailed : List ClientAction := [
  .request .findKey, .request .registerKey, .response .registerKey 2, .settle, .returns,
  .disconnect, .takeAll, .takeAll, .takeAll, .settle, .returns]

theorem no_request_hangs_answeredAndFailed :
    ∃ s, Machine.run ClientAction.step answeredAndFailed init = some s ∧ NoneHangs s ∧
      s.closed = true ∧ s.settled = [⟨1, .response .registerKey 2⟩, ⟨0, .failed⟩] := by
  have hrun : Machine.run ClientAction.step answeredAndFailed init = some _ := rfl
  have hgood : Machine.EachStep ClientAction.step ClosesDrained answeredAndFailed init := by
    refine Machine.EachStep.cons (Or.inl rfl) rfl ?_
    refine Machine.EachStep.cons (Or.inl rfl) rfl ?_
    iterate 8 refine Machine.EachStep.cons trivial rfl ?_
    exact Machine.EachStep.cons trivial rfl trivial
  exact ⟨_, hrun, no_request_hangs hgood hrun, rfl, rfl⟩

/-- `close` leaves the promise of a request behind. -/
theorem request_hangs_closed :
    ¬ ∀ (as : List ClientAction) (s : KeyClient),
      Machine.run ClientAction.step as init = some s → NoneHangs s := by
  intro h
  have hrun : Machine.run ClientAction.step [.request .findKey, .close] init = some _ := rfl
  have hended := ((h _ _ hrun).ended rfl rfl).1 .findKey
  cases hended

end KeyClient

end Securepath.KeyServer
