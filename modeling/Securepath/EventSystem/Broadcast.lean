import Securepath.Library.Machine
import Mathlib.Data.List.Nodup
import Mathlib.Logic.Function.Basic

/-!
# Broadcast events

`broadcast_event_handler` (`event_system/broadcast_event_handler.cpp`) and its
`asio_broadcast_observer`s (`event_system/asio_broadcast_observer.hpp` and
`impl/bc_observer_impl.cpp`). `emit_event` holds the lock of the handler while it goes from one
observer to the next, each posts its functions to a strand, and the strand calls them one by
one, on other threads. What runs under one lock is one step. Nobody uses an observer once its
destructor has begun, apart from the handler and the strand.
-/

namespace Securepath.EventSystem.Broadcast

/-- `std::type_index`. -/
abbrev TypeIndex := Nat

/-- `broadcast_observer*`. -/
abbrev ObserverId := Nat

/-- A function that is connected, by number. -/
abbrev Func := Nat

/-- `event_base`. -/
structure Event where
  type : TypeIndex
  params : Nat
deriving DecidableEq

/-- What is posted to the strand. -/
structure Call where
  func : Func
  event : Event
deriving DecidableEq

/-- `asio_bc_observer_caller::operator()`, on a thread that runs the strand. -/
inductive Runner where
  /-- not in a function -/
  | idle
  /-- at the first `if(enabled_)` -/
  | testing (c : Call)
  /-- at the lock of `mutex_` -/
  | locking (c : Call)
  /-- at the second `if(enabled_)`, with `mutex_` -/
  | retesting (c : Call)
  /-- in `make_call`, with `mutex_` -/
  | calling (c : Call)
deriving DecidableEq

/-- The thread has `mutex_`. -/
def Runner.holds : Runner → Bool
  | .retesting _ | .calling _ => true
  | _ => false

/-- The function runs. -/
def Runner.isCalling : Runner → Bool
  | .calling _ => true
  | _ => false

/-- The function was taken off the strand and is still to be called. -/
def Runner.ahead : Runner → List Call
  | .testing c | .locking c | .retesting c => [c]
  | _ => []

/-- A call on the handler that `connect` or `disconnect` has still to make. -/
inductive Pending where
  | register (type : TypeIndex)
  | deregister (type : TypeIndex)
  | deregisterAll
deriving DecidableEq

/-- What the destructor does next. -/
inductive DestructPc where
  /-- it was not called -/
  | alive
  /-- `handler_.deregister_observer(this)` -/
  | deregistering
  /-- `enabled_ = false` -/
  | disabling
  /-- the lock of `mutex_`, which is let go of at once -/
  | locking
  /-- it has returned -/
  | gone
deriving DecidableEq

/-- `asio_broadcast_observer`, with its strand and its `asio_bc_observer_caller`. -/
structure Observer where
  funcs : List (TypeIndex × Func)
  strand : List Call
  runner : Runner
  enabled : Bool
  pending : List Pending
  destructor : DestructPc
  /-- the destructor is called by a function that the observer itself calls -/
  inside : Bool
  /-- the events of `handle_event`, with the functions that were connected then -/
  reached : List (Event × List Func)
  /-- the calls of `make_call` -/
  called : List Call

namespace Observer

def init : Observer := ⟨[], [], .idle, true, [], .alive, false, [], []⟩

/-- What was posted to the strand. -/
def posted (b : Observer) : List Call :=
  b.reached.flatMap fun r => r.2.map fun func => ⟨func, r.1⟩

/-- `handle_event`. -/
def handleEvent (e : Event) (b : Observer) : Observer :=
  let funcs := (b.funcs.filter fun f => f.1 = e.type).map Prod.snd
  { b with
    strand := b.strand ++ funcs.map fun func => ⟨func, e⟩
    reached := b.reached ++ [(e, funcs)] }

/-- The strand takes the next function, when it is done with the one before. -/
def take (b : Observer) : Option Observer :=
  match b.runner, b.strand with
  | .idle, c :: strand => some { b with runner := .testing c, strand := strand }
  | _, _ => none

/-- `operator()` goes on. -/
def advance (b : Observer) : Option Observer :=
  match b.runner with
  | .idle => none
  | .testing c => some { b with runner := if b.enabled then .locking c else .idle }
  | .locking c => some { b with runner := .retesting c }
  | .retesting c =>
      if b.enabled then some { b with runner := .calling c, called := b.called ++ [c] }
      else some { b with runner := .idle }
  | .calling _ =>
      -- a function that destroys its observer goes on behind the destructor
      if b.inside ∧ b.destructor ≠ .gone then none else some { b with runner := .idle }

end Observer

inductive ObserverAction where
  /-- `connect`, `disconnect` and `disconnect_all`, up to the call on the handler -/
  | connect (type : TypeIndex) (func : Func)
  | disconnect (type : TypeIndex)
  | disconnectAll
  | take
  | advance
  | destroy (inside : Bool)
  /-- `disable`, up to its lock -/
  | disable
  | finish
deriving DecidableEq

def Observer.step : ObserverAction → Observer → Option Observer
  | .connect type func, b =>
      if b.destructor = .alive then
        some { b with funcs := b.funcs ++ [(type, func)], pending := .register type :: b.pending }
      else none
  | .disconnect type, b =>
      if b.destructor = .alive then
        some { b with
          funcs := b.funcs.filter fun f => f.1 ≠ type
          pending := .deregister type :: b.pending }
      else none
  | .disconnectAll, b =>
      if b.destructor = .alive then
        some { b with funcs := [], pending := .deregisterAll :: b.pending }
      else none
  | .take, b => b.take
  | .advance, b => b.advance
  | .destroy inside, b =>
      if b.destructor = .alive ∧ b.pending = [] ∧ (inside → b.runner.isCalling) then
        some { b with destructor := .deregistering, inside := inside }
      else none
  | .disable, b =>
      if b.destructor = .disabling then some { b with enabled := false, destructor := .locking }
      else none
  | .finish, b =>
      -- `mutex_` is recursive
      if b.destructor = .locking ∧ (b.inside ∨ ¬ b.runner.holds) then
        some { b with destructor := .gone }
      else none

/-! ## The handler -/

/-- `broadcast_event_handler` and the observers. -/
structure Handler where
  /-- `observers_`; nothing depends on the order in which an event reaches the observers -/
  registered : List (TypeIndex × ObserverId)
  /-- `emit_event` has the lock: its event, and the observers that it still has to reach -/
  emitting : Option (Event × List ObserverId)
  observer : ObserverId → Observer

namespace Handler

def init : Handler := ⟨[], none, fun _ => .init⟩

def setObserver (s : Handler) (o : ObserverId) (b : Observer) : Handler :=
  { s with observer := Function.update s.observer o b }

/-- `register_observer`. -/
def registerObserver (o : ObserverId) (type : TypeIndex)
    (registered : List (TypeIndex × ObserverId)) : List (TypeIndex × ObserverId) :=
  if (type, o) ∈ registered then registered else registered ++ [(type, o)]

/-- `deregister_observer` for a type. -/
def deregisterObserver (o : ObserverId) (type : TypeIndex)
    (registered : List (TypeIndex × ObserverId)) : List (TypeIndex × ObserverId) :=
  registered.filter fun p => p ≠ (type, o)

/-- `deregister_observer`. -/
def deregisterAll (o : ObserverId) (registered : List (TypeIndex × ObserverId)) :
    List (TypeIndex × ObserverId) :=
  registered.filter fun p => p.2 ≠ o

def applyPending (o : ObserverId) : Pending → List (TypeIndex × ObserverId) →
    List (TypeIndex × ObserverId)
  | .register type => registerObserver o type
  | .deregister type => deregisterObserver o type
  | .deregisterAll => deregisterAll o

/-- `equal_range`. -/
def range (type : TypeIndex) (registered : List (TypeIndex × ObserverId)) : List ObserverId :=
  (registered.filter fun p => p.1 = type).map Prod.snd

end Handler

inductive Action where
  | observer (o : ObserverId) (a : ObserverAction)
  /-- the call on the handler of `connect` or `disconnect` -/
  | handler (o : ObserverId) (p : Pending)
  /-- `handler_.deregister_observer(this)` of the destructor -/
  | deregister (o : ObserverId)
  /-- `emit_event` gets the lock -/
  | emit (e : Event)
  /-- `emit_event` reaches the next observer, or lets go of the lock -/
  | reach
deriving DecidableEq

def Handler.step : Action → Handler → Option Handler
  | .observer o a, s => ((s.observer o).step a).map (s.setObserver o)
  | .handler o p, s =>
      if s.emitting = none ∧ p ∈ (s.observer o).pending then
        some { s with
          registered := applyPending o p s.registered
          observer := Function.update s.observer o
            { s.observer o with pending := (s.observer o).pending.erase p } }
      else none
  | .deregister o, s =>
      if s.emitting = none ∧ (s.observer o).destructor = .deregistering then
        some { s with
          registered := deregisterAll o s.registered
          observer := Function.update s.observer o
            { s.observer o with destructor := .disabling } }
      else none
  | .emit e, s =>
      if s.emitting = none then some { s with emitting := some (e, range e.type s.registered) }
      else none
  | .reach, s =>
      match s.emitting with
      | none => none
      | some (_, []) => some { s with emitting := none }
      | some (e, o :: rest) =>
          some { s with
            emitting := some (e, rest)
            observer := Function.update s.observer o ((s.observer o).handleEvent e) }

/-! ## Inboxes -/

/-- What a broadcast is: an event is put at once into the inbox of each observer that has
subscribed to its type. -/
structure Inboxes where
  subscribed : TypeIndex × ObserverId → Bool
  inbox : ObserverId → List Event

namespace Inboxes

def init : Inboxes := ⟨fun _ => false, fun _ => []⟩

def step (v : Inboxes) : Action → Inboxes
  | .handler o (.register type) =>
      { v with subscribed := Function.update v.subscribed (type, o) true }
  | .handler o (.deregister type) =>
      { v with subscribed := Function.update v.subscribed (type, o) false }
  | .handler o .deregisterAll | .deregister o =>
      { v with subscribed := fun p => v.subscribed p && p.2 ≠ o }
  | .emit e =>
      { v with inbox := fun o => if v.subscribed (e.type, o) then v.inbox o ++ [e] else v.inbox o }
  | .observer _ _ | .reach => v

def run (v : Inboxes) (actions : List Action) : Inboxes := actions.foldl step v

end Inboxes

/-! ## The observer -/

/-- What holds of an observer between two steps. -/
structure Observer.Inv (b : Observer) : Prop where
  /-- nothing is lost or overtaken before the destructor disables the calls -/
  ordered : b.enabled = true → b.called ++ b.runner.ahead ++ b.strand = b.posted
  called_posted : b.called <+: b.posted
  enabled_iff : b.enabled = true ↔ b.destructor ≠ .locking ∧ b.destructor ≠ .gone
  pending_alive : b.pending ≠ [] → b.destructor = .alive
  /-- only the function that called the destructor is still running behind it -/
  gone_idle : b.destructor = .gone → b.inside = false → b.runner.isCalling = false

namespace Observer

variable {b b' : Observer}

theorem init_inv : init.Inv where
  ordered _ := rfl
  called_posted := List.prefix_rfl
  enabled_iff := by decide
  pending_alive h := absurd rfl h
  gone_idle _ _ := rfl

theorem posted_handleEvent (e : Event) (b : Observer) :
    (b.handleEvent e).posted = b.posted ++
      ((b.funcs.filter fun f => f.1 = e.type).map Prod.snd).map fun func => ⟨func, e⟩ := by
  unfold posted handleEvent
  rw [List.flatMap_append, List.flatMap_singleton]

theorem Inv.handleEvent (h : b.Inv) (e : Event) : (b.handleEvent e).Inv where
  ordered henabled := by
    rw [posted_handleEvent, ← h.ordered henabled, List.append_assoc _ b.strand]
    rfl
  called_posted := by
    rw [posted_handleEvent]
    exact h.called_posted.trans (List.prefix_append ..)
  enabled_iff := h.enabled_iff
  pending_alive := h.pending_alive
  gone_idle := h.gone_idle

theorem Inv.take (h : b.Inv) (htake : b.take = some b') : b'.Inv := by
  unfold Observer.take at htake
  cases hrunner : b.runner with
  | idle =>
      cases hstrand : b.strand with
      | nil =>
          rw [hrunner, hstrand] at htake
          cases htake
      | cons c strand =>
          rw [hrunner, hstrand] at htake
          obtain rfl := Option.some.inj htake
          refine ⟨fun henabled => ?_, h.called_posted, h.enabled_iff, h.pending_alive,
            fun _ _ => rfl⟩
          have hordered := h.ordered henabled
          rw [hrunner, hstrand] at hordered
          show b.called ++ [c] ++ strand = b.posted
          rw [← hordered, List.append_assoc]
          simp only [Runner.ahead, List.append_nil, List.singleton_append]
  | testing c | locking c | retesting c | calling c =>
      rw [hrunner] at htake
      cases htake

/-- Where the calls, the functions ahead and the strand stay together, the order stays. -/
theorem Inv.advance (h : b.Inv) (hadvance : b.advance = some b') : b'.Inv := by
  unfold Observer.advance at hadvance
  cases hrunner : b.runner with
  | idle =>
      rw [hrunner] at hadvance
      cases hadvance
  | testing c =>
      rw [hrunner] at hadvance
      obtain rfl := Option.some.inj hadvance
      refine ⟨fun henabled => ?_, h.called_posted, h.enabled_iff, h.pending_alive,
        fun _ _ => by dsimp only; split_ifs <;> rfl⟩
      have hordered := h.ordered henabled
      rw [hrunner] at hordered
      have henabled' : b.enabled = true := henabled
      show b.called ++ (if b.enabled = true then Runner.locking c else .idle).ahead ++ _ = _
      rw [if_pos henabled']
      exact hordered
  | locking c =>
      rw [hrunner] at hadvance
      obtain rfl := Option.some.inj hadvance
      refine ⟨fun henabled => ?_, h.called_posted, h.enabled_iff, h.pending_alive, fun _ _ => rfl⟩
      have hordered := h.ordered henabled
      rw [hrunner] at hordered
      exact hordered
  | retesting c =>
      rw [hrunner] at hadvance
      dsimp only at hadvance
      -- the destructor may have disabled the calls between the two tests
      split_ifs at hadvance with henabled
      · obtain rfl := Option.some.inj hadvance
        have hordered := h.ordered henabled
        rw [hrunner] at hordered
        have hcalled : b.called ++ [c] ++ b.strand = b.posted := hordered
        refine ⟨fun _ => ?_, ⟨b.strand, hcalled⟩, h.enabled_iff, h.pending_alive, fun hgone => ?_⟩
        · show b.called ++ [c] ++ [] ++ b.strand = b.posted
          rw [List.append_nil, hcalled]
        · exact absurd hgone (h.enabled_iff.mp henabled).2
      · obtain rfl := Option.some.inj hadvance
        exact ⟨fun h' => absurd h' henabled, h.called_posted, h.enabled_iff, h.pending_alive,
          fun _ _ => rfl⟩
  | calling c =>
      rw [hrunner] at hadvance
      dsimp only at hadvance
      split_ifs at hadvance
      obtain rfl := Option.some.inj hadvance
      refine ⟨fun henabled => ?_, h.called_posted, h.enabled_iff, h.pending_alive, fun _ _ => rfl⟩
      have hordered := h.ordered henabled
      rw [hrunner] at hordered
      exact hordered

end Observer

theorem Observer.Inv.step {b b' : Observer} (h : b.Inv) {a : ObserverAction}
    (hstep : b.step a = some b') : b'.Inv := by
  cases a with
  | connect type func =>
      obtain ⟨halive, rfl⟩ : b.destructor = .alive ∧ _ = b' := by
        simpa only [Observer.step, Option.ite_none_right_eq_some, Option.some.injEq] using hstep
      exact ⟨h.ordered, h.called_posted, h.enabled_iff, fun _ => halive, h.gone_idle⟩
  | disconnect type =>
      obtain ⟨halive, rfl⟩ : b.destructor = .alive ∧ _ = b' := by
        simpa only [Observer.step, Option.ite_none_right_eq_some, Option.some.injEq] using hstep
      exact ⟨h.ordered, h.called_posted, h.enabled_iff, fun _ => halive, h.gone_idle⟩
  | disconnectAll =>
      obtain ⟨halive, rfl⟩ : b.destructor = .alive ∧ _ = b' := by
        simpa only [Observer.step, Option.ite_none_right_eq_some, Option.some.injEq] using hstep
      exact ⟨h.ordered, h.called_posted, h.enabled_iff, fun _ => halive, h.gone_idle⟩
  | take => exact h.take hstep
  | advance => exact h.advance hstep
  | destroy inside =>
      obtain ⟨⟨halive, hpending, -⟩, rfl⟩ :
          (b.destructor = .alive ∧ b.pending = [] ∧ (inside = true → b.runner.isCalling = true)) ∧
            _ = b' := by
        simpa only [Observer.step, Option.ite_none_right_eq_some, Option.some.injEq] using hstep
      refine ⟨h.ordered, h.called_posted, ?_, fun hne => absurd hpending hne, ?_⟩
      · have henabled : b.enabled = true := h.enabled_iff.mpr (by rw [halive]; decide)
        exact iff_of_true henabled ⟨nofun, nofun⟩
      · intro hgone
        cases hgone
  | disable =>
      obtain ⟨hdisabling, rfl⟩ : b.destructor = .disabling ∧ _ = b' := by
        simpa only [Observer.step, Option.ite_none_right_eq_some, Option.some.injEq] using hstep
      refine ⟨fun h' => absurd h' Bool.false_ne_true, h.called_posted,
        iff_of_false Bool.false_ne_true fun hne => hne.1 rfl, ?_, ?_⟩
      · intro hne
        have halive := h.pending_alive hne
        rw [hdisabling] at halive
        cases halive
      · intro hgone
        cases hgone
  | finish =>
      obtain ⟨⟨hlocking, hfree⟩, rfl⟩ :
          (b.destructor = .locking ∧ (b.inside = true ∨ ¬ b.runner.holds = true)) ∧ _ = b' := by
        simpa only [Observer.step, Option.ite_none_right_eq_some, Option.some.injEq] using hstep
      have hdisabled : ¬ b.enabled = true := fun henabled =>
        (h.enabled_iff.mp henabled).1 hlocking
      refine ⟨fun henabled => absurd henabled hdisabled, h.called_posted,
        iff_of_false hdisabled fun hne => hne.2 rfl, ?_, ?_⟩
      · intro hne
        have halive := h.pending_alive hne
        rw [hlocking] at halive
        cases halive
      -- the destructor has got the lock, or it runs inside a call of the same thread
      · intro _ houtside
        obtain hinside | hholds := hfree
        · exact absurd (hinside.symm.trans houtside) (by decide)
        · show b.runner.isCalling = false
          cases hrunner : b.runner with
          | calling c => exact absurd (by rw [hrunner]; rfl) hholds
          | idle | testing c | locking c | retesting c => rfl

/-- What the steps of an observer leave alone. -/
structure Observer.Frame (b b' : Observer) : Prop where
  reached : b'.reached = b.reached
  usable : b.destructor = .alive ∨ b.destructor = .deregistering →
    b'.destructor = .alive ∨ b'.destructor = .deregistering
  called : b.enabled = false → b'.called = b.called ∧ b'.enabled = false
  gone : b.destructor = .gone → b'.destructor = .gone ∧ b'.inside = b.inside

namespace Observer

variable {b b' : Observer}

theorem frame_take (h : b.take = some b') : b.Frame b' := by
  unfold take at h
  split at h
  · obtain rfl := Option.some.inj h
    exact ⟨rfl, id, fun h' => ⟨rfl, h'⟩, fun h' => ⟨h', rfl⟩⟩
  · cases h

theorem frame_advance (h : b.advance = some b') : b.Frame b' := by
  unfold Observer.advance at h
  cases hrunner : b.runner with
  | idle =>
      rw [hrunner] at h
      cases h
  | testing c | locking c =>
      rw [hrunner] at h
      obtain rfl := Option.some.inj h
      exact ⟨rfl, id, fun h' => ⟨rfl, h'⟩, fun h' => ⟨h', rfl⟩⟩
  | retesting c =>
      rw [hrunner] at h
      dsimp only at h
      split_ifs at h with henabled
      · obtain rfl := Option.some.inj h
        exact ⟨rfl, id, fun h' => absurd (henabled.symm.trans h') (by decide),
          fun h' => ⟨h', rfl⟩⟩
      · obtain rfl := Option.some.inj h
        exact ⟨rfl, id, fun h' => ⟨rfl, h'⟩, fun h' => ⟨h', rfl⟩⟩
  | calling c =>
      rw [hrunner] at h
      dsimp only at h
      split_ifs at h
      obtain rfl := Option.some.inj h
      exact ⟨rfl, id, fun h' => ⟨rfl, h'⟩, fun h' => ⟨h', rfl⟩⟩

theorem frame_step {a : ObserverAction} (h : b.step a = some b') : b.Frame b' := by
  cases a with
  | connect _ _ | disconnect _ | disconnectAll =>
      obtain ⟨-, rfl⟩ : b.destructor = .alive ∧ _ = b' := by
        simpa only [step, Option.ite_none_right_eq_some, Option.some.injEq] using h
      exact ⟨rfl, id, fun h' => ⟨rfl, h'⟩, fun h' => ⟨h', rfl⟩⟩
  | take => exact frame_take h
  | advance => exact frame_advance h
  | destroy inside =>
      obtain ⟨⟨halive, -, -⟩, rfl⟩ :
          (b.destructor = .alive ∧ b.pending = [] ∧ (inside = true → b.runner.isCalling = true)) ∧
            _ = b' := by
        simpa only [step, Option.ite_none_right_eq_some, Option.some.injEq] using h
      exact ⟨rfl, fun _ => .inr rfl, fun h' => ⟨rfl, h'⟩, fun h' => nomatch halive.symm.trans h'⟩
  | disable =>
      obtain ⟨hdisabling, rfl⟩ : b.destructor = .disabling ∧ _ = b' := by
        simpa only [step, Option.ite_none_right_eq_some, Option.some.injEq] using h
      refine ⟨rfl, ?_, fun _ => ⟨rfl, rfl⟩, fun h' => nomatch hdisabling.symm.trans h'⟩
      rw [hdisabling]
      rintro (h' | h') <;> cases h'
  | finish =>
      obtain ⟨⟨hlocking, -⟩, rfl⟩ :
          (b.destructor = .locking ∧ (b.inside = true ∨ ¬ b.runner.holds = true)) ∧ _ = b' := by
        simpa only [step, Option.ite_none_right_eq_some, Option.some.injEq] using h
      refine ⟨rfl, ?_, fun h' => ⟨rfl, h'⟩, fun h' => nomatch hlocking.symm.trans h'⟩
      rw [hlocking]
      rintro (h' | h') <;> cases h'

end Observer

/-! ## The handler and the inboxes -/

/-- The event that `emit_event` has still to bring to an observer. -/
def Handler.due (s : Handler) (o : ObserverId) : List Event :=
  match s.emitting with
  | none => []
  | some (e, rest) => if o ∈ rest then [e] else []

structure Handler.Inv (s : Handler) (v : Inboxes) : Prop where
  observers : ∀ o, (s.observer o).Inv
  nodup : s.registered.Nodup
  /-- no destructor is past its deregistration -/
  usable : ∀ p ∈ s.registered, (s.observer p.2).destructor = .alive ∨
    (s.observer p.2).destructor = .deregistering
  emitting : ∀ e rest, s.emitting = some (e, rest) →
    rest.Nodup ∧ ∀ o ∈ rest, (e.type, o) ∈ s.registered
  subscribed : ∀ p, v.subscribed p = true ↔ p ∈ s.registered
  inbox : ∀ o, (s.observer o).reached.map Prod.fst ++ s.due o = v.inbox o

namespace Handler

variable {s s' : Handler} {v : Inboxes}

theorem init_inv : init.Inv .init where
  observers _ := Observer.init_inv
  nodup := List.nodup_nil
  usable _ h := nomatch h
  emitting _ _ h := nomatch h
  subscribed _ := iff_of_false Bool.false_ne_true (List.not_mem_nil)
  inbox _ := rfl

theorem mem_range {type : TypeIndex} {registered : List (TypeIndex × ObserverId)}
    {o : ObserverId} : o ∈ range type registered ↔ (type, o) ∈ registered := by
  unfold range
  rw [List.mem_map]
  constructor
  · rintro ⟨p, hp, rfl⟩
    obtain ⟨hmem, htype⟩ := List.mem_filter.mp hp
    rw [← of_decide_eq_true htype]
    exact hmem
  · intro h
    exact ⟨(type, o), List.mem_filter.mpr ⟨h, decide_eq_true rfl⟩, rfl⟩

/-- `register_observer` keeps an observer from being there twice. -/
theorem nodup_range {type : TypeIndex} {registered : List (TypeIndex × ObserverId)}
    (h : registered.Nodup) : (range type registered).Nodup := by
  refine (List.nodup_map_iff_inj_on (h.filter _)).mpr ?_
  rintro ⟨t, o⟩ hp ⟨t', o'⟩ hp' (rfl : o = o')
  have ht : t = type := of_decide_eq_true (List.mem_filter.mp hp).2
  have ht' : t' = type := of_decide_eq_true (List.mem_filter.mp hp').2
  rw [ht, ht']

theorem mem_registerObserver {o : ObserverId} {type : TypeIndex}
    {registered : List (TypeIndex × ObserverId)} {q : TypeIndex × ObserverId} :
    q ∈ registerObserver o type registered ↔ q ∈ registered ∨ q = (type, o) := by
  unfold registerObserver
  split_ifs with hmem
  · exact (or_iff_left_of_imp fun h => h ▸ hmem).symm
  · rw [List.mem_append, List.mem_singleton]

theorem nodup_registerObserver {o : ObserverId} {type : TypeIndex}
    {registered : List (TypeIndex × ObserverId)} (h : registered.Nodup) :
    (registerObserver o type registered).Nodup := by
  unfold registerObserver
  split_ifs with hmem
  · exact h
  · refine List.nodup_append.mpr ⟨h, List.nodup_singleton _, fun x hx y hy heq => ?_⟩
    rw [heq, List.mem_singleton.mp hy] at hx
    exact hmem hx

theorem nodup_applyPending {o : ObserverId} {p : Pending}
    {registered : List (TypeIndex × ObserverId)} (h : registered.Nodup) :
    (applyPending o p registered).Nodup := by
  cases p with
  | register type => exact nodup_registerObserver h
  | deregister type | deregisterAll => exact h.filter _

/-- What an observer has pending changes its own registrations. -/
theorem mem_applyPending {o : ObserverId} {p : Pending}
    {registered : List (TypeIndex × ObserverId)} {q : TypeIndex × ObserverId}
    (h : q ∈ applyPending o p registered) : q ∈ registered ∨ q.2 = o := by
  cases p with
  | register type => exact (mem_registerObserver.mp h).imp_right (congrArg Prod.snd)
  | deregister type | deregisterAll => exact .inl (List.mem_filter.mp h).1

theorem subscribed_applyPending (hsubscribed : ∀ q, v.subscribed q = true ↔ q ∈ s.registered)
    (o : ObserverId) (p : Pending) (q : TypeIndex × ObserverId) :
    (v.step (.handler o p)).subscribed q = true ↔ q ∈ applyPending o p s.registered := by
  cases p with
  | register type =>
      show Function.update v.subscribed (type, o) true q = true ↔ q ∈ registerObserver o type _
      rw [mem_registerObserver]
      by_cases hq : q = (type, o)
      · rw [hq, Function.update_self]
        exact iff_of_true rfl (.inr rfl)
      · rw [Function.update_of_ne hq, hsubscribed, or_iff_left hq]
  | deregister type =>
      show Function.update v.subscribed (type, o) false q = true ↔
        q ∈ s.registered.filter fun p => p ≠ (type, o)
      rw [List.mem_filter, decide_eq_true_iff]
      by_cases hq : q = (type, o)
      · rw [hq, Function.update_self]
        exact iff_of_false Bool.false_ne_true fun h => h.2 rfl
      · rw [Function.update_of_ne hq, hsubscribed, and_iff_left hq]
  | deregisterAll =>
      show (v.subscribed q && decide (q.2 ≠ o)) = true ↔ q ∈ s.registered.filter fun p => p.2 ≠ o
      rw [Bool.and_eq_true, hsubscribed, List.mem_filter]

end Handler

namespace Handler

variable {s s' : Handler} {v : Inboxes}

/-- The observers, when one of them goes on. -/
theorem inv_update (h : s.Inv v) {o : ObserverId} {b : Observer} (hb : b.Inv) :
    ∀ other, (Function.update s.observer o b other).Inv :=
  (Function.forall_update_iff s.observer fun _ c => c.Inv).mpr
    ⟨hb, fun other _ => h.observers other⟩

/-- An observer goes on, and what is registered is still of observers that can be used. -/
theorem usable_update (h : s.Inv v) {o : ObserverId} {b : Observer}
    {registered : List (TypeIndex × ObserverId)}
    (hmem : ∀ q ∈ registered, q ∈ s.registered ∨ q.2 = o)
    (hb : ∀ q ∈ registered, q.2 = o → b.destructor = .alive ∨ b.destructor = .deregistering) :
    ∀ q ∈ registered, (Function.update s.observer o b q.2).destructor = .alive ∨
      (Function.update s.observer o b q.2).destructor = .deregistering := by
  intro q hq
  by_cases hother : q.2 = o
  · rw [hother, Function.update_self]
    exact hb q hq hother
  · rw [Function.update_of_ne hother]
    exact h.usable q ((hmem q hq).resolve_right hother)

/-- A step of an observer alone. -/
theorem Inv.setObserver (h : s.Inv v) {o : ObserverId} {b : Observer} (hb : b.Inv)
    (hframe : (s.observer o).Frame b) : (s.setObserver o b).Inv v where
  observers := inv_update h hb
  nodup := h.nodup
  usable := by
    refine usable_update h (fun _ hq => .inl hq) ?_
    intro q hq hother
    exact hframe.usable (hother ▸ h.usable q hq)
  emitting := h.emitting
  subscribed := h.subscribed
  inbox other := by
    show (Function.update s.observer o b other).reached.map Prod.fst ++ s.due other = _
    by_cases hother : other = o
    · rw [hother, Function.update_self, hframe.reached]
      exact h.inbox o
    · rw [Function.update_of_ne hother]
      exact h.inbox other

/-- No event is on its way while nobody has the lock. -/
theorem due_eq_nil (h : s.emitting = none) (o : ObserverId) : s.due o = [] := by
  unfold due
  rw [h]

/-- The handler changes what is registered, and an observer goes on behind it. -/
theorem Inv.register (h : s.Inv v) {a : Action} {o : ObserverId} {b : Observer} (hb : b.Inv)
    {registered : List (TypeIndex × ObserverId)} (hemitting : s.emitting = none)
    (hreached : b.reached = (s.observer o).reached) (hnodup : registered.Nodup)
    (hmem : ∀ q ∈ registered, q ∈ s.registered ∨ q.2 = o)
    (husable : ∀ q ∈ registered, q.2 = o → b.destructor = .alive ∨ b.destructor = .deregistering)
    (hsubscribed : ∀ q, (v.step a).subscribed q = true ↔ q ∈ registered)
    (hinbox : (v.step a).inbox = v.inbox) :
    Inv { s with registered := registered, observer := Function.update s.observer o b }
      (v.step a) where
  observers := inv_update h hb
  nodup := hnodup
  usable := usable_update h hmem husable
  emitting e rest he := nomatch hemitting.symm.trans he
  subscribed := hsubscribed
  inbox other := by
    have hdue := due_eq_nil hemitting other
    show (Function.update s.observer o b other).reached.map Prod.fst ++ s.due other = _
    rw [hinbox, ← h.inbox other]
    by_cases hother : other = o
    · rw [hother, Function.update_self, hreached]
    · rw [Function.update_of_ne hother]

/-- `emit_event` reaches an observer. -/
theorem Inv.reach (h : s.Inv v) {e : Event} {o : ObserverId} {rest : List ObserverId}
    (hemitting : s.emitting = some (e, o :: rest)) :
    Inv { s with
      emitting := some (e, rest)
      observer := Function.update s.observer o ((s.observer o).handleEvent e) } v := by
  obtain ⟨hnodup, hmem⟩ := h.emitting e (o :: rest) hemitting
  obtain ⟨ho, hrest⟩ := List.nodup_cons.mp hnodup
  refine ⟨inv_update h ((h.observers o).handleEvent e), h.nodup,
    usable_update h (fun _ hq => .inl hq) ?_, ?_, h.subscribed, fun other => ?_⟩
  · intro q hq hother
    exact hother ▸ h.usable q hq
  · rintro _ _ ⟨⟩
    exact ⟨hrest, fun other hother => hmem other (List.mem_cons_of_mem o hother)⟩
  · have hinbox := h.inbox other
    unfold due at hinbox
    rw [hemitting] at hinbox
    dsimp only at hinbox
    show (Function.update s.observer o _ other).reached.map Prod.fst ++
      (if other ∈ rest then [e] else []) = _
    rw [← hinbox]
    -- the observer is not a second time among those to be reached
    by_cases hother : other = o
    · subst hother
      rw [Function.update_self, if_neg ho, if_pos List.mem_cons_self]
      show ((s.observer other).reached ++ [(e, _)]).map Prod.fst ++ [] = _
      rw [List.map_append, List.append_nil]
      rfl
    · rw [Function.update_of_ne hother]
      simp only [List.mem_cons, hother, false_or]

/-- `emit_event` with the lock is at the end of the observers, or at the next of them. -/
theorem step_reach (h : Handler.step .reach s = some s') :
    (∃ e, s.emitting = some (e, []) ∧ s' = { s with emitting := none }) ∨
      ∃ e o rest, s.emitting = some (e, o :: rest) ∧ s' = { s with
        emitting := some (e, rest)
        observer := Function.update s.observer o ((s.observer o).handleEvent e) } := by
  unfold Handler.step at h
  cases hemitting : s.emitting with
  | none =>
      simp only [hemitting] at h
      cases h
  | some emission =>
      obtain ⟨e, rest⟩ := emission
      simp only [hemitting] at h
      cases rest with
      | nil => exact .inl ⟨e, rfl, (Option.some.inj h).symm⟩
      | cons o rest => exact .inr ⟨e, o, rest, rfl, (Option.some.inj h).symm⟩

theorem Inv.step (h : s.Inv v) {a : Action} (hstep : Handler.step a s = some s') :
    s'.Inv (v.step a) := by
  cases a with
  | observer o a =>
      obtain ⟨b, hb, rfl⟩ := Option.map_eq_some_iff.mp hstep
      exact h.setObserver ((h.observers o).step hb) (Observer.frame_step hb)
  | handler o p =>
      obtain ⟨⟨hemitting, hp⟩, rfl⟩ :
          (s.emitting = none ∧ p ∈ (s.observer o).pending) ∧ _ = s' := by
        simpa only [Handler.step, Option.ite_none_right_eq_some, Option.some.injEq] using hstep
      have halive := (h.observers o).pending_alive (List.ne_nil_of_mem hp)
      have hb : Observer.Inv
          { s.observer o with pending := (s.observer o).pending.erase p } :=
        ⟨(h.observers o).ordered, (h.observers o).called_posted, (h.observers o).enabled_iff,
          fun _ => halive, (h.observers o).gone_idle⟩
      refine h.register hb hemitting rfl (nodup_applyPending h.nodup)
        (fun q hq => mem_applyPending hq) (fun _ _ _ => .inl halive)
        (subscribed_applyPending h.subscribed o p) ?_
      cases p <;> rfl
  | deregister o =>
      obtain ⟨⟨hemitting, hdestructor⟩, rfl⟩ :
          (s.emitting = none ∧ (s.observer o).destructor = .deregistering) ∧ _ = s' := by
        simpa only [Handler.step, Option.ite_none_right_eq_some, Option.some.injEq] using hstep
      have hobserver := h.observers o
      have henabled : (s.observer o).enabled = true :=
        hobserver.enabled_iff.mpr (by rw [hdestructor]; exact ⟨nofun, nofun⟩)
      have hb : Observer.Inv { s.observer o with destructor := .disabling } :=
        ⟨hobserver.ordered, hobserver.called_posted, iff_of_true henabled ⟨nofun, nofun⟩,
          fun hne => (nomatch hdestructor.symm.trans (hobserver.pending_alive hne)), nofun⟩
      refine h.register hb hemitting rfl (h.nodup.filter _)
        (fun q hq => .inl (List.mem_filter.mp hq).1)
        (fun q hq hother => absurd hother (of_decide_eq_true (List.mem_filter.mp hq).2))
        (subscribed_applyPending h.subscribed o .deregisterAll) rfl
  | emit e =>
      obtain ⟨hemitting, rfl⟩ : s.emitting = none ∧ _ = s' := by
        simpa only [Handler.step, Option.ite_none_right_eq_some, Option.some.injEq] using hstep
      refine ⟨h.observers, h.nodup, h.usable, ?_, h.subscribed, fun o => ?_⟩
      · rintro _ _ ⟨⟩
        exact ⟨nodup_range h.nodup, fun o ho => mem_range.mp ho⟩
      · have hinbox := h.inbox o
        rw [due_eq_nil hemitting, List.append_nil] at hinbox
        show (s.observer o).reached.map Prod.fst ++
          (if o ∈ range e.type s.registered then [e] else []) =
            if v.subscribed (e.type, o) = true then v.inbox o ++ [e] else v.inbox o
        rw [hinbox]
        simp only [mem_range, h.subscribed]
        split_ifs
        · rfl
        · exact List.append_nil _
  | reach =>
      obtain ⟨e, hemitting, rfl⟩ | ⟨e, o, rest, hemitting, rfl⟩ := step_reach hstep
      · refine ⟨h.observers, h.nodup, h.usable, nofun, h.subscribed, fun o => ?_⟩
        have hinbox := h.inbox o
        unfold due at hinbox
        rw [hemitting] at hinbox
        exact hinbox
      · exact h.reach hemitting

theorem Inv.run {actions : List Action} (h : s.Inv v)
    (hrun : Machine.run Handler.step actions s = some s') : s'.Inv (v.run actions) := by
  induction actions generalizing s v with
  | nil =>
      obtain rfl := Option.some.inj hrun
      exact h
  | cons a actions ih =>
      obtain ⟨t, hstep, hrest⟩ := Machine.run_cons_eq_some.mp hrun
      exact ih (h.step hstep) hrest

end Handler

/-! ## Behind the destructor -/

/-- The observer is gone, and nothing has come to it since `b`. -/
structure Observer.Silent (b b' : Observer) : Prop where
  gone : b'.destructor = .gone
  inside : b'.inside = b.inside
  called : b'.called = b.called
  reached : b'.reached = b.reached

namespace Handler

variable {s s' : Handler} {v : Inboxes} {o : ObserverId}

theorem Inv.silent_step (h : s.Inv v) (hgone : (s.observer o).destructor = .gone) {a : Action}
    (hstep : Handler.step a s = some s') : (s.observer o).Silent (s'.observer o) := by
  have hsame : (s.observer o).Silent (s.observer o) := ⟨hgone, rfl, rfl, rfl⟩
  have hdisabled : (s.observer o).enabled = false :=
    Bool.eq_false_iff.mpr fun henabled => ((h.observers o).enabled_iff.mp henabled).2 hgone
  have hother : ∀ {other : ObserverId} {b : Observer}, o ≠ other →
      (s.observer o).Silent (Function.update s.observer other b o) := fun hne => by
    rw [Function.update_of_ne hne]
    exact hsame
  cases a with
  | observer other a =>
      obtain ⟨b, hb, rfl⟩ := Option.map_eq_some_iff.mp hstep
      by_cases heq : o = other
      · subst heq
        have hframe := Observer.frame_step hb
        show (s.observer o).Silent (Function.update s.observer o b o)
        rw [Function.update_self]
        exact ⟨(hframe.gone hgone).1, (hframe.gone hgone).2, (hframe.called hdisabled).1,
          hframe.reached⟩
      · exact hother heq
  | handler other p =>
      obtain ⟨⟨-, hp⟩, rfl⟩ : (s.emitting = none ∧ p ∈ (s.observer other).pending) ∧ _ = s' := by
        simpa only [Handler.step, Option.ite_none_right_eq_some, Option.some.injEq] using hstep
      -- only an observer that is alive has something to register
      refine hother fun heq => ?_
      have halive := (h.observers other).pending_alive (List.ne_nil_of_mem hp)
      rw [← heq, hgone] at halive
      cases halive
  | deregister other =>
      obtain ⟨⟨-, hdestructor⟩, rfl⟩ :
          (s.emitting = none ∧ (s.observer other).destructor = .deregistering) ∧ _ = s' := by
        simpa only [Handler.step, Option.ite_none_right_eq_some, Option.some.injEq] using hstep
      refine hother fun heq => ?_
      rw [← heq, hgone] at hdestructor
      cases hdestructor
  | emit e =>
      obtain ⟨-, rfl⟩ : s.emitting = none ∧ _ = s' := by
        simpa only [Handler.step, Option.ite_none_right_eq_some, Option.some.injEq] using hstep
      exact hsame
  | reach =>
      obtain ⟨e, hemitting, rfl⟩ | ⟨e, other, rest, hemitting, rfl⟩ := step_reach hstep
      · exact hsame
      -- who is reached is registered, which an observer that is gone is not
      · refine hother fun heq => ?_
        have hmem := (h.emitting e _ hemitting).2 other List.mem_cons_self
        have husable := h.usable _ hmem
        rw [← heq, hgone] at husable
        obtain hne | hne := husable <;> cases hne

theorem Inv.silent_run {later : List Action} (h : s.Inv v)
    (hgone : (s.observer o).destructor = .gone)
    (hlater : Machine.run Handler.step later s = some s') :
    (s.observer o).Silent (s'.observer o) := by
  induction later generalizing s v with
  | nil =>
      obtain rfl := Option.some.inj hlater
      exact ⟨hgone, rfl, rfl, rfl⟩
  | cons a later ih =>
      obtain ⟨t, hstep, hrest⟩ := Machine.run_cons_eq_some.mp hlater
      have hfirst := h.silent_step hgone hstep
      have hlast := ih (h.step hstep) hfirst.gone hrest
      exact ⟨hlast.gone, hlast.inside.trans hfirst.inside, hlast.called.trans hfirst.called,
        hlast.reached.trans hfirst.reached⟩

/-- Once the destructor of an observer has returned, whatever the other threads do: no event
reaches the observer and no function of it is called; and unless one of them has called the
destructor, none is still running. -/
theorem silent_when_gone {actions later : List Action}
    (hrun : Machine.run Handler.step actions init = some s)
    (hgone : (s.observer o).destructor = .gone)
    (hlater : Machine.run Handler.step later s = some s') :
    (s'.observer o).called = (s.observer o).called ∧
      (s'.observer o).reached = (s.observer o).reached ∧
      (∀ e rest, s'.emitting = some (e, rest) → o ∉ rest) ∧
      ((s.observer o).inside = false → (s'.observer o).runner.isCalling = false) := by
  have h := init_inv.run hrun
  have hsilent := h.silent_run hgone hlater
  have h' := h.run hlater
  refine ⟨hsilent.called, hsilent.reached, fun e rest hemitting ho => ?_, fun hinside => ?_⟩
  · have husable := h'.usable _ ((h'.emitting e rest hemitting).2 o ho)
    rw [hsilent.gone] at husable
    obtain hne | hne := husable <;> cases hne
  · exact (h'.observers o).gone_idle hsilent.gone (hsilent.inside.trans hinside)

/-- An observer that is destroyed while the first of two calls runs. -/
def destruction : List Action :=
  [.observer 1 (.connect 5 7), .handler 1 (.register 5), .emit ⟨5, 0⟩, .reach, .reach,
    .emit ⟨5, 1⟩, .reach, .reach, .observer 1 .take, .observer 1 .advance, .observer 1 .advance,
    .observer 1 .advance, .observer 1 (.destroy false), .deregister 1, .observer 1 .disable,
    .observer 1 .advance, .observer 1 .finish]

theorem silent_when_gone_destruction :
    ∃ s s' : Handler, Machine.run Handler.step destruction init = some s ∧
      Machine.run Handler.step [.observer 1 .take, .emit ⟨5, 2⟩, .observer 1 .advance] s = some s' ∧
      (s.observer 1).posted.length = 2 ∧ (s.observer 1).called.length = 1 ∧
      (s'.observer 1).called = (s.observer 1).called ∧
      (s'.observer 1).runner.isCalling = false := by
  have h := @silent_when_gone _ _ 1 destruction
    [.observer 1 .take, .emit ⟨5, 2⟩, .observer 1 .advance] rfl rfl rfl
  exact ⟨_, _, rfl, rfl, rfl, rfl, h.1, h.2.2.2 rfl⟩

/-! ## In order -/

/-- Whatever the threads do: an observer is reached by the events that a broadcast would put
into its inbox, in their order; its functions are called for them in this order and once; and
until the destructor disables the calls none is left out. -/
theorem called_in_order {actions : List Action}
    (hrun : Machine.run Handler.step actions init = some s) (o : ObserverId) :
    (s.observer o).reached.map Prod.fst ++ s.due o = (Inboxes.init.run actions).inbox o ∧
      (s.observer o).called <+: (s.observer o).posted ∧
      ((s.observer o).destructor ≠ .locking → (s.observer o).destructor ≠ .gone →
        (s.observer o).called ++ (s.observer o).runner.ahead ++ (s.observer o).strand =
          (s.observer o).posted) := by
  have h := init_inv.run hrun
  have hobserver := h.observers o
  exact ⟨h.inbox o, hobserver.called_posted, fun hlocking hgone =>
    hobserver.ordered (hobserver.enabled_iff.mpr ⟨hlocking, hgone⟩)⟩

theorem called_in_order_destruction :
    ∃ s : Handler, Machine.run Handler.step destruction init = some s ∧
      (s.observer 1).reached.map Prod.fst = [⟨5, 0⟩, ⟨5, 1⟩] ∧
      (s.observer 1).called <+: (s.observer 1).posted := by
  have h := @called_in_order _ destruction rfl 1
  exact ⟨_, rfl, rfl, h.2.1⟩

end Handler

end Securepath.EventSystem.Broadcast
