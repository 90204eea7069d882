import Securepath.Library.Machine
import Mathlib.Data.List.Basic
import Mathlib.Order.Basic

/-!
# The event loop

`basic_event_loop` and the thread of `single_thread_event_loop` (`event_system/event_loop.cpp`).
Whatever runs under the lock is one step: the calls of the other threads and of the handlers, and
what the loop thread does from the point where it gets the lock to the point where it lets go of
it, to run a handler or to wait.
-/

namespace Securepath.EventSystem

/-- A handler, by number; what is disabled stays so. -/
abbrev Receiver := Nat

/-- `event_holder`: the event is known by its place in the order of emission. -/
structure EventHolder where
  event : Nat
  handler : Receiver
deriving DecidableEq, Repr

/-- `timer_holder`; a time is the distance from the epoch of the clock. -/
structure TimerHolder where
  id : Nat
  nextTrigger : Int
  interval : Int
  handler : Receiver
deriving DecidableEq, Repr

/-- Where the loop thread is while it does not have the lock. -/
inductive LoopPhase where
  /-- about to take the lock for the first time -/
  | starting
  /-- in `handle_event` of a handler, for a timer or for an event -/
  | handling (handler : Receiver) (isTimer : Bool)
  /-- in `cond_.wait` -/
  | waiting
  /-- in `cond_.wait_until` -/
  | waitingUntil (t : Int)
  | ended
deriving DecidableEq, Repr

structure EventLoop where
  events : List EventHolder
  activeHandler : Option Receiver
  timers : List TimerHolder
  nextTrigger : Int
  lastTimerHandle : Nat
  quit : Bool
  phase : LoopPhase
  /-- `cond_` was notified since the loop thread went to sleep -/
  notified : Bool
  /-- the receivers that are not `is_active()` -/
  disabled : List Receiver
  /-- calls of `remove_receiver` that wait for the handler that is active -/
  removing : List Receiver
  /-- calls of `remove_receiver` that have returned on another thread -/
  removed : List Receiver
  /-- the events that `emit` took, in their order -/
  emitted : List EventHolder
  /-- the events that were handed to their receivers, the first one first -/
  handed : List EventHolder

namespace EventLoop

def init : EventLoop :=
  ⟨[], none, [], 0, 0, false, .starting, false, [], [], [], [], []⟩

/-- `update_next_trigger`; the epoch stands for no trigger. -/
def updateNextTrigger (next t : Int) : Int := if next = 0 ∨ t < next then t else next

/-- The triggers of some timers. -/
def updateAll (next : Int) (timers : List TimerHolder) : Int :=
  timers.foldl (fun next t => updateNextTrigger next t.nextTrigger) next

/-! ## Calls -/

/-- `emit`. -/
def emit (r : Receiver) (s : EventLoop) : EventLoop :=
  if s.quit = false ∧ r ∉ s.disabled then
    { s with
      notified := s.notified || s.events.isEmpty
      events := s.events ++ [⟨s.emitted.length, r⟩]
      emitted := s.emitted ++ [⟨s.emitted.length, r⟩] }
  else s

/-- `remove_receiver` up to its loop. -/
def removeReceiver (r : Receiver) (s : EventLoop) : EventLoop :=
  { s with
    disabled := r :: s.disabled
    events := s.events.filter (·.handler ≠ r)
    timers := s.timers.filter (·.handler ≠ r) }

/-- `start_timer`, at some time of the clock. -/
def startTimer (r : Receiver) (dur : Int) (singleShot : Bool) (now : Int) (s : EventLoop) :
    EventLoop :=
  if s.quit = false ∧ r ∉ s.disabled then
    let trigger := now + dur
    { s with
      lastTimerHandle := s.lastTimerHandle + 1
      timers := s.timers ++
        [⟨s.lastTimerHandle + 1, trigger, if singleShot then 0 else dur, r⟩]
      notified := s.notified ||
        (s.events.isEmpty && (s.nextTrigger = 0 || trigger < s.nextTrigger))
      nextTrigger := updateNextTrigger s.nextTrigger trigger }
  else s

/-- `stop_timer`. -/
def stopTimer (id : Nat) (s : EventLoop) : EventLoop :=
  let timers := s.timers.eraseP (·.id = id)
  if timers.length = s.timers.length then s
  else { s with timers := timers, nextTrigger := if timers.isEmpty then 0 else s.nextTrigger }

/-- `stop`, up to the join. -/
def stop (s : EventLoop) : EventLoop := { s with quit := true, notified := true }

/-! ## The loop thread -/

/-- `handle_event`, up to the call of the handler. -/
def handleEvent (handler : Receiver) (isTimer : Bool) (s : EventLoop) : EventLoop :=
  { s with activeHandler := some handler, phase := .handling handler isTimer }

/-- `process_timers`: the handler of the first timer that is due, and what is left. -/
def processTimers (now : Int) (s : EventLoop) : Option Receiver × EventLoop :=
  if s.nextTrigger = 0 ∨ now < s.nextTrigger then (none, s)
  else
    let before := s.timers.takeWhile (now < ·.nextTrigger)
    let next := updateAll 0 before
    match s.timers.dropWhile (now < ·.nextTrigger) with
    | [] => (none, { s with nextTrigger := next })
    | t :: after =>
        let next := updateAll next after
        if t.interval ≠ 0 then
          let trigger := now + t.interval
          (some t.handler, { s with
            timers := before ++ { t with nextTrigger := trigger } :: after
            nextTrigger := updateNextTrigger next trigger })
        else (some t.handler, { s with timers := before ++ after, nextTrigger := next })

/-- The wait of `thread_entry`. -/
def block (s : EventLoop) : EventLoop :=
  { s with
    phase := if s.nextTrigger ≠ 0 then .waitingUntil s.nextTrigger else .waiting
    notified := false }

/-- `thread_entry` from the top of its loop, under the lock, up to the point where it lets go. -/
def iterate (now : Int) (s : EventLoop) : EventLoop :=
  if s.quit then { s with phase := .ended }
  else
    match s.processTimers now with
    | (some handler, s) => s.handleEvent handler true
    | (none, s) =>
        match s.events with
        | e :: events =>
            { s with events := events, handed := s.handed ++ [e] }.handleEvent e.handler false
        | [] => s.block

/-- The loop thread has the lock again behind a handler. -/
def afterHandler (isTimer : Bool) (now : Int) (s : EventLoop) : EventLoop :=
  let s := { s with activeHandler := none }
  if s.quit then { s with phase := .ended }
  else if isTimer || !s.events.isEmpty then s.iterate now
  else s.block

/-- The loop thread sleeps: nobody has notified it since. -/
def Blocked (s : EventLoop) (phase : LoopPhase) : Prop := s.phase = phase ∧ s.notified = false

end EventLoop

inductive LoopAction where
  | emit (r : Receiver)
  | startTimer (r : Receiver) (dur : Int) (singleShot : Bool) (now : Int)
  | stopTimer (id : Nat)
  /-- `remove_receiver` on another thread, up to its first look at `active_handler_` -/
  | removeElsewhere (r : Receiver)
  /-- a call of `remove_receiver` that waits looks again -/
  | removeLooks (r : Receiver)
  /-- `remove_receiver` on the loop thread, from inside a handler -/
  | removeInHandler (r : Receiver)
  | stop
  /-- the loop thread gets the lock, at its start or out of a wait, notified or not -/
  | wakes (now : Int)
  /-- the handler returns or throws -/
  | handlerReturns (now : Int)
deriving DecidableEq

open EventLoop in
/-- One critical section. -/
def LoopAction.step (a : LoopAction) (s : EventLoop) : Option EventLoop :=
  match a with
  | .emit r => some (s.emit r)
  | .startTimer r dur singleShot now => some (s.startTimer r dur singleShot now)
  | .stopTimer id => some (s.stopTimer id)
  | .removeElsewhere r =>
      let s := s.removeReceiver r
      if s.activeHandler = some r then some { s with removing := r :: s.removing }
      else some { s with removed := r :: s.removed }
  | .removeLooks r =>
      if r ∈ s.removing ∧ s.activeHandler ≠ some r then
        some { s with removing := s.removing.erase r, removed := r :: s.removed }
      else none
  | .removeInHandler r =>
      match s.phase with
      | .handling _ _ => some (s.removeReceiver r)
      | _ => none
  | .stop => some s.stop
  | .wakes now =>
      match s.phase with
      | .starting => some (s.iterate now)
      | .waiting => some (s.iterate now)
      | .waitingUntil _ => some (s.iterate now)
      | _ => none
  | .handlerReturns now =>
      match s.phase with
      | .handling _ isTimer => some (s.afterHandler isTimer now)
      | _ => none

namespace EventLoop

/-! ## Triggers -/

/-- `next_trigger_` is not behind any timer, and says that there is one. -/
def TriggersCovered (next : Int) (timers : List TimerHolder) : Prop :=
  ∀ t ∈ timers, t.nextTrigger ≠ 0 ∧ next ≠ 0 ∧ next ≤ t.nextTrigger

theorem updateNextTrigger_ne_zero {next t : Int} (ht : t ≠ 0) : updateNextTrigger next t ≠ 0 := by
  unfold updateNextTrigger
  split
  · exact ht
  · omega

theorem updateNextTrigger_le (next t : Int) : updateNextTrigger next t ≤ t := by
  unfold updateNextTrigger
  split <;> omega

theorem updateNextTrigger_le_next {next t : Int} (hnext : next ≠ 0) :
    updateNextTrigger next t ≤ next := by
  unfold updateNextTrigger
  split <;> omega

theorem TriggersCovered.update {next t : Int} {timers : List TimerHolder}
    (h : TriggersCovered next timers) (ht : t ≠ 0) :
    TriggersCovered (updateNextTrigger next t) timers := by
  intro u hu
  obtain ⟨hne, hnext, hle⟩ := h u hu
  exact ⟨hne, updateNextTrigger_ne_zero ht, Int.le_trans (updateNextTrigger_le_next hnext) hle⟩

/-- Going through more timers covers them as well. -/
theorem TriggersCovered.updateAll {next : Int} {timers : List TimerHolder}
    (h : TriggersCovered next timers) {more : List TimerHolder}
    (hmore : ∀ t ∈ more, t.nextTrigger ≠ 0) :
    TriggersCovered (EventLoop.updateAll next more) (timers ++ more) := by
  induction more generalizing next timers with
  | nil => simpa [EventLoop.updateAll] using h
  | cons t more ih =>
      have ht := hmore t (List.mem_cons_self ..)
      have hcons : TriggersCovered (updateNextTrigger next t.nextTrigger) (timers ++ [t]) := by
        intro u hu
        rcases List.mem_append.mp hu with hu | hu
        · exact h.update ht u hu
        · obtain rfl := List.mem_singleton.mp hu
          exact ⟨ht, updateNextTrigger_ne_zero ht, updateNextTrigger_le ..⟩
      have hall := ih hcons fun u hu => hmore u (List.mem_cons_of_mem _ hu)
      rwa [List.append_assoc, List.singleton_append] at hall

theorem TriggersCovered.mono {next : Int} {timers timers' : List TimerHolder}
    (h : TriggersCovered next timers) (hsub : ∀ t ∈ timers', t ∈ timers) :
    TriggersCovered next timers' :=
  fun t ht => h t (hsub t ht)

/-- The timer that is due does not start again at the epoch. -/
def RepeatsOffEpoch (now : Int) (s : EventLoop) : Prop :=
  ∀ t ∈ (s.timers.dropWhile (now < ·.nextTrigger)).head?, t.interval ≠ 0 → now + t.interval ≠ 0

instance (now : Int) (s : EventLoop) : Decidable (RepeatsOffEpoch now s) :=
  inferInstanceAs (Decidable (∀ t ∈ (s.timers.dropWhile (now < ·.nextTrigger)).head?,
    t.interval ≠ 0 → now + t.interval ≠ 0))

/-- What `process_timers` does not touch, and what it leaves of the timers. -/
structure TimersProcessed (s : EventLoop) (r : Option Receiver × EventLoop) : Prop where
  frame : ∃ timers next, r.2 = { s with timers := timers, nextTrigger := next }
  covered : TriggersCovered r.2.nextTrigger r.2.timers
  handlers : ∀ t ∈ r.2.timers, ∃ u ∈ s.timers, u.handler = t.handler
  due : ∀ handler, r.1 = some handler → ∃ t ∈ s.timers, t.handler = handler

theorem processTimers_spec {now : Int} {s : EventLoop}
    (hcovered : TriggersCovered s.nextTrigger s.timers) (hepoch : RepeatsOffEpoch now s) :
    TimersProcessed s (s.processTimers now) := by
  unfold processTimers
  split
  next => exact ⟨⟨_, _, rfl⟩, hcovered, fun t ht => ⟨t, ht, rfl⟩, nofun⟩
  next =>
  have hsplit := s.timers.takeWhile_append_dropWhile (p := fun t => now < t.nextTrigger)
  have hne : ∀ t ∈ s.timers, t.nextTrigger ≠ 0 := fun t ht => (hcovered t ht).1
  have hnil : TriggersCovered 0 [] := nofun
  generalize s.timers.takeWhile (fun t => decide (now < t.nextTrigger)) = before at hsplit
  unfold RepeatsOffEpoch at hepoch
  generalize s.timers.dropWhile (fun t => decide (now < t.nextTrigger)) = rest at hsplit hepoch
  have hbefore : ∀ t ∈ before, t ∈ s.timers := fun t ht => hsplit ▸ List.mem_append_left _ ht
  have hfirst := hnil.updateAll fun t ht => hne t (hbefore t ht)
  rw [List.nil_append] at hfirst
  cases rest with
  | nil =>
      rw [List.append_nil] at hsplit
      refine ⟨⟨_, _, rfl⟩, ?_, fun t ht => ⟨t, ht, rfl⟩, nofun⟩
      exact hsplit ▸ hfirst
  | cons t after =>
      have ht : t ∈ s.timers := hsplit ▸ List.mem_append_right _ (List.mem_cons_self ..)
      have hafter : ∀ u ∈ after, u ∈ s.timers := fun u hu =>
        hsplit ▸ List.mem_append_right _ (List.mem_cons_of_mem _ hu)
      have hboth := hfirst.updateAll fun u hu => hne u (hafter u hu)
      have hdue : ∀ handler, some t.handler = some handler →
          ∃ u ∈ s.timers, u.handler = handler := by
        intro handler heq
        exact ⟨t, ht, Option.some.inj heq⟩
      simp only
      split
      next hinterval =>
        have hrepeat := hepoch t rfl hinterval
        refine ⟨⟨_, _, rfl⟩, ?_, ?_, hdue⟩
        · intro u hu
          rcases List.mem_append.mp hu with hu | hu
          · exact (hboth.update hrepeat) u (List.mem_append_left _ hu)
          · rcases List.mem_cons.mp hu with rfl | hu
            · exact ⟨hrepeat, updateNextTrigger_ne_zero hrepeat, updateNextTrigger_le ..⟩
            · exact (hboth.update hrepeat) u (List.mem_append_right _ hu)
        · intro u hu
          rcases List.mem_append.mp hu with hu | hu
          · exact ⟨u, hbefore u hu, rfl⟩
          · rcases List.mem_cons.mp hu with rfl | hu
            · exact ⟨t, ht, rfl⟩
            · exact ⟨u, hafter u hu, rfl⟩
      next =>
        refine ⟨⟨_, _, rfl⟩, hboth, ?_, hdue⟩
        intro u hu
        rcases List.mem_append.mp hu with hu | hu
        · exact ⟨u, hbefore u hu, rfl⟩
        · exact ⟨u, hafter u hu, rfl⟩

/-! ## The invariant -/

/-- What holds whatever the loop thread does. -/
structure Consistent (s : EventLoop) : Prop where
  covered : TriggersCovered s.nextTrigger s.timers
  ordered : (s.handed ++ s.events).Sublist s.emitted
  numbered : s.emitted.map (·.event) = List.range s.emitted.length
  noEvent : ∀ e ∈ s.events, e.handler ∉ s.disabled
  noTimer : ∀ t ∈ s.timers, t.handler ∉ s.disabled
  removing : ∀ r ∈ s.removing, r ∈ s.disabled
  removed : ∀ r ∈ s.removed, r ∈ s.disabled

/-- `active_handler_` is the handler that runs. -/
def ActiveHandler (s : EventLoop) : Prop :=
  ∀ r, s.activeHandler = some r ↔ ∃ isTimer, s.phase = .handling r isTimer

structure Invariant (s : EventLoop) : Prop where
  consistent : s.Consistent
  active : s.ActiveHandler
  notActive : ∀ r ∈ s.removed, s.activeHandler ≠ some r
  waiting : s.Blocked .waiting → s.events = [] ∧ s.nextTrigger = 0
  waitingUntil : ∀ t, s.Blocked (.waitingUntil t) →
    s.events = [] ∧ (s.nextTrigger = 0 ∨ s.nextTrigger = t)

theorem init_invariant : init.Invariant where
  consistent := ⟨nofun, List.nil_sublist _, rfl, nofun, nofun, nofun, nofun⟩
  active := fun _ => ⟨nofun, nofun⟩
  notActive := nofun
  waiting := nofun
  waitingUntil := nofun

/-! ### Calls -/

theorem Consistent.emit {s : EventLoop} (h : s.Consistent) (r : Receiver) :
    (s.emit r).Consistent := by
  unfold EventLoop.emit
  split
  next hactive =>
    refine { h with ordered := ?_, numbered := ?_, noEvent := ?_ }
    · have hordered := h.ordered.append (List.Sublist.refl [⟨s.emitted.length, r⟩])
      rwa [List.append_assoc] at hordered
    · simp only [List.map_append, List.map_cons, List.map_nil, h.numbered, List.length_append,
        List.length_singleton, List.range_succ]
    · intro e he
      rcases List.mem_append.mp he with he | he
      · exact h.noEvent e he
      · obtain rfl := List.mem_singleton.mp he
        exact hactive.2
  next => exact h

theorem Consistent.startTimer {s : EventLoop} (h : s.Consistent) (r : Receiver) {dur now : Int}
    (hepoch : now + dur ≠ 0) (singleShot : Bool) :
    (s.startTimer r dur singleShot now).Consistent := by
  unfold EventLoop.startTimer
  split
  next hactive =>
    refine { h with covered := ?_, noTimer := ?_ }
    · intro t ht
      rcases List.mem_append.mp ht with ht | ht
      · exact h.covered.update hepoch t ht
      · obtain rfl := List.mem_singleton.mp ht
        exact ⟨hepoch, updateNextTrigger_ne_zero hepoch, updateNextTrigger_le ..⟩
    · intro t ht
      rcases List.mem_append.mp ht with ht | ht
      · exact h.noTimer t ht
      · obtain rfl := List.mem_singleton.mp ht
        exact hactive.2
  next => exact h

theorem Consistent.stopTimer {s : EventLoop} (h : s.Consistent) (id : Nat) :
    (s.stopTimer id).Consistent := by
  have hsub : ∀ t ∈ s.timers.eraseP (·.id = id), t ∈ s.timers := fun t ht =>
    List.mem_of_mem_eraseP ht
  unfold EventLoop.stopTimer
  simp only
  split
  next => exact h
  next =>
    refine { h with covered := ?_, noTimer := fun t ht => h.noTimer t (hsub t ht) }
    simp only
    split
    next hempty =>
      rw [List.isEmpty_iff.mp hempty]
      exact nofun
    next => exact h.covered.mono hsub

theorem Consistent.removeReceiver {s : EventLoop} (h : s.Consistent) (r : Receiver) :
    (s.removeReceiver r).Consistent where
  covered := h.covered.mono fun t ht => (List.mem_filter.mp ht).1
  ordered := (List.filter_sublist.append_left s.handed).trans h.ordered
  numbered := h.numbered
  noEvent := by
    intro e he
    obtain ⟨he, hne⟩ := List.mem_filter.mp he
    simp only [EventLoop.removeReceiver, List.mem_cons, not_or]
    exact ⟨of_decide_eq_true hne, h.noEvent e he⟩
  noTimer := by
    intro t ht
    obtain ⟨ht, hne⟩ := List.mem_filter.mp ht
    simp only [EventLoop.removeReceiver, List.mem_cons, not_or]
    exact ⟨of_decide_eq_true hne, h.noTimer t ht⟩
  removing := fun q hq => List.mem_cons_of_mem _ (h.removing q hq)
  removed := fun q hq => List.mem_cons_of_mem _ (h.removed q hq)

/-! ### The loop thread -/

theorem Consistent.handleEvent {s : EventLoop} (h : s.Consistent) {handler : Receiver}
    (hactive : handler ∉ s.disabled) (isTimer : Bool) : (s.handleEvent handler isTimer).Invariant where
  consistent := { h with }
  active := by
    intro r
    simp [EventLoop.handleEvent]
  notActive := by
    intro r hr heq
    obtain rfl := Option.some.inj heq
    exact hactive (h.removed _ hr)
  waiting := fun hblocked => LoopPhase.noConfusion hblocked.1
  waitingUntil := fun t hblocked => LoopPhase.noConfusion hblocked.1

theorem Consistent.block {s : EventLoop} (h : s.Consistent) (hactive : s.activeHandler = none)
    (hevents : s.events = []) : s.block.Invariant where
  consistent := { h with }
  active := by
    intro r
    unfold EventLoop.block
    simp only [hactive]
    split <;> simp
  notActive := by
    intro r _ heq
    exact Option.some_ne_none r (heq.symm.trans hactive)
  waiting := by
    rintro ⟨hphase, -⟩
    simp only [EventLoop.block] at hphase ⊢
    split at hphase
    · exact LoopPhase.noConfusion hphase
    next hnext => exact ⟨hevents, not_not.mp hnext⟩
  waitingUntil := by
    rintro t ⟨hphase, -⟩
    simp only [EventLoop.block] at hphase ⊢
    split at hphase
    · exact ⟨hevents, .inr (LoopPhase.waitingUntil.inj hphase)⟩
    · exact LoopPhase.noConfusion hphase

theorem Consistent.ended {s : EventLoop} (h : s.Consistent) (hactive : s.activeHandler = none) :
    { s with phase := .ended }.Invariant where
  consistent := { h with }
  active := by
    intro r
    simp [hactive]
  notActive := by
    intro r _ heq
    exact Option.some_ne_none r (heq.symm.trans hactive)
  waiting := fun hblocked => LoopPhase.noConfusion hblocked.1
  waitingUntil := fun t hblocked => LoopPhase.noConfusion hblocked.1

theorem Consistent.processTimers {now : Int} {s : EventLoop} (h : s.Consistent)
    (hepoch : RepeatsOffEpoch now s) : (s.processTimers now).2.Consistent := by
  obtain ⟨⟨timers, next, hframe⟩, hcovered, hhandlers, -⟩ := processTimers_spec h.covered hepoch
  rw [hframe] at hcovered hhandlers ⊢
  refine { h with covered := hcovered, noTimer := ?_ }
  intro t ht
  obtain ⟨u, hu, heq⟩ := hhandlers t ht
  exact heq ▸ h.noTimer u hu

theorem Consistent.iterate {now : Int} {s : EventLoop} (h : s.Consistent)
    (hactive : s.activeHandler = none) (hepoch : RepeatsOffEpoch now s) :
    (s.iterate now).Invariant := by
  unfold EventLoop.iterate
  split
  next => exact h.ended hactive
  next =>
  have hafter := h.processTimers hepoch
  obtain ⟨⟨timers, next, hframe⟩, -, -, hdue⟩ := processTimers_spec h.covered hepoch
  generalize s.processTimers now = r at hafter hframe hdue
  obtain ⟨handler, s'⟩ := r
  simp only at hafter hframe hdue
  cases handler with
  | some handler =>
      obtain ⟨t, ht, rfl⟩ := hdue handler rfl
      refine hafter.handleEvent ?_ true
      rw [hframe]
      exact h.noTimer t ht
  | none =>
      simp only
      split
      next e events hevents =>
        have hordered := hafter.ordered
        rw [hevents] at hordered
        have hrest : { s' with events := events, handed := s'.handed ++ [e] }.Consistent := by
          refine { hafter with ordered := ?_, noEvent := ?_ }
          · rwa [List.append_assoc, List.singleton_append]
          · intro e' he'
            exact hafter.noEvent e' (hevents ▸ List.mem_cons_of_mem _ he')
        exact hrest.handleEvent (hafter.noEvent e (hevents ▸ List.mem_cons_self ..)) false
      next hevents =>
        refine hafter.block ?_ hevents
        rw [hframe]
        exact hactive

theorem Consistent.afterHandler {now : Int} {s : EventLoop} (h : s.Consistent)
    (hepoch : RepeatsOffEpoch now s) (isTimer : Bool) : (s.afterHandler isTimer now).Invariant := by
  have hnone : { s with activeHandler := none }.Consistent := { h with }
  unfold EventLoop.afterHandler
  simp only
  split
  next => exact hnone.ended rfl
  next =>
  split
  next => exact hnone.iterate rfl hepoch
  next hmore =>
    refine hnone.block rfl ?_
    simp only [Bool.or_eq_true, Bool.not_eq_eq_eq_not, Bool.not_true, not_or,
      Bool.not_eq_false] at hmore
    exact List.isEmpty_iff.mp hmore.2

/-! ### One step -/

/-- A call that leaves a loop asleep without a notification brings no work. -/
def LeavesAsleep (s s' : EventLoop) : Prop :=
  s'.notified = false → s.notified = false ∧
    (s.events = [] → s'.events = [] ∧ (s'.nextTrigger = s.nextTrigger ∨ s'.nextTrigger = 0))

theorem leavesAsleep_refl (s : EventLoop) : LeavesAsleep s s :=
  fun hnotified => ⟨hnotified, fun hevents => ⟨hevents, .inl rfl⟩⟩

theorem leavesAsleep_emit (r : Receiver) (s : EventLoop) : LeavesAsleep s (s.emit r) := by
  unfold emit
  split
  next =>
    intro hnotified
    simp only [Bool.or_eq_false_iff] at hnotified
    refine ⟨hnotified.1, ?_⟩
    intro hevents
    rw [hevents] at hnotified
    exact Bool.noConfusion hnotified.2
  next => exact leavesAsleep_refl s

theorem leavesAsleep_startTimer (r : Receiver) (dur : Int) (singleShot : Bool) (now : Int)
    (s : EventLoop) : LeavesAsleep s (s.startTimer r dur singleShot now) := by
  unfold startTimer
  split
  next =>
    intro hnotified
    simp only [Bool.or_eq_false_iff] at hnotified
    refine ⟨hnotified.1, ?_⟩
    intro hevents
    refine ⟨hevents, .inl ?_⟩
    have hlater := hnotified.2
    simp only [hevents, List.isEmpty_nil, Bool.true_and, Bool.or_eq_false_iff,
      decide_eq_false_iff_not] at hlater
    exact if_neg (not_or.mpr hlater)
  next => exact leavesAsleep_refl s

theorem leavesAsleep_stopTimer (id : Nat) (s : EventLoop) : LeavesAsleep s (s.stopTimer id) := by
  unfold stopTimer
  simp only
  split
  next => exact leavesAsleep_refl s
  next =>
    intro hnotified
    refine ⟨hnotified, fun hevents => ⟨hevents, ?_⟩⟩
    simp only
    split
    · exact .inr rfl
    · exact .inl rfl

theorem leavesAsleep_removeReceiver (r : Receiver) (s : EventLoop) :
    LeavesAsleep s (s.removeReceiver r) := by
  intro hnotified
  refine ⟨hnotified, ?_⟩
  intro hevents
  refine ⟨?_, .inl rfl⟩
  simp only [removeReceiver, hevents, List.filter_nil]

theorem Invariant.call {s s' : EventLoop} (h : s.Invariant) (hconsistent : s'.Consistent)
    (hphase : s'.phase = s.phase) (hactive : s'.activeHandler = s.activeHandler)
    (hremoved : ∀ r ∈ s'.removed, s.activeHandler ≠ some r) (hasleep : LeavesAsleep s s') :
    s'.Invariant where
  consistent := hconsistent
  active := by
    intro r
    rw [hactive, hphase]
    exact h.active r
  notActive := by
    intro r hr
    rw [hactive]
    exact hremoved r hr
  waiting := by
    rintro ⟨hwaiting, hnotified⟩
    obtain ⟨hnotified, hsame⟩ := hasleep hnotified
    obtain ⟨hevents, hnext⟩ := h.waiting ⟨hphase ▸ hwaiting, hnotified⟩
    obtain ⟨hevents', hnext'⟩ := hsame hevents
    exact ⟨hevents', hnext'.elim (·.trans hnext) id⟩
  waitingUntil := by
    rintro t ⟨hwaiting, hnotified⟩
    obtain ⟨hnotified, hsame⟩ := hasleep hnotified
    obtain ⟨hevents, hnext⟩ := h.waitingUntil t ⟨hphase ▸ hwaiting, hnotified⟩
    obtain ⟨hevents', hnext'⟩ := hsame hevents
    refine ⟨hevents', ?_⟩
    rcases hnext' with hnext' | hnext'
    · rwa [hnext']
    · exact .inl hnext'

/-- Nothing runs while the loop thread is at its start or in a wait. -/
theorem Invariant.idle {s : EventLoop} (h : s.Invariant)
    (hphase : ∀ r isTimer, s.phase ≠ .handling r isTimer) : s.activeHandler = none := by
  refine Option.eq_none_iff_forall_ne_some.mpr ?_
  intro r heq
  obtain ⟨isTimer, hhandling⟩ := (h.active r).mp heq
  exact hphase r isTimer hhandling

/-- No timer is to be due at the epoch of the clock. -/
def OffEpoch : LoopAction → EventLoop → Prop
  | .startTimer _ dur _ now, _ => now + dur ≠ 0
  | .wakes now, s => RepeatsOffEpoch now s
  | .handlerReturns now, s => RepeatsOffEpoch now s
  | _, _ => True

theorem step_invariant (a : LoopAction) (s s' : EventLoop) (hgood : OffEpoch a s)
    (h : s.Invariant) (hstep : a.step s = some s') : s'.Invariant := by
  cases a with
  | emit r =>
      obtain rfl := Option.some.inj hstep
      have hasleep := leavesAsleep_emit r s
      refine h.call (h.consistent.emit r) ?_ ?_ ?_ hasleep
      all_goals unfold emit
      · split <;> rfl
      · split <;> rfl
      · split <;> exact h.notActive
  | startTimer r dur singleShot now =>
      obtain rfl := Option.some.inj hstep
      have hasleep := leavesAsleep_startTimer r dur singleShot now s
      refine h.call (h.consistent.startTimer r hgood singleShot) ?_ ?_ ?_ hasleep
      all_goals unfold startTimer
      · split <;> rfl
      · split <;> rfl
      · split <;> exact h.notActive
  | stopTimer id =>
      obtain rfl := Option.some.inj hstep
      refine h.call (h.consistent.stopTimer id) ?_ ?_ ?_ (leavesAsleep_stopTimer id s)
      all_goals unfold stopTimer; simp only
      · split <;> rfl
      · split <;> rfl
      · split <;> exact h.notActive
  | removeElsewhere r =>
      -- it waits while the handler of the receiver runs, and is done at once otherwise
      have hconsistent := h.consistent.removeReceiver r
      have hdisabled : r ∈ (s.removeReceiver r).disabled := List.mem_cons_self ..
      simp only [LoopAction.step] at hstep
      split at hstep
      next hactive =>
        obtain rfl := Option.some.inj hstep
        refine h.call { hconsistent with removing := ?_ } rfl rfl h.notActive
          (leavesAsleep_removeReceiver r s)
        exact List.forall_mem_cons.mpr ⟨hdisabled, hconsistent.removing⟩
      next hactive =>
        obtain rfl := Option.some.inj hstep
        refine h.call { hconsistent with removed := ?_ } rfl rfl ?_
          (leavesAsleep_removeReceiver r s)
        · exact List.forall_mem_cons.mpr ⟨hdisabled, hconsistent.removed⟩
        · exact List.forall_mem_cons.mpr ⟨hactive, h.notActive⟩
  | removeLooks r =>
      simp only [LoopAction.step] at hstep
      split at hstep
      next hlooks =>
        obtain rfl := Option.some.inj hstep
        refine h.call { h.consistent with removing := ?_, removed := ?_ } rfl rfl ?_
          (leavesAsleep_refl s)
        · exact fun q hq => h.consistent.removing q (List.mem_of_mem_erase hq)
        · exact List.forall_mem_cons.mpr ⟨h.consistent.removing r hlooks.1, h.consistent.removed⟩
        · exact List.forall_mem_cons.mpr ⟨hlooks.2, h.notActive⟩
      next => exact nomatch hstep
  | removeInHandler r =>
      simp only [LoopAction.step] at hstep
      split at hstep
      next =>
        obtain rfl := Option.some.inj hstep
        exact h.call (h.consistent.removeReceiver r) rfl rfl h.notActive
          (leavesAsleep_removeReceiver r s)
      next => exact nomatch hstep
  | stop =>
      obtain rfl := Option.some.inj hstep
      exact h.call { h.consistent with } rfl rfl h.notActive nofun
  | wakes now =>
      simp only [LoopAction.step] at hstep
      split at hstep
      case h_4 => exact nomatch hstep
      all_goals
        rename_i hphase
        obtain rfl := Option.some.inj hstep
        refine h.consistent.iterate (h.idle ?_) hgood
        intro r isTimer
        rw [hphase]
        exact nofun
  | handlerReturns now =>
      simp only [LoopAction.step] at hstep
      split at hstep
      next isTimer hphase =>
        obtain rfl := Option.some.inj hstep
        exact h.consistent.afterHandler hgood isTimer
      next => exact nomatch hstep

theorem run_invariant {as : List LoopAction} {s s' : EventLoop}
    (hgood : Machine.EachStep LoopAction.step OffEpoch as s) (h : s.Invariant)
    (hrun : Machine.run LoopAction.step as s = some s') : s'.Invariant :=
  Machine.invariant step_invariant hgood h hrun

/-! ### What is removed stays so -/

theorem removed_processTimers (now : Int) (s : EventLoop) :
    (s.processTimers now).2.removed = s.removed := by
  unfold processTimers
  split
  · rfl
  split
  · rfl
  · simp only
    split <;> rfl

theorem removed_iterate (now : Int) (s : EventLoop) : (s.iterate now).removed = s.removed := by
  have hremoved := removed_processTimers now s
  unfold iterate
  split
  · rfl
  generalize s.processTimers now = r at hremoved
  obtain ⟨handler, s'⟩ := r
  cases handler with
  | some handler => exact hremoved
  | none =>
      simp only
      split <;> exact hremoved

theorem removed_afterHandler (isTimer : Bool) (now : Int) (s : EventLoop) :
    (s.afterHandler isTimer now).removed = s.removed := by
  unfold afterHandler
  simp only
  split
  · rfl
  split
  · exact removed_iterate now _
  · rfl

theorem step_removed {a : LoopAction} {s s' : EventLoop} (hstep : a.step s = some s') :
    s.removed ⊆ s'.removed := by
  cases a with
  | emit r =>
      obtain rfl := Option.some.inj hstep
      unfold emit
      split <;> exact List.Subset.refl _
  | startTimer r dur singleShot now =>
      obtain rfl := Option.some.inj hstep
      unfold startTimer
      split <;> exact List.Subset.refl _
  | stopTimer id =>
      obtain rfl := Option.some.inj hstep
      unfold stopTimer
      simp only
      split <;> exact List.Subset.refl _
  | stop =>
      obtain rfl := Option.some.inj hstep
      exact List.Subset.refl _
  | removeElsewhere r =>
      simp only [LoopAction.step] at hstep
      split at hstep <;> obtain rfl := Option.some.inj hstep
      · exact List.Subset.refl _
      · exact List.subset_cons_self ..
  | removeLooks r =>
      simp only [LoopAction.step] at hstep
      split at hstep
      · obtain rfl := Option.some.inj hstep
        exact List.subset_cons_self ..
      · exact nomatch hstep
  | removeInHandler r =>
      simp only [LoopAction.step] at hstep
      split at hstep
      · obtain rfl := Option.some.inj hstep
        exact List.Subset.refl _
      · exact nomatch hstep
  | wakes now =>
      have hremoved := removed_iterate now s
      simp only [LoopAction.step] at hstep
      split at hstep
      case h_4 => exact nomatch hstep
      all_goals
        obtain rfl := Option.some.inj hstep
        exact hremoved ▸ List.Subset.refl _
  | handlerReturns now =>
      simp only [LoopAction.step] at hstep
      split at hstep
      next isTimer _ =>
        obtain rfl := Option.some.inj hstep
        exact removed_afterHandler isTimer now s ▸ List.Subset.refl _
      next => exact nomatch hstep

theorem run_removed {as : List LoopAction} {s s' : EventLoop}
    (hrun : Machine.run LoopAction.step as s = some s') : s.removed ⊆ s'.removed := by
  have hkept : ∀ (a : LoopAction) (t t' : EventLoop), True → s.removed ⊆ t.removed →
      a.step t = some t' → s.removed ⊆ t'.removed :=
    fun _ _ _ _ hsub hstep => List.Subset.trans hsub (step_removed hstep)
  exact Machine.invariant_of_forall hkept (fun _ _ => trivial) (List.Subset.refl _) hrun

/-! ## Delivery -/

structure Delivers (s : EventLoop) : Prop where
  /-- the events go to their receivers in the order of emission -/
  inOrder : s.handed.Sublist s.emitted
  /-- no event is handed over twice -/
  once : s.handed.Pairwise (·.event < ·.event)
  removed : ∀ r ∈ s.removed, ∀ isTimer, s.phase ≠ .handling r isTimer
  waiting : s.Blocked .waiting → s.events = [] ∧ s.timers = []
  waitingUntil : ∀ t, s.Blocked (.waitingUntil t) →
    s.events = [] ∧ ∀ u ∈ s.timers, t ≤ u.nextTrigger

theorem TriggersCovered.eq_nil {timers : List TimerHolder} (h : TriggersCovered 0 timers) :
    timers = [] :=
  List.eq_nil_iff_forall_not_mem.mpr fun t ht => (h t ht).2.1 rfl

theorem Consistent.handed_sublist {s : EventLoop} (h : s.Consistent) :
    s.handed.Sublist s.emitted :=
  (List.sublist_append_left ..).trans h.ordered

theorem Invariant.delivered {s : EventLoop} (h : s.Invariant) : s.Delivers where
  inOrder := h.consistent.handed_sublist
  once := by
    have hnumbers := h.consistent.handed_sublist.map EventHolder.event
    rw [h.consistent.numbered] at hnumbers
    exact List.pairwise_map.mp (List.pairwise_lt_range.sublist hnumbers)
  removed := by
    intro r hr isTimer hphase
    exact h.notActive r hr ((h.active r).mpr ⟨isTimer, hphase⟩)
  waiting := by
    intro hblocked
    obtain ⟨hevents, hnext⟩ := h.waiting hblocked
    exact ⟨hevents, TriggersCovered.eq_nil (hnext ▸ h.consistent.covered)⟩
  waitingUntil := by
    intro t hblocked
    obtain ⟨hevents, hnext⟩ := h.waitingUntil t hblocked
    refine ⟨hevents, ?_⟩
    intro u hu
    obtain ⟨-, hne, hle⟩ := h.consistent.covered u hu
    rwa [hnext.resolve_left hne] at hle

/-- Where no timer is due at the epoch, every run delivers, and a receiver that is removed is never
handled again. -/
theorem delivers {as : List LoopAction} {s : EventLoop}
    (hgood : Machine.EachStep LoopAction.step OffEpoch as init)
    (hrun : Machine.run LoopAction.step as init = some s) :
    s.Delivers ∧ ∀ later s', Machine.EachStep LoopAction.step OffEpoch later s →
      Machine.run LoopAction.step later s = some s' →
      ∀ r ∈ s.removed, ∀ isTimer, s'.phase ≠ .handling r isTimer := by
  have hinvariant := run_invariant hgood init_invariant hrun
  refine ⟨hinvariant.delivered, ?_⟩
  intro later s' hgood' hrun' r hr isTimer
  have hdelivers := (run_invariant hgood' hinvariant hrun').delivered
  exact hdelivers.removed r (run_removed hrun' hr) isTimer

/-- A receiver is removed while its handler runs: the call looks again when the handler is back. -/
def removalRun : List LoopAction :=
  [.wakes 1, .emit 7, .emit 8, .wakes 2, .startTimer 8 5 true 3, .removeElsewhere 7,
    .handlerReturns 4, .removeLooks 7]

theorem delivers_removalRun : ∃ s, Machine.run LoopAction.step removalRun init = some s ∧
    s.removed = [7] ∧ s.handed = [⟨0, 7⟩, ⟨1, 8⟩] ∧ s.Delivers := by
  have hgood : Machine.EachStep LoopAction.step OffEpoch removalRun init := by
    have hstart : RepeatsOffEpoch 1 init := by decide
    refine .cons hstart rfl (.cons trivial rfl (.cons trivial rfl ?_))
    refine .cons (by unfold OffEpoch; decide) rfl (.cons (by unfold OffEpoch; decide) rfl ?_)
    refine .cons trivial rfl (.cons (by unfold OffEpoch; decide) rfl ?_)
    exact .cons trivial rfl trivial
  exact ⟨_, rfl, rfl, rfl, (delivers hgood rfl).1⟩

/-- A timer that is due at the epoch of the clock: the loop thread takes it for no timer and waits
for a notification. -/
theorem delivers_fails : ¬ ∀ as s, Machine.run LoopAction.step as init = some s → s.Delivers := by
  intro h
  have hdelivers := h [.wakes 1, .startTimer 7 (-5) true 5, .wakes 6] _ rfl
  exact List.cons_ne_nil _ _ (hdelivers.waiting ⟨rfl, rfl⟩).2

end EventLoop

end Securepath.EventSystem
