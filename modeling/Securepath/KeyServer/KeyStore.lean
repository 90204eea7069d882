import Securepath.Crypto.ChainBuilder
import Securepath.Library.Machine

/-!
# The key store of the key server

`key_store` (`infrastructure/key_server/server_lib/key_store.cpp`) over a
`public_key_cache` (`crypto/public_key_cache.cpp`), for connections that several
threads serve. Each call of the cache holds its mutex; `register_key` makes two.
-/

namespace Securepath.KeyServer

open Crypto

/-! ## `public_key_cache` -/

section

variable [Primitives]

/-- Keys under their ids: the map of the cache, or the rows of a backend. -/
structure KeyTable where
  rows : PublicKeyId → Option PublicKey
  id_eq : ∀ id key, rows id = some key → key.id = id

namespace KeyTable

def empty : KeyTable := ⟨fun _ => none, nofun⟩

/-- A row of the same id is replaced. -/
def insert (key : PublicKey) (t : KeyTable) : KeyTable where
  rows := Function.update t.rows key.id (some key)
  id_eq := by
    intro id other h
    rw [Function.update_apply] at h
    split at h
    next heq =>
      obtain rfl := Option.some.inj h
      exact heq.symm
    next => exact t.id_eq id other h

theorem rows_insert_self (key : PublicKey) (t : KeyTable) :
    (t.insert key).rows key.id = some key :=
  Function.update_self ..

theorem rows_insert_of_ne {key : PublicKey} {id : PublicKeyId} (h : id ≠ key.id) (t : KeyTable) :
    (t.insert key).rows id = t.rows id :=
  Function.update_of_ne h ..

end KeyTable

structure PublicKeyCache where
  keys : KeyTable
  backends : List KeyTable

namespace PublicKeyCache

/-- The loop of `insert` over the backends; the one that throws ends it. -/
def insertBackends (throwing : Option Nat) (key : PublicKey) (dbs : List KeyTable) :
    List KeyTable × Bool :=
  match throwing with
  | none => (dbs.map (·.insert key), true)
  | some n =>
      if n < dbs.length then ((dbs.take n).map (·.insert key) ++ dbs.drop n, false)
      else (dbs.map (·.insert key), true)

/-- `insert`; a backend may throw. -/
def insert (throwing : Option Nat) (key : PublicKey) : EStateM Error PublicKeyCache Unit :=
  fun s =>
    let (dbs, ok) := insertBackends throwing key s.backends
    if ok then .ok () ⟨s.keys.insert key, dbs⟩
    else .error .database ⟨s.keys.insert key, dbs⟩

/-- `find`; what a backend has goes into the map. A backend may throw. -/
def find (throws : Bool) (id : PublicKeyId) :
    EStateM Error PublicKeyCache (Option PublicKey) := fun s =>
  match s.keys.rows id with
  | some key => .ok (some key) s
  | none =>
      if throws then .error .database s
      else
        match s.backends.findSome? (·.rows id) with
        | none => .ok none s
        | some key => .ok (some key) { s with keys := s.keys.insert key }

/-- The cache has a key of the id. -/
def Has (s : PublicKeyCache) (id : PublicKeyId) : Prop :=
  (s.keys.rows id).isSome ∨ ∃ db ∈ s.backends, (db.rows id).isSome

end PublicKeyCache

/-! ## `key_store` and its connections -/

/-- What the server answers. -/
inductive Answer where
  | register (key : PublicKey) (result : Except Error Unit)
  | find (id : PublicKeyId) (result : Except Error (Option PublicKey))

/-- The key that an answer makes known. -/
def Answer.known : Answer → Option PublicKey
  | .register key (.ok ()) => some key
  | .find _ (.ok found) => found
  | _ => none

/-- The store; each connection is at its next message, or between the two calls of
`register_key`. -/
structure Server where
  cache : PublicKeyCache
  registering : Nat → Option PublicKey
  answers : List Answer

namespace Server

/-- No message has arrived yet. -/
def start (cache : PublicKeyCache) : Server := ⟨cache, fun _ => none, []⟩

def answer (a : Answer) (s : Server) : Server := { s with answers := s.answers ++ [a] }

/-- `register_key` up to the call of `find`. -/
def beginRegister (c : Nat) (key : PublicKey) (throws : Bool) (s : Server) : Server :=
  if !key.verifyMe then s.answer (.register key (.error (.failed .invalidPublicKey)))
  else
    match PublicKeyCache.find throws key.id s.cache with
    | .error e cache => answer (.register key (.error e)) { s with cache := cache }
    | .ok (some _) cache =>
        answer (.register key (.error (.failed .invalidPublicKey))) { s with cache := cache }
    | .ok none cache =>
        { s with cache := cache, registering := Function.update s.registering c (some key) }

/-- The call of `insert`. -/
def finishRegister (c : Nat) (key : PublicKey) (throwing : Option Nat) (s : Server) : Server :=
  let s := { s with registering := Function.update s.registering c none }
  match PublicKeyCache.insert throwing key s.cache with
  | .error e cache => answer (.register key (.error e)) { s with cache := cache }
  | .ok () cache => answer (.register key (.ok ())) { s with cache := cache }

/-- `find_key`. -/
def findKey (id : PublicKeyId) (throws : Bool) (s : Server) : Server :=
  match PublicKeyCache.find throws id s.cache with
  | .error e cache => answer (.find id (.error e)) { s with cache := cache }
  | .ok found cache => answer (.find id (.ok found)) { s with cache := cache }

end Server

/-- A call of the cache, made for a connection. -/
inductive Action where
  | registerKeyRequest (c : Nat) (key : PublicKey) (throws : Bool)
  | insert (c : Nat) (throwing : Option Nat)
  | findKeyRequest (c : Nat) (id : PublicKeyId) (throws : Bool)

/-- A connection handles its messages one after the other. -/
def step : Action → Server → Option Server
  | .registerKeyRequest c key throws, s =>
      match s.registering c with
      | some _ => none
      | none => some (s.beginRegister c key throws)
  | .insert c throwing, s =>
      match s.registering c with
      | some key => some (s.finishRegister c key throwing)
      | none => none
  | .findKeyRequest c id throws, s =>
      match s.registering c with
      | some _ => none
      | none => some (s.findKey id throws)

/-! ## The first registration wins -/

/-- Behind an answer that makes a key known, no key of its id is registered, and
whoever asks for the id gets the key. -/
def FirstWins (answers : List Answer) : Prop :=
  answers.Pairwise fun a b => ∀ key, a.known = some key →
    (∀ key', b = .register key' (.ok ()) → key'.id ≠ key.id) ∧
      ∀ result, b = .find key.id result → result = .ok (some key)

/-- The keys of the answers are in the map of the cache. -/
def Remembers (s : Server) : Prop :=
  ∀ a ∈ s.answers, ∀ key, a.known = some key → s.cache.keys.rows key.id = some key

/-- What the answers go by. -/
structure StoreInv (s : Server) : Prop where
  remembers : Remembers s
  first_wins : FirstWins s.answers

/-- No other registration has put a key of the id into the cache since
`register_key` looked for it. -/
def Undisturbed : Action → Server → Prop
  | .insert c _, s => ∀ key, s.registering c = some key → ¬ s.cache.Has key.id
  | _, _ => True

variable {s t : Server}

/-- What `find` does. -/
theorem find_cases (throws : Bool) (id : PublicKeyId) (cache : PublicKeyCache) :
    (∃ key, cache.keys.rows id = some key ∧
        PublicKeyCache.find throws id cache = .ok (some key) cache) ∨
      (cache.keys.rows id = none ∧ PublicKeyCache.find throws id cache = .error .database cache) ∨
      (cache.keys.rows id = none ∧ PublicKeyCache.find throws id cache = .ok none cache) ∨
      ∃ key, cache.keys.rows id = none ∧ key.id = id ∧
        PublicKeyCache.find throws id cache =
          .ok (some key) { cache with keys := cache.keys.insert key } := by
  unfold PublicKeyCache.find
  cases hrow : cache.keys.rows id with
  | some key => exact Or.inl ⟨key, rfl, rfl⟩
  | none =>
      cases throws with
      | true => exact Or.inr (Or.inl ⟨rfl, rfl⟩)
      | false =>
          cases hfound : cache.backends.findSome? (·.rows id) with
          | none => exact Or.inr (Or.inr (Or.inl ⟨rfl, rfl⟩))
          | some key =>
              rcases List.exists_of_findSome?_eq_some hfound with ⟨db, _, hdb⟩
              exact Or.inr (Or.inr (Or.inr ⟨key, rfl, db.id_eq id key hdb, rfl⟩))

/-- The map may gain keys. -/
theorem StoreInv.mono (h : StoreInv s) (hanswers : t.answers = s.answers)
    (hrows : ∀ a ∈ s.answers, ∀ key, a.known = some key →
      s.cache.keys.rows key.id = some key → t.cache.keys.rows key.id = some key) :
    StoreInv t := by
  constructor
  · intro a ha key hknown
    rw [hanswers] at ha
    exact hrows a ha key hknown (h.remembers a ha key hknown)
  · rw [hanswers]
    exact h.first_wins

/-- A key that is not in the map was not made known. -/
theorem rows_insert_of_remembers {cache : PublicKeyCache} {key other : PublicKey}
    (hnone : cache.keys.rows key.id = none) (hother : cache.keys.rows other.id = some other) :
    other.id ≠ key.id ∧ (cache.keys.insert key).rows other.id = some other := by
  have hne : other.id ≠ key.id := by
    intro heq
    rw [heq] at hother
    cases hnone.symm.trans hother
  exact ⟨hne, (KeyTable.rows_insert_of_ne hne _).trans hother⟩

/-- The key that a backend has had comes into the map. -/
theorem StoreInv.found (h : StoreInv s) {id : PublicKeyId} {found : PublicKey}
    (hnone : s.cache.keys.rows id = none) (hid : found.id = id) :
    StoreInv { s with cache := { s.cache with keys := s.cache.keys.insert found } } := by
  subst hid
  exact h.mono rfl fun _ _ _ _ hrow => (rows_insert_of_remembers hnone hrow).2

theorem StoreInv.answer (h : StoreInv s) {a : Answer}
    (hknown : ∀ key, a.known = some key → s.cache.keys.rows key.id = some key)
    (hregister : ∀ key, a = .register key (.ok ()) →
      ∀ b ∈ s.answers, ∀ other, b.known = some other → key.id ≠ other.id)
    (hfind : ∀ id result, a = .find id result → ∀ key, s.cache.keys.rows id = some key →
      result = .ok (some key)) : StoreInv (s.answer a) := by
  constructor
  · intro b hb key hkey
    rcases List.mem_append.mp hb with hb | hb
    · exact h.remembers b hb key hkey
    · rw [List.mem_singleton.mp hb] at hkey
      exact hknown key hkey
  · show FirstWins (s.answers ++ [a])
    rw [FirstWins, List.pairwise_append]
    refine ⟨h.first_wins, List.pairwise_singleton _ _, ?_⟩
    intro b hb c hc key hkey
    rw [List.mem_singleton.mp hc]
    constructor
    · intro key' heq
      exact hregister key' heq b hb key hkey
    · intro result heq
      exact hfind key.id result heq key (h.remembers b hb key hkey)

theorem StoreInv.beginRegister (h : StoreInv s) (c : Nat) (key : PublicKey) (throws : Bool) :
    StoreInv (s.beginRegister c key throws) := by
  unfold Server.beginRegister
  split
  · exact h.answer nofun nofun nofun
  rcases find_cases throws key.id s.cache with
    ⟨_, _, heq⟩ | ⟨_, heq⟩ | ⟨_, heq⟩ | ⟨found, hnone, hid, heq⟩
  · rw [heq]
    exact h.answer nofun nofun nofun
  · rw [heq]
    exact h.answer nofun nofun nofun
  -- no key is found: the thread goes on to `keys_.insert`, and nothing is answered yet
  · rw [heq]
    exact h.mono rfl fun _ _ _ _ hrow => hrow
  · rw [heq]
    exact (h.found hnone hid).answer nofun nofun nofun

theorem StoreInv.findKey (h : StoreInv s) (id : PublicKeyId) (throws : Bool) :
    StoreInv (s.findKey id throws) := by
  unfold Server.findKey
  rcases find_cases throws id s.cache with
    ⟨key, hrow, heq⟩ | ⟨hnone, heq⟩ | ⟨hnone, heq⟩ | ⟨found, hnone, hid, heq⟩
  · rw [heq]
    refine h.answer ?_ nofun ?_
    · intro key' hkey
      obtain rfl := Option.some.inj hkey
      rw [s.cache.keys.id_eq id key hrow]
      exact hrow
    · rintro _ _ ⟨rfl, rfl⟩ key' hrow'
      rw [← hrow, hrow']
  · rw [heq]
    refine h.answer nofun nofun ?_
    rintro _ _ ⟨rfl, rfl⟩ key hrow
    cases hnone.symm.trans hrow
  · rw [heq]
    refine h.answer nofun nofun ?_
    rintro _ _ ⟨rfl, rfl⟩ key hrow
    cases hnone.symm.trans hrow
  · rw [heq]
    have hself : (s.cache.keys.insert found).rows id = some found := by
      rw [← hid]
      exact KeyTable.rows_insert_self found _
    refine (h.found hnone hid).answer ?_ nofun ?_
    · intro key hkey
      obtain rfl := Option.some.inj hkey
      rw [hid]
      exact hself
    · rintro _ _ ⟨rfl, rfl⟩ key hrow
      rw [← hself, hrow]

theorem StoreInv.finishRegister (h : StoreInv s) (c : Nat) (key : PublicKey)
    (throwing : Option Nat) (hnew : ¬ s.cache.Has key.id) :
    StoreInv (s.finishRegister c key throwing) := by
  have hnone : s.cache.keys.rows key.id = none := by
    rw [← Option.not_isSome_iff_eq_none]
    exact fun hsome => hnew (Or.inl hsome)
  have hstored : ∀ dbs, StoreInv { s with
      registering := Function.update s.registering c none
      cache := ⟨s.cache.keys.insert key, dbs⟩ } := fun dbs =>
    h.mono rfl fun _ _ _ _ hrow => (rows_insert_of_remembers hnone hrow).2
  unfold Server.finishRegister PublicKeyCache.insert
  simp only
  split
  -- a backend throws: the key is in the map, but the registration is refused
  next ok e cache heq =>
    split at heq
    · cases heq
    · obtain ⟨rfl, rfl⟩ := EStateM.Result.error.inj heq
      exact (hstored _).answer nofun nofun nofun
  next ok cache heq =>
    split at heq
    · obtain ⟨_, rfl⟩ := EStateM.Result.ok.inj heq
      refine (hstored _).answer ?_ ?_ nofun
      · intro key' hkey
        obtain rfl := Option.some.inj hkey
        exact KeyTable.rows_insert_self key _
      -- a key of the id that was made known would be in the map already
      · rintro _ ⟨rfl⟩ b hb other hother
        exact (rows_insert_of_remembers hnone (h.remembers b hb other hother)).1.symm
    · cases heq

theorem StoreInv.step {a : Action} (h : StoreInv s) (hgood : Undisturbed a s)
    (hstep : step a s = some t) : StoreInv t := by
  cases a with
  | registerKeyRequest c key throws =>
      simp only [KeyServer.step] at hstep
      split at hstep
      next => cases hstep
      next =>
        obtain rfl := Option.some.inj hstep
        exact h.beginRegister c key throws
  | insert c throwing =>
      simp only [KeyServer.step] at hstep
      split at hstep
      next key hkey =>
        obtain rfl := Option.some.inj hstep
        exact h.finishRegister c key throwing (hgood key hkey)
      next => cases hstep
  | findKeyRequest c id throws =>
      simp only [KeyServer.step] at hstep
      split at hstep
      next => cases hstep
      next =>
        obtain rfl := Option.some.inj hstep
        exact h.findKey id throws

theorem storeInv_start (cache : PublicKeyCache) : StoreInv (.start cache) :=
  ⟨nofun, List.Pairwise.nil⟩

/-- The first registration wins, where no two registrations of one id are under
way at the same time. -/
theorem first_registration_wins {cache : PublicKeyCache} {as : List Action}
    (hgood : Machine.EachStep step Undisturbed as (.start cache))
    (hrun : Machine.run step as (.start cache) = some s) : FirstWins s.answers := by
  have h := @Machine.invariant _ _ step Undisturbed StoreInv
    (fun _ _ _ hgood hinv hstep => hinv.step hgood hstep) as _ s hgood (storeInv_start cache) hrun
  exact h.first_wins

end

/-! ## Two keys of one id -/

namespace TwoKeys

attribute [local instance] OneLink.primitives

def cache : PublicKeyCache := ⟨.empty, []⟩

theorem verifyMe_content (ids : CertificateIds) (h : _) :
    (⟨OneLink.content ids, OneLink.id, h⟩ : PublicKey).verifyMe = true := by
  unfold PublicKey.verifyMe
  rw [Bool.and_eq_true]
  constructor
  · exact OneLink.verify_eq ids h _ _ _ (by decide)
  · rfl

/-- `register_key` finds nothing in a cache without the id. -/
theorem beginRegister_new (c : Nat) {key : PublicKey} (s : Server) (hverify : key.verifyMe = true)
    (hkeys : s.cache.keys.rows key.id = none) (hbackends : s.cache.backends = []) :
    s.beginRegister c key false =
      { s with registering := Function.update s.registering c (some key) } := by
  unfold Server.beginRegister PublicKeyCache.find
  simp [hverify, hkeys, hbackends]

/-- The server, once it has looked for the keys of `l`. -/
def looked (l : List (Nat × PublicKey)) : Server :=
  { Server.start cache with
    registering := l.foldl (fun r p => Function.update r p.1 (some p.2)) fun _ => none }

theorem step_root : step (.registerKeyRequest 0 OneLink.root false) (.start cache) =
    some (looked [(0, OneLink.root)]) :=
  congrArg some (beginRegister_new 0 (.start cache) (verifyMe_content _ _) rfl rfl)

theorem step_subject : step (.registerKeyRequest 1 OneLink.subject false)
    (looked [(0, OneLink.root)]) = some (looked [(0, OneLink.root), (1, OneLink.subject)]) :=
  congrArg some (beginRegister_new 1 (looked [(0, OneLink.root)]) (verifyMe_content _ _) rfl rfl)

/-- A registration, and a request for the key. -/
def oneRegistration : List Action := [
  .registerKeyRequest 0 OneLink.root false,
  .insert 0 none,
  .findKeyRequest 1 OneLink.root.id false]

theorem first_registration_wins_root :
    ∃ s, Machine.run step oneRegistration (.start cache) = some s ∧ FirstWins s.answers ∧
      s.answers = [.register OneLink.root (.ok ()),
        .find OneLink.root.id (.ok (some OneLink.root))] := by
  have hrun : Machine.run step oneRegistration (.start cache) = some _ :=
    Machine.run_cons_eq_some.mpr ⟨_, step_root, rfl⟩
  have hgood : Machine.EachStep step Undisturbed oneRegistration (.start cache) := by
    refine Machine.EachStep.cons trivial step_root ?_
    refine Machine.EachStep.cons ?_ rfl (Machine.EachStep.cons trivial rfl trivial)
    rintro key _ (hsome | ⟨db, hdb, _⟩)
    · cases hsome
    · cases hdb
  exact ⟨_, hrun, first_registration_wins hgood hrun, rfl⟩

/-- Two connections register a key of the id each. -/
def twoRegistrations : List Action := [
  .registerKeyRequest 0 OneLink.root false,
  .registerKeyRequest 1 OneLink.subject false,
  .insert 0 none,
  .findKeyRequest 2 OneLink.root.id false,
  .insert 1 none,
  .findKeyRequest 2 OneLink.root.id false]

/-- Both succeed, and the second key replaces the first one. -/
theorem both_registrations_succeed :
    ¬ ∀ (as : List Action) (s : Server), Machine.run step as (.start cache) = some s →
      FirstWins s.answers := by
  intro h
  have hrun : Machine.run step twoRegistrations (.start cache) = some _ :=
    Machine.run_cons_eq_some.mpr ⟨_, step_root,
      Machine.run_cons_eq_some.mpr ⟨_, step_subject, rfl⟩⟩
  have hwins : FirstWins [.register OneLink.root (.ok ()),
      .find OneLink.root.id (.ok (some OneLink.root)), .register OneLink.subject (.ok ()),
      .find OneLink.root.id (.ok (some OneLink.subject))] := h _ _ hrun
  rw [FirstWins, List.pairwise_cons] at hwins
  have hsecond := (hwins.1 (.register OneLink.subject (.ok ())) (by simp) OneLink.root rfl).1
    OneLink.subject rfl
  exact hsecond rfl

end TwoKeys

end Securepath.KeyServer
