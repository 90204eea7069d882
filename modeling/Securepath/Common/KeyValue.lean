import Securepath.Library.Machine
import Securepath.Serialisation.Types
import Mathlib.Logic.Function.Basic

/-!
# The key-value store

`key_value_database` (`common/key_value_database.cpp`), a table that several databases
share, each with its selector, and `key_value_cache` (`common/key_value_cache.cpp`) over
such databases. The cache writes its map and then each backend in turn; what a backend
throws leaves the map written and the backends behind it as they were.

An empty value is stored, and then not told from no value: SQLite gives no octets for it.
-/

namespace Securepath.Common

open Serialisation (Octets)

/-- `key_type`, the octets of the string. -/
abbrev Key := Octets

/-! ## The database -/

/-- A row of the table, with `PRIMARY KEY(key, selector)`. -/
structure Row where
  key : Key
  data : Octets
  selector : UInt64
deriving DecidableEq

abbrev Table := List Row

/-- The row is the one for a key. -/
def Row.IsFor (selector : UInt64) (key : Key) (r : Row) : Bool :=
  r.key = key ∧ r.selector = selector

/-- `value` of a column with octets: `sqlite3_column_blob` gives null for none. -/
def columnValue (data : Octets) : Option Octets := if data = [] then none else some data

namespace KeyValueDatabase

variable (selector : UInt64)

/-- `insert`: "INSERT OR REPLACE" takes the row with the same primary key away. -/
def insert (key : Key) (data : Octets) (t : Table) : Table :=
  t.filter (fun r => !r.IsFor selector key) ++ [⟨key, data, selector⟩]

/-- `find`. -/
def find (key : Key) (t : Table) : Option Octets :=
  (t.find? (Row.IsFor selector key)).bind fun r => columnValue r.data

/-- `erase`. -/
def erase (key : Key) (t : Table) : Table := t.filter fun r => !r.IsFor selector key

/-- `clear`. -/
def clear (t : Table) : Table := t.filter fun r => r.selector ≠ selector

end KeyValueDatabase

/-- The calls that write. -/
inductive Write where
  | insert (key : Key) (data : Octets)
  | erase (key : Key)
  | clear
deriving DecidableEq

/-- A call to the database of a selector. -/
def Write.toTable (selector : UInt64) : Write → Table → Table
  | .insert key data => KeyValueDatabase.insert selector key data
  | .erase key => KeyValueDatabase.erase selector key
  | .clear => KeyValueDatabase.clear selector

/-- What a call does to the values that are found. -/
def Write.toValues : Write → (Key → Option Octets) → Key → Option Octets
  | .insert key data, m => Function.update m key (columnValue data)
  | .erase key, m => Function.update m key none
  | .clear, _ => fun _ => none

/-- What a call does to a map. -/
def Write.toMap : Write → (Key → Option Octets) → Key → Option Octets
  | .insert key data, m => Function.update m key (some data)
  | .erase key, m => Function.update m key none
  | .clear, _ => fun _ => none

/-! ### What is found in a table -/

section Table

variable {selector other : UInt64} {key : Key} {t : Table}

theorem Row.isFor_iff {r : Row} :
    r.IsFor selector key = true ↔ r.key = key ∧ r.selector = selector :=
  decide_eq_true_iff

/-- A row is for one key and one selector. -/
theorem Row.not_isFor {r : Row} {written : Key} (hr : r.IsFor selector key = true)
    (hne : key ≠ written ∨ selector ≠ other) : (!r.IsFor other written) = true := by
  rw [Bool.not_eq_true', Bool.eq_false_iff]
  intro hother
  rcases Row.isFor_iff.mp hr with ⟨rfl, rfl⟩
  rcases Row.isFor_iff.mp hother with ⟨hkey, hselector⟩
  rcases hne with hne | hne
  · exact hne hkey
  · exact hne hselector

/-- A filter that keeps the rows for a key keeps what is found for it. -/
theorem find?_filter {keep : Row → Bool}
    (h : ∀ r : Row, r.IsFor selector key = true → keep r = true) (t : Table) :
    (t.filter keep).find? (Row.IsFor selector key) = t.find? (Row.IsFor selector key) := by
  induction t with
  | nil => rfl
  | cons r t ih =>
    by_cases hr : r.IsFor selector key = true
    · rw [List.filter_cons_of_pos (h r hr), List.find?_cons_of_pos hr, List.find?_cons_of_pos hr]
    · rw [List.find?_cons_of_neg hr, ← ih]
      by_cases hkeep : keep r = true
      · rw [List.filter_cons_of_pos hkeep, List.find?_cons_of_neg hr]
      · rw [List.filter_cons_of_neg hkeep]

/-- A filter that takes the rows for a key away leaves nothing to be found. -/
theorem find?_filter_none {keep : Row → Bool}
    (h : ∀ r : Row, r.IsFor selector key = true → ¬ keep r = true) (t : Table) :
    (t.filter keep).find? (Row.IsFor selector key) = none := by
  refine List.find?_eq_none.mpr fun r hr hfor => ?_
  exact h r hfor (List.mem_filter.mp hr).2

/-- Each call changes what is found under its selector as it should. -/
theorem find_toTable (w : Write) (selector : UInt64) (t : Table) (key : Key) :
    KeyValueDatabase.find selector key (w.toTable selector t) =
      w.toValues (fun key => KeyValueDatabase.find selector key t) key := by
  cases w with
  | insert written data =>
      show ((KeyValueDatabase.insert selector written data t).find? _).bind _ =
        Function.update (fun key => KeyValueDatabase.find selector key t) written
          (columnValue data) key
      unfold KeyValueDatabase.insert
      rw [List.find?_append]
      by_cases hkey : key = written
      · subst hkey
        have hnew : (⟨key, data, selector⟩ : Row).IsFor selector key = true :=
          Row.isFor_iff.mpr ⟨rfl, rfl⟩
        rw [find?_filter_none (fun r hr => by rw [hr]; exact Bool.false_ne_true),
          Function.update_self, Option.none_or, List.find?_cons_of_pos hnew]
        rfl
      · have hnew : ¬ (⟨written, data, selector⟩ : Row).IsFor selector key = true := fun h =>
          hkey (Row.isFor_iff.mp h).1.symm
        rw [find?_filter (fun r hr => Row.not_isFor hr (.inl hkey)), Function.update_of_ne hkey,
          List.find?_cons_of_neg hnew, List.find?_nil, Option.or_none]
        rfl
  | erase written =>
      show ((KeyValueDatabase.erase selector written t).find? _).bind _ =
        Function.update (fun key => KeyValueDatabase.find selector key t) written none key
      unfold KeyValueDatabase.erase
      by_cases hkey : key = written
      · subst hkey
        rw [find?_filter_none (fun r hr => by rw [hr]; exact Bool.false_ne_true),
          Function.update_self]
        rfl
      · rw [find?_filter (fun r hr => Row.not_isFor hr (.inl hkey)), Function.update_of_ne hkey]
        rfl
  | clear =>
      show ((KeyValueDatabase.clear selector t).find? _).bind _ = _
      unfold KeyValueDatabase.clear
      rw [find?_filter_none fun r hr => by simpa using (Row.isFor_iff.mp hr).2]
      rfl

/-- No call changes what is found under another selector. -/
theorem find_toTable_of_ne (h : other ≠ selector) (w : Write) (t : Table) (key : Key) :
    KeyValueDatabase.find other key (w.toTable selector t) =
      KeyValueDatabase.find other key t := by
  have hapart : ∀ (r : Row) (written : Key), r.IsFor other key = true →
      (!r.IsFor selector written) = true := fun r written hr => Row.not_isFor hr (.inr h)
  cases w with
  | insert written data =>
      show ((KeyValueDatabase.insert selector written data t).find? _).bind _ = _
      have hnew : ¬ (⟨written, data, selector⟩ : Row).IsFor other key = true := fun hfor =>
        h (Row.isFor_iff.mp hfor).2.symm
      unfold KeyValueDatabase.insert
      rw [List.find?_append, find?_filter (fun r hr => hapart r written hr),
        List.find?_cons_of_neg hnew, List.find?_nil, Option.or_none]
      rfl
  | erase written =>
      show ((KeyValueDatabase.erase selector written t).find? _).bind _ = _
      unfold KeyValueDatabase.erase
      rw [find?_filter (fun r hr => hapart r written hr)]
      rfl
  | clear =>
      show ((KeyValueDatabase.clear selector t).find? _).bind _ = _
      unfold KeyValueDatabase.clear
      rw [find?_filter fun r hr => by
        rw [decide_eq_true_iff, (Row.isFor_iff.mp hr).2]
        exact h]
      rfl

end Table

theorem toValues_idem (w : Write) (m : Key → Option Octets) :
    w.toValues (w.toValues m) = w.toValues m := by
  cases w with
  | insert key data => exact Function.update_idem ..
  | erase key => exact Function.update_idem ..
  | clear => rfl

/-! ## The cache -/

structure KeyValueCache where
  /-- `data_` -/
  data : Key → Option Octets
  /-- `backends_`: databases over the table, by their selectors -/
  backends : List UInt64

/-- The cache and the table that its backends share with others. -/
structure Store where
  cache : KeyValueCache
  table : Table

/-- The loop over the backends, up to the one that throws: the first `done` write. -/
def writeBackends (w : Write) (backends : List UInt64) (done : Nat) (t : Table) : Table :=
  (backends.take done).foldl (fun t selector => w.toTable selector t) t

namespace KeyValueCache

/-- The constructor and `add_backend` before anything is found. -/
def ofBackends (backends : List UInt64) : KeyValueCache := ⟨fun _ => none, backends⟩

/-- `insert`. -/
def insert (key : Key) (data : Octets) (done : Nat) (s : Store) : Store where
  cache := { s.cache with data := Function.update s.cache.data key (some data) }
  table := writeBackends (.insert key data) s.cache.backends done s.table

/-- `erase`. -/
def erase (key : Key) (done : Nat) (s : Store) : Store where
  cache := { s.cache with data := Function.update s.cache.data key none }
  table := writeBackends (.erase key) s.cache.backends done s.table

/-- `clear`. -/
def clear (done : Nat) (s : Store) : Store where
  cache := { s.cache with data := fun _ => none }
  table := writeBackends .clear s.cache.backends done s.table

/-- The first value that a backend finds. -/
def findBackends (key : Key) (backends : List UInt64) (t : Table) : Option Octets :=
  backends.findSome? fun selector => KeyValueDatabase.find selector key t

/-- `find`, with the cache behind it; the loop over the backends ends with an exception
unless a value is among the first `done`, and gives no answer then. -/
def find (key : Key) (done : Nat) (s : Store) : Option (Option Octets) × Store :=
  match s.cache.data key with
  | some data => (some (some data), s)
  | none =>
      match findBackends key (s.cache.backends.take done) s.table with
      | some data =>
          (some (some data), { s with
            cache := { s.cache with data := Function.update s.cache.data key (some data) } })
      | none => (if s.cache.backends.length ≤ done then some none else none, s)

/-- The calls that write. -/
def write (w : Write) (done : Nat) (s : Store) : Store :=
  match w with
  | .insert key data => insert key data done s
  | .erase key => erase key done s
  | .clear => clear done s

end KeyValueCache

/-! ## Runs -/

inductive Action where
  | write (w : Write) (done : Nat)
  | find (key : Key) (done : Nat)
  /-- another cache, over backends of its own, takes the place of this one -/
  | restart (backends : List UInt64)
  /-- another database over the table -/
  | other (selector : UInt64) (w : Write)
deriving DecidableEq

def start (backends : List UInt64) (t : Table) : Store := ⟨.ofBackends backends, t⟩

/-- The databases of others have other selectors. -/
def step : Action → Store → Option Store
  | .write w done, s => some (KeyValueCache.write w done s)
  | .find key done, s => some (KeyValueCache.find key done s).2
  | .restart backends, s => some (start backends s.table)
  | .other selector w, s =>
      if selector ∈ s.cache.backends then none
      else some { s with table := w.toTable selector s.table }

/-! ## Values -/

/-- What is found in the cache and under each selector. -/
@[ext] structure Values where
  current : Key → Option Octets
  stored : UInt64 → Key → Option Octets
  backends : List UInt64

namespace Values

/-- The value that the backends have for a key. -/
def remembered (stored : UInt64 → Key → Option Octets) (backends : List UInt64) (key : Key) :
    Option Octets :=
  backends.findSome? fun selector => stored selector key

def start (stored : UInt64 → Key → Option Octets) (backends : List UInt64) : Values :=
  ⟨remembered stored backends, stored, backends⟩

def writeStored (w : Write) (selectors : List UInt64) (stored : UInt64 → Key → Option Octets) :
    UInt64 → Key → Option Octets :=
  fun selector => if selector ∈ selectors then w.toValues (stored selector) else stored selector

/-- A value that is inserted is there at once; one that is erased is what the backends still
have, which is nothing if all of them were reached. -/
def write (w : Write) (done : Nat) (v : Values) : Values :=
  let stored := writeStored w (v.backends.take done) v.stored
  { v with
    stored := stored
    current := match w with
      | .insert key data => Function.update v.current key (some data)
      | .erase key => Function.update v.current key (remembered stored v.backends key)
      | .clear => remembered stored v.backends }

def step (v : Values) : Action → Values
  | .write w done => v.write w done
  | .find _ _ => v
  | .restart backends => start v.stored backends
  | .other selector w => { v with stored := writeStored w [selector] v.stored }

def run (v : Values) (actions : List Action) : Values := actions.foldl step v

theorem remembered_congr {stored stored' : UInt64 → Key → Option Octets} {backends : List UInt64}
    {key : Key} (h : ∀ selector ∈ backends, stored' selector key = stored selector key) :
    remembered stored' backends key = remembered stored backends key := by
  unfold remembered
  induction backends with
  | nil => rfl
  | cons selector backends ih =>
    rw [List.findSome?_cons, List.findSome?_cons, h selector List.mem_cons_self,
      ih fun other hother => h other (List.mem_cons_of_mem _ hother)]

/-- A key that is not written keeps its values. -/
theorem writeStored_of_ne {w : Write} {selectors : List UInt64}
    {stored : UInt64 → Key → Option Octets} {key : Key}
    (h : ∀ m : Key → Option Octets, w.toValues m key = m key) (selector : UInt64) :
    writeStored w selectors stored selector key = stored selector key := by
  unfold writeStored
  split_ifs
  · exact h _
  · rfl

end Values

/-- What is found in a store. -/
def Store.values (s : Store) : Values where
  current key := (s.cache.data key).or
    (KeyValueCache.findBackends key s.cache.backends s.table)
  stored selector key := KeyValueDatabase.find selector key s.table
  backends := s.cache.backends

/-! ## The store and its values -/

section Refinement

variable {s s' : Store} {key : Key} {done : Nat}

/-- The backends are asked in order for what is stored under their selectors. -/
theorem findBackends_congr {stored : UInt64 → Key → Option Octets} {backends : List UInt64}
    {t : Table} (h : ∀ selector ∈ backends,
      KeyValueDatabase.find selector key t = stored selector key) :
    KeyValueCache.findBackends key backends t = Values.remembered stored backends key :=
  @Values.remembered_congr stored (fun selector key => KeyValueDatabase.find selector key t) _ _ h

/-- The backends that are reached change what is found under their selectors. -/
theorem find_writeBackends (w : Write) (selectors : List UInt64) (t : Table) (selector : UInt64) :
    (fun key => KeyValueDatabase.find selector key
      (selectors.foldl (fun t selector => w.toTable selector t) t)) =
      Values.writeStored w selectors (fun selector key => KeyValueDatabase.find selector key t)
        selector := by
  induction selectors generalizing t with
  | nil => rfl
  | cons first selectors ih =>
    rw [List.foldl_cons, ih]
    unfold Values.writeStored
    dsimp only
    by_cases hfirst : selector = first
    · subst hfirst
      have hwritten : (fun key => KeyValueDatabase.find selector key (w.toTable selector t)) =
          w.toValues fun key => KeyValueDatabase.find selector key t :=
        funext fun key => find_toTable w selector t key
      rw [if_pos List.mem_cons_self, hwritten, toValues_idem, ite_self]
    · have hsame : (fun key => KeyValueDatabase.find selector key (w.toTable first t)) =
          fun key => KeyValueDatabase.find selector key t :=
        funext fun key => find_toTable_of_ne hfirst w t key
      rw [hsame]
      simp only [List.mem_cons, hfirst, false_or]

/-- A call writes the map of the cache, then the backends. -/
theorem values_write (w : Write) (done : Nat) (s : Store) :
    (KeyValueCache.write w done s).values = s.values.write w done := by
  have hstored : ∀ selector, (fun key => KeyValueDatabase.find selector key
      (writeBackends w s.cache.backends done s.table)) =
        Values.writeStored w (s.cache.backends.take done) s.values.stored selector :=
    find_writeBackends w _ s.table
  have hremembered : ∀ key, KeyValueCache.findBackends key s.cache.backends
      (writeBackends w s.cache.backends done s.table) =
        Values.remembered (Values.writeStored w (s.cache.backends.take done) s.values.stored)
          s.cache.backends key := fun key =>
    findBackends_congr fun selector _ => congrFun (hstored selector) key
  have hkept : ∀ key, (∀ m : Key → Option Octets, w.toValues m key = m key) →
      KeyValueCache.findBackends key s.cache.backends
        (writeBackends w s.cache.backends done s.table) =
          KeyValueCache.findBackends key s.cache.backends s.table := fun key h =>
    (hremembered key).trans
      (Values.remembered_congr fun selector _ => Values.writeStored_of_ne h selector)
  cases w with
  | insert written data =>
      refine Values.ext (funext fun key => ?_) (funext hstored) rfl
      show (Function.update s.cache.data written (some data) key).or
          (KeyValueCache.findBackends key s.cache.backends
            (writeBackends (.insert written data) s.cache.backends done s.table)) =
        Function.update s.values.current written (some data) key
      by_cases hkey : key = written
      · subst hkey
        rw [Function.update_self, Function.update_self, Option.some_or]
      · rw [Function.update_of_ne hkey, Function.update_of_ne hkey,
          hkept key fun m => Function.update_of_ne hkey ..]
        rfl
  | erase written =>
      refine Values.ext (funext fun key => ?_) (funext hstored) rfl
      show (Function.update s.cache.data written none key).or
          (KeyValueCache.findBackends key s.cache.backends
            (writeBackends (.erase written) s.cache.backends done s.table)) =
        Function.update s.values.current written _ key
      by_cases hkey : key = written
      · subst hkey
        rw [Function.update_self, Function.update_self, Option.none_or]
        exact hremembered key
      · rw [Function.update_of_ne hkey, Function.update_of_ne hkey,
          hkept key fun m => Function.update_of_ne hkey ..]
        rfl
  | clear => exact Values.ext (funext fun key => hremembered key) (funext hstored) rfl

/-- A value that is found is remembered, and nothing else is found for that. -/
theorem values_find (key : Key) (done : Nat) (s : Store) :
    (KeyValueCache.find key done s).2.values = s.values := by
  unfold KeyValueCache.find
  cases hdata : s.cache.data key with
  | some data => rfl
  | none =>
      cases hfound : KeyValueCache.findBackends key (s.cache.backends.take done) s.table with
      | none => rfl
      | some data =>
          refine Values.ext (funext fun other => ?_) rfl rfl
          show (Function.update s.cache.data key (some data) other).or _ = _
          by_cases hkey : other = key
          · subst hkey
            -- a prefix of the backends has the value that all of them have
            have hall : KeyValueCache.findBackends other s.cache.backends s.table = some data := by
              unfold KeyValueCache.findBackends at hfound ⊢
              rw [← List.take_append_drop done s.cache.backends, List.findSome?_append, hfound]
              rfl
            show _ = (s.cache.data other).or _
            rw [Function.update_self, hdata, hall]
            rfl
          · rw [Function.update_of_ne hkey]
            rfl

theorem values_step {a : Action} (h : step a s = some s') : s'.values = s.values.step a := by
  cases a with
  | write w done =>
      obtain rfl := Option.some.inj h
      exact values_write w done s
  | find key done =>
      obtain rfl := Option.some.inj h
      exact values_find key done s
  | restart backends =>
      obtain rfl := Option.some.inj h
      rfl
  | other selector w =>
      obtain ⟨hother, rfl⟩ : selector ∉ s.cache.backends ∧
          { s with table := w.toTable selector s.table } = s' := by
        simpa [step] using h
      have hstored : ∀ other, (fun key => KeyValueDatabase.find other key
          (w.toTable selector s.table)) =
            Values.writeStored w [selector] s.values.stored other :=
        find_writeBackends w [selector] s.table
      refine Values.ext (funext fun key => ?_) (funext hstored) rfl
      have hbackends : KeyValueCache.findBackends key s.cache.backends
          (w.toTable selector s.table) =
            Values.remembered s.values.stored s.cache.backends key :=
        findBackends_congr fun backend hbackend =>
          find_toTable_of_ne (fun heq : backend = selector => hother (heq ▸ hbackend)) w s.table key
      exact congrArg (s.cache.data key).or hbackends

theorem values_run {actions : List Action} (h : Machine.run step actions s = some s') :
    s'.values = s.values.run actions := by
  induction actions generalizing s with
  | nil =>
      obtain rfl := Option.some.inj h
      rfl
  | cons a actions ih =>
      obtain ⟨t, hstep, hrest⟩ := Machine.run_cons_eq_some.mp h
      rw [ih hrest, values_step hstep]
      rfl

/-- An answer is the value. -/
theorem find_eq {answer : Option Octets} (h : (KeyValueCache.find key done s).1 = some answer) :
    answer = s.values.current key := by
  unfold KeyValueCache.find at h
  show answer = (s.cache.data key).or _
  cases hdata : s.cache.data key with
  | some data =>
      rw [hdata] at h
      exact (Option.some.inj h).symm
  | none =>
      rw [hdata] at h
      rw [Option.none_or, ← List.take_append_drop done s.cache.backends]
      unfold KeyValueCache.findBackends at h ⊢
      rw [List.findSome?_append]
      cases hfound : (s.cache.backends.take done).findSome? fun selector =>
          KeyValueDatabase.find selector key s.table with
      | some data =>
          rw [hfound] at h
          exact (Option.some.inj h).symm
      | none =>
          rw [hfound] at h
          obtain ⟨hall, rfl⟩ : s.cache.backends.length ≤ done ∧ answer = none := by
            simpa [eq_comm] using h
          rw [List.drop_eq_nil_of_le hall]
          rfl

/-- There is an answer when no backend throws. -/
theorem find_of_complete (h : s.cache.backends.length ≤ done) :
    (KeyValueCache.find key done s).1 = some (s.values.current key) := by
  obtain ⟨answer, hanswer⟩ : ∃ answer, (KeyValueCache.find key done s).1 = some answer := by
    unfold KeyValueCache.find
    rw [if_pos h]
    cases s.cache.data key with
    | some data => exact ⟨_, rfl⟩
    | none => cases KeyValueCache.findBackends key (s.cache.backends.take done) s.table <;>
        exact ⟨_, rfl⟩
  rw [hanswer, find_eq hanswer]

end Refinement

/-- Whatever is written, found, restarted or written by others, with statements that fail at
any backend: an answer is what the calls before it left, be it remembered or not. -/
theorem KeyValueCache.find_of_run {backends : List UInt64} {t : Table} {actions : List Action}
    {s : Store} {key : Key} {done : Nat} {answer : Option Octets}
    (hrun : Machine.run step actions (start backends t) = some s)
    (h : (KeyValueCache.find key done s).1 = some answer) :
    answer = ((start backends t).values.run actions).current key := by
  rw [find_eq h, values_run hrun]

/-- An erase that fails after the first of two backends, and a value that comes back. -/
theorem KeyValueCache.find_of_run_erase :
    ∃ s : Store, Machine.run step
        [.write (.insert [1] [2]) 2, .other 9 .clear, .write (.erase [1]) 1, .find [1] 2]
          (start [3, 4] []) = some s ∧
      (KeyValueCache.find [1] 2 s).1 = some (some [2]) ∧
      ((start [3, 4] []).values.run
        [.write (.insert [1] [2]) 2, .other 9 .clear, .write (.erase [1]) 1, .find [1] 2]).current
          [1] = some [2] := by
  have hanswer : (KeyValueCache.find [1] 2 ((Machine.run step
      [.write (.insert [1] [2]) 2, .other 9 .clear, .write (.erase [1]) 1, .find [1] 2]
        (start [3, 4] [])).get rfl)).1 = some (some [2]) := by
    decide
  exact ⟨_, rfl, hanswer, (KeyValueCache.find_of_run rfl hanswer).symm⟩

/-! ## A plain map -/

/-- A call of one cache, or of others, in which no backend throws at a write. -/
def Action.Plain (backends : List UInt64) : Action → Prop
  | .write _ done => backends.length ≤ done
  | .find _ _ => True
  | .restart _ => False
  | .other _ _ => True

instance (backends : List UInt64) : DecidablePred (Action.Plain backends)
  | .write _ done => inferInstanceAs (Decidable (backends.length ≤ done))
  | .find _ _ => inferInstanceAs (Decidable True)
  | .restart _ => inferInstanceAs (Decidable False)
  | .other _ _ => inferInstanceAs (Decidable True)

def Action.toMap : Action → (Key → Option Octets) → Key → Option Octets
  | .write w _, m => w.toMap m
  | _, m => m

/-- The map that the calls make of `m`. -/
def plain (m : Key → Option Octets) (actions : List Action) : Key → Option Octets :=
  actions.foldl (fun m a => a.toMap m) m

section Plain

variable {backends : List UInt64} {stored : UInt64 → Key → Option Octets}

theorem Values.remembered_const {key : Key} {value : Option Octets} (hbackends : backends ≠ [])
    (h : ∀ selector ∈ backends, stored selector key = value) :
    remembered stored backends key = value := by
  refine (@remembered_congr (fun _ _ => value) stored backends key h).trans ?_
  unfold remembered
  cases value with
  | some data =>
      obtain ⟨selector, rest, rfl⟩ := List.exists_cons_of_ne_nil hbackends
      rfl
  | none => exact List.findSome?_eq_none_iff.mpr fun _ _ => rfl

/-- A call sets the value of a key, or leaves it. -/
theorem Write.toValues_cases (w : Write) (key : Key) :
    (∃ value, ∀ m, w.toValues m key = value) ∨ ∀ m, w.toValues m key = m key := by
  cases w with
  | insert written data =>
      by_cases hkey : key = written
      · subst hkey
        exact .inl ⟨columnValue data, fun m => by rw [toValues, Function.update_self]⟩
      · exact .inr fun m => Function.update_of_ne hkey ..
  | erase written =>
      by_cases hkey : key = written
      · subst hkey
        exact .inl ⟨none, fun m => by rw [toValues, Function.update_self]⟩
      · exact .inr fun m => Function.update_of_ne hkey ..
  | clear => exact .inl ⟨none, fun _ => rfl⟩

/-- A write that reaches every backend. -/
theorem Values.remembered_writeStored (hbackends : backends ≠ []) (w : Write) :
    remembered (writeStored w backends stored) backends =
      w.toValues (remembered stored backends) := by
  have hmem : ∀ selector ∈ backends, ∀ key,
      writeStored w backends stored selector key = w.toValues (stored selector) key := by
    intro selector h key
    unfold writeStored
    rw [if_pos h]
  funext key
  obtain ⟨value, hset⟩ | hleft := w.toValues_cases key
  · rw [hset]
    exact remembered_const hbackends fun selector h => (hmem selector h key).trans (hset _)
  · rw [hleft]
    exact remembered_congr fun selector h => (hmem selector h key).trans (hleft _)

/-- No octets are ever found. -/
theorem find_bind_columnValue (selector : UInt64) (key : Key) (t : Table) :
    (KeyValueDatabase.find selector key t).bind columnValue =
      KeyValueDatabase.find selector key t := by
  unfold KeyValueDatabase.find columnValue
  cases t.find? (Row.IsFor selector key) with
  | none => rfl
  | some r =>
      rw [Option.bind_some]
      split_ifs with h
      · rfl
      · exact if_neg h

theorem toValues_bind (w : Write) (m : Key → Option Octets) :
    (fun key => (w.toMap m key).bind columnValue) =
      w.toValues fun key => (m key).bind columnValue := by
  funext key
  cases w with
  | insert written data =>
      by_cases hkey : key = written
      · subst hkey
        simp only [Write.toMap, Write.toValues, Function.update_self, Option.bind_some]
      · simp only [Write.toMap, Write.toValues, Function.update_of_ne hkey]
  | erase written =>
      by_cases hkey : key = written
      · subst hkey
        simp only [Write.toMap, Write.toValues, Function.update_self, Option.bind_none]
      · simp only [Write.toMap, Write.toValues, Function.update_of_ne hkey]
  | clear => rfl

/-- The store is as the map `m`: the cache finds it all, and the backends find all of it that
is not empty. -/
structure IsMap (backends : List UInt64) (m : Key → Option Octets) (s : Store) : Prop where
  backends_eq : s.cache.backends = backends
  current : s.values.current = m
  stored : Values.remembered s.values.stored backends = fun key => (m key).bind columnValue

theorem isMap_start (backends : List UInt64) (t : Table) :
    IsMap backends (start backends t).values.current (start backends t) where
  backends_eq := rfl
  current := rfl
  stored := by
    funext key
    show Values.remembered (fun selector key => KeyValueDatabase.find selector key t) backends key =
      (Values.remembered (fun selector key => KeyValueDatabase.find selector key t) backends
        key).bind columnValue
    unfold Values.remembered
    induction backends with
    | nil => rfl
    | cons selector backends ih =>
      have hfound := find_bind_columnValue selector key t
      rw [List.findSome?_cons]
      dsimp only
      cases hfind : KeyValueDatabase.find selector key t with
      | none => exact ih
      | some data =>
          rw [hfind] at hfound
          exact hfound.symm

theorem isMap_step (hbackends : backends ≠ []) {m : Key → Option Octets} {a : Action}
    (ha : a.Plain backends) {s s' : Store} (h : step a s = some s') (hs : IsMap backends m s) :
    IsMap backends (a.toMap m) s' := by
  have hvalues := values_step h
  cases a with
  | write w done =>
      have hbackends' : s.values.backends = backends := hs.backends_eq
      have hall : s.values.backends.take done = backends := by
        rw [hbackends', List.take_of_length_le ha]
      have hstored : s'.values.stored = Values.writeStored w backends s.values.stored := by
        rw [hvalues, ← hall]
        rfl
      have hremembered : Values.remembered s'.values.stored backends =
          fun key => (w.toMap m key).bind columnValue := by
        rw [hstored, Values.remembered_writeStored hbackends, hs.stored, toValues_bind]
      refine ⟨?_, ?_, hremembered⟩
      · have hsame : s'.values.backends = s.values.backends := by
          rw [hvalues]
          rfl
        exact hsame.trans hs.backends_eq
      · have hsource : Values.remembered (Values.writeStored w (s.values.backends.take done)
            s.values.stored) s.values.backends = fun key => (w.toMap m key).bind columnValue := by
          rw [hall, hbackends', ← hstored, hremembered]
        rw [hvalues, ← hs.current]
        cases w with
        | insert key data => rfl
        | erase key =>
            show Function.update s.values.current key _ = Function.update s.values.current key none
            rw [hsource]
            exact congrArg (Function.update s.values.current key)
              (by simp only [Write.toMap, Function.update_self, Option.bind_none])
        | clear => exact hsource
  | find key done =>
      have hsame : s'.cache.backends = s.cache.backends :=
        congrArg Values.backends hvalues
      exact ⟨hsame.trans hs.backends_eq, (congrArg Values.current hvalues).trans hs.current,
        (congrArg (Values.remembered · backends) (congrArg Values.stored hvalues)).trans hs.stored⟩
  | restart _ => exact ha.elim
  | other selector w =>
      obtain ⟨hother, rfl⟩ : selector ∉ s.cache.backends ∧
          { s with table := w.toTable selector s.table } = s' := by
        simpa [step] using h
      refine ⟨hs.backends_eq, (congrArg Values.current hvalues).trans hs.current, ?_⟩
      rw [hvalues]
      refine Eq.trans (funext fun key => ?_) hs.stored
      refine Values.remembered_congr fun backend hbackend => ?_
      have hne : backend ∉ [selector] := fun h => hother
        (hs.backends_eq ▸ List.mem_singleton.mp h ▸ hbackend)
      exact congrFun (if_neg hne) key

theorem isMap_run (hbackends : backends ≠ []) {m : Key → Option Octets} {actions : List Action}
    (hplain : ∀ a ∈ actions, a.Plain backends) {s s' : Store}
    (h : Machine.run step actions s = some s') (hs : IsMap backends m s) :
    IsMap backends (plain m actions) s' := by
  induction actions generalizing s m with
  | nil =>
      obtain rfl := Option.some.inj h
      exact hs
  | cons a actions ih =>
      obtain ⟨t, hstep, hrest⟩ := Machine.run_cons_eq_some.mp h
      exact ih (fun b hb => hplain b (List.mem_cons_of_mem a hb)) hrest
        (isMap_step hbackends (hplain a List.mem_cons_self) hstep hs)

end Plain

/-- While no backend throws at a write, the cache is a map, whatever others write to the table;
a cache that is made anew over the same backends finds all of it but the empty values. -/
theorem KeyValueCache.find_of_plain {backends : List UInt64} {t : Table} {actions : List Action}
    {s : Store} {done : Nat} (hbackends : backends ≠ [])
    (hplain : ∀ a ∈ actions, a.Plain backends)
    (hrun : Machine.run step actions (start backends t) = some s)
    (hdone : backends.length ≤ done) (key : Key) :
    (KeyValueCache.find key done s).1 =
        some (plain (start backends t).values.current actions key) ∧
      (KeyValueCache.find key done (start backends s.table)).1 =
        some ((plain (start backends t).values.current actions key).bind columnValue) := by
  have hmap := isMap_run hbackends hplain hrun (isMap_start backends t)
  constructor
  · rw [find_of_complete (by rw [hmap.backends_eq]; exact hdone), hmap.current]
  · rw [find_of_complete hdone]
    exact congrArg some (congrFun hmap.stored key)

/-- Two backends, an empty value and one that another database inserts. -/
theorem KeyValueCache.find_of_plain_empty :
    ∃ s : Store, Machine.run step
        [.write (.insert [1] []) 2, .other 9 (.insert [1] [7]), .find [1] 0]
          (start [3, 4] []) = some s ∧
      (KeyValueCache.find [1] 2 s).1 = some (some []) ∧
      (KeyValueCache.find [1] 2 (start [3, 4] s.table)).1 = some none := by
  have hfound := @KeyValueCache.find_of_plain [3, 4] []
    [.write (.insert [1] []) 2, .other 9 (.insert [1] [7]), .find [1] 0] _ 2
    (by decide) (by decide) rfl (Nat.le_refl 2) [1]
  exact ⟨_, rfl, hfound⟩

end Securepath.Common
