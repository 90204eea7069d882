import Securepath.Crypto.CertificateStores

/-!
# Revocations in the certificate stores

A store refuses to replace a certificate that carries a revocation. Two things
can go wrong with it. `insert` of the cache has written its map when a backend
refuses, so a copy without the revocation covers the revoked certificate of the
database. And the stores ask whether there is a revocation, where
`certificate::is_revoked` asks whether it is valid, so a forged one shuts the
genuine one out.
-/

namespace Securepath.Crypto

open Serialisation StateExcept Machine

/-! ## Saving and loading -/

theorem asText_val (t : Text) : asText t.val = .ok t := by
  rw [asText, dif_pos t.property]

theorem Signature.ofVal_val (s : Signature) : Signature.ofVal s.val = .ok s := by
  simp only [Signature.ofVal, Signature.val, asText_val]
  rfl

theorem CertificateRevocation.ofVal_val (r : CertificateRevocation) :
    CertificateRevocation.ofVal r.val = .ok r := by
  simp only [CertificateRevocation.ofVal, CertificateRevocation.val, asText_val,
    Signature.ofVal_val]
  rfl

namespace Certificate

theorem ofVal_val (c : Certificate) : ofVal c.val = .ok c := by
  rcases c with ⟨version, certificateType, data, sig, revocation, trailing⟩
  cases revocation with
  | none =>
      simp only [ofVal, val, asText_val, Signature.ofVal_val]
      rfl
  | some r =>
      simp only [ofVal, val, asText_val, Signature.ofVal_val, Option.map_some,
        CertificateRevocation.ofVal_val]
      rfl

theorem exact_val (c : Certificate) : @Schema.Exact .unordered _ schema c.val none := by
  rcases c with ⟨version, certificateType, data, sig, revocation, trailing⟩
  cases revocation with
  | none =>
      exact ⟨trivial, trivial, trivial, ⟨trivial, ⟨trivial, trivial⟩, trivial, trivial⟩, trivial,
        trivial, trivial⟩
  | some r =>
      exact ⟨trivial, trivial, trivial, ⟨trivial, ⟨trivial, trivial⟩, trivial, trivial⟩,
        ⟨trivial, ⟨trivial, trivial⟩, ⟨trivial, ⟨trivial, trivial⟩, trivial, trivial⟩, trivial,
          trivial⟩, trivial, trivial⟩

/-- Where there is no revocation, the trailing data is not taken for one; a
certificate that was loaded is like that. -/
def Clear (c : Certificate) : Prop :=
  schema.Unambiguous c.val none ⟨[], .endOfOctets⟩ ∧ c.save.length < 2 ^ 64

/-- What is loaded of a saved certificate is the certificate. -/
theorem eq_of_load {c c' : Certificate} (hclear : c.Clear) (h : load c.save = .ok c') : c' = c := by
  unfold load at h
  split at h
  · cases h
  · rename_i v hv
    have hval := @Schema.eq_of_asnDerDeserialise .unordered schema c.val v c.save
      (asnDerSerialise_eq_serialised c.savable) hclear.2 hclear.1 c.exact_val hv
    rw [hval, ofVal_val] at h
    exact (Except.ok.inj h).symm

end Certificate

section Stores

variable [Primitives]

namespace CertificateDatabase

variable {db db' : CertificateDatabase} {id : CertificateId} {c c' : Certificate} {ok : Bool}

theorem insert_eq_ok (h : db.insert ok c = .ok db') :
    db.isRevoked c.id = false ∧ ok = true ∧ db' = db.filter (·.certId ≠ c.id) ++ [row c] := by
  unfold insert at h
  split_ifs at h with hrevoked hok
  exact ⟨by simpa using hrevoked, hok, (Except.ok.inj h).symm⟩

/-- Another id is not touched. -/
theorem find_insert_of_ne (h : db.insert ok c = .ok db') (hid : id ≠ c.id) :
    db'.find id = db.find id := by
  obtain ⟨-, -, rfl⟩ := insert_eq_ok h
  have hfilter : (db.filter (·.certId ≠ c.id) ++ [row c]).find? (·.certId = id) =
      db.find? (·.certId = id) := by
    rw [List.find?_append, List.find?_filter]
    have hrow : [row c].find? (·.certId = id) = none := by
      simpa [row] using fun heq : c.id = id => hid heq.symm
    rw [hrow, Option.or_none]
    refine List.find?_congr ?_
    intro r _
    by_cases hr : r.certId = id
    · simp [hr, hid]
    · simp [hr]
  unfold find
  rw [hfilter]

/-- Under its own id the certificate is found again, if it can be loaded. -/
theorem find_insert (h : db.insert ok c = .ok db') (hclear : c.Clear)
    (hfind : db'.find c.id = .ok (some c')) : c' = c := by
  obtain ⟨-, -, rfl⟩ := insert_eq_ok h
  have hrow : (db.filter (·.certId ≠ c.id) ++ [row c]).find? (·.certId = c.id) = some (row c) := by
    rw [List.find?_append, List.find?_filter]
    have hnone : db.find? (fun _ => false) = none := by simp [List.find?_eq_none]
    simp [row, hnone]
  unfold find at hfind
  rw [hrow] at hfind
  simp only [row] at hfind
  split at hfind
  · cases hfind
  · rename_i x hx
    cases hfind
    exact Certificate.eq_of_load hclear hx

end CertificateDatabase

/-! ## Runs of a cache over one database -/

namespace CertificateCache

/-- The calls; an exception is caught by the caller. -/
inductive Call where
  /-- `ok`: the database carries out its statement -/
  | insert (ok : Bool) (c : Certificate)
  | find (id : CertificateId)

/-- The state behind a call. -/
def step : Call → CertificateCache → Option CertificateCache
  | .insert ok c, s => some (finalState (insert ok c s))
  | .find id, s => some (finalState (find id s))

/-- The cache or its database has a certificate under the id that carries a
revocation. -/
def Held (s : CertificateCache) (id : CertificateId) : Prop :=
  s.holdsRevoked id = true ∨
    ∃ db ∈ s.backends, ∃ c, db.find id = .ok (some c) ∧ c.id = id ∧ c.revocation.isSome = true

/-- Neither `find` returns a certificate with the id and without a revocation. -/
def NoneUnrevoked (s : CertificateCache) (id : CertificateId) : Prop :=
  (∀ c s', find id s = .ok (some c) s' → c.id = id → c.revocation.isSome = true) ∧
    ∀ db ∈ s.backends, ∀ c, db.find id = .ok (some c) → c.id = id → c.revocation.isSome = true

/-- The calls that do not leave a certificate in the map that the database
refuses: the map refuses it first, or the database takes it. A certificate that
is read from the database has the id that it is stored under. -/
def Careful : Call → CertificateCache → Prop
  | .insert ok c, s => s.holdsRevoked c.id = true ∨
      (ok = true ∧ c.Clear ∧ ∀ db ∈ s.backends, db.isRevoked c.id = false ∧
        ∀ c', db.find c.id = .ok (some c') → c'.revocation = none)
  | .find id, s => ∀ db ∈ s.backends, ∀ c, db.find id = .ok (some c) → c.id = id

/-- Map and database agree on what carries a revocation. -/
def Agrees (s : CertificateCache) : Prop :=
  ∃ db, s.backends = [db] ∧ ∀ id c, s.certs id = some c → c.id = id ∧
    ∀ c', db.find id = .ok (some c') → c'.revocation.isSome = c.revocation.isSome

variable {s s' t : CertificateCache} {id : CertificateId} {c c' : Certificate} {ok : Bool}
  {db : CertificateDatabase}

omit [Primitives] in
theorem holdsRevoked_iff :
    s.holdsRevoked id = true ↔ ∃ c, s.certs id = some c ∧ c.revocation.isSome = true := by
  unfold holdsRevoked
  cases s.certs id with
  | none => simp
  | some c => simp

theorem insert_of_holdsRevoked (h : s.holdsRevoked c.id = true) :
    insert ok c s = .error (.failed .invalidOperation) s := by
  unfold insert
  rw [if_pos h]

/-- With one database: the map is written, whatever the database does. -/
theorem insert_of_not_holdsRevoked (h : s.holdsRevoked c.id = false) (hdb : s.backends = [db]) :
    (∃ db', db.insert ok c = .ok db' ∧
      insert ok c s = .ok () ⟨Function.update s.certs c.id (some c), [db']⟩) ∨
    ∃ e, db.insert ok c = .error e ∧
      insert ok c s = .error e ⟨Function.update s.certs c.id (some c), [db]⟩ := by
  unfold insert
  rw [if_neg (by simp [h]), hdb]
  cases hinsert : db.insert ok c with
  | error e => exact Or.inr ⟨e, rfl, by simp [insertBackends, hinsert]⟩
  | ok db' => exact Or.inl ⟨db', rfl, by simp [insertBackends, hinsert]⟩

omit [Primitives] in
theorem findBackends_singleton (id : CertificateId) (db : CertificateDatabase) :
    findBackends id [db] = db.find id := by
  unfold findBackends
  split
  · rename_i h
    exact h.symm
  · rename_i h
    rw [h]
    rfl
  · rename_i h
    exact h.symm

/-- What a call of `find` does: it reads the map, or it reads through. -/
theorem find_cases (id : CertificateId) (hdb : s.backends = [db]) :
    (∃ c, s.certs id = some c ∧ find id s = .ok (some c) s) ∨
    (s.certs id = none ∧ (∀ c, db.find id ≠ .ok (some c)) ∧ finalState (find id s) = s ∧
      ∀ c s', find id s ≠ .ok (some c) s') ∨
    ∃ c, s.certs id = none ∧ db.find id = .ok (some c) ∧
      find id s = .ok (some c) { s with certs := Function.update s.certs c.id (some c) } := by
  unfold find
  rcases Option.eq_none_or_eq_some (s.certs id) with hc | ⟨c, hc⟩
  · right
    rw [hc, hdb]
    simp only [findBackends_singleton]
    rcases hfind : db.find id with e | (_ | c)
    · left
      exact ⟨trivial, by simp, rfl, by simp⟩
    · left
      exact ⟨trivial, by simp, rfl, by simp⟩
    · right
      exact ⟨c, trivial, rfl, rfl⟩
  · left
    exact ⟨c, hc, by rw [hc]⟩

/-- A call that throws changes nothing. -/
theorem insert_error (hagrees : s.Agrees) (hcareful : Careful (.insert ok c) s) {e : Error}
    (h : insert ok c s = .error e t) : t = s := by
  rcases hagrees with ⟨db, hdb, -⟩
  rcases Bool.eq_false_or_eq_true (s.holdsRevoked c.id) with hheld | hheld
  · rw [insert_of_holdsRevoked hheld] at h
    cases h
    rfl
  · rcases hcareful.resolve_left (by simp [hheld]) with ⟨hok, -, hbackends⟩
    rcases hbackends db (by simp [hdb]) with ⟨hrevoked, -⟩
    rcases @insert_of_not_holdsRevoked _ s c ok db hheld hdb with ⟨db', -, hrun⟩ | ⟨e', hins, -⟩
    · cases hrun.symm.trans h
    · rw [CertificateDatabase.insert, hrevoked, hok] at hins
      cases hins

/-- Every careful call keeps map and database in agreement, and what is revoked. -/
theorem step_agrees {a : Call} (hcareful : Careful a s) (hagrees : s.Agrees)
    (hstep : step a s = some t) : t.Agrees ∧ ∀ id, s.Held id → t.Held id := by
  rcases hagrees with ⟨db, hdb, hmap⟩
  cases a with
  | insert ok c =>
      obtain rfl := Option.some.inj hstep
      rcases Bool.eq_false_or_eq_true (s.holdsRevoked c.id) with hheld | hheld
      · rw [insert_of_holdsRevoked hheld]
        exact ⟨⟨db, hdb, hmap⟩, fun _ h => h⟩
      · rcases hcareful.resolve_left (by simp [hheld]) with ⟨hok, hclear, hbackends⟩
        rcases hbackends db (by simp [hdb]) with ⟨hrevoked, hunrevoked⟩
        rcases @insert_of_not_holdsRevoked _ s c ok db hheld hdb with ⟨db', hins, hrun⟩ | ⟨e, hins, -⟩
        · rw [hrun]
          refine ⟨⟨db', rfl, ?_⟩, ?_⟩
          · intro id x hx
            by_cases hid : id = c.id
            · subst hid
              simp only [finalState, Function.update_self, Option.some.injEq] at hx
              subst hx
              refine ⟨rfl, fun c' hc' => ?_⟩
              rw [CertificateDatabase.find_insert hins hclear hc']
            · simp only [finalState, Function.update_of_ne hid] at hx
              rcases hmap id x hx with ⟨hxid, hxdb⟩
              refine ⟨hxid, fun c' hc' => hxdb c' ?_⟩
              rwa [CertificateDatabase.find_insert_of_ne hins hid] at hc'
          · intro id hid
            -- nothing is held under the id of the certificate
            have hne : id ≠ c.id := by
              rintro rfl
              rcases hid with hid | ⟨db₁, hmem, x, hx, -, hsome⟩
              · rw [hheld] at hid
                cases hid
              · rw [hdb, List.mem_singleton] at hmem
                subst hmem
                rw [hunrevoked x hx] at hsome
                cases hsome
            rcases hid with hid | ⟨db₁, hmem, x, hx, hxid, hsome⟩
            · left
              rw [holdsRevoked_iff] at hid ⊢
              simpa only [finalState, Function.update_of_ne hne] using hid
            · rw [hdb, List.mem_singleton] at hmem
              subst hmem
              right
              refine ⟨db', List.mem_singleton.mpr rfl, x, ?_, hxid, hsome⟩
              rwa [CertificateDatabase.find_insert_of_ne hins hne]
        · rw [CertificateDatabase.insert, hrevoked, hok] at hins
          cases hins
  | find id =>
      obtain rfl := Option.some.inj hstep
      rcases @find_cases _ s db id hdb with ⟨c, -, hrun⟩ | ⟨-, -, hfinal, -⟩ | ⟨c, hnone, hfind, hrun⟩
      · rw [hrun]
        exact ⟨⟨db, hdb, hmap⟩, fun _ h => h⟩
      · rw [hfinal]
        exact ⟨⟨db, hdb, hmap⟩, fun _ h => h⟩
      · rw [hrun]
        have hid : c.id = id := hcareful db (by simp [hdb]) c hfind
        refine ⟨⟨db, hdb, ?_⟩, ?_⟩
        · intro x y hy
          by_cases hx : x = c.id
          · subst hx
            simp only [finalState, Function.update_self, Option.some.injEq] at hy
            subst hy
            refine ⟨rfl, fun c' hc' => ?_⟩
            rw [hid, hfind] at hc'
            obtain rfl := Option.some.inj (Except.ok.inj hc')
            rfl
          · simp only [finalState, Function.update_of_ne hx] at hy
            exact hmap x y hy
        · rintro x (hx | hx)
          · left
            rw [holdsRevoked_iff] at hx ⊢
            rcases hx with ⟨y, hy, hsome⟩
            have hne : x ≠ c.id := by
              rintro rfl
              rw [hid, hnone] at hy
              cases hy
            exact ⟨y, by simpa only [finalState, Function.update_of_ne hne] using hy, hsome⟩
          · exact Or.inr hx

theorem Agrees.noneUnrevoked (hagrees : s.Agrees) (h : s.Held id) : s.NoneUnrevoked id := by
  rcases hagrees with ⟨db, hdb, hmap⟩
  have hdatabase : ∀ c, db.find id = .ok (some c) → c.revocation.isSome = true := by
    intro c hc
    rcases h with h | ⟨db₁, hmem, x, hx, -, hsome⟩
    · rcases holdsRevoked_iff.mp h with ⟨y, hy, hsome⟩
      rw [(hmap id y hy).2 c hc]
      exact hsome
    · rw [hdb, List.mem_singleton] at hmem
      subst hmem
      rw [hx] at hc
      obtain rfl := Option.some.inj (Except.ok.inj hc)
      exact hsome
  constructor
  · intro c s' hc _
    rcases @find_cases _ s db id hdb with ⟨x, hx, hrun⟩ | ⟨-, -, -, hnever⟩ | ⟨x, -, hfind, hrun⟩
    · cases hrun.symm.trans hc
      rcases h with h | ⟨db₁, hmem, y, hy, -, hsome⟩
      · rcases holdsRevoked_iff.mp h with ⟨y, hy, hsome⟩
        rw [hx] at hy
        obtain rfl := Option.some.inj hy
        exact hsome
      · rw [hdb, List.mem_singleton] at hmem
        subst hmem
        rw [← (hmap id c hx).2 y hy]
        exact hsome
    · exact absurd hc (hnever c s')
    · cases hrun.symm.trans hc
      exact hdatabase c hfind
  · intro db₁ hmem c hc _
    rw [hdb, List.mem_singleton] at hmem
    subst hmem
    exact hdatabase c hc

theorem agrees_ofBackend (db : CertificateDatabase) : (ofBackend db).Agrees :=
  ⟨db, rfl, fun _ _ h => nomatch h⟩

theorem run_agrees {as : List Call} (hgood : EachStep step Careful as s) (hagrees : s.Agrees)
    (hrun : run step as s = some t) : t.Agrees ∧ ∀ id, s.Held id → t.Held id := by
  refine @invariant _ _ step Careful (fun t => t.Agrees ∧ ∀ id, s.Held id → t.Held id) ?_ as s t
    hgood ⟨hagrees, fun _ h => h⟩ hrun
  rintro a u u' hcareful ⟨hu, hheld⟩ hstep
  rcases step_agrees hcareful hu hstep with ⟨hu', hheld'⟩
  exact ⟨hu', fun id h => hheld' id (hheld id h)⟩

/-- Over every content of the database, in every run of careful calls: what
carries a revocation once is not found without one later, and an insert that
throws leaves the cache and its database as they are. -/
theorem revocation_permanent (db : CertificateDatabase) {as : List Call} {s : CertificateCache}
    (hgood : EachStep step Careful as (ofBackend db)) (hrun : run step as (ofBackend db) = some s) :
    (∀ id bs t, s.Held id → EachStep step Careful bs s → run step bs s = some t →
      t.NoneUnrevoked id) ∧
    ∀ ok c e t, Careful (.insert ok c) s → insert ok c s = .error e t → t = s := by
  have hagrees := (run_agrees hgood (agrees_ofBackend db) hrun).1
  constructor
  · intro id bs t hheld hgood' hrun'
    rcases run_agrees hgood' hagrees hrun' with ⟨hagrees', hheld'⟩
    exact hagrees'.noneUnrevoked (hheld' id hheld)
  · intro ok c e t hcareful h
    exact insert_error hagrees hcareful h

/-! ## Recording a genuine revocation -/

/-- A certificate is stored under the id with a revocation that the key signed. -/
def StoredGenuine (s : CertificateCache) (id : CertificateId) (key : PublicKey) : Prop :=
  (∃ c, s.certs id = some c ∧ c.isRevoked key = true) ∨
    ∃ db ∈ s.backends, ∃ c, db.find id = .ok (some c) ∧ c.isRevoked key = true

/-- Inserting `c` succeeds, or a genuine revocation was there; and then the
certificate is found revoked. -/
def Recorded (s : CertificateCache) (c : Certificate) (key : PublicKey) : Prop :=
  (returns (insert true c s) = true ∨ s.StoredGenuine c.id key) ∧
    ∃ c' t, find c.id (finalState (insert true c s)) = .ok (some c') t ∧ c'.isRevoked key = true

/-- Every revocation that stands in the way under the id is genuine: one in the
map, and without one there those of the backends. -/
def NotShutOut (s : CertificateCache) (id : CertificateId) (key : PublicKey) : Prop :=
  if s.holdsRevoked id then ∃ c, s.certs id = some c ∧ c.isRevoked key = true
  else (∀ db ∈ s.backends, db.isRevoked id = false) ∨ s.StoredGenuine id key

/-- The backends take a certificate unless one of them has it as revoked. -/
theorem insertBackends_eq_none {dbs : List CertificateDatabase} :
    (insertBackends true c dbs).2 = none ↔ ∀ db ∈ dbs, db.isRevoked c.id = false := by
  induction dbs with
  | nil => simp [insertBackends]
  | cons db dbs ih =>
      unfold insertBackends
      cases hrevoked : db.isRevoked c.id with
      | true => simp [CertificateDatabase.insert, hrevoked]
      | false => simp [CertificateDatabase.insert, hrevoked, ih]

/-- What `insert` comes to where the map does not refuse. -/
theorem insert_not_held (h : s.holdsRevoked c.id = false) :
    (returns (insert true c s) = true ↔ ∀ db ∈ s.backends, db.isRevoked c.id = false) ∧
      (finalState (insert true c s)).certs c.id = some c := by
  rw [← insertBackends_eq_none]
  unfold insert
  rw [if_neg (by simp [h])]
  rcases insertBackends true c s.backends with ⟨dbs, _ | e⟩
  · exact ⟨by simp [returns], by simp [finalState]⟩
  · exact ⟨by simp [returns], by simp [finalState]⟩

/-- A genuine revocation is recorded exactly where no other one shuts it out. -/
theorem recorded_iff (s : CertificateCache) (c : Certificate) (key : PublicKey)
    (hgenuine : c.isRevoked key = true) : s.Recorded c key ↔ s.NotShutOut c.id key := by
  unfold Recorded NotShutOut
  cases hheld : s.holdsRevoked c.id with
  | true =>
      rw [if_pos rfl, insert_of_holdsRevoked hheld]
      rcases holdsRevoked_iff.mp hheld with ⟨x, hx, -⟩
      have hfind : find c.id s = .ok (some x) s := by
        unfold find
        rw [hx]
      constructor
      · rintro ⟨-, c', t, hc', hrevoked⟩
        cases hfind.symm.trans hc'
        exact ⟨x, hx, hrevoked⟩
      · rintro ⟨y, hy, hrevoked⟩
        rw [hx] at hy
        obtain rfl := Option.some.inj hy
        exact ⟨Or.inr (Or.inl ⟨x, hx, hrevoked⟩), x, s, hfind, hrevoked⟩
  | false =>
      rw [if_neg Bool.false_ne_true]
      rcases insert_not_held hheld with ⟨hreturns, hmap⟩
      rw [hreturns]
      constructor
      · exact fun h => h.1
      · intro h
        refine ⟨h, c, finalState (insert true c s), ?_, hgenuine⟩
        unfold find
        rw [hmap]

end CertificateCache

end Stores

/-! ## A certificate with a signed and with a forged revocation -/

namespace Sample

/-- Primitives that accept every signature but the octet 0. -/
@[reducible] def primitives : Primitives where
  sha3_256 _ := ⟨List.replicate 32 7, by decide⟩
  verifyMessage _ _ _ sig := sig ≠ [0]

attribute [local instance] primitives

def id : CertificateId := ⟨List.replicate 32 7, by decide⟩

def sig (o : UInt8) : Signature := ⟨.cast uint32 2, id, ⟨[o], by simp [maxStructureSize]⟩⟩

def plain : Certificate := ⟨.cast int 1, .cast int 0, ⟨[], by decide⟩, sig 1, none, []⟩

def revoked (o : UInt8) : Certificate :=
  { plain with revocation := some ⟨.cast int 1, id, sig o, []⟩ }

def zeros (n : Nat) (h : n ≤ maxStructureSize) : Text :=
  ⟨List.replicate n 0, by rwa [List.length_replicate]⟩

def issuer : PublicKey where
  content := ⟨.cast uint16 2, .pq1, zeros 1952 (by decide), zeros 32 (by decide),
    zeros 1184 (by decide), ⟨[], .nil⟩, sig 1, []⟩
  id := id
  id_eq := fun _ => rfl

/-- A database that an earlier run has left. -/
def database : CertificateDatabase := [CertificateDatabase.row (revoked 1)]

theorem clear_revoked : (revoked 1).Clear :=
  ⟨⟨trivial, trivial, trivial, ⟨trivial, ⟨trivial, trivial⟩, trivial, trivial⟩,
    ⟨trivial, ⟨trivial, trivial⟩, ⟨trivial, ⟨trivial, trivial⟩, trivial, trivial⟩, fun _ => rfl,
      trivial⟩, fun _ => rfl, trivial⟩, by decide +kernel⟩

theorem issuer_isValid : issuer.content.isValid = true := by
  simp only [KeyContent.isValid, issuer, zeros, List.length_replicate, Suite.parameters]
  rfl

theorem verify_issuer {s : Signature} {data context : Octets} (hcontext : context.length ≤ 255)
    (hs : s.data.val ≠ [0]) : issuer.verify s data context = true := by
  unfold PublicKey.verify frameMessage
  rw [if_neg (by omega)]
  simp only [KeyContent.verifyFramed, issuer_isValid, Bool.true_and]
  exact decide_eq_true hs

theorem isRevoked_revoked : (revoked 1).isRevoked issuer = true := by
  have hverify : (⟨.cast int 1, id, sig 1, []⟩ : CertificateRevocation).verifyMe issuer = true :=
    verify_issuer (by decide) (by decide)
  simp only [Certificate.isRevoked, revoked, hverify]
  decide +kernel

theorem isRevoked_forged : (revoked 0).isRevoked issuer = false := by
  have hverify : (⟨.cast int 1, id, sig 0, []⟩ : CertificateRevocation).verifyMe issuer = false := by
    unfold CertificateRevocation.verifyMe PublicKey.verify frameMessage
    rw [if_neg (by decide)]
    simp only [KeyContent.verifyFramed, issuer_isValid, Bool.true_and]
    exact decide_eq_false (not_not.mpr rfl)
  simp only [Certificate.isRevoked, revoked, hverify, Bool.and_false]

end Sample

/-- A copy without the revocation is refused, and is what `find` returns then. -/
theorem insert_covers_revoked :
    ∃ e t t', @CertificateCache.Held Sample.primitives (.ofBackend Sample.database) Sample.id ∧
      @CertificateCache.insert Sample.primitives true Sample.plain (.ofBackend Sample.database) =
        .error e t ∧
      @CertificateCache.find Sample.primitives Sample.id t = .ok (some Sample.plain) t' ∧
      @Certificate.id Sample.primitives Sample.plain = Sample.id ∧
      Sample.plain.revocation = none := by
  have hfind : Sample.database.find Sample.id =
      .ok (some (Sample.revoked 1)) := by decide +kernel
  exact ⟨_, _, _, Or.inr ⟨_, List.mem_singleton.mpr rfl, _, hfind, rfl, rfl⟩, rfl, rfl, rfl, rfl⟩

/-- A revoked certificate in an empty cache, and the refused copy of it. -/
theorem revocation_permanent_refused :
    ∃ t, Machine.run (@CertificateCache.step Sample.primitives)
        [.insert true (Sample.revoked 1), .insert true Sample.plain] (.ofBackend []) = some t ∧
      @CertificateCache.NoneUnrevoked Sample.primitives t Sample.id := by
  let _ := Sample.primitives
  let s : CertificateCache :=
    finalState (CertificateCache.insert true (Sample.revoked 1) (.ofBackend []))
  have hheld : s.Held Sample.id := Or.inl rfl
  have hcareful : CertificateCache.Careful (.insert true (Sample.revoked 1)) (.ofBackend []) := by
    refine Or.inr ⟨rfl, Sample.clear_revoked, ?_⟩
    intro db hdb
    obtain rfl := List.mem_singleton.mp hdb
    refine ⟨rfl, fun c' hc' => ?_⟩
    cases hc'
  have hrun : Machine.run CertificateCache.step [.insert true (Sample.revoked 1)] (.ofBackend []) =
      some s := rfl
  have hgood : Machine.EachStep CertificateCache.step CertificateCache.Careful
      [.insert true (Sample.revoked 1)] (.ofBackend []) := ⟨hcareful, fun _ _ => trivial⟩
  refine ⟨finalState (CertificateCache.insert true Sample.plain s), rfl, ?_⟩
  exact (CertificateCache.revocation_permanent [] hgood hrun).1 Sample.id
    [.insert true Sample.plain] _ hheld ⟨Or.inl rfl, fun _ _ => trivial⟩ rfl

/-- A genuine revocation behind a forged one: refused, and not found. -/
theorem recorded_fails :
    let _ := Sample.primitives
    ∃ s, Machine.run CertificateCache.step [.insert true (Sample.revoked 0)] (.ofBackend []) = some s ∧
      (Sample.revoked 1).isRevoked Sample.issuer = true ∧
      ¬ s.Recorded (Sample.revoked 1) Sample.issuer := by
  intro _
  refine ⟨finalState (CertificateCache.insert true (Sample.revoked 0) (.ofBackend [])), rfl,
    Sample.isRevoked_revoked, ?_⟩
  rintro ⟨-, c', t, hfind, hrevoked⟩
  rw [CertificateCache.insert_of_holdsRevoked rfl] at hfind
  cases hfind
  rw [Sample.isRevoked_forged] at hrevoked
  cases hrevoked

/-- Into an empty cache the revocation is recorded. -/
theorem recorded_iff_empty :
    let _ := Sample.primitives
    (CertificateCache.ofBackend []).Recorded (Sample.revoked 1) Sample.issuer ↔
      (CertificateCache.ofBackend []).NotShutOut (Sample.revoked 1).id Sample.issuer :=
  @CertificateCache.recorded_iff Sample.primitives (.ofBackend []) (Sample.revoked 1) Sample.issuer
    Sample.isRevoked_revoked

end Securepath.Crypto
