import Securepath.PacketTransport.HybridKem

/-!
# Envelopes

`encrypted_content`, `encrypted_key` and `enveloped_content` (`crypto/`). The data is encrypted
once, under a key of its own, and this key is encrypted for each recipient. Recipients are
added to the enveloper, before and after it gives envelopes, and to envelopes that it gave.
-/

namespace Securepath.PacketTransport

open Serialisation Crypto Network KeyServer StateExcept
open Keystream (Memory)

/-! ## Data under a key -/

/-- `process` of a vector: the text is at the start of the memory, its room behind it. -/
def processVector (data : Octets) : Gcm.Feed :=
  .process (Memory.write (fun _ => 0) 0 data) 0 data.length data.length

/-- A cipher is constructed, the iv authenticated and the data processed; then the tag is
taken. -/
def aesGcmPass (b : Gcm.Botan) (encrypt : Bool) (symKey iv data : Octets) :
    Except CryptoError (Octets × Octets) :=
  match Gcm.singleMessageGcm symKey iv encrypt with
  | .error e => .error (.gcm e)
  | .ok s =>
      match Gcm.streamed b [.processAuth iv, processVector data] aesGcmTagSize s with
      | .ok r _ => .ok r
      | .error e _ => .error (.gcm e)

/-- `tag_matches`. -/
def tagMatches (l r : Octets) : Bool := l.length = r.length ∧ l = r

/-- The decryptor gives its result if the tag matches. -/
def aesGcmOpen (b : Gcm.Botan) (symKey iv encrypted tag : Octets) : Except CryptoError Octets :=
  match aesGcmPass b false symKey iv encrypted with
  | .error e => .error e
  | .ok (plain, t) => if tagMatches t tag then .ok plain else .error .invalidTag

section Pass

variable {b : Gcm.Botan} {symKey iv : Octets}

theorem text_processVector (data : Octets) : (processVector data).text = data := by
  show Memory.read _ 0 data.length = data
  exact Memory.read_write_same _ _ _

theorem message_vector (iv data : Octets) :
    Gcm.message [.processAuth iv, processVector data] = data := by
  show [] ++ ((processVector data).text ++ []) = data
  rw [text_processVector, List.append_nil, List.nil_append]

theorem associated_vector (iv data : Octets) :
    Gcm.associated [.processAuth iv, processVector data] = iv :=
  List.append_nil iv

theorem aesGcmPass_encrypt (hkey : symKey.length = aesGcmKeySize) (hiv : iv.length = aesGcmIvSize)
    {data : Octets} (hdata : data.length ≤ aesGcmMaxDataSize) :
    aesGcmPass b true symKey iv data = .ok ((Gcm.oneShot b symKey iv iv data).1,
      (Gcm.oneShot b symKey iv iv data).2.take aesGcmTagSize) := by
  have hplaced : ∀ f ∈ [Gcm.Feed.processAuth iv, processVector data], f.Placed := by
    intro f hf
    rcases List.mem_pair.mp hf with rfl | rfl
    · trivial
    · exact Or.inr (Or.inl (Nat.zero_add _).le)
  have happart : ∀ f ∈ [Gcm.Feed.processAuth iv, processVector data], ¬ f.InPlace := by
    intro f hf
    rcases List.mem_pair.mp hf with rfl | rfl
    · exact fun h => h
    · rintro ⟨hsame, hpos⟩
      exact hpos.ne' hsame
  have hmessage : (Gcm.message [.processAuth iv, processVector data]).length ≤
      Gcm.aesGcmMaxDataSize := by
    rw [message_vector]
    exact hdata
  have htag : 0 < aesGcmTagSize := by decide
  obtain ⟨s', hs'⟩ := Gcm.streamed_eq b symKey iv true hmessage htag (by decide)
  rw [Gcm.copy_encrypt hplaced happart, message_vector, associated_vector,
    ← Gcm.oneShot_eq hkey hiv hdata iv] at hs'
  unfold aesGcmPass
  rw [Gcm.singleMessageGcm_eq hkey hiv]
  dsimp only
  rw [hs']

theorem aesGcmPass_decrypt (hkey : symKey.length = aesGcmKeySize) (hiv : iv.length = aesGcmIvSize)
    {data : Octets} (hdata : data.length ≤ aesGcmMaxDataSize) :
    aesGcmPass b false symKey iv (Gcm.oneShot b symKey iv iv data).1 =
      .ok (data, (Gcm.oneShot b symKey iv iv data).2.take aesGcmTagSize) := by
  have htag : 0 < aesGcmTagSize := by decide
  have hmessage : (Gcm.message [.processAuth iv, processVector data]).length ≤
      Gcm.aesGcmMaxDataSize := by
    rw [message_vector]
    exact hdata
  have hfed : Gcm.message [.processAuth iv, processVector (Gcm.oneShot b symKey iv iv data).1] =
      (Gcm.oneShot b symKey iv (Gcm.associated [.processAuth iv, processVector data])
        (Gcm.message [.processAuth iv, processVector data])).1 := by
    rw [message_vector, message_vector, associated_vector]
  have haad : Gcm.associated
      [.processAuth iv, processVector (Gcm.oneShot b symKey iv iv data).1] =
        Gcm.associated [.processAuth iv, processVector data] := by
    rw [associated_vector, associated_vector]
  obtain ⟨s, s', hs, hs'⟩ := Gcm.decryptor_streams hkey hiv hmessage htag (by decide) hfed haad
  rw [message_vector, associated_vector] at hs'
  unfold aesGcmPass
  rw [hs]
  dsimp only
  rw [hs']

/-- A cipher without text has no room for data that is longer than a message. -/
theorem streamed_too_long (iv : Octets) {s : Gcm.GcmStreamCipher} (husable : s.finished = false)
    (hempty : s.plain = []) {data : Octets} (hlong : ¬ data.length ≤ aesGcmMaxDataSize) :
    Gcm.streamed b [.processAuth iv, processVector data] aesGcmTagSize s =
      .error .constraintViolation (s.fed iv [] 0) := by
  have hauth : (Gcm.Feed.processAuth iv).run b s = .ok [] (s.fed iv [] 0) :=
    Gcm.Feed.run_eq (.processAuth iv) husable (by rw [hempty]; exact Nat.zero_le _)
  have hfinished : ¬ (s.fed iv [] 0).finished = true := by
    rw [show (s.fed iv [] 0).finished = s.finished from rfl, husable]
    exact Bool.false_ne_true
  have hroom : data.length > Gcm.aesGcmMaxDataSize - (s.fed iv [] 0).plain.length := by
    rw [show (s.fed iv [] 0).plain = s.plain ++ [] from rfl, hempty]
    exact Nat.lt_of_not_le hlong
  have hprocess : (processVector data).run b (s.fed iv [] 0) =
      .error .constraintViolation (s.fed iv [] 0) := by
    have hstep := Gcm.process_eq b (s.fed iv [] 0) (Memory.write (fun _ => 0) 0 data) 0
      data.length data.length
    rw [if_neg hfinished, if_pos hroom] at hstep
    exact bind_of_error hstep
  have hfed : Gcm.feedAll b [.processAuth iv, processVector data] s =
      .error .constraintViolation (s.fed iv [] 0) := by
    refine (bind_of_ok hauth).trans ?_
    exact bind_of_error (bind_of_error hprocess)
  exact bind_of_error hfed

/-- A pass that comes to its end has a key and an iv of their sizes, and room for the data. -/
theorem lengths_of_aesGcmPass {encrypt : Bool} {data : Octets} {r : Octets × Octets}
    (h : aesGcmPass b encrypt symKey iv data = .ok r) :
    symKey.length = aesGcmKeySize ∧ iv.length = aesGcmIvSize ∧
      data.length ≤ aesGcmMaxDataSize := by
  have hkey : symKey.length = aesGcmKeySize := by
    by_contra hne
    have hfails : Gcm.singleMessageGcm symKey iv encrypt = .error .invalidKeySize := by
      unfold Gcm.singleMessageGcm Gcm.construct
      rw [if_pos (show symKey.length ≠ Gcm.aesGcmKeySize from hne)]
      rfl
    unfold aesGcmPass at h
    rw [hfails] at h
    exact nomatch h
  have hiv : iv.length = aesGcmIvSize := by
    by_contra hne
    have hfails : Gcm.singleMessageGcm symKey iv encrypt = .error .invalidIvSize := by
      unfold Gcm.singleMessageGcm Gcm.construct Gcm.andThen Gcm.start
      rw [if_neg (not_not.mpr (show symKey.length = Gcm.aesGcmKeySize from hkey)),
        if_pos (show iv.length ≠ Gcm.aesGcmIvSize from hne)]
      rfl
    unfold aesGcmPass at h
    rw [hfails] at h
    exact nomatch h
  refine ⟨hkey, hiv, ?_⟩
  by_contra hlong
  have hfails := streamed_too_long (b := b) iv (s := Gcm.single symKey iv encrypt) rfl rfl hlong
  unfold aesGcmPass at h
  rw [Gcm.singleMessageGcm_eq hkey hiv] at h
  dsimp only at h
  rw [hfails] at h
  exact nomatch h

/-- What the decryptor accepts is what the encryptor gives for the result. -/
theorem aesGcmOpen_eq_ok {encrypted tag plain : Octets} :
    aesGcmOpen b symKey iv encrypted tag = .ok plain ↔
      aesGcmPass b true symKey iv plain = .ok (encrypted, tag) := by
  constructor
  · intro h
    unfold aesGcmOpen at h
    split at h
    · exact nomatch h
    · rename_i text t hpass
      split_ifs at h with htag
      obtain rfl := Except.ok.inj h
      obtain ⟨hkey, hiv, hlength⟩ := lengths_of_aesGcmPass hpass
      obtain rfl := (of_decide_eq_true htag).2
      -- the octets are the encryption of what the keystream makes of them
      have hback : (Gcm.oneShot b symKey iv iv (Keystream.apply
          (b.keystream symKey (Gcm.firstDataBlock iv)) 0 encrypted)).1 = encrypted := by
        rw [Gcm.oneShot_eq hkey hiv ((Keystream.length_apply ..).le.trans hlength),
          Keystream.apply_apply]
      have hdecrypt := aesGcmPass_decrypt (b := b) hkey hiv
        ((Keystream.length_apply (b.keystream symKey (Gcm.firstDataBlock iv)) 0 encrypted).le.trans
          hlength)
      rw [hback, hpass] at hdecrypt
      obtain ⟨rfl, rfl⟩ := Prod.mk.inj (Except.ok.inj hdecrypt)
      rw [aesGcmPass_encrypt hkey hiv ((Keystream.length_apply ..).le.trans hlength), hback]
  · intro h
    obtain ⟨hkey, hiv, hlength⟩ := lengths_of_aesGcmPass h
    rw [aesGcmPass_encrypt hkey hiv hlength] at h
    obtain ⟨rfl, rfl⟩ := Prod.mk.inj (Except.ok.inj h)
    unfold aesGcmOpen
    rw [aesGcmPass_decrypt hkey hiv hlength]
    exact if_pos (decide_eq_true ⟨rfl, rfl⟩)

end Pass

/-- `encrypted_content`. -/
structure EncryptedContent where
  iv : Octets
  encrypted : Octets
  tag : Octets

namespace EncryptedContent

/-- `encrypt`, with the iv that was drawn. -/
def encrypt (b : Gcm.Botan) (data symKey : Octets) (iv : Sized aesGcmIvSize) :
    Except CryptoError EncryptedContent := do
  let (encrypted, tag) ← aesGcmPass b true symKey iv.val data
  return ⟨iv.val, encrypted, tag⟩

/-- `decrypt`. -/
def decrypt (b : Gcm.Botan) (ec : EncryptedContent) (symKey : Octets) : Except CryptoError Octets :=
  aesGcmOpen b symKey ec.iv ec.encrypted ec.tag

end EncryptedContent

/-! ## Recipients -/

section Envelopes

variable [Primitives]

/-- `encrypt_key`. -/
def EncryptedKey.encrypt (b : Botan) (pk : PublicKey) (draws : EncryptDraws) (key : Octets) :
    Except CryptoError EncryptedKey := do
  let data ← PublicKey.encrypt b pk draws key
  return ⟨pk.id.val, data⟩

/-- `decrypt_key`. -/
def EncryptedKey.decrypt (b : Botan) (sk : PrivateKeyImpl) (key : EncryptedKey) :
    Except CryptoError Octets :=
  if key.keyId ≠ sk.id.val then .error .wrongKey else sk.decrypt b key.data

namespace EnvelopedContent

/-- `add`. -/
def add (c : EnvelopedContent) (key : EncryptedKey) : EnvelopedContent :=
  { c with keys := c.keys ++ [key] }

/-- `decrypt`: with the first key that is for this private key. -/
def decrypt (b : Botan) (c : EnvelopedContent) (sk : PrivateKeyImpl) : Except CryptoError Octets :=
  match c.keys.find? fun key => key.keyId = sk.id.val with
  | none => .error .wrongKey
  | some key => do
      let symKey ← key.decrypt b sk
      aesGcmOpen b.toBotan symKey c.iv c.encrypted c.tag

end EnvelopedContent

/-- `enveloper`. -/
structure Enveloper where
  data : Octets
  symKey : Sized aesGcmKeySize
  keys : List EncryptedKey

namespace Enveloper

/-- `encrypt_key`. -/
def encryptKey (b : Botan) (e : Enveloper) (pk : PublicKey) (draws : EncryptDraws) :
    Except CryptoError EncryptedKey :=
  EncryptedKey.encrypt b pk draws e.symKey.val

/-- `add`. -/
def add (b : Botan) (e : Enveloper) (pk : PublicKey) (draws : EncryptDraws) :
    Except CryptoError Enveloper := do
  let key ← e.encryptKey b pk draws
  return { e with keys := e.keys ++ [key] }

/-- `result`, with the iv that was drawn. -/
def result (b : Botan) (e : Enveloper) (iv : Sized aesGcmIvSize) :
    Except CryptoError EnvelopedContent := do
  let (encrypted, tag) ← aesGcmPass b.toBotan true e.symKey.val iv.val e.data
  return ⟨e.keys, iv.val, encrypted, tag⟩

end Enveloper

/-! ## Runs -/

/-- An enveloper and the envelopes that it gave. -/
structure Envelopes where
  enveloper : Enveloper
  results : List EnvelopedContent

inductive EnvelopeAction where
  /-- a recipient for the envelopes to come -/
  | add (pk : PublicKey) (draws : EncryptDraws)
  | result (iv : Sized aesGcmIvSize)
  /-- a recipient for an envelope that is there -/
  | share (i : Nat) (pk : PublicKey) (draws : EncryptDraws)

/-- The key that an action is for. -/
def EnvelopeAction.recipient : EnvelopeAction → Option PublicKey
  | .add pk _ => some pk
  | .result _ => none
  | .share _ pk _ => some pk

namespace Envelopes

def init (data : Octets) (symKey : Sized aesGcmKeySize) : Envelopes := ⟨⟨data, symKey, []⟩, []⟩

/-- An exception leaves everything as it is. -/
def step (b : Botan) (s : Envelopes) : EnvelopeAction → Envelopes
  | .add pk draws =>
      match s.enveloper.add b pk draws with
      | .ok e => { s with enveloper := e }
      | .error _ => s
  | .result iv =>
      match s.enveloper.result b iv with
      | .ok c => { s with results := s.results ++ [c] }
      | .error _ => s
  | .share i pk draws =>
      match s.enveloper.encryptKey b pk draws with
      | .ok key => { s with results := s.results.modify i (·.add key) }
      | .error _ => s

def run (b : Botan) (s : Envelopes) (actions : List EnvelopeAction) : Envelopes :=
  actions.foldl (step b) s

end Envelopes

/-! ## Who reads what -/

/-- The ids of the recipients, of the envelopes to come and of those that are there. -/
structure Readers where
  pending : List Octets
  envelopes : List (List Octets)

namespace Readers

/-- `accepts` tells which keys can be encrypted for. -/
def step (accepts : PublicKey → EncryptDraws → Bool) (r : Readers) : EnvelopeAction → Readers
  | .add pk draws =>
      if accepts pk draws then { r with pending := r.pending ++ [pk.id.val] } else r
  | .result _ => { r with envelopes := r.envelopes ++ [r.pending] }
  | .share i pk draws =>
      if accepts pk draws then { r with envelopes := r.envelopes.modify i (· ++ [pk.id.val]) }
      else r

def run (accepts : PublicKey → EncryptDraws → Bool) (r : Readers) (actions : List EnvelopeAction) :
    Readers :=
  actions.foldl (step accepts) r

end Readers

/-- The key of the data can be encrypted for the public key. -/
def accepts (b : Botan) (symKey : Sized aesGcmKeySize) (pk : PublicKey) (draws : EncryptDraws) :
    Bool :=
  (PublicKey.encrypt b pk draws symKey.val).toBool

def EnvelopedContent.readers (c : EnvelopedContent) : List Octets := c.keys.map (·.keyId)

def Envelopes.readers (s : Envelopes) : Readers :=
  ⟨s.enveloper.keys.map (·.keyId), s.results.map EnvelopedContent.readers⟩

section Run

variable {b : Botan} {data : Octets} {symKey : Sized aesGcmKeySize} {P : PublicKey → Prop}

/-- The key of the data, encrypted for one of the public keys of `P`. -/
def SealedFor (b : Botan) (symKey : Sized aesGcmKeySize) (P : PublicKey → Prop)
    (key : EncryptedKey) : Prop :=
  ∃ pk draws, P pk ∧ EncryptedKey.encrypt b pk draws symKey.val = .ok key

omit [Primitives] in
theorem mem_of_mem_modify {α : Type} {f : α → α} {l : List α} {i : Nat} {x : α}
    (h : x ∈ l.modify i f) : x ∈ l ∨ ∃ y ∈ l, f y = x := by
  obtain ⟨j, hj⟩ := List.mem_iff_getElem?.mp h
  rw [List.getElem?_modify] at hj
  obtain ⟨y, hy, hx⟩ := Option.map_eq_some_iff.mp hj
  have hmem := List.mem_of_getElem? hy
  split_ifs at hx
  · exact Or.inr ⟨y, hmem, hx⟩
  · exact Or.inl (hx ▸ hmem)

omit [Primitives] in
theorem map_modify {α β : Type} {f : α → α} {g : β → β} {m : α → β} (hcomm : ∀ x, m (f x) = g (m x))
    (l : List α) (i : Nat) : (l.modify i f).map m = (l.map m).modify i g := by
  refine List.ext_getElem? fun j => ?_
  rw [List.getElem?_map, List.getElem?_modify, List.getElem?_modify, List.getElem?_map]
  cases l[j]? with
  | none => rfl
  | some x =>
      show some (m (if i = j then f x else x)) = some (if i = j then g (m x) else m x)
      split_ifs
      · rw [hcomm]
      · rfl

namespace Envelopes

/-- Everything encrypted is the data, or its key for a recipient. -/
structure Inv (b : Botan) (data : Octets) (symKey : Sized aesGcmKeySize) (P : PublicKey → Prop)
    (s : Envelopes) : Prop where
  sameData : s.enveloper.data = data
  sameKey : s.enveloper.symKey = symKey
  keys : ∀ key ∈ s.enveloper.keys, SealedFor b symKey P key
  results : ∀ c ∈ s.results, (∀ key ∈ c.keys, SealedFor b symKey P key) ∧
    aesGcmPass b.toBotan true symKey.val c.iv data = .ok (c.encrypted, c.tag)

theorem inv_init : Inv b data symKey P (init data symKey) where
  sameData := rfl
  sameKey := rfl
  keys _ h := absurd h List.not_mem_nil
  results _ h := absurd h List.not_mem_nil

/-- What an action needs is refused. -/
def Fails (b : Botan) (s : Envelopes) : EnvelopeAction → Prop
  | .add pk draws => ∃ e, EncryptedKey.encrypt b pk draws s.enveloper.symKey.val = .error e
  | .result iv => ∃ e,
      aesGcmPass b.toBotan true s.enveloper.symKey.val iv.val s.enveloper.data = .error e
  | .share _ pk draws => ∃ e, EncryptedKey.encrypt b pk draws s.enveloper.symKey.val = .error e

/-- Everything that a step can do. -/
theorem step_cases (b : Botan) (s : Envelopes) (a : EnvelopeAction) :
    (s.Fails b a ∧ s.step b a = s) ∨
      (∃ pk draws key, a = .add pk draws ∧
        EncryptedKey.encrypt b pk draws s.enveloper.symKey.val = .ok key ∧
        s.step b a =
          { s with enveloper := { s.enveloper with keys := s.enveloper.keys ++ [key] } }) ∨
      (∃ iv encrypted tag, a = .result iv ∧
        aesGcmPass b.toBotan true s.enveloper.symKey.val iv.val s.enveloper.data =
          .ok (encrypted, tag) ∧
        s.step b a =
          { s with results := s.results ++ [⟨s.enveloper.keys, iv.val, encrypted, tag⟩] }) ∨
      ∃ i pk draws key, a = .share i pk draws ∧
        EncryptedKey.encrypt b pk draws s.enveloper.symKey.val = .ok key ∧
        s.step b a = { s with results := s.results.modify i (·.add key) } := by
  cases a with
  | add pk draws =>
      cases hkey : EncryptedKey.encrypt b pk draws s.enveloper.symKey.val with
      | error e =>
          refine Or.inl ⟨⟨e, hkey⟩, ?_⟩
          simp only [step, Enveloper.add, Enveloper.encryptKey, hkey]
          rfl
      | ok key =>
          refine Or.inr (Or.inl ⟨pk, draws, key, rfl, hkey, ?_⟩)
          simp only [step, Enveloper.add, Enveloper.encryptKey, hkey]
          rfl
  | result iv =>
      cases hpass : aesGcmPass b.toBotan true s.enveloper.symKey.val iv.val s.enveloper.data with
      | error e =>
          refine Or.inl ⟨⟨e, hpass⟩, ?_⟩
          simp only [step, Enveloper.result, hpass]
          rfl
      | ok r =>
          refine Or.inr (Or.inr (Or.inl ⟨iv, r.1, r.2, rfl, hpass, ?_⟩))
          simp only [step, Enveloper.result, hpass]
          rfl
  | share i pk draws =>
      cases hkey : EncryptedKey.encrypt b pk draws s.enveloper.symKey.val with
      | error e =>
          refine Or.inl ⟨⟨e, hkey⟩, ?_⟩
          simp only [step, Enveloper.encryptKey, hkey]
      | ok key =>
          refine Or.inr (Or.inr (Or.inr ⟨i, pk, draws, key, rfl, hkey, ?_⟩))
          simp only [step, Enveloper.encryptKey, hkey]

theorem step_inv {s : Envelopes} (h : Inv b data symKey P s) {a : EnvelopeAction}
    (hP : ∀ pk, a.recipient = some pk → P pk) : Inv b data symKey P (s.step b a) := by
  rcases step_cases b s a with ⟨-, hsame⟩ | ⟨pk, draws, key, rfl, hkey, hstep⟩ |
    ⟨iv, encrypted, tag, rfl, hpass, hstep⟩ | ⟨i, pk, draws, key, rfl, hkey, hstep⟩
  · rw [hsame]
    exact h
  · rw [h.sameKey] at hkey
    rw [hstep]
    refine ⟨h.sameData, h.sameKey, ?_, h.results⟩
    exact List.forall_mem_append.mpr
      ⟨h.keys, List.forall_mem_singleton.mpr ⟨pk, draws, hP pk rfl, hkey⟩⟩
  · rw [h.sameKey, h.sameData] at hpass
    rw [hstep]
    refine ⟨h.sameData, h.sameKey, h.keys, ?_⟩
    exact List.forall_mem_append.mpr ⟨h.results, List.forall_mem_singleton.mpr ⟨h.keys, hpass⟩⟩
  · rw [h.sameKey] at hkey
    rw [hstep]
    refine ⟨h.sameData, h.sameKey, h.keys, fun c hc => ?_⟩
    rcases mem_of_mem_modify hc with hc | ⟨c', hc', rfl⟩
    · exact h.results c hc
    · obtain ⟨hkeys, hpass⟩ := h.results c' hc'
      exact ⟨List.forall_mem_append.mpr
        ⟨hkeys, List.forall_mem_singleton.mpr ⟨pk, draws, hP pk rfl, hkey⟩⟩, hpass⟩

end Envelopes

theorem EncryptedKey.encrypt_eq_ok {pk : PublicKey} {draws : EncryptDraws} {symKey : Octets}
    {key : EncryptedKey} (h : EncryptedKey.encrypt b pk draws symKey = .ok key) :
    PublicKey.encrypt b pk draws symKey = .ok key.data ∧ key.keyId = pk.id.val := by
  unfold EncryptedKey.encrypt at h
  cases hdata : PublicKey.encrypt b pk draws symKey with
  | error e =>
      rw [hdata] at h
      exact nomatch h
  | ok data =>
      rw [hdata] at h
      obtain rfl := Except.ok.inj h
      exact ⟨rfl, rfl⟩

theorem accepts_of_ok {pk : PublicKey} {draws : EncryptDraws} {key : EncryptedKey}
    (h : EncryptedKey.encrypt b pk draws symKey.val = .ok key) :
    accepts b symKey pk draws = true := by
  rw [accepts, (EncryptedKey.encrypt_eq_ok h).1]
  rfl

theorem accepts_of_error {pk : PublicKey} {draws : EncryptDraws} {e : CryptoError}
    (h : EncryptedKey.encrypt b pk draws symKey.val = .error e) :
    ¬ accepts b symKey pk draws = true := by
  unfold EncryptedKey.encrypt at h
  unfold accepts
  cases hdata : PublicKey.encrypt b pk draws symKey.val with
  | error e => exact Bool.false_ne_true
  | ok data =>
      rw [hdata] at h
      exact nomatch h

/-- The encrypted keys of an envelope tell who can read it. -/
theorem Envelopes.readers_step {s : Envelopes} (h : s.Inv b data symKey P)
    (hdata : data.length ≤ aesGcmMaxDataSize) (a : EnvelopeAction) :
    (s.step b a).readers = s.readers.step (accepts b symKey) a := by
  rcases step_cases b s a with ⟨hfails, hsame⟩ | ⟨pk, draws, key, rfl, hkey, hstep⟩ |
    ⟨iv, encrypted, tag, rfl, hpass, hstep⟩ | ⟨i, pk, draws, key, rfl, hkey, hstep⟩
  · rw [hsame]
    cases a with
    | add pk draws =>
        obtain ⟨e, he⟩ := hfails
        rw [h.sameKey] at he
        exact (if_neg (accepts_of_error he)).symm
    | result iv =>
        -- there is room for the data, so that this does not happen
        obtain ⟨e, he⟩ := hfails
        rw [h.sameKey, h.sameData, aesGcmPass_encrypt symKey.property iv.property hdata] at he
        exact nomatch he
    | share i pk draws =>
        obtain ⟨e, he⟩ := hfails
        rw [h.sameKey] at he
        exact (if_neg (accepts_of_error he)).symm
  · rw [h.sameKey] at hkey
    rw [hstep, Readers.step, if_pos (accepts_of_ok hkey), ← (EncryptedKey.encrypt_eq_ok hkey).2]
    unfold readers
    rw [List.map_append]
    rfl
  · rw [hstep]
    unfold readers
    rw [List.map_append]
    rfl
  · rw [h.sameKey] at hkey
    rw [hstep, Readers.step, if_pos (accepts_of_ok hkey), ← (EncryptedKey.encrypt_eq_ok hkey).2]
    unfold readers
    rw [map_modify (g := (· ++ [key.keyId])) fun c => List.map_append]

/-! ## Opening an envelope -/

/-- The recipients of a run. -/
def Recipient (actions : List EnvelopeAction) (pk : PublicKey) : Prop :=
  ∃ a ∈ actions, a.recipient = some pk

namespace Envelopes

theorem run_spec (hdata : data.length ≤ aesGcmMaxDataSize) {s : Envelopes}
    (h : s.Inv b data symKey P) (actions : List EnvelopeAction)
    (hP : ∀ pk, Recipient actions pk → P pk) :
    (s.run b actions).Inv b data symKey P ∧
      (s.run b actions).readers = s.readers.run (accepts b symKey) actions := by
  induction actions generalizing s with
  | nil => exact ⟨h, rfl⟩
  | cons a actions ih =>
    have hstep := step_inv h (a := a) fun pk hpk => hP pk ⟨a, List.mem_cons_self, hpk⟩
    obtain ⟨hinv, hreaders⟩ := ih hstep fun pk ⟨a', ha', hpk⟩ =>
      hP pk ⟨a', List.mem_cons_of_mem a ha', hpk⟩
    refine ⟨hinv, hreaders.trans ?_⟩
    rw [readers_step h hdata]
    rfl

end Envelopes

/-- A key that was encrypted for the same material is decrypted. -/
theorem EncryptedKey.decrypt_sealed {sk : PrivateKeyImpl} (hpaired : sk.Paired b)
    (hapart : ∀ pk, P pk → pk.id.val = sk.id.val → SameMaterial pk.content sk.publicKey.content)
    {key : EncryptedKey} (hkey : SealedFor b symKey P key) (hid : key.keyId = sk.id.val) :
    key.decrypt b sk = .ok symKey.val := by
  obtain ⟨pk, draws, hpk, hencrypt⟩ := hkey
  obtain ⟨hdata, hkeyId⟩ := EncryptedKey.encrypt_eq_ok hencrypt
  have hsame := hapart pk hpk (hkeyId.symm.trans hid)
  unfold EncryptedKey.decrypt
  rw [if_neg (not_not.mpr hid)]
  refine PrivateKeyImpl.decrypt_encrypt hpaired hsame ?_ hdata
  rw [symKey.property]
  decide

/-- An envelope is opened by whom it is for. -/
theorem EnvelopedContent.decrypt_eq {sk : PrivateKeyImpl} (hpaired : sk.Paired b)
    (hapart : ∀ pk, P pk → pk.id.val = sk.id.val → SameMaterial pk.content sk.publicKey.content)
    {c : EnvelopedContent} (hkeys : ∀ key ∈ c.keys, SealedFor b symKey P key)
    (hpass : aesGcmPass b.toBotan true symKey.val c.iv data = .ok (c.encrypted, c.tag)) :
    c.decrypt b sk = if sk.id.val ∈ c.readers then .ok data else .error .wrongKey := by
  unfold EnvelopedContent.decrypt
  cases hfind : c.keys.find? fun key => key.keyId = sk.id.val with
  | none =>
      have hnot : sk.id.val ∉ c.readers := by
        intro hmem
        obtain ⟨key, hkey, hid⟩ := List.mem_map.mp hmem
        exact List.find?_eq_none.mp hfind key hkey (decide_eq_true hid)
      rw [if_neg hnot]
  | some key =>
      have hkey := List.mem_of_find?_eq_some hfind
      have hid : key.keyId = sk.id.val := by simpa using List.find?_some hfind
      have hmem : sk.id.val ∈ c.readers := List.mem_map.mpr ⟨key, hkey, hid⟩
      dsimp only
      rw [if_pos hmem, EncryptedKey.decrypt_sealed hpaired hapart (hkeys key hkey) hid]
      exact aesGcmOpen_eq_ok.mpr hpass

/-- Recipients are added to an enveloper and to its envelopes in any order: every envelope that
there is then is opened, and gives the data, with the private keys of the recipients that
it has, and with no other. -/
theorem Envelopes.opened_by_recipients {s : Suite} {sigSeed : Octets} {kem : KemPrivateKey}
    {sig : Signature} {sk : PrivateKeyImpl} {actions : List EnvelopeAction}
    (hdata : data.length ≤ aesGcmMaxDataSize)
    (hmake : PrivateKeyImpl.make b s sigSeed kem sig = .ok sk)
    (hapart : ∀ pk, Recipient actions pk → pk.id.val = sk.id.val →
      SameMaterial pk.content sk.publicKey.content) :
    ((Envelopes.init data symKey).run b actions).results.map (·.decrypt b sk) =
      ((⟨[], []⟩ : Readers).run (accepts b symKey) actions).envelopes.map fun ids =>
        if sk.id.val ∈ ids then .ok data else .error .wrongKey := by
  obtain ⟨hinv, hreaders⟩ := Envelopes.run_spec hdata Envelopes.inv_init actions fun pk hpk => hpk
  rw [show (⟨[], []⟩ : Readers) = (Envelopes.init data symKey).readers from rfl, ← hreaders]
  unfold Envelopes.readers
  rw [List.map_map]
  refine List.map_congr_left fun c hc => ?_
  obtain ⟨hkeys, hpass⟩ := hinv.results c hc
  exact EnvelopedContent.decrypt_eq (PrivateKeyImpl.paired_of_make hmake) hapart hkeys hpass

end Run

end Envelopes

section

attribute [local instance] OneLink.primitives

open ConstantKeys
open LargePayload (zeros)

/-- The only recipient opens the envelope. -/
theorem Envelopes.opened_by_recipients_one : ∃ sk,
    PrivateKeyImpl.make botan .pq1 (zeros 32).val kem OneLink.sig = .ok sk ∧
      ((Envelopes.init [1, 2, 3] (zeros _)).run botan
        [.add sk.publicKey draws, .result (zeros _)]).results.map (·.decrypt botan sk) =
          [.ok [1, 2, 3]] := by
  obtain ⟨sk, hmake, hvalid⟩ := make_succeeds
  have hreturns : ∃ cipher, PublicKey.encrypt botan sk.publicKey draws (zeros aesGcmKeySize).val =
      .ok cipher :=
    PrivateKeyImpl.encrypt_returns hvalid (encapsulates hvalid _ _) (by decide)
  obtain ⟨cipher, hcipher⟩ := hreturns
  have haccepts : accepts botan (zeros _) sk.publicKey draws = true := by
    rw [accepts, hcipher]
    rfl
  refine ⟨sk, hmake, (Envelopes.opened_by_recipients (by decide) hmake ?_).trans ?_⟩
  · rintro pk ⟨a, ha, hpk⟩ -
    rcases List.mem_pair.mp ha with rfl | rfl
    · obtain rfl := Option.some.inj hpk
      exact ⟨rfl, rfl, rfl, rfl⟩
    · exact nomatch hpk
  · show List.map _ (Readers.run _ (Readers.step _ _ _) _).envelopes = _
    rw [Readers.step, if_pos haccepts]
    exact congrArg (fun r => [r]) (if_pos (List.mem_singleton.mpr rfl))

end

end Securepath.PacketTransport
