import Securepath.Library.Keystream
import Securepath.Library.Positional
import Securepath.Library.StateExcept
import Securepath.Serialisation.Types

/-!
# AES-GCM as a stream

`gcm_stream_cipher` (`crypto/aes_gcm.cpp`) hands out what passes at once, from the
CTR cipher of Botan, and keeps a copy of the plain text to make the tag from, at
the end and with the GCM of Botan. `single_message_gcm` is done with the first
tag; `implicit_counter_gcm` goes on with the next nonce.
-/

namespace Securepath.Crypto.Gcm

open Serialisation (Octets)
open Keystream (Memory)
open StateExcept EStateM

/-- What is thrown. -/
inductive GcmError where
  | invalidKeySize
  | invalidIvSize
  /-- "aes gcm: message too long for one nonce" -/
  | constraintViolation
  /-- "aes gcm: tag size must be 1..16" -/
  | invalidArgument
  /-- "aes gcm: cipher already finished with tag()" -/
  | invalidState
  /-- "aes gcm: seek is only available with the implicit counter variant" -/
  | notSupported
deriving DecidableEq, Repr

/-- `gcm_block_tag_size`. -/
def gcmBlockTagSize : Nat := 16

/-- `aes_gcm_key_size`. -/
def aesGcmKeySize : Nat := 32

/-- `aes_gcm_iv_size`. -/
def aesGcmIvSize : Nat := 12

/-- `aes_gcm_implicit_counter_iv_size`. -/
def aesGcmImplicitCounterIvSize : Nat := 4

/-- `aes_gcm_max_data_size`. -/
def aesGcmMaxDataSize : Nat := (2 ^ 39 - 256) / 8

/-- GCM's first data counter block for a nonce of 96 bits. -/
def firstDataBlock (nonce : Octets) : Octets := nonce ++ [0, 0, 0, 2]

/-- The ciphers of Botan. -/
structure Botan where
  /-- "CTR-BE(AES-256,4)", from a key and an iv: the octets of its keystream -/
  keystream : Octets → Octets → Nat → UInt8
  /-- "AES-256/GCM", from a key, a nonce, associated data and a text: what `finish`
  leaves in the buffer -/
  gcm : Octets → Octets → Octets → Octets → Octets
  /-- GCM encrypts in counter mode and appends its tag -/
  gcm_eq : ∀ key nonce aad plain : Octets, key.length = aesGcmKeySize →
    nonce.length = aesGcmIvSize → plain.length ≤ aesGcmMaxDataSize →
    ∃ tag : Octets, tag.length = gcmBlockTagSize ∧
      gcm key nonce aad plain =
        Keystream.apply (keystream key (firstDataBlock nonce)) 0 plain ++ tag

/-- The two subclasses, with what they add. -/
inductive Variant where
  | singleMessage
  | implicitCounter (iv : Octets) (counter : UInt64)
deriving DecidableEq

/-- `gcm_stream_cipher`; `ctrIv` and `ctrPosition` are the state of `ctr_`. -/
structure GcmStreamCipher where
  key : Octets
  encrypt : Bool
  finished : Bool
  ctrIv : Octets
  ctrPosition : Nat
  nonce : Octets
  aad : Octets
  plain : Octets
  variant : Variant
deriving DecidableEq

/-- A member function: it returns or throws, and leaves the object behind. -/
abbrev Member := EStateM GcmError GcmStreamCipher

/-- An address of a buffer. -/
abbrev Address := Nat

/-! ## `gcm_stream_cipher` -/

/-- `check_usable`. -/
def checkUsable : Member Unit := do
  if (← get).finished then throw .invalidState

/-- `start`. -/
def start (nonce : Octets) : Member Unit := do
  if nonce.length ≠ aesGcmIvSize then throw .invalidIvSize
  modify fun s => { s with
    nonce := nonce
    ctrIv := firstDataBlock nonce
    ctrPosition := 0
    aad := []
    plain := [] }

/-- `finish`. -/
def finish : Member Unit := modify fun s => { s with finished := true, aad := [], plain := [] }

/-- `to_endian` of a counter. -/
def toEndian (v : UInt64) : Octets := (Positional.digits 256 8 v.toNat).map UInt8.ofNat

/-- `next_nonce`. -/
def nextNonce (iv : Octets) (counter : UInt64) : Member Octets := do
  modify fun s => { s with variant := .implicitCounter iv (counter + 1) }
  return iv ++ toEndian counter

/-- `after_tag`. -/
def afterTag : Member Unit := do
  match (← get).variant with
  | .singleMessage => finish
  | .implicitCounter iv counter =>
      let nonce ← nextNonce iv counter
      start nonce

variable (b : Botan)

/-- `process`, from a buffer to a buffer: what is then in the memory. -/
def process (memory : Memory) (start out : Address) (size : Nat) : Member Memory := do
  checkUsable
  let s ← get
  if size > aesGcmMaxDataSize - s.plain.length then throw .constraintViolation
  let memory := memory.write out
    (Keystream.apply (b.keystream s.key s.ctrIv) s.ctrPosition (memory.read start size))
  modify fun s => { s with ctrPosition := s.ctrPosition + size }
  -- the text is copied behind the cipher, which may have been at work in place
  let plain := if s.encrypt then start else out
  modify fun s => { s with plain := s.plain ++ memory.read plain size }
  return memory

/-- `process_auth`. -/
def processAuth (data : Octets) : Member Unit := do
  checkUsable
  modify fun s => { s with aad := s.aad ++ data }

/-- `tag`. -/
def tag (tagSize : Nat) : Member Octets := do
  checkUsable
  if tagSize = 0 ∨ tagSize > gcmBlockTagSize then throw .invalidArgument
  let s ← get
  let buf := b.gcm s.key s.nonce s.aad s.plain
  let out := (buf.drop (buf.length - gcmBlockTagSize)).take tagSize
  afterTag
  return out

/-- `seek`. -/
def seek (counter : UInt64) : Member Unit := do
  match (← get).variant with
  | .singleMessage => throw .notSupported
  | .implicitCounter iv _ =>
      modify fun s => { s with variant := .implicitCounter iv counter }
      let nonce ← nextNonce iv counter
      start nonce

/-! ## Constructors -/

/-- The constructor of the base class, with the members of the subclass. -/
def construct (key : Octets) (encrypt : Bool) (variant : Variant) :
    Except GcmError GcmStreamCipher :=
  if key.length ≠ aesGcmKeySize then .error .invalidKeySize
  else .ok ⟨key, encrypt, false, [], 0, [], [], [], variant⟩

/-- A member function in the body of a constructor. -/
def andThen (m : Member Unit) (s : GcmStreamCipher) : Except GcmError GcmStreamCipher :=
  match m s with
  | .ok _ s => .ok s
  | .error e _ => .error e

/-- `single_message_gcm`. -/
def singleMessageGcm (key nonce : Octets) (encrypt : Bool) : Except GcmError GcmStreamCipher := do
  let s ← construct key encrypt .singleMessage
  andThen (start nonce) s

/-- `implicit_counter_gcm`. -/
def implicitCounterGcm (key iv : Octets) (counter : UInt64) (encrypt : Bool) :
    Except GcmError GcmStreamCipher := do
  let s ← construct key encrypt (.implicitCounter iv counter)
  if iv.length ≠ aesGcmImplicitCounterIvSize then throw .invalidIvSize
  andThen (nextNonce iv counter >>= start) s

/-! ## What the members do -/

variable {s : GcmStreamCipher} {b}

theorem checkUsable_of_finished (h : s.finished = true) : checkUsable s = .error .invalidState s := by
  show (if s.finished = true then throw _ else pure () : Member Unit) s = _
  rw [if_pos h]
  rfl

theorem checkUsable_of_usable (h : s.finished = false) : checkUsable s = .ok () s := by
  show (if s.finished = true then throw _ else pure () : Member Unit) s = _
  rw [if_neg (by rw [h]; exact Bool.false_ne_true)]
  rfl

/-- The cipher at the first octet of a message. -/
def GcmStreamCipher.started (s : GcmStreamCipher) (nonce : Octets) : GcmStreamCipher :=
  { s with nonce := nonce, ctrIv := firstDataBlock nonce, ctrPosition := 0, aad := [], plain := [] }

theorem start_eq_ok {nonce : Octets} (h : nonce.length = aesGcmIvSize) :
    start nonce s = .ok () (s.started nonce) := by
  unfold start
  rw [if_neg (not_not.mpr h)]
  rfl

@[simp] theorem length_toEndian (v : UInt64) : (toEndian v).length = 8 := by
  rw [toEndian, List.length_map, Positional.digits_length]

/-- The octets of a text that `process` keeps a copy of. -/
def copied (ks : Nat → UInt8) (encrypt : Bool) (position : Nat) (memory : Memory)
    (start out : Address) (size : Nat) : Octets :=
  (memory.write out (Keystream.apply ks position (memory.read start size))).read
    (if encrypt then start else out) size

/-- Everything that `process` can do. -/
theorem process_eq (b : Botan) (s : GcmStreamCipher) (memory : Memory) (start out : Address)
    (size : Nat) :
    process b memory start out size s =
      if s.finished = true then .error .invalidState s
      else if size > aesGcmMaxDataSize - s.plain.length then .error .constraintViolation s
      else .ok
        (memory.write out
          (Keystream.apply (b.keystream s.key s.ctrIv) s.ctrPosition (memory.read start size)))
        { s with
          ctrPosition := s.ctrPosition + size
          plain := s.plain ++
            copied (b.keystream s.key s.ctrIv) s.encrypt s.ctrPosition memory start out size } := by
  unfold process
  by_cases hfinished : s.finished = true
  · rw [if_pos hfinished, bind_of_error (checkUsable_of_finished hfinished)]
  rw [if_neg hfinished, bind_of_ok (checkUsable_of_usable (Bool.eq_false_iff.mpr hfinished))]
  rw [bind_of_ok (show (get : Member _) s = .ok s s from rfl)]
  dsimp only
  by_cases hsize : size > aesGcmMaxDataSize - s.plain.length
  · rw [if_pos hsize, if_pos hsize]
    rfl
  · rw [if_neg hsize, if_neg hsize]
    rfl

theorem processAuth_eq (s : GcmStreamCipher) (data : Octets) :
    processAuth data s =
      if s.finished = true then .error .invalidState s
      else .ok () { s with aad := s.aad ++ data } := by
  unfold processAuth
  by_cases hfinished : s.finished = true
  · rw [if_pos hfinished, bind_of_error (checkUsable_of_finished hfinished)]
  · rw [if_neg hfinished, bind_of_ok (checkUsable_of_usable (Bool.eq_false_iff.mpr hfinished))]
    rfl

/-- The octets of a tag. -/
def tagOf (b : Botan) (s : GcmStreamCipher) (tagSize : Nat) : Octets :=
  let buf := b.gcm s.key s.nonce s.aad s.plain
  (buf.drop (buf.length - gcmBlockTagSize)).take tagSize

/-- Everything that `tag` can do. -/
theorem tag_eq (b : Botan) (s : GcmStreamCipher) (tagSize : Nat) :
    tag b tagSize s =
      if s.finished = true then .error .invalidState s
      else if tagSize = 0 ∨ tagSize > gcmBlockTagSize then .error .invalidArgument s
      else (afterTag >>= fun _ => pure (tagOf b s tagSize)) s := by
  unfold tag
  by_cases hfinished : s.finished = true
  · rw [if_pos hfinished, bind_of_error (checkUsable_of_finished hfinished)]
  rw [if_neg hfinished, bind_of_ok (checkUsable_of_usable (Bool.eq_false_iff.mpr hfinished))]
  dsimp only
  by_cases hsize : tagSize = 0 ∨ tagSize > gcmBlockTagSize
  · rw [if_pos hsize, if_pos hsize]
    rfl
  · rw [if_neg hsize, if_neg hsize]
    rfl

theorem tag_of_usable {tagSize : Nat} (husable : s.finished = false) (htag : 0 < tagSize)
    (htag' : tagSize ≤ gcmBlockTagSize) :
    tag b tagSize s = (afterTag >>= fun _ => pure (tagOf b s tagSize)) s := by
  rw [tag_eq, if_neg (by rw [husable]; exact Bool.false_ne_true), if_neg (by omega)]

theorem afterTag_singleMessage (h : s.variant = .singleMessage) :
    afterTag s = .ok () { s with finished := true, aad := [], plain := [] } := by
  cases s
  dsimp only at h
  subst h
  rfl

theorem afterTag_implicitCounter {iv : Octets} {counter : UInt64}
    (h : s.variant = .implicitCounter iv counter)
    (hiv : iv.length = aesGcmImplicitCounterIvSize) :
    afterTag s = .ok () ({ s with
      variant := .implicitCounter iv (counter + 1) }.started (iv ++ toEndian counter)) := by
  cases s
  dsimp only at h
  subst h
  apply start_eq_ok (s := ⟨_, _, _, _, _, _, _, _, .implicitCounter iv (counter + 1)⟩)
  rw [List.length_append, length_toEndian, hiv]
  rfl

end Securepath.Crypto.Gcm
