import Securepath.Crypto.AesGcm

/-!
# Streaming against one shot

What passes through the cipher in pieces comes out as it does in one piece. The
tag is made from the copy of the plain text, and the encryptor takes the copy from
the buffer that the text came in: behind an encryption in place that buffer holds
the cipher text.
-/

namespace Securepath.Crypto.Gcm

open Serialisation (Octets)
open Keystream (Memory)
open StateExcept EStateM

/-! ## Feeding a message -/

/-- A call with a piece of a message. -/
inductive Feed where
  | processAuth (data : Octets)
  | process (memory : Memory) (start out : Address) (size : Nat)

namespace Feed

/-- The associated data of a call. -/
def authData : Feed → Octets
  | processAuth data => data
  | process _ _ _ _ => []

/-- The text that a call passes in. -/
def text : Feed → Octets
  | processAuth _ => []
  | process memory start _ size => memory.read start size

/-- The buffers are the same or apart, as the interface has it. -/
def Placed : Feed → Prop
  | processAuth _ => True
  | process _ start out size => out = start ∨ Memory.Apart start out size

/-- Octets are processed in place. -/
def InPlace : Feed → Prop
  | processAuth _ => False
  | process _ start out size => out = start ∧ 0 < size

/-- What the call keeps a copy of. -/
def copied (ks : Nat → UInt8) (encrypt : Bool) (position : Nat) : Feed → Octets
  | processAuth _ => []
  | process memory start out size => Gcm.copied ks encrypt position memory start out size

/-- The call, with what is then in the buffer for its output. -/
def run (b : Botan) : Feed → Member Octets
  | processAuth data => do
      Gcm.processAuth data
      return []
  | process memory start out size => do
      let memory ← Gcm.process b memory start out size
      return memory.read out size

end Feed

/-- The calls of a message, with what they give. -/
def feedAll (b : Botan) : List Feed → Member Octets
  | [] => pure []
  | f :: fs => do
      let out ← f.run b
      let outs ← feedAll b fs
      return out ++ outs

/-- The calls of a message and its tag. -/
def streamed (b : Botan) (fs : List Feed) (tagSize : Nat) : Member (Octets × Octets) := do
  let out ← feedAll b fs
  let t ← tag b tagSize
  return (out, t)

/-- The message that is passed in. -/
def message (fs : List Feed) : Octets := fs.flatMap Feed.text

/-- Its associated data. -/
def associated (fs : List Feed) : Octets := fs.flatMap Feed.authData

/-- The copy of the message. -/
def copy (ks : Nat → UInt8) (encrypt : Bool) (position : Nat) : List Feed → Octets
  | [] => []
  | f :: fs => f.copied ks encrypt position ++ copy ks encrypt (position + f.text.length) fs

/-- The cipher behind calls. -/
def GcmStreamCipher.fed (s : GcmStreamCipher) (authData plain : Octets) (size : Nat) :
    GcmStreamCipher :=
  { s with
    aad := s.aad ++ authData
    plain := s.plain ++ plain
    ctrPosition := s.ctrPosition + size }

/-- The keystream of the message. -/
def GcmStreamCipher.stream (b : Botan) (s : GcmStreamCipher) : Nat → UInt8 :=
  b.keystream s.key s.ctrIv

variable {b : Botan} {s : GcmStreamCipher} {ks : Nat → UInt8} {encrypt : Bool}

theorem length_copied (memory : Memory) (start out : Address) (size position : Nat) :
    (copied ks encrypt position memory start out size).length = size :=
  Memory.length_read _

theorem Feed.length_copied (f : Feed) (position : Nat) :
    (f.copied ks encrypt position).length = f.text.length := by
  cases f with
  | processAuth data => rfl
  | process memory start out size =>
    show (Gcm.copied _ _ _ _ _ _ _).length = (memory.read start size).length
    rw [Gcm.length_copied, Memory.length_read]

/-- A call with room for its text. -/
theorem Feed.run_eq (f : Feed) (husable : s.finished = false)
    (hroom : s.plain.length + f.text.length ≤ aesGcmMaxDataSize) :
    f.run b s = .ok (Keystream.apply (s.stream b) s.ctrPosition f.text)
      (s.fed f.authData (f.copied (s.stream b) s.encrypt s.ctrPosition) f.text.length) := by
  have hfinished : ¬ s.finished = true := by
    rw [husable]
    exact Bool.false_ne_true
  cases f with
  | processAuth data =>
    have hstep := processAuth_eq s data
    rw [if_neg hfinished] at hstep
    show (Gcm.processAuth data >>= fun _ => pure []) s = _
    rw [bind_of_ok hstep]
    unfold GcmStreamCipher.fed
    show Result.ok _ _ = Result.ok _ _
    rw [show copied (s.stream b) s.encrypt s.ctrPosition (.processAuth data) = [] from rfl,
      List.append_nil]
    rfl
  | process memory start out size =>
    have hsize : (memory.read start size).length = size := Memory.length_read _
    have hroom : ¬ size > aesGcmMaxDataSize - s.plain.length := by
      rw [show text (.process memory start out size) = memory.read start size from rfl, hsize]
        at hroom
      omega
    have hstep := process_eq b s memory start out size
    rw [if_neg hfinished, if_neg hroom] at hstep
    show (Gcm.process b memory start out size >>= fun m => pure (m.read out size)) s = _
    rw [bind_of_ok hstep]
    have hread := memory.read_write_same out
      (Keystream.apply (s.stream b) s.ctrPosition (memory.read start size))
    rw [Keystream.length_apply, hsize] at hread
    unfold GcmStreamCipher.fed
    show Result.ok (Memory.read _ out size) _ = Result.ok _ _
    rw [show text (.process memory start out size) = memory.read start size from rfl, hsize,
      show authData (.process memory start out size) = [] from rfl, List.append_nil]
    congr 1

@[simp] theorem GcmStreamCipher.stream_fed (authData plain : Octets) (size : Nat) :
    (s.fed authData plain size).stream b = s.stream b := rfl

/-- Calls with room for the message: its pieces come out as the whole does. -/
theorem feedAll_eq (fs : List Feed) (husable : s.finished = false)
    (hroom : s.plain.length + (message fs).length ≤ aesGcmMaxDataSize) :
    feedAll b fs s = .ok (Keystream.apply (s.stream b) s.ctrPosition (message fs))
      (s.fed (associated fs) (copy (s.stream b) s.encrypt s.ctrPosition fs)
        (message fs).length) := by
  induction fs generalizing s with
  | nil =>
    show Result.ok [] s = Result.ok [] _
    unfold GcmStreamCipher.fed associated copy message
    rw [List.flatMap_nil, List.flatMap_nil, List.append_nil, List.append_nil]
    rfl
  | cons f fs ih =>
    have hmessage : message (f :: fs) = f.text ++ message fs := List.flatMap_cons
    have hassociated : associated (f :: fs) = f.authData ++ associated fs := List.flatMap_cons
    rw [hmessage, List.length_append] at hroom
    have hrun := f.run_eq (b := b) husable (by omega)
    have hrest := ih (s := s.fed f.authData (f.copied (s.stream b) s.encrypt s.ctrPosition)
      f.text.length) husable (by
        show (s.plain ++ _).length + _ ≤ _
        rw [List.length_append, Feed.length_copied]
        omega)
    show (f.run b >>= fun out => feedAll b fs >>= fun outs => pure (out ++ outs)) s = _
    rw [bind_of_ok hrun, bind_of_ok hrest, hmessage, hassociated]
    show Result.ok (_ ++ _) _ = Result.ok _ _
    rw [Keystream.apply_append, List.length_append]
    unfold GcmStreamCipher.fed
    simp only [copy, List.append_assoc, Nat.add_assoc]
    rfl

/-! ## The copy -/

/-- The text as it comes out. -/
theorem copied_out {memory : Memory} {start out position : Nat} {size : Nat} :
    (memory.write out (Keystream.apply ks position (memory.read start size))).read out size =
      Keystream.apply ks position (memory.read start size) := by
  have hread := memory.read_write_same out (Keystream.apply ks position (memory.read start size))
  rwa [Keystream.length_apply, Memory.length_read] at hread

/-- The decryptor copies what comes out. -/
theorem Feed.copied_decrypt (f : Feed) (position : Nat) :
    f.copied ks false position = Keystream.apply ks position f.text := by
  cases f with
  | processAuth data => rfl
  | process memory start out size => exact copied_out

/-- The encryptor copies what comes in, unless that is gone by then. -/
theorem Feed.copied_encrypt (ks : Nat → UInt8) {f : Feed} (hplaced : f.Placed) (position : Nat) :
    (¬ f.InPlace ∧ f.copied ks true position = f.text) ∨
      (f.InPlace ∧ f.copied ks true position = Keystream.apply ks position f.text) := by
  cases f with
  | processAuth data => exact Or.inl ⟨id, rfl⟩
  | process memory start out size =>
    rcases hplaced with rfl | hapart
    · rcases Nat.eq_zero_or_pos size with rfl | hsize
      · exact Or.inl ⟨fun h => Nat.lt_irrefl 0 h.2, rfl⟩
      · exact Or.inr ⟨⟨rfl, hsize⟩, copied_out⟩
    · rcases Nat.eq_zero_or_pos size with rfl | hsize
      · exact Or.inl ⟨fun h => Nat.lt_irrefl 0 h.2, rfl⟩
      · left
        refine ⟨?_, ?_⟩
        · rintro ⟨rfl, -⟩
          unfold Memory.Apart at hapart
          omega
        · have hwritten : (Keystream.apply ks position (memory.read start size)).length = size := by
            rw [Keystream.length_apply, Memory.length_read]
          have hread := memory.read_write_apart (Keystream.apply ks position
            (memory.read start size)) (hwritten.symm ▸ hapart)
          rwa [hwritten] at hread

theorem copy_decrypt (fs : List Feed) (position : Nat) :
    copy ks false position fs = Keystream.apply ks position (message fs) := by
  induction fs generalizing position with
  | nil => rfl
  | cons f fs ih =>
    unfold copy message
    rw [List.flatMap_cons, Keystream.apply_append, f.copied_decrypt, ih]
    rfl

theorem copy_encrypt {fs : List Feed} (hplaced : ∀ f ∈ fs, f.Placed)
    (happart : ∀ f ∈ fs, ¬ f.InPlace) (position : Nat) :
    copy ks true position fs = message fs := by
  induction fs generalizing position with
  | nil => rfl
  | cons f fs ih =>
    obtain ⟨hf, hfs⟩ := List.forall_mem_cons.mp hplaced
    obtain ⟨hf', hfs'⟩ := List.forall_mem_cons.mp happart
    have hcopied := ((Feed.copied_encrypt ks hf position).resolve_right
      (fun h => hf' h.1)).2
    unfold copy message
    rw [List.flatMap_cons, hcopied, ih hfs hfs']
    rfl

theorem Feed.text_ne_nil {f : Feed} (h : f.InPlace) : f.text ≠ [] := by
  cases f with
  | processAuth data => exact h.elim
  | process memory start out size =>
    intro hnil
    have hsize : (memory.read start size).length = size := Memory.length_read _
    have hpos : 0 < size := h.2
    rw [show memory.read start size = [] from hnil] at hsize
    exact absurd hsize (by simp; omega)

/-- A keystream without a zero shows whether octets were encrypted in place. -/
theorem copy_ne {fs : List Feed} (hks : ∀ i, ks i ≠ 0) (hplaced : ∀ f ∈ fs, f.Placed)
    {f : Feed} (hf : f ∈ fs) (hin : f.InPlace) (position : Nat) :
    copy ks true position fs ≠ message fs := by
  induction fs generalizing position with
  | nil => exact absurd hf List.not_mem_nil
  | cons g fs ih =>
    obtain ⟨hg, hfs⟩ := List.forall_mem_cons.mp hplaced
    have hmessage : message (g :: fs) = g.text ++ message fs := List.flatMap_cons
    intro heq
    rw [hmessage] at heq
    obtain ⟨hhead, htail⟩ := List.append_inj heq (g.length_copied position)
    rcases List.mem_cons.mp hf with rfl | hf
    · have hcopied := ((Feed.copied_encrypt ks hg position).resolve_left
        (fun h => h.1 hin)).2
      rw [hcopied] at hhead
      exact Keystream.apply_ne hks (Feed.text_ne_nil hin) hhead
    · exact ih hfs hf _ htail

/-! ## One shot -/

/-- GCM over the whole message: the cipher text and the tag. -/
def oneShot (b : Botan) (key nonce aad plain : Octets) : Octets × Octets :=
  let buf := b.gcm key nonce aad plain
  (buf.take (buf.length - gcmBlockTagSize), buf.drop (buf.length - gcmBlockTagSize))

theorem oneShot_eq {key nonce plain : Octets} (hkey : key.length = aesGcmKeySize)
    (hnonce : nonce.length = aesGcmIvSize) (hplain : plain.length ≤ aesGcmMaxDataSize)
    (aad : Octets) : (oneShot b key nonce aad plain).1 =
      Keystream.apply (b.keystream key (firstDataBlock nonce)) 0 plain := by
  obtain ⟨t, ht, heq⟩ := b.gcm_eq key nonce aad plain hkey hnonce hplain
  unfold oneShot
  dsimp only
  rw [heq, List.length_append, ht, Nat.add_sub_cancel]
  exact List.take_left

/-- The cipher behind its constructor. -/
def single (key nonce : Octets) (encrypt : Bool) : GcmStreamCipher :=
  ⟨key, encrypt, false, firstDataBlock nonce, 0, nonce, [], [], .singleMessage⟩

theorem singleMessageGcm_eq {key nonce : Octets} (hkey : key.length = aesGcmKeySize)
    (hnonce : nonce.length = aesGcmIvSize) (encrypt : Bool) :
    singleMessageGcm key nonce encrypt = .ok (single key nonce encrypt) := by
  have hconstruct : construct key encrypt .singleMessage =
      .ok ⟨key, encrypt, false, [], 0, [], [], [], .singleMessage⟩ := if_neg (not_not.mpr hkey)
  unfold singleMessageGcm
  rw [hconstruct]
  show andThen (start nonce) _ = _
  unfold andThen
  rw [start_eq_ok hnonce]
  rfl

/-- Calls with the octets of a message: what comes out, and the tag of the copy. -/
theorem streamed_eq (b : Botan) (key nonce : Octets) (encrypt : Bool) {fs : List Feed}
    {tagSize : Nat}     (hmessage : (message fs).length ≤ aesGcmMaxDataSize) (htag : 0 < tagSize)
    (htag' : tagSize ≤ gcmBlockTagSize) :
    ∃ s', streamed b fs tagSize (single key nonce encrypt) = .ok
      (Keystream.apply (b.keystream key (firstDataBlock nonce)) 0 (message fs),
        (oneShot b key nonce (associated fs)
          (copy (b.keystream key (firstDataBlock nonce)) encrypt 0 fs)).2.take tagSize) s' := by
  have hroom : (single key nonce encrypt).plain.length + (message fs).length ≤
      aesGcmMaxDataSize := by
    show 0 + (message fs).length ≤ aesGcmMaxDataSize
    rw [Nat.zero_add]
    exact hmessage
  have hfed := feedAll_eq (b := b) (s := single key nonce encrypt) fs rfl hroom
  have htagged := tag_of_usable (b := b) (s := (single key nonce encrypt).fed (associated fs)
    (copy ((single key nonce encrypt).stream b) encrypt 0 fs) (message fs).length) rfl htag htag'
  rw [bind_of_ok (afterTag_singleMessage rfl)] at htagged
  unfold streamed
  rw [bind_of_ok hfed]
  exact ⟨_, bind_of_ok htagged⟩

/-- The encryptor gives what one shot of GCM gives, and the decryptor, fed with it,
gives the message and the same tag. -/
def StreamsAsOneShot (b : Botan) (key nonce : Octets) (fs : List Feed) (tagSize : Nat) : Prop :=
  let whole := oneShot b key nonce (associated fs) (message fs)
  (∃ s s', singleMessageGcm key nonce true = .ok s ∧
    streamed b fs tagSize s = .ok (whole.1, whole.2.take tagSize) s') ∧
  ∀ gs : List Feed, (∀ g ∈ gs, g.Placed) → message gs = whole.1 → associated gs = associated fs →
    ∃ s s', singleMessageGcm key nonce false = .ok s ∧
      streamed b gs tagSize s = .ok (message fs, whole.2.take tagSize) s'

/-- The decryptor, in place or not. -/
theorem decryptor_streams {key nonce : Octets} {fs gs : List Feed} {tagSize : Nat}
    (hkey : key.length = aesGcmKeySize) (hnonce : nonce.length = aesGcmIvSize)
    (hmessage : (message fs).length ≤ aesGcmMaxDataSize) (htag : 0 < tagSize)
    (htag' : tagSize ≤ gcmBlockTagSize)
    (hfed : message gs = (oneShot b key nonce (associated fs) (message fs)).1)
    (haad : associated gs = associated fs) :
    ∃ s s', singleMessageGcm key nonce false = .ok s ∧
      streamed b gs tagSize s = .ok (message fs,
        (oneShot b key nonce (associated fs) (message fs)).2.take tagSize) s' := by
  rw [oneShot_eq hkey hnonce hmessage] at hfed
  have hlength : (message gs).length ≤ aesGcmMaxDataSize := by
    rw [hfed, Keystream.length_apply]
    exact hmessage
  obtain ⟨s', hs'⟩ := streamed_eq b key nonce false hlength htag htag'
  rw [copy_decrypt, hfed, Keystream.apply_apply, haad] at hs'
  exact ⟨_, s', singleMessageGcm_eq hkey hnonce false, hs'⟩

/-- A key and a nonce. -/
def zeroKey : Octets := List.replicate 32 0

def zeroNonce : Octets := List.replicate 12 0

theorem length_zeroKey : zeroKey.length = aesGcmKeySize := rfl

theorem length_zeroNonce : zeroNonce.length = aesGcmIvSize := rfl

/-- A GCM whose tag tells one message from all others. -/
def telling (m : Octets) : Botan where
  keystream _ _ _ := 1
  gcm _ _ _ plain := Keystream.apply (fun _ => 1) 0 plain ++
    List.replicate 16 (if plain = m then 0 else 1)
  gcm_eq _ _ _ _ _ _ _ := ⟨_, List.length_replicate, rfl⟩

theorem oneShot_telling (m key nonce aad plain : Octets) :
    (oneShot (telling m) key nonce aad plain).2 =
      List.replicate 16 (if plain = m then 0 else 1) := by
  unfold oneShot telling
  dsimp only
  rw [List.length_append, List.length_replicate, show gcmBlockTagSize = 16 from rfl,
    Nat.add_sub_cancel]
  exact List.drop_left

/-- Streaming is one shot, whatever the ciphers compute, unless octets are encrypted
in place. -/
theorem streamed_as_one_shot_iff (fs : List Feed) (tagSize : Nat) (hplaced : ∀ f ∈ fs, f.Placed)
    (hmessage : (message fs).length ≤ aesGcmMaxDataSize) (htag : 0 < tagSize)
    (htag' : tagSize ≤ gcmBlockTagSize) :
    (∀ (b : Botan) (key nonce : Octets), key.length = aesGcmKeySize →
      nonce.length = aesGcmIvSize → StreamsAsOneShot b key nonce fs tagSize) ↔
    ∀ f ∈ fs, ¬ f.InPlace := by
  constructor
  · intro h f hf hin
    -- the tag of the copy is not that of the message
    obtain ⟨⟨s, s', hconstructed, hstreamed⟩, -⟩ := h (telling (message fs)) zeroKey zeroNonce
      length_zeroKey length_zeroNonce
    rw [singleMessageGcm_eq length_zeroKey length_zeroNonce] at hconstructed
    obtain rfl := Except.ok.inj hconstructed
    obtain ⟨s'', hcopy⟩ := streamed_eq (telling (message fs)) zeroKey zeroNonce true hmessage htag htag'
    rw [hstreamed] at hcopy
    have htags := congrArg Prod.snd (Result.ok.inj hcopy).1
    have hne : copy ((telling (message fs)).keystream zeroKey (firstDataBlock zeroNonce)) true 0 fs ≠
        message fs := copy_ne (fun i => by show (1 : UInt8) ≠ 0; decide) hplaced hf hin 0
    dsimp only at htags
    rw [oneShot_telling, oneShot_telling, if_pos rfl, if_neg hne] at htags
    obtain ⟨n, rfl⟩ : ∃ n, tagSize = n + 1 := ⟨tagSize - 1, by omega⟩
    exact absurd (List.cons.inj htags).1 (by decide)
  · intro h b key nonce hkey hnonce
    refine ⟨?_, fun gs _ hfed haad =>
      decryptor_streams hkey hnonce hmessage htag htag' hfed haad⟩
    -- where no call is in place, the copy is the message
    obtain ⟨s', hs'⟩ := streamed_eq b key nonce true hmessage htag htag'
    rw [copy_encrypt hplaced h, ← oneShot_eq hkey hnonce hmessage (associated fs)] at hs'
    exact ⟨_, s', singleMessageGcm_eq hkey hnonce true, hs'⟩

/-! ## Known answers -/

namespace InPlace

/-- Sixteen zero octets, and what they are encrypted to with zeros for key and nonce. -/
def zeros : Octets := List.replicate 16 0

def encrypted : Octets :=
  [0xce, 0xa7, 0x40, 0x3d, 0x4d, 0x60, 0x6b, 0x6e, 0x07, 0x4e, 0xc5, 0xd3, 0xba, 0xf3, 0x9d, 0x18]

/-- The tags of the two. -/
def tagOfZeros : Octets :=
  [0xd0, 0xd1, 0xc8, 0xa7, 0x99, 0x99, 0x6b, 0xf0, 0x26, 0x5b, 0x98, 0xb5, 0xd4, 0x8a, 0xb9, 0x19]

def tagOfEncrypted : Octets :=
  [0xa8, 0x74, 0x50, 0xd1, 0x73, 0x2b, 0x0a, 0xba, 0x4d, 0x29, 0x6b, 0x27, 0x86, 0xfb, 0xd7, 0x19]

/-- AES-GCM on the two messages with zeros for key and nonce. -/
def knownAnswers : Botan where
  keystream _ _ i := encrypted.getD i 0
  gcm _ _ _ plain := Keystream.apply (fun i => encrypted.getD i 0) 0 plain ++
    (if plain = zeros then tagOfZeros else tagOfEncrypted)
  gcm_eq _ _ _ plain _ _ _ := ⟨_, by split <;> rfl, rfl⟩

/-- The call that encrypts the sixteen octets from address 0 on, in place. -/
def call : Feed := .process (fun _ => 0) 0 0 16

/-- The call that encrypts them to another place. -/
def apartCall : Feed := .process (fun _ => 0) 0 16 16

/-- The tag is that of the cipher text. -/
theorem in_place_not_one_shot : ¬ ∀ (b : Botan) (key nonce : Octets) (fs : List Feed) (tagSize : Nat),
    key.length = aesGcmKeySize → nonce.length = aesGcmIvSize → (∀ f ∈ fs, f.Placed) →
    (message fs).length ≤ aesGcmMaxDataSize → 0 < tagSize → tagSize ≤ gcmBlockTagSize →
      StreamsAsOneShot b key nonce fs tagSize := by
  intro hclaim
  obtain ⟨⟨s, s', hs, hstreamed⟩, -⟩ := hclaim knownAnswers zeroKey zeroNonce [call] 16
    length_zeroKey length_zeroNonce
    (fun f hf => by rw [List.mem_singleton.mp hf]; exact Or.inl rfl) (by decide) (by decide)
    (by decide)
  rw [singleMessageGcm_eq length_zeroKey length_zeroNonce] at hs
  obtain rfl := Except.ok.inj hs
  have hrun : (match streamed knownAnswers [call] 16
        (single zeroKey zeroNonce true) with
      | .ok r _ => decide (r = (encrypted, tagOfEncrypted))
      | .error _ _ => false) = true := by decide +kernel
  rw [hstreamed] at hrun
  exact absurd (of_decide_eq_true hrun) (by decide +kernel)

theorem apart_as_one_shot :
    StreamsAsOneShot knownAnswers zeroKey zeroNonce [apartCall] 16 :=
  (streamed_as_one_shot_iff [apartCall] 16
    (fun f hf => by rw [List.mem_singleton.mp hf]; exact Or.inr (Or.inl (by decide))) (by decide)
    (by decide) (by decide)).mpr
    (fun f hf => by rw [List.mem_singleton.mp hf]; exact fun h => absurd h.1 (by decide))
    knownAnswers _ _ length_zeroKey length_zeroNonce

end InPlace

end Securepath.Crypto.Gcm
