import Securepath.Crypto.GcmStreaming

/-!
# A sequence of messages

A cipher with an implicit counter goes through the nonces of its counter, one for
each message that a tag has completed. A session follows the calls on such a
cipher with what was passed in and out: a call that throws leaves the cipher as it
was, so that the encryptor and the decryptor come to the same nonces, and message
by message the one undoes the other.
-/

namespace Securepath.Crypto.Gcm

open Serialisation (Octets)
open StateExcept EStateM

/-! ## Nonces -/

/-- The nonce of a counter. -/
def nonceAt (iv : Octets) (counter : UInt64) : Octets := iv ++ toEndian counter

theorem toEndian_injective {v w : UInt64} (h : toEndian v = toEndian w) : v = w := by
  have hvalue : ∀ u : UInt64, Positional.value 256 ((toEndian u).map UInt8.toNat) = u.toNat := by
    intro u
    have hdigits : (toEndian u).map UInt8.toNat = Positional.digits 256 8 u.toNat := by
      unfold toEndian
      rw [List.map_map]
      refine (List.map_congr_left fun d hd => ?_).trans (List.map_id _)
      exact UInt8.toNat_ofNat_of_lt' (Positional.digits_lt (by decide) 8 u.toNat d hd)
    rw [hdigits]
    exact Positional.value_digits u.toNat_lt
  apply UInt64.toNat_inj.mp
  rw [← hvalue v, ← hvalue w, h]

/-- A counter that wraps around only behind 2^64 messages. -/
theorem nonceAt_injective {iv : Octets} {counter : UInt64} {i j : Nat} (hi : i < 2 ^ 64)
    (hj : j < 2 ^ 64)
    (h : nonceAt iv (counter + UInt64.ofNat i) = nonceAt iv (counter + UInt64.ofNat j)) :
    i = j := by
  have hcounter := toEndian_injective (List.append_cancel_left h)
  have hofNat := (UInt64.add_right_inj counter).mp hcounter
  rw [← UInt64.toNat_ofNat_of_lt' hi, ← UInt64.toNat_ofNat_of_lt' hj, hofNat]

/-- The cipher at the start of the message with a counter. -/
def fresh (key iv : Octets) (encrypt : Bool) (counter : UInt64) : GcmStreamCipher :=
  ⟨key, encrypt, false, firstDataBlock (nonceAt iv counter), 0, nonceAt iv counter, [], [],
    .implicitCounter iv (counter + 1)⟩

variable {b : Botan} {key iv : Octets} {counter : UInt64} {encrypt : Bool}

theorem length_nonceAt (hiv : iv.length = aesGcmImplicitCounterIvSize) (counter : UInt64) :
    (nonceAt iv counter).length = aesGcmIvSize := by
  unfold nonceAt
  rw [List.length_append, length_toEndian, hiv]
  rfl

/-- `start` with the next nonce does not throw. -/
theorem nextNonce_start (hiv : iv.length = aesGcmImplicitCounterIvSize) (counter : UInt64)
    (s : GcmStreamCipher) : (nextNonce iv counter >>= start) s =
      .ok () ({ s with variant := .implicitCounter iv (counter + 1) }.started
        (nonceAt iv counter)) := by
  show start (nonceAt iv counter) { s with variant := .implicitCounter iv (counter + 1) } = _
  exact start_eq_ok (length_nonceAt hiv counter)

theorem implicitCounterGcm_eq (hkey : key.length = aesGcmKeySize)
    (hiv : iv.length = aesGcmImplicitCounterIvSize) (counter : UInt64) (encrypt : Bool) :
    implicitCounterGcm key iv counter encrypt = .ok (fresh key iv encrypt counter) := by
  have hconstruct : construct key encrypt (.implicitCounter iv counter) =
      .ok ⟨key, encrypt, false, [], 0, [], [], [], .implicitCounter iv counter⟩ :=
    if_neg (not_not.mpr hkey)
  unfold implicitCounterGcm
  rw [hconstruct]
  show (if iv.length ≠ aesGcmImplicitCounterIvSize then _ else _ : Except _ _) = _
  rw [if_neg (not_not.mpr hiv)]
  show andThen (nextNonce iv counter >>= start) _ = _
  unfold andThen
  rw [nextNonce_start hiv]
  rfl

/-! ## Sessions -/

/-- A call on the cipher. -/
inductive Call where
  | feed (f : Feed)
  | tag (tagSize : Nat)

/-- A message behind its tag. -/
structure Completed where
  nonce : Octets
  authData : Octets
  text : Octets
  output : Octets
  tagSize : Nat
  tag : Octets
deriving DecidableEq

/-- A cipher, what was passed in and out since the last tag, and the messages
before it. -/
structure Session where
  cipher : GcmStreamCipher
  authData : Octets
  text : Octets
  output : Octets
  completed : List Completed

namespace Session

/-- A cipher that nothing was passed to. -/
def init (c : GcmStreamCipher) : Session := ⟨c, [], [], [], []⟩

/-- A call; one that throws passes nothing. -/
def step (b : Botan) (s : Session) : Call → Session
  | .feed f =>
      match f.run b s.cipher with
      | .ok out c => ⟨c, s.authData ++ f.authData, s.text ++ f.text, s.output ++ out, s.completed⟩
      | .error _ c => { s with cipher := c }
  | .tag tagSize =>
      match Gcm.tag b tagSize s.cipher with
      | .ok t c => ⟨c, [], [], [], s.completed ++
          [⟨s.cipher.nonce, s.authData, s.text, s.output, tagSize, t⟩]⟩
      | .error _ c => { s with cipher := c }

/-- Calls one after another. -/
def run (b : Botan) (calls : List Call) (s : Session) : Session := calls.foldl (step b) s

/-- The nonces of the messages, that of the present one included. -/
def nonces (s : Session) : List Octets := s.completed.map Completed.nonce ++ [s.cipher.nonce]

end Session

/-- The plain text of a message. -/
def Completed.plain (encrypt : Bool) (m : Completed) : Octets :=
  if encrypt then m.text else m.output

/-- What a completed message is. -/
structure Completed.Good (b : Botan) (key n : Octets) (encrypt : Bool) (copies : Prop)
    (m : Completed) : Prop where
  nonce : m.nonce = n
  size : m.text.length ≤ aesGcmMaxDataSize
  output : m.output = Keystream.apply (b.keystream key (firstDataBlock n)) 0 m.text
  tag_pos : 0 < m.tagSize
  tag_le : m.tagSize ≤ gcmBlockTagSize
  tag : copies → m.tag = (oneShot b key n m.authData (m.plain encrypt)).2.take m.tagSize

/-- What holds between two calls; `copies` is that the copy of the plain text is one. -/
structure Session.Inv (b : Botan) (key iv : Octets) (encrypt : Bool) (counter : UInt64)
    (copies : Prop) (s : Session) : Prop where
  cipher : ∃ plain, s.cipher =
      (fresh key iv encrypt (counter + UInt64.ofNat s.completed.length)).fed s.authData plain
        s.text.length ∧
    plain.length = s.text.length ∧ (copies → plain = if encrypt then s.text else s.output)
  size : s.text.length ≤ aesGcmMaxDataSize
  output : s.output = Keystream.apply (b.keystream key (firstDataBlock
    (nonceAt iv (counter + UInt64.ofNat s.completed.length)))) 0 s.text
  completed : ∀ k (hk : k < s.completed.length),
    s.completed[k].Good b key (nonceAt iv (counter + UInt64.ofNat k)) encrypt copies

namespace Session

variable {copies : Prop} {s : Session}

theorem inv_init (b : Botan) (key iv : Octets) (encrypt : Bool) (counter : UInt64)
    (copies : Prop) : (init (fresh key iv encrypt counter)).Inv b key iv encrypt counter copies where
  cipher := by
    refine ⟨[], ?_, rfl, fun _ => by split <;> rfl⟩
    show fresh key iv encrypt counter = fresh key iv encrypt (counter + 0)
    rw [UInt64.add_zero]
  size := Nat.zero_le _
  output := rfl
  completed k hk := absurd hk (Nat.not_lt_zero k)


theorem step_feed_ok {f : Feed} {out : Octets} {c : GcmStreamCipher}
    (h : f.run b s.cipher = .ok out c) : s.step b (.feed f) =
      ⟨c, s.authData ++ f.authData, s.text ++ f.text, s.output ++ out, s.completed⟩ := by
  simp only [step, h]

theorem step_feed_error {f : Feed} {e : GcmError} (h : f.run b s.cipher = .error e s.cipher) :
    s.step b (.feed f) = s := by
  simp only [step, h]

theorem step_tag_ok {tagSize : Nat} {t : Octets} {c : GcmStreamCipher}
    (h : Gcm.tag b tagSize s.cipher = .ok t c) : s.step b (.tag tagSize) =
      ⟨c, [], [], [], s.completed ++
        [⟨s.cipher.nonce, s.authData, s.text, s.output, tagSize, t⟩]⟩ := by
  simp only [step, h]

theorem step_tag_error {tagSize : Nat} {e : GcmError}
    (h : Gcm.tag b tagSize s.cipher = .error e s.cipher) : s.step b (.tag tagSize) = s := by
  simp only [step, h]

/-- A call with a piece of a message throws and changes nothing, or there is room
for its text. -/
theorem feed_cases (f : Feed) {c : GcmStreamCipher} (hplain : c.plain.length ≤ aesGcmMaxDataSize) :
    (∃ e, f.run b c = .error e c) ∨
      (c.finished = false ∧ c.plain.length + f.text.length ≤ aesGcmMaxDataSize) := by
  by_cases hfinished : c.finished = true
  · left
    cases f with
    | processAuth data =>
      have hstep := processAuth_eq c data
      rw [if_pos hfinished] at hstep
      exact ⟨_, bind_of_error hstep⟩
    | process memory start out size =>
      have hstep := process_eq b c memory start out size
      rw [if_pos hfinished] at hstep
      exact ⟨_, bind_of_error hstep⟩
  have husable : c.finished = false := Bool.eq_false_iff.mpr hfinished
  cases f with
  | processAuth data => exact Or.inr ⟨husable, hplain⟩
  | process memory start out size =>
    have hsize : (memory.read start size).length = size := Keystream.Memory.length_read _
    by_cases hroom : size > aesGcmMaxDataSize - c.plain.length
    · have hstep := process_eq b c memory start out size
      rw [if_neg hfinished, if_pos hroom] at hstep
      exact Or.inl ⟨_, bind_of_error hstep⟩
    · right
      refine ⟨husable, ?_⟩
      show c.plain.length + (memory.read start size).length ≤ _
      rw [hsize]
      omega

/-- What comes out of a tag, and the cipher behind it. -/
theorem tag_cases (b : Botan) (key : Octets) (encrypt : Bool)
    (hiv : iv.length = aesGcmImplicitCounterIvSize) (counter : UInt64) (authData plain : Octets)
    (size tagSize : Nat) :
    let c := (fresh key iv encrypt counter).fed authData plain size
    (Gcm.tag b tagSize c = .error .invalidArgument c) ∨
      0 < tagSize ∧ tagSize ≤ gcmBlockTagSize ∧ Gcm.tag b tagSize c =
        .ok ((oneShot b key (nonceAt iv counter) authData plain).2.take tagSize)
          (fresh key iv encrypt (counter + 1)) := by
  intro c
  by_cases hsize : tagSize = 0 ∨ tagSize > gcmBlockTagSize
  · left
    rw [tag_eq, if_neg (show ¬ c.finished = true from Bool.false_ne_true), if_pos hsize]
  · right
    refine ⟨by omega, by omega, ?_⟩
    rw [tag_of_usable rfl (by omega) (by omega), bind_of_ok (afterTag_implicitCounter rfl hiv)]
    rfl

/-- What is demanded of a call, for the copies to be copies. -/
def Copies (encrypt : Bool) : Call → Prop
  | .feed f => encrypt = true → f.Placed ∧ ¬ f.InPlace
  | .tag _ => True

theorem copied_plain {f : Feed} {ks : Nat → UInt8} {position : Nat}
    (h : Copies encrypt (.feed f)) :
    f.copied ks encrypt position =
      if encrypt then f.text else Keystream.apply ks position f.text := by
  cases encrypt with
  | true =>
    obtain ⟨hplaced, hapart⟩ := h rfl
    exact ((Feed.copied_encrypt _ hplaced position).resolve_right fun h => hapart h.1).2
  | false => exact f.copied_decrypt position

/-- One call. -/
theorem Inv.step (hiv : iv.length = aesGcmImplicitCounterIvSize)
    (hinv : s.Inv b key iv encrypt counter copies) (call : Call)
    (hcall : copies → Copies encrypt call) :
    (s.step b call).Inv b key iv encrypt counter copies := by
  obtain ⟨plain, hcipher, hlength, hplain⟩ := hinv.cipher
  cases call with
  | feed f =>
    have hroom : s.cipher.plain.length ≤ aesGcmMaxDataSize := by
      rw [hcipher]
      show plain.length ≤ _
      rw [hlength]
      exact hinv.size
    rcases feed_cases (b := b) f hroom with ⟨e, herror⟩ | ⟨husable, hfits⟩
    · rw [step_feed_error herror]
      exact hinv
    · -- the text is passed through the keystream from where it was left
      rw [step_feed_ok (f.run_eq husable hfits)]
      have hposition : s.cipher.ctrPosition = s.text.length := by
        rw [hcipher]
        exact Nat.zero_add _
      have hstream : s.cipher.stream b = b.keystream key (firstDataBlock
          (nonceAt iv (counter + UInt64.ofNat s.completed.length))) := by
        rw [hcipher]
        rfl
      have hfits' : s.text.length + f.text.length ≤ aesGcmMaxDataSize := by
        rw [hcipher] at hfits
        rw [← hlength]
        exact hfits
      refine ⟨⟨plain ++ f.copied (s.cipher.stream b) s.cipher.encrypt s.cipher.ctrPosition,
        ?_, ?_, ?_⟩, ?_, ?_, hinv.completed⟩
      · show s.cipher.fed _ _ _ = _
        generalize f.copied (s.cipher.stream b) s.cipher.encrypt s.cipher.ctrPosition = text
        rw [hcipher, List.length_append]
        unfold GcmStreamCipher.fed fresh
        simp only [List.nil_append, Nat.zero_add]
      · show (plain ++ _).length = (s.text ++ f.text).length
        rw [List.length_append, List.length_append, hlength, Feed.length_copied]
      · intro hcopies
        have hencrypt : s.cipher.encrypt = encrypt := by
          rw [hcipher]
          rfl
        rw [hencrypt, copied_plain (hcall hcopies), hplain hcopies]
        cases encrypt with
        | true => rfl
        | false => rfl
      · show (s.text ++ f.text).length ≤ _
        rw [List.length_append]
        exact hfits'
      · show s.output ++ _ = Keystream.apply _ 0 (s.text ++ f.text)
        rw [Keystream.apply_append, ← hinv.output, hstream, hposition, Nat.zero_add]
  | tag tagSize =>
    -- a tag completes the message, and the cipher starts afresh with the next nonce
    have hcases := tag_cases b key encrypt hiv (counter + UInt64.ofNat s.completed.length)
      s.authData plain s.text.length tagSize
    rw [← hcipher] at hcases
    rcases hcases with herror | ⟨hpos, hle, hok⟩
    · rw [step_tag_error herror]
      exact hinv
    · have hnext : counter + UInt64.ofNat s.completed.length + 1 =
          counter + UInt64.ofNat (s.completed.length + 1) := by
        rw [UInt64.ofNat_add, UInt64.add_assoc]
        rfl
      rw [step_tag_ok hok]
      refine ⟨⟨[], ?_, rfl, fun _ => by split <;> rfl⟩, Nat.zero_le _, rfl, ?_⟩
      · show fresh key iv encrypt _ = _
        rw [hnext, List.length_append, List.length_singleton]
        rfl
      · intro k hk
        rcases Nat.lt_or_ge k s.completed.length with hbefore | hlast
        · have hgood := hinv.completed k hbefore
          simpa only [List.getElem_append_left hbefore] using hgood
        · -- the message that this tag completes
          obtain rfl : k = s.completed.length := by
            rw [List.length_append, List.length_singleton] at hk
            omega
          simp only [List.getElem_concat_length]
          refine ⟨?_, hinv.size, hinv.output, hpos, hle, fun hcopies => ?_⟩
          · show s.cipher.nonce = _
            rw [hcipher]
            rfl
          · show List.take _ _ = List.take _ _
            rw [hplain hcopies]
            rfl

/-- A run of calls. -/
theorem Inv.run (hiv : iv.length = aesGcmImplicitCounterIvSize)
    (hinv : s.Inv b key iv encrypt counter copies) (calls : List Call)
    (hcalls : ∀ call ∈ calls, copies → Copies encrypt call) :
    (s.run b calls).Inv b key iv encrypt counter copies := by
  induction calls generalizing s with
  | nil => exact hinv
  | cons call calls ih =>
    obtain ⟨hcall, hcalls⟩ := List.forall_mem_cons.mp hcalls
    exact ih (hinv.step hiv call hcall) hcalls

/-! ## In step -/

/-- The nonces are those of the counter, one after another. -/
theorem Inv.nonces_eq (hinv : s.Inv b key iv encrypt counter copies) : s.nonces =
    (List.range (s.completed.length + 1)).map fun k =>
      nonceAt iv (counter + UInt64.ofNat k) := by
  obtain ⟨plain, hcipher, -, -⟩ := hinv.cipher
  unfold nonces
  rw [List.range_succ, List.map_append, hcipher]
  congr 1
  -- the last nonce is the one in use, those before it are the completed messages'
  apply List.ext_getElem (by simp)
  intro k hk hk'
  rw [List.length_map] at hk
  simp only [List.getElem_map, List.getElem_range]
  exact (hinv.completed k hk).nonce

/-- Tags are calls. -/
theorem length_completed_run (calls : List Call) (s : Session) :
    (s.run b calls).completed.length ≤ s.completed.length + calls.length := by
  induction calls generalizing s with
  | nil => exact Nat.le_refl _
  | cons call calls ih =>
    have hone : (s.step b call).completed.length ≤ s.completed.length + 1 := by
      cases call with
      | feed f =>
        unfold step
        dsimp only
        split
        · exact Nat.le_succ _
        · exact Nat.le_succ _
      | tag tagSize =>
        unfold step
        dsimp only
        split
        · rw [List.length_append, List.length_singleton]
        · exact Nat.le_succ _
    have hrest := ih (s.step b call)
    rw [List.length_cons]
    exact hrest.trans (by omega)

/-- No nonce is used twice before the counter is back where it started. -/
theorem Inv.nodup_nonces (hinv : s.Inv b key iv encrypt counter copies)
    (hcount : s.completed.length < 2 ^ 64) : s.nonces.Nodup := by
  rw [hinv.nonces_eq]
  apply List.Nodup.map_on _ List.nodup_range
  intro i hi j hj heq
  have hi := List.mem_range.mp hi
  have hj := List.mem_range.mp hj
  exact nonceAt_injective (by omega) (by omega) heq

/-- A call that throws changes nothing. -/
theorem Inv.throws_unchanged (hiv : iv.length = aesGcmImplicitCounterIvSize)
    (hinv : s.Inv b key iv encrypt counter copies) {e : GcmError} {c : GcmStreamCipher} :
    (∀ f : Feed, f.run b s.cipher = .error e c → c = s.cipher) ∧
      ∀ tagSize, Gcm.tag b tagSize s.cipher = .error e c → c = s.cipher := by
  obtain ⟨plain, hcipher, hlength, -⟩ := hinv.cipher
  have hroom : s.cipher.plain.length ≤ aesGcmMaxDataSize := by
    rw [hcipher]
    show plain.length ≤ _
    rw [hlength]
    exact hinv.size
  constructor
  · intro f h
    rcases feed_cases (b := b) f hroom with ⟨e', herror⟩ | ⟨husable, hfits⟩
    · rw [herror] at h
      exact (Result.error.inj h).2.symm
    · rw [f.run_eq husable hfits] at h
      cases h
  · intro tagSize h
    have hcases := tag_cases b key encrypt hiv (counter + UInt64.ofNat s.completed.length)
      s.authData plain s.text.length tagSize
    rw [← hcipher] at hcases
    rcases hcases with herror | ⟨-, -, hok⟩
    · rw [herror] at h
      exact (Result.error.inj h).2.symm
    · rw [hok] at h
      cases h

/-! ## Receiving -/

/-- The calls that hand a completed message to the other end. -/
def receive (r : List Feed × Nat) : List Call := r.1.map .feed ++ [.tag r.2]

/-- The pieces of what the encryptor gave, with the size of its tag. -/
structure Hands (m : Completed) (r : List Feed × Nat) : Prop where
  placed : ∀ f ∈ r.1, f.Placed
  text : message r.1 = m.output
  authData : associated r.1 = m.authData
  tagSize : r.2 = m.tagSize

theorem run_append (calls calls' : List Call) (s : Session) :
    s.run b (calls ++ calls') = (s.run b calls).run b calls' := List.foldl_append

/-- The calls of a session are those of the cipher. -/
theorem run_feeds (fs : List Feed) {out : Octets} {c : GcmStreamCipher}
    (h : feedAll b fs s.cipher = .ok out c) : s.run b (fs.map .feed) =
      ⟨c, s.authData ++ associated fs, s.text ++ message fs, s.output ++ out, s.completed⟩ := by
  induction fs generalizing s out with
  | nil =>
    obtain ⟨rfl, rfl⟩ := Result.ok.inj h
    unfold associated message
    rw [List.flatMap_nil, List.flatMap_nil, List.append_nil, List.append_nil, List.append_nil]
    rfl
  | cons f fs ih =>
    obtain ⟨o, c₁, hf, hrest⟩ := bind_eq_ok.mp h
    obtain ⟨os, c₂, hfs, hlast⟩ := bind_eq_ok.mp hrest
    obtain ⟨rfl, rfl⟩ := Result.ok.inj hlast
    have hrest : feedAll b fs (s.step b (.feed f)).cipher = .ok os c₂ := by
      rw [step_feed_ok hf]
      exact hfs
    have hrun := ih hrest
    rw [step_feed_ok hf] at hrun
    show (s.step b (.feed f)).run b (fs.map .feed) = _
    rw [step_feed_ok hf, hrun]
    unfold associated message
    rw [List.flatMap_cons, List.flatMap_cons, List.append_assoc, List.append_assoc,
      List.append_assoc]

/-- The decryptor undoes one message. -/
theorem run_receive (hiv : iv.length = aesGcmImplicitCounterIvSize) {m : Completed}
    (hgood : m.Good b key (nonceAt iv counter) true True) {r : List Feed × Nat} (hr : Hands m r)
    (done : List Completed) :
    Session.run b (receive r) ⟨fresh key iv false counter, [], [], [], done⟩ =
      ⟨fresh key iv false (counter + 1), [], [], [], done ++
        [⟨nonceAt iv counter, m.authData, m.output, m.text, m.tagSize, m.tag⟩]⟩ := by
  obtain ⟨fs, tagSize⟩ := r
  obtain ⟨-, htext, haad, htagSize⟩ := hr
  dsimp only at htext haad htagSize
  have hsize : (message fs).length ≤ aesGcmMaxDataSize := by
    rw [htext, hgood.output, Keystream.length_apply]
    exact hgood.size
  have hfed := feedAll_eq (b := b) (s := fresh key iv false counter) fs rfl (by
    show 0 + (message fs).length ≤ aesGcmMaxDataSize
    rw [Nat.zero_add]
    exact hsize)
  have hfeeds := run_feeds (s := ⟨fresh key iv false counter, [], [], [], done⟩) fs hfed
  have hplain : copy ((fresh key iv false counter).stream b) false 0 fs = m.text := by
    rw [copy_decrypt, htext, hgood.output]
    exact Keystream.apply_apply _ _ _
  have hout : Keystream.apply ((fresh key iv false counter).stream b) 0 (message fs) = m.text := by
    rw [← copy_decrypt, hplain]
  -- the tag is made of the text that came out
  have hcases := tag_cases b key false hiv counter (associated fs) m.text (message fs).length tagSize
  rcases hcases with herror | ⟨-, -, hok⟩
  · rw [tag_of_usable rfl (by rw [htagSize]; exact hgood.tag_pos)
      (by rw [htagSize]; exact hgood.tag_le), bind_of_ok (afterTag_implicitCounter rfl hiv)]
      at herror
    cases herror
  unfold receive
  rw [run_append, hfeeds]
  show Session.step b ⟨(fresh key iv false counter).fed (associated fs)
    (copy ((fresh key iv false counter).stream b) false 0 fs) (message fs).length,
    associated fs, message fs, Keystream.apply ((fresh key iv false counter).stream b) 0
      (message fs), done⟩ (.tag tagSize) = _
  rw [hplain, hout, step_tag_ok hok, htext, haad, htagSize, hgood.tag trivial]
  rfl

/-- The decryptor undoes message after message. -/
theorem run_receive_all (hiv : iv.length = aesGcmImplicitCounterIvSize) {ms : List Completed}
    {rs : List (List Feed × Nat)} (hrs : List.Forall₂ Hands ms rs) (n : Nat)
    (hgood : ∀ k (hk : k < ms.length),
      ms[k].Good b key (nonceAt iv (counter + UInt64.ofNat (n + k))) true True)
    (done : List Completed) :
    (Session.run b (rs.flatMap receive)
      ⟨fresh key iv false (counter + UInt64.ofNat n), [], [], [], done⟩).completed.map
        (fun m => (m.output, m.tag)) =
      done.map (fun m => (m.output, m.tag)) ++ ms.map fun m => (m.text, m.tag) := by
  induction hrs generalizing n done with
  | nil => exact (List.append_nil _).symm
  | @cons m r ms rs hr _ ih =>
    have hfirst : m.Good b key (nonceAt iv (counter + UInt64.ofNat n)) true True :=
      hgood 0 (Nat.zero_lt_succ _)
    have hnext : counter + UInt64.ofNat n + 1 = counter + UInt64.ofNat (n + 1) := by
      rw [UInt64.ofNat_add, UInt64.add_assoc]
      rfl
    -- the decryptor has counted as many messages as were handed to it
    rw [List.flatMap_cons, run_append, run_receive hiv hfirst hr, hnext, ih (n + 1) (by
      intro k hk
      have hlater := hgood (k + 1) (Nat.succ_lt_succ hk)
      rw [show n + (k + 1) = n + 1 + k by omega] at hlater
      exact hlater)]
    rw [List.map_append, List.append_assoc]
    rfl

end Session

/-- Behind the calls on an encryptor, a decryptor that is handed its messages gives
their texts and tags. -/
def Recovers (b : Botan) (key iv : Octets) (counter : UInt64) (calls : List Call) : Prop :=
  ∃ enc dec, implicitCounterGcm key iv counter true = .ok enc ∧
    implicitCounterGcm key iv counter false = .ok dec ∧
    ∀ rs, List.Forall₂ Session.Hands ((Session.init enc).run b calls).completed rs →
      ((Session.init dec).run b (rs.flatMap Session.receive)).completed.map
          (fun m => (m.output, m.tag)) =
        ((Session.init enc).run b calls).completed.map fun m => (m.text, m.tag)

/-- Behind the calls on a cipher no two messages have had one nonce, and a call that
throws changes nothing. -/
def Sound (b : Botan) (key iv : Octets) (encrypt : Bool) (counter : UInt64) (calls : List Call) :
    Prop :=
  ∃ c, implicitCounterGcm key iv counter encrypt = .ok c ∧
    let s := (Session.init c).run b calls
    s.nonces.Nodup ∧ ∀ e c', (∀ f : Feed, f.run b s.cipher = .error e c' → c' = s.cipher) ∧
      ∀ tagSize, tag b tagSize s.cipher = .error e c' → c' = s.cipher

/-- The ciphers go through the nonces one by one, and stay in step as long as nothing
is encrypted in place. -/
theorem implicit_counter_in_step (b : Botan) {key iv : Octets} (counter : UInt64)
    (calls : List Call) (hkey : key.length = aesGcmKeySize)
    (hiv : iv.length = aesGcmImplicitCounterIvSize) (hcount : calls.length < 2 ^ 64) :
    (∀ encrypt, Sound b key iv encrypt counter calls) ∧
      ((∀ call ∈ calls, Session.Copies true call) → Recovers b key iv counter calls) := by
  constructor
  · intro encrypt
    -- what the copy holds does not matter here
    have hinv := (Session.inv_init b key iv encrypt counter False).run hiv calls fun _ _ h => h.elim
    have hlength := Session.length_completed_run (b := b) calls
      (Session.init (fresh key iv encrypt counter))
    refine ⟨_, implicitCounterGcm_eq hkey hiv counter encrypt, hinv.nodup_nonces ?_,
      fun e c' => hinv.throws_unchanged hiv⟩
    rw [show (Session.init (fresh key iv encrypt counter)).completed.length = 0 from rfl,
      Nat.zero_add] at hlength
    exact hlength.trans_lt hcount
  · intro hcopies
    -- the copy holds the text, so the tags are those of GCM
    have hinv := (Session.inv_init b key iv true counter True).run hiv calls fun call hcall _ => hcopies call hcall
    refine ⟨_, _, implicitCounterGcm_eq hkey hiv counter true,
      implicitCounterGcm_eq hkey hiv counter false, fun rs hrs => ?_⟩
    have hall := Session.run_receive_all hiv hrs 0 (fun k hk => by
      rw [Nat.zero_add]
      exact hinv.completed k hk) []
    rw [show counter + UInt64.ofNat 0 = counter from UInt64.add_zero counter] at hall
    exact hall

/-! ## In place -/

namespace InPlace

/-- The iv whose nonce with the counter 0 is all zeros. -/
def zeroIv : Octets := List.replicate 4 0

theorem length_zeroIv : zeroIv.length = aesGcmImplicitCounterIvSize := rfl

/-- The message of sixteen zeros, in place and apart. -/
def calls : List Call := [.feed call, .tag 16]

def apartCalls : List Call := [.feed apartCall, .tag 16]

/-- What is handed to the decryptor. -/
def handed : List Feed × Nat := ([.process (fun i => encrypted.getD i 0) 0 16 16], 16)

/-- A message that was encrypted in place does not have the tag that the decryptor
makes. -/
theorem in_place_out_of_step : ¬ ∀ (b : Botan) (key iv : Octets) (counter : UInt64)
    (calls : List Call), key.length = aesGcmKeySize →
    iv.length = aesGcmImplicitCounterIvSize → calls.length < 2 ^ 64 →
    (∀ f, .feed f ∈ calls → f.Placed) →
      (∀ encrypt, Sound b key iv encrypt counter calls) ∧ Recovers b key iv counter calls := by
  intro hclaim
  obtain ⟨-, enc, dec, henc, hdec, hrecovers⟩ := hclaim knownAnswers zeroKey zeroIv 0 calls
    length_zeroKey length_zeroIv (by decide) (by
      intro f hf
      rcases List.mem_cons.mp hf with heq | hf
      · obtain rfl := Call.feed.inj heq
        exact Or.inl rfl
      · cases List.mem_singleton.mp hf)
  rw [implicitCounterGcm_eq length_zeroKey length_zeroIv] at henc hdec
  obtain rfl := Except.ok.inj henc
  obtain rfl := Except.ok.inj hdec
  have hencrypted : ((Session.init (fresh zeroKey zeroIv true 0)).run knownAnswers
      calls).completed = [⟨zeroNonce, [], zeros, encrypted, 16, tagOfEncrypted⟩] := by
    decide +kernel
  rw [hencrypted] at hrecovers
  have hhands : Session.Hands ⟨zeroNonce, [], zeros, encrypted, 16, tagOfEncrypted⟩ handed :=
    ⟨fun f hf => by rw [List.mem_singleton.mp hf]; exact Or.inr (Or.inl (by decide)),
      by decide, rfl, rfl⟩
  have htag := hrecovers [handed] (List.Forall₂.cons hhands List.Forall₂.nil)
  have hdecrypted : ((Session.init (fresh zeroKey zeroIv false 0)).run knownAnswers
      ([handed].flatMap Session.receive)).completed.map (fun m => (m.output, m.tag)) =
      [(zeros, tagOfZeros)] := by
    decide +kernel
  rw [hdecrypted] at htag
  exact absurd htag (by decide)

theorem apart_in_step : Recovers knownAnswers zeroKey zeroIv 0 apartCalls :=
  (implicit_counter_in_step knownAnswers 0 apartCalls length_zeroKey length_zeroIv (by decide)).2
    (by
      intro c hc
      rcases List.mem_cons.mp hc with rfl | hc
      · exact fun _ => ⟨Or.inr (Or.inl (by decide)), fun h => absurd h.1 (by decide)⟩
      · rw [List.mem_singleton.mp hc]
        trivial)

end InPlace

end Securepath.Crypto.Gcm
