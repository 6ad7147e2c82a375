import StrawOS.Mls.Wire

/-!
# Keys, signatures and encryption of MLS

What `mls.c` builds of the primitives of BearSSL, which are the fields of `Crypto`
with the lengths of what they write.  What `random_bytes` writes is an `Entropy`:
each place that draws has a name.
-/

namespace Mls

def nh : Nat := 32
def nk : Nat := 16
def nn : Nat := 12
def npk : Nat := 65
def nsk : Nat := 32

def zeros : Bytes := List.replicate nh 0

/-- The bytes of a string of the source. -/
def text (s : String) : Bytes := s.toList.map fun c => UInt8.ofNat c.toNat

/-- The functions of BearSSL that `mls.c` calls. -/
structure Crypto where
  sha256 : Bytes → Bytes
  hmac : Bytes → Bytes → Bytes
  computePub : Bytes → Option Bytes
  mul : Bytes → Bytes → Option Bytes
  sign : Bytes → Bytes → Bytes
  vrfy : Bytes → Bytes → Bytes → Bool
  gcm : Bytes → Bytes → Bytes → Bytes × Bytes
  gcmCheck : Bytes → Bytes → Bytes → Bytes → Option Bytes
  sha256_length : ∀ m, (sha256 m).length = nh
  hmac_length : ∀ k m, (hmac k m).length = nh
  pub_length : ∀ sk pk, computePub sk = some pk → pk.length = npk
  sign_length : ∀ sk h, (sign sk h).length ≤ 80
  gcm_length : ∀ k n m, (gcm k n m).1.length = m.length ∧ (gcm k n m).2.length = 16

/-- The places where `mls.c` calls `random_bytes`. -/
inductive Draw
  | leafKey
  | initKey
  | epochSecret
  | pathSecret
  | pathSeal (k j : Nat)
  | welcomeSeal (i : Nat)

/-- What `random_bytes` writes during a call. -/
structure Entropy where
  bytes : Draw → Bytes
  length : ∀ d, (bytes d).length = nh

variable (cr : Crypto)

/-! ## Key derivation -/

def hkdfExtract (salt ikm : Bytes) : Bytes := cr.hmac (if salt = [] then zeros else salt) ikm

/-- The loop of `hkdf_expand`. -/
def expandLoop (prk info : Bytes) : Nat → Nat → Bytes → Bytes
  | 0, _, _ => []
  | blocks + 1, i, t =>
    let t := cr.hmac prk (t ++ info ++ [UInt8.ofNat i])
    t ++ expandLoop prk info blocks (i + 1) t

def hkdfExpand (prk info : Bytes) (len : Nat) : Bytes :=
  (expandLoop cr prk info ((len + nh - 1) / nh) 1 []).take len

def wLabel (label : String) : Bytes :=
  wVarint (8 + (text label).length) ++ text "MLS 1.0 " ++ text label

/-- `mls_expand_with_label`. -/
def expandWithLabel (secret : Bytes) (label : String) (ctx : Bytes) (len : Nat) : Bytes :=
  hkdfExpand cr secret (wU16 len ++ wLabel label ++ wOpaque ctx) len

def deriveSecret (secret : Bytes) (label : String) : Bytes := expandWithLabel cr secret label [] nh

def refHash (label : String) (data : Bytes) : Bytes :=
  cr.sha256 (wOpaque (text label) ++ wOpaque data)

/-! ## Key pairs -/

def kemSuite : Bytes := [0x4B, 0x45, 0x4D, 0x00, 0x10]

def hpkeSuite : Bytes := [0x48, 0x50, 0x4B, 0x45, 0x00, 0x10, 0x00, 0x01, 0x00, 0x01]

/-- `P256_ORDER`, as a number. -/
def p256Order : Nat := 0xFFFFFFFF00000000FFFFFFFFFFFFFFFFBCE6FAADA7179E84F3B9CAC2FC632551

def labeledExtract (suite salt : Bytes) (label : String) (ikm : Bytes) : Bytes :=
  hkdfExtract cr salt (text "HPKE-v1" ++ suite ++ text label ++ ikm)

def labeledExpand (suite prk : Bytes) (label : String) (info : Bytes) (len : Nat) : Bytes :=
  hkdfExpand cr prk (wU16 len ++ text "HPKE-v1" ++ suite ++ text label ++ info) len

/-- The loop of `derive_key_pair`: the first candidate in range. -/
def candidateLoop (prk : Bytes) : Nat → Nat → Option (Bytes × Bytes)
  | 0, _ => none
  | fuel + 1, counter =>
    let priv := labeledExpand cr kemSuite prk "candidate" [UInt8.ofNat counter] nsk
    if number (some priv) ≠ 0 ∧ number (some priv) < p256Order then
      (cr.computePub priv).map fun pub => (priv, pub)
    else candidateLoop prk fuel (counter + 1)

/-- `derive_key_pair`: the private key and the public key. -/
def deriveKeyPair (ikm : Bytes) : Option (Bytes × Bytes) :=
  candidateLoop cr (labeledExtract cr kemSuite [] "dkp_prk" ikm) 256 0

/-- `dh`: the first coordinate of the point. -/
def dh (priv pub : Bytes) : Option Bytes := (cr.mul pub priv).map fun p => (p.drop 1).take 32

/-! ## Encryption -/

/-- `hpke_key_schedule`: the key and the nonce. -/
def hpkeKeySchedule (shared info : Bytes) : Bytes × Bytes :=
  let ctx := [0] ++ labeledExtract cr hpkeSuite [] "psk_id_hash" [] ++
    labeledExtract cr hpkeSuite [] "info_hash" info
  let secret := labeledExtract cr hpkeSuite shared "secret" []
  (labeledExpand cr hpkeSuite secret "key" ctx nk,
    labeledExpand cr hpkeSuite secret "base_nonce" ctx nn)

def kemShared (dhv enc pkR : Bytes) : Bytes :=
  labeledExpand cr kemSuite (labeledExtract cr kemSuite [] "eae_prk" dhv) "shared_secret"
    (enc ++ pkR) nh

def encryptContext (label : String) (ctx : Bytes) : Bytes := wLabel label ++ wOpaque ctx

/-- `encrypt_with_label`, with what `random_key_pair` draws. -/
def encryptWithLabel (seed pk : Bytes) (label : String) (ctx pt : Bytes) : Option Bytes := do
  let (skE, enc) ← deriveKeyPair cr seed
  let dhv ← dh cr skE pk
  let (key, nonce) := hpkeKeySchedule cr (kemShared cr dhv enc pk) (encryptContext label ctx)
  let (ct, tag) := cr.gcm key nonce pt
  pure (wOpaque enc ++ wOpaque (ct ++ tag))

def decryptWithLabel (sk pk : Bytes) (label : String) (ctx enc ct : Bytes) : Option Bytes := do
  if enc.length ≠ npk ∨ ct.length < 16 then none
  else
    let dhv ← dh cr sk enc
    let (key, nonce) := hpkeKeySchedule cr (kemShared cr dhv enc pk) (encryptContext label ctx)
    cr.gcmCheck key nonce (ct.take (ct.length - 16)) (ct.drop (ct.length - 16))

/-! ## Signatures -/

def signContentHash (label : String) (content : Bytes) : Bytes :=
  cr.sha256 (wLabel label ++ wOpaque content)

def signWithLabel (sk : Bytes) (label : String) (content : Bytes) : Bytes :=
  cr.sign sk (signContentHash cr label content)

def verifyWithLabel (pk : Bytes) (label : String) (content sig : Bytes) : Bool :=
  cr.vrfy pk (signContentHash cr label content) sig

/-! ## A stand-in -/

/-- Functions in the place of BearSSL for concrete runs: nothing is secret, there is one
key pair, and the signatures of some keys are accepted. -/
def plainCrypto (trusted : Bytes → Bool) : Crypto where
  sha256 _ := zeros
  hmac _ _ := List.replicate 31 0 ++ [1]
  computePub _ := some (List.replicate npk 0)
  mul _ _ := some (List.replicate npk 0)
  sign _ _ := []
  vrfy pk _ _ := trusted pk
  gcm _ _ m := (m, List.replicate 16 0)
  gcmCheck _ _ ct _ := some ct
  sha256_length _ := rfl
  hmac_length _ _ := rfl
  pub_length _ _ h := by
    obtain rfl := Option.some.inj h
    rfl
  sign_length _ _ := Nat.zero_le _
  gcm_length _ _ _ := ⟨rfl, rfl⟩

/-- Zeros in the place of random bytes. -/
def zeroEntropy : Entropy := ⟨fun _ => zeros, fun _ => rfl⟩

end Mls
