import StrawOS.Lib.Endian
import StrawOS.Lib.Machine

/-!
# Secure frames of a voice call

`dave.c`, the session and its sending side: an epoch of the MLS group gives every
member a base key, `install_epoch` keeps the own one in `send_next`, and executing
a transition makes it the key of the sender.  A frame is sealed with the key of
the generation in the top byte of its nonce.

What the MLS session answers is part of an input, and key derivation and AES-GCM
are parameters, as they lie outside this file.  The history of a session adds the
bases that were exported and what AES-GCM was called with.
-/

namespace Voice

/-- `mls_expand_with_label` and `mls_aes_gcm`. -/
structure Crypto where
  expand : List UInt8 → String → List UInt8 → Nat → List UInt8
  gcm : List UInt8 → List UInt8 → List UInt8 → List UInt8 → List UInt8 × List UInt8

def daveMaxProtocol : Int := 1
def maxUsers : Nat := 128
def keyExpiryMs : Nat := 10000
def passthroughMs : Nat := 10000
def tagBytes : Nat := 8
def marker : UInt8 := 0xFA
def uint64Max : Nat := 2 ^ 64 - 1

/-! ## Ratchets -/

structure Ratchet where
  set : Bool
  base : List UInt8
  gen : Nat
  key : List UInt8
  haveKey : Bool

/-- What `memset` leaves of a ratchet. -/
def Ratchet.zero : Ratchet := ⟨false, List.replicate 16 0, 0, List.replicate 16 0, false⟩

def ratchetInit (base : List UInt8) : Ratchet := { Ratchet.zero with base := base, set := true }

/-- The context of a generation. -/
def genContext (g : Nat) : List UInt8 :=
  [Endian.byteAt g 3, Endian.byteAt g 2, Endian.byteAt g 1, Endian.byteAt g 0]

/-- The loop of `ratchet_key`, `left` generations before the wanted one. -/
def ratchetLoop (cr : Crypto) (secret : List UInt8) (g : Nat) : Nat → List UInt8
  | 0 => cr.expand secret "key" (genContext g) 16
  | left + 1 => ratchetLoop cr (cr.expand secret "secret" (genContext g) 32) (g + 1) left

/-- The key of a generation. -/
def keyOf (cr : Crypto) (base : List UInt8) (gen : Nat) : List UInt8 := ratchetLoop cr base 0 gen

def ratchetKey (cr : Crypto) (r : Ratchet) (gen : Nat) : Option (Ratchet × List UInt8) :=
  if ¬ r.set then none
  else if ¬ r.haveKey ∨ r.gen ≠ gen then
    if 4096 < gen then none
    else
      let r := { r with key := keyOf cr r.base gen, gen := gen, haveKey := true }
      some (r, r.key)
  else some (r, r.key)

/-! ## The session -/

structure Receiver where
  user : Nat
  cur : Ratchet
  old : Ratchet
  oldUntil : Nat
  lastNonce : Nat
  seen : Bool

structure Pending where
  id : Nat
  version : Int
  used : Bool

/-- `Dave`, without the connection, the MLS session and the connected users. -/
structure Dave where
  self : Nat
  version : Int
  downgraded : Bool
  now : Nat
  passthroughUntil : Nat
  pending : List Pending
  send : Ratchet
  sendNext : Ratchet
  nonce : Nat
  recv : List Receiver

/-- `dave_new`, and `calloc` before it. -/
def daveNew (self : Nat) : Dave :=
  ⟨self, 0, false, 0, 0, List.replicate 8 ⟨0, 0, false⟩, Ratchet.zero, Ratchet.zero, 0, []⟩

/-- What is sent to the gateway, and that the MLS session starts again. -/
inductive Out
  | transition (op id : Nat)
  | reinit

/-- What `mls_roster` and `mls_export` answer in an epoch. -/
structure Epoch where
  roster : List Nat
  base : Nat → Option (List UInt8)

def addPending (ps : List Pending) (id : Nat) (version : Int) : List Pending :=
  match ps.findIdx? fun p => p.used && p.id == id with
  | some i => ps.modify i fun p => { p with version := version }
  | none =>
    match ps.findIdx? fun p => !p.used with
    | some i => ps.set i ⟨id, version, true⟩
    | none => ps

/-- The loop of `execute`: the last transition with the identifier. -/
def findPending (ps : List Pending) (id : Nat) : Option (Nat × Pending) :=
  ps.zipIdx.foldl (fun found (p, i) => if p.used && p.id == id then some (i, p) else found) none

/-- `install_epoch`: receivers that left keep their keys for a while. -/
def Receiver.leave (now : Nat) (roster : List Nat) (r : Receiver) : Receiver :=
  if r.user ∉ roster ∧ r.cur.set then
    { r with old := r.cur, oldUntil := (now + keyExpiryMs) % 2 ^ 64, cur := Ratchet.zero }
  else r

/-- `install_epoch`: a receiver in the new epoch. -/
def Receiver.enter (now : Nat) (base : List UInt8) (r : Receiver) : Receiver :=
  let r := if r.cur.set ∧ r.cur.base ≠ base then
      { r with old := r.cur, oldUntil := (now + keyExpiryMs) % 2 ^ 64 } else r
  { r with cur := ratchetInit base, seen := false }

/-- `receiver`, creating it, and the change of it. -/
def changeReceiver (recv : List Receiver) (user : Nat) (f : Receiver → Receiver) : List Receiver :=
  match recv.findIdx? fun r => r.user == user with
  | some i => recv.modify i f
  | none =>
    if maxUsers ≤ recv.length then recv
    else recv ++ [f ⟨user, Ratchet.zero, Ratchet.zero, 0, 0, false⟩]

/-- `install_epoch`: one member of the roster. -/
def installMember (epoch : Epoch) (d : Dave) (user : Nat) : Dave :=
  match epoch.base user with
  | none => d
  | some base =>
    if user = d.self then { d with sendNext := ratchetInit base }
    else { d with recv := changeReceiver d.recv user (Receiver.enter d.now base) }

def installEpoch (d : Dave) (epoch : Epoch) : Dave :=
  let roster := epoch.roster.take maxUsers
  roster.foldl (installMember epoch) { d with recv := d.recv.map (Receiver.leave d.now roster) }

def switchSender (d : Dave) : Dave :=
  if d.sendNext.set ∧ (¬ d.send.set ∨ d.send.base ≠ d.sendNext.base) then
    { d with send := d.sendNext, nonce := 0 }
  else d

def execute (d : Dave) (id : Nat) : Dave :=
  match findPending d.pending id with
  | none => d
  | some (i, p) =>
    let d' := { d with
      pending := d.pending.modify i fun p => { p with used := false }
      version := p.version }
    if p.version = 0 then
      { d' with downgraded := true, passthroughUntil := uint64Max, send := Ratchet.zero }
    else
      switchSender { d' with
        downgraded := false
        passthroughUntil := if d.downgraded ∧ id ≠ 0 then (d.now + passthroughMs) % 2 ^ 64
          else d.passthroughUntil }

/-- Execute the transition `0` at once, announce any other. -/
def settle (d : Dave) (id : Nat) : Dave × List Out :=
  if id = 0 then (execute d 0, []) else (d, [.transition 23 id])

def transitionReady (d : Dave) (id : Nat) : Dave × List Out :=
  settle { d with
    pending := addPending d.pending id (if 0 < d.version then d.version else daveMaxProtocol) } id

def daveSelectProtocol (d : Dave) (version : Int) : Dave × List Out :=
  let d := { d with version := if daveMaxProtocol < version then daveMaxProtocol else version }
  if d.version = 0 then ({ d with passthroughUntil := uint64Max }, []) else (d, [.reinit])

def davePrepareTransition (d : Dave) (id : Nat) (version : Int) : Dave × List Out :=
  settle { d with
    pending := addPending d.pending id version
    passthroughUntil := if version = 0 then uint64Max else d.passthroughUntil } id

def davePrepareEpoch (d : Dave) (epoch : Nat) (version : Int) : Dave × List Out :=
  if epoch ≠ 1 then (d, [])
  else ({ d with version := if daveMaxProtocol < version then daveMaxProtocol else version },
    [.reinit])

/-- `dave_binary`, with what the MLS session made of the message: the result of
`mls_process_commit`, or that of `mls_process_welcome` as `1` and `-1`, and the
epoch afterwards.  The other messages only change the MLS session. -/
def daveBinary (d : Dave) (op : Nat) (payload : List UInt8) (result : Int) (epoch : Epoch) :
    Dave × List Out :=
  match payload with
  | hi :: lo :: _ =>
    let id := hi.toNat * 256 + lo.toNat
    if op = 29 ∨ op = 30 then
      if 0 < result then transitionReady (installEpoch d epoch) id
      else if result < 0 then (d, [.transition 31 id, .reinit])
      else (d, [])
    else (d, [])
  | _ => (d, [])

def daveTick (d : Dave) (now : Nat) : Dave :=
  { d with
    now := now
    recv := d.recv.map fun r =>
      if r.old.set ∧ r.oldUntil < now then { r with old := Ratchet.zero } else r
    passthroughUntil :=
      if d.passthroughUntil ≠ uint64Max ∧ d.passthroughUntil ≠ 0 ∧ d.passthroughUntil < now then 0
      else d.passthroughUntil }

/-! ## Frames -/

def makeIv (nonce : Nat) : List UInt8 := List.replicate 8 0 ++ Endian.store 4 nonce

def lebWrite (v : Nat) : List UInt8 :=
  if v < 128 then [UInt8.ofNat v]
  else UInt8.ofNat (v % 128 + 128) :: lebWrite (v / 128)

/-- A call of AES-GCM, with the base and the nonce that it came from. -/
structure Sealed where
  base : List UInt8
  nonce : Nat
  key : List UInt8
  iv : List UInt8

/-- `encrypt_frame`: the call of AES-GCM and the frame, if there is one. -/
def encryptFrame (cr : Crypto) (d : Dave) (frame : List UInt8) (clear : Nat) :
    Dave × Option (Sealed × List UInt8) :=
  let clear := min clear frame.length
  if ¬ d.send.set then (d, none)
  else
    let nonce := (d.nonce + 1) % 2 ^ 32
    let d := { d with nonce := nonce }
    match ratchetKey cr d.send (nonce / 2 ^ 24) with
    | none => (d, none)
    | some (send, key) =>
      let (data, tag) := cr.gcm key (makeIv nonce) (frame.take clear) (frame.drop clear)
      let supp := lebWrite nonce ++ if clear = 0 then [] else lebWrite 0 ++ lebWrite clear
      ({ d with send := send }, some (⟨d.send.base, nonce, key, makeIv nonce⟩,
        frame.take clear ++ data ++ tag.take tagBytes ++ supp ++
          [UInt8.ofNat (supp.length + tagBytes + 1 + 2), marker, marker]))

def isSilence (frame : List UInt8) : Bool := frame == [0xF8, 0xFF, 0xFE]

/-- `dave_encrypt_video`: the session and, for a sealed frame, the call. -/
def daveEncryptVideo (cr : Crypto) (d : Dave) (frame : List UInt8) (clear : Nat) :
    Dave × Option Sealed × Option (List UInt8) :=
  if d.version = 0 then (d, none, some frame)
  else
    let (d, out) := encryptFrame cr d frame clear
    (d, out.map Prod.fst, out.map Prod.snd)

def daveEncrypt (cr : Crypto) (d : Dave) (frame : List UInt8) :
    Dave × Option Sealed × Option (List UInt8) :=
  if d.version = 0 ∨ isSilence frame then (d, none, some frame)
  else
    let (d, out) := encryptFrame cr d frame 0
    (d, out.map Prod.fst, out.map Prod.snd)

end Voice
