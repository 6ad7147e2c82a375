import StrawOS.Mls.Tree

/-!
# Groups, messages and proposals

A group is the state of one epoch at one member.  Its proposals come from the
external sender, as public messages that are checked and queued.
-/

namespace Mls

def suite : Nat := 2
def wirePublic : Nat := 1
def ctProposal : Nat := 2
def ctCommit : Nat := 3
def senderMember : Nat := 1
def senderExternal : Nat := 2
def propAdd : Nat := 1
def propRemove : Nat := 3
def srcKeyPackage : Nat := 1
def srcCommit : Nat := 3
def extRatchetTree : Nat := 2
def extExternalSenders : Nat := 5
def maxQueue : Nat := 64

/-- A function of `mls.c` that touches trees and may fail with a text. -/
abbrev Try (α : Type) := Attempt Access String α

/-- Read, or fail with a text: the value and where the reader is then. -/
def Try.parse {α : Type} (e : String) (m : Parser α) (r : Rd) : Try (α × Rd) :=
  Attempt.require e ((m r).1.map fun a => (a, (m r).2))

/-- Give up unless all is read. -/
def Parser.done : Parser Unit := fun r => (if rDone r then some () else none, r)

structure Group where
  gid : Bytes
  epoch : Nat
  tree : Tree
  me : Nat
  ext : Bytes
  cth : Bytes
  ith : Bytes
  initSecret : Bytes
  exporter : Bytes
  confirmKey : Bytes
  membershipKey : Bytes
  authenticator : Bytes

/-- What `calloc` gives. -/
def Group.zero : Group :=
  ⟨[], 0, ⟨[], 0⟩, 0, [], [], zeros, zeros, zeros, zeros, zeros, zeros⟩

section

variable (cr : Crypto)

/-! ## The key schedule -/

def groupContext (g : Group) (epoch : Nat) (treeHash cth : Bytes) : Bytes :=
  wU16 1 ++ wU16 suite ++ wOpaque g.gid ++ wU64 epoch ++ wOpaque treeHash ++ wOpaque cth ++ g.ext

def groupCurrentContext (g : Group) : Logged Access Bytes := do
  let th ← treeRootHash cr g.tree
  pure (groupContext g g.epoch th g.cth)

def groupEpochSecret (g : Group) (epochSecret : Bytes) : Group :=
  { g with
    initSecret := deriveSecret cr epochSecret "init"
    exporter := deriveSecret cr epochSecret "exporter"
    confirmKey := deriveSecret cr epochSecret "confirm"
    membershipKey := deriveSecret cr epochSecret "membership"
    authenticator := deriveSecret cr epochSecret "authentication" }

/-- The secret of the members, of the joiner secret. -/
def memberSecret (joiner : Bytes) : Bytes := hkdfExtract cr joiner zeros

/-- The welcome secret that `group_from_joiner` and `join_welcome` derive. -/
def welcomeSecret (joiner : Bytes) : Bytes := deriveSecret cr (memberSecret cr joiner) "welcome"

def groupFromJoiner (g : Group) (joiner ctx : Bytes) : Group :=
  groupEpochSecret cr g (expandWithLabel cr (memberSecret cr joiner) "epoch" ctx nh)

def groupUpdateInterim (g : Group) (tag : Bytes) : Group :=
  { g with ith := cr.sha256 (g.cth ++ wOpaque tag) }

/-- What `finish_epoch` gives besides the group. -/
structure EpochKeys where
  joiner : Bytes
  welcome : Bytes
  tag : Bytes

def finishEpoch (ng old : Group) (content sig commitSecret : Bytes) :
    Logged Access (Group × EpochKeys) := do
  let ng := { ng with
    cth := cr.sha256 (old.ith ++ wU16 wirePublic ++ content ++ wOpaque sig)
    epoch := (old.epoch + 1) % 2 ^ 64 }
  let ctx ← groupCurrentContext cr ng
  let t := hkdfExtract cr old.initSecret commitSecret
  let joiner := expandWithLabel cr t "joiner" ctx nh
  let ng := groupFromJoiner cr ng joiner ctx
  let tag := cr.hmac ng.confirmKey ng.cth
  pure (groupUpdateInterim cr ng tag, ⟨joiner, welcomeSecret cr joiner, tag⟩)

end

/-- The loop of `group_external_sender`. -/
def externalSenderLoop : Nat → Rd → Option Bytes
  | 0, _ => none
  | fuel + 1, list =>
    if list.err ∨ list.rest = [] then none
    else
      let type := rU16 list
      let data := rSub type.2
      if type.1 = extExternalSenders then
        let senders := (rSub data.1).1
        if senders.err then none else some senders.rest
      else externalSenderLoop fuel data.2

def groupExternalSender (g : Group) : Option Bytes :=
  externalSenderLoop (g.ext.length + 1) (rSub (rd g.ext)).1

/-! ## Public messages -/

structure PublicMessage where
  content : Bytes
  gid : Bytes
  epoch : Nat
  senderType : Nat
  sender : Nat
  contentType : Nat
  body : Bytes
  sig : Bytes
  tag : Bytes
  mtag : Bytes

def skipKeyPackage : Parser Unit := do
  let _ ← Parser.u16
  let _ ← Parser.u16
  let _ ← Parser.sub
  let _ ← parseLeaf
  let _ ← Parser.sub
  let _ ← Parser.sub
  Parser.noErr

def skipProposal : Parser Unit := do
  let type ← Parser.u16
  if type = propAdd then skipKeyPackage
  else if type = propRemove then
    let _ ← Parser.u32
    Parser.noErr
  else Parser.check false

def skipUpdatePath : Parser Unit := do
  let _ ← parseLeaf
  let _ ← Parser.sub
  Parser.noErr

/-- The body of a message. -/
def skipBody (contentType : Nat) : Parser Unit := do
  if contentType = ctProposal then skipProposal
  else if contentType = ctCommit then
    let _ ← Parser.sub
    let hasPath ← Parser.u8
    if hasPath = 1 then skipUpdatePath else Parser.check (hasPath ≤ 1)
  else Parser.check false

/-- The content of a message: the group, the epoch, the sender, the type and the body. -/
def parseContent : Parser (Bytes × Nat × Nat × Nat × Nat × Bytes) := do
  let gid ← Parser.vector
  let epoch ← Parser.u64
  let senderType ← Parser.u8
  Parser.check (senderType = senderMember || senderType = senderExternal)
  let sender ← Parser.u32
  let _ ← Parser.sub
  let contentType ← Parser.u8
  let (body, _) ← Parser.span (skipBody contentType)
  pure (gid, epoch, senderType, sender, contentType, body)

/-- A vector that is there under a condition. -/
def vectorIf (b : Bool) : Parser Bytes := if b then Parser.vector else pure []

@[irreducible]
def parsePublicMessage : Parser PublicMessage := do
  let version ← Parser.u16
  Parser.check (version = 1)
  let wire ← Parser.u16
  Parser.check (wire = wirePublic)
  let (content, gid, epoch, senderType, sender, contentType, body) ← Parser.span parseContent
  let sig ← Parser.vector
  let tag ← vectorIf (contentType = ctCommit)
  let mtag ← vectorIf (senderType = senderMember)
  Parser.done
  pure ⟨content, gid, epoch, senderType, sender, contentType, body, sig, tag, mtag⟩

def wContentTbs (m : PublicMessage) (ctx : Bytes) : Bytes :=
  wU16 1 ++ wU16 wirePublic ++ m.content ++ (if m.senderType = senderMember then ctx else [])

def wAuth (m : PublicMessage) : Bytes :=
  wOpaque m.sig ++ (if m.contentType = ctCommit then wOpaque m.tag else [])

/-- The first pass of `parse_proposal_message`, which finds the end of the message. -/
def skipProposalMessage : Parser Unit := do
  let _ ← Parser.u16
  let _ ← Parser.u16
  let _ ← Parser.sub
  let _ ← Parser.u64
  let st ← Parser.u8
  if st = senderMember ∨ st = senderExternal then
    let _ ← Parser.u32
  let _ ← Parser.sub
  let contentType ← Parser.u8
  Parser.check (contentType = ctProposal)
  skipProposal
  let _ ← Parser.sub
  if st = senderMember then
    let _ ← Parser.sub
  Parser.noErr

/-- `parse_proposal_message`: the message, and the list behind it. -/
@[irreducible]
def parseProposalMessage (list : Rd) : Option PublicMessage × Rd :=
  match Parser.span skipProposalMessage list with
  | (some (used, _), rest) => ((parsePublicMessage (rd used)).1, rest)
  | (none, rest) => (none, rest)

/-! ## Proposals -/

structure Proposal where
  ref : Bytes
  type : Nat
  removed : Nat
  kp : Bytes

section

variable (cr : Crypto)

def checkExternalProposal (esKey : Bytes) (base : Group) (m : PublicMessage) : Try Unit := do
  Attempt.guard (m.senderType = senderExternal ∧ m.sender = 0)
    "proposal is not from the external sender"
  Attempt.guard (m.contentType = ctProposal) "expected a proposal"
  Attempt.guard (m.epoch = base.epoch) "proposal epoch mismatch"
  Attempt.guard (m.gid = base.gid) "proposal for another group"
  Attempt.guard (verifyWithLabel cr esKey "FramedContentTBS" (wContentTbs m []) m.sig)
    "bad external sender signature on proposal"

/-- The reference of a proposal. -/
def proposalRef (m : PublicMessage) : Bytes :=
  refHash cr "MLS 1.0 Proposal Reference" (wU16 wirePublic ++ m.content ++ wAuth m)

/-- What `queue_proposal` does with the key package of an added user. -/
def checkKeyPackage (users : List Nat) (kp : Rd) : Try Bytes := do
  let version := rU16 kp
  let keySuite := rU16 version.2
  Attempt.guard (keySuite.1 = suite) "key package uses another cipher suite"
  let initKey := rSub keySuite.2
  let (v, r) ← Try.parse "malformed key package" parseLeaf initKey.2
  let ext := rSub r
  let tbs := kp.rest.take (kp.rest.length - ext.2.rest.length)
  let (sig, r) ← Try.parse "malformed key package" Parser.vector ext.2
  Attempt.guard (rDone r) "malformed key package"
  Attempt.guard (verifyWithLabel cr v.sig "KeyPackageTBS" tbs sig) "bad key package signature"
  Attempt.guard (v.uid ∈ users) "add proposal for an unrecognized user"
  pure (kp.rest.take (kp.rest.length - r.rest.length))

/-- `queue_proposal`, with the number of proposals in the queue. -/
def queueProposal (count : Nat) (m : PublicMessage) (users : List Nat) : Try Proposal := do
  Attempt.guard (count < maxQueue) "too many queued proposals"
  let type := rU16 (rd m.body)
  if type.1 = propAdd then
    let kp ← checkKeyPackage cr users type.2
    pure ⟨proposalRef cr m, type.1, 0, kp⟩
  else
    Attempt.guard (type.1 = propRemove) "unexpected proposal type"
    pure ⟨proposalRef cr m, type.1, (rU32 type.2).1, []⟩

structure Added where
  leaf : Nat
  initKey : Bytes
  kpRef : Bytes

/-- The first loop of `apply_proposals`: the tree, and whether a member was removed. -/
def applyRemove (me : Nat) (acc : Tree × Bool) (p : Proposal) : Try (Tree × Bool) := do
  if p.type ≠ propRemove then pure acc
  else
    Attempt.guard (p.removed < acc.1.leaves) "remove proposal for an empty leaf"
    let n ← Attempt.lift (acc.1.get (2 * p.removed))
    Attempt.guard (n.type = .leaf) "remove proposal for an empty leaf"
    Attempt.guard (p.removed ≠ me) "we were removed from the group"
    let t ← Attempt.lift (treeRemove acc.1 p.removed)
    pure (t, true)

/-- Whether a leaf of a list belongs to a user. -/
def hasUser (t : Tree) (uid : Nat) : List Nat → Logged Access Bool
  | [] => pure false
  | l :: rest => do
    let n ← t.get (2 * l)
    if n.type = .leaf ∧ n.uid = uid then pure true else hasUser t uid rest

/-- The second loop of `apply_proposals`: the tree, and who was added. -/
def applyAdd (acc : Tree × List Added) (p : Proposal) : Try (Tree × List Added) := do
  if p.type ≠ propAdd then pure acc
  else
    let r := (rU16 (rU16 (rd p.kp)).2).2
    let (initKey, r) ← Try.parse "bad init key" (Parser.fixed npk) r
    let (v, _) ← Try.parse "bad leaf in key package" parseLeaf r
    let dup ← Attempt.lift (hasUser acc.1 v.uid (List.range acc.1.leaves))
    Attempt.guard (!dup) "duplicate user in group"
    let added ← Attempt.lift (treeAdd acc.1 v)
    let (t, leaf) ← Attempt.require "out of memory" added
    pure (t, acc.2 ++ [⟨leaf, initKey, refHash cr "MLS 1.0 KeyPackage Reference" p.kp⟩])

/-- `apply_proposals`: the tree, who was added and whether a member was removed. -/
def applyProposals (g : Group) (props : List Proposal) : Try (Tree × List Added × Bool) := do
  let (t, hasRemove) ← props.foldlM (applyRemove g.me) (g.tree, false)
  let (t, added) ← props.foldlM (applyAdd cr) (t, [])
  pure (t, added, hasRemove)

end

end Mls

/-!
# Update paths

A committer replaces the keys on the path from its leaf to the root, and sends the
secret of each node to the other side of it.  `create_update_path` makes the path
and `apply_update_path` follows it at the other members.
-/

namespace Mls

/-- What a leaf is signed with. -/
structure Identity where
  uid : Nat
  sigPriv : Bytes
  sigPub : Bytes

def wCapabilities : Bytes :=
  wVarint 2 ++ wU16 1 ++ wVarint 2 ++ wU16 suite ++ wVarint 0 ++ wVarint 0 ++ wVarint 2 ++ wU16 1

def wLeafCommon (enc sig : Bytes) (uid source : Nat) (ph : Bytes) : Bytes :=
  wOpaque enc ++ wOpaque sig ++ wU16 1 ++ wOpaque (wU64 uid) ++ wCapabilities ++
    wU8 (UInt8.ofNat source) ++
    (if source = srcKeyPackage then wU64 0 ++ wU64 (2 ^ 64 - 1)
      else if source = srcCommit then wOpaque ph else []) ++
    wVarint 0

section

variable (cr : Crypto)

def buildLeaf (me : Identity) (enc : Bytes) (source : Nat) (ph gid : Bytes) (leaf : Nat) : Bytes :=
  let common := wLeafCommon enc me.sigPub me.uid source ph
  let tbs := common ++ (if source ≠ srcKeyPackage then wOpaque gid ++ wU32 leaf else [])
  common ++ wOpaque (signWithLabel cr me.sigPriv "LeafNodeTBS" tbs)

/-! ## Path secrets -/

/-- The secret of the next node of a path. -/
def nextSecret (ps : Bytes) : Bytes := deriveSecret cr ps "path"

/-- The key pair of a node of a path. -/
def nodeKeys (ps : Bytes) : Option (Bytes × Bytes) := deriveKeyPair cr (deriveSecret cr ps "node")

/-- The path secret of a node, counted from the first of the path. -/
def pathSecret (ps : Bytes) : Nat → Bytes
  | 0 => ps
  | k + 1 => nextSecret cr (pathSecret ps k)

/-- The loop of `set_path_keys`: the tree, the secret, and whether all keys match.  A
key pair that cannot be derived matches no key. -/
def pathKeyStep (acc : Tree × Bytes × Bool) (x : Nat) : Logged Access (Tree × Bytes × Bool) := do
  let (t, ps, ok) := acc
  let keys := (nodeKeys cr ps).getD ([], [])
  let n ← t.get x
  let t ← t.set x { n with priv := some keys.1 }
  pure (t, nextSecret cr ps, ok && n.type = .parent && n.enc = keys.2)

/-- `set_path_keys`, for the nodes of the path from the one that is shared. -/
def setPathKeys (t : Tree) (nodes : List Nat) (ps : Bytes) : Logged Access (Tree × Bytes × Bool) :=
  nodes.foldlM (pathKeyStep cr) (t, ps, true)

structure PathContext where
  epoch : Nat
  cth : Bytes

/-! ## Creating a path -/

/-- The loop of `create_update_path` that sets the keys of the nodes: the tree and the
secret. -/
def pathNodeStep (acc : Tree × Bytes) (x : Nat) : Try (Tree × Bytes) := do
  let n ← Attempt.lift (acc.1.get x)
  let keys ← Attempt.require "could not derive a path key" (nodeKeys cr acc.2)
  let t ← Attempt.lift
    (acc.1.set x { n with type := .parent, enc := keys.2, priv := some keys.1 })
  pure (t, nextSecret cr acc.2)

/-- The ciphertexts of a node, one for each node of the resolution. -/
def sealLoop (rnd : Entropy) (t : Tree) (ctx ps : Bytes) (k : Nat) :
    List Nat → Nat → Try Bytes
  | [], _ => pure []
  | x :: rest, j => do
    let n ← Attempt.lift (t.get x)
    let ct ← Attempt.require "could not encrypt the update path"
      (encryptWithLabel cr (rnd.bytes (.pathSeal k j)) n.enc "UpdatePathNode" ctx ps)
    let cts ← sealLoop rnd t ctx ps k rest (j + 1)
    pure (ct ++ cts)

/-- The loop of `create_update_path` that encrypts the secrets. -/
def sealNodes (rnd : Entropy) (t : Tree) (me : Nat) (exclude : List Nat) (ctx : Bytes) :
    List Nat → Bytes → Nat → Try Bytes
  | [], _, _ => pure []
  | x :: rest, ps, k => do
    let n ← Attempt.lift (t.get x)
    let res ← Attempt.lift (resolution t exclude (copathChild x (2 * me)) 512)
    let cts ← sealLoop cr rnd t ctx ps k res 0
    let nodes ← sealNodes rnd t me exclude ctx rest (nextSecret cr ps) (k + 1)
    pure (wOpaque n.enc ++ wOpaque cts ++ nodes)

/-- What `create_update_path` gives. -/
structure Path where
  tree : Tree
  path : Bytes
  fdp : List Nat
  commitSecret : Bytes

def createUpdatePath (rnd : Entropy) (idn : Identity) (g : Group) (exclude : List Nat)
    (pc : PathContext) : Try Path := do
  let fdp ← Attempt.lift (treeFilteredPath g.tree g.me)
  let t ← Attempt.lift (blankPath g.tree g.me)
  let leafKeys ← Attempt.require "could not create a leaf key"
    (deriveKeyPair cr (rnd.bytes .leafKey))
  let (t, commitSecret) ← fdp.foldlM (pathNodeStep cr) (t, rnd.bytes .pathSecret)
  let (t, leafPh) ← Attempt.lift (treeSetParentHashes cr t g.me fdp)
  let leaf := buildLeaf cr idn leafKeys.2 srcCommit leafPh g.gid g.me
  let (v, _) ← Try.parse "could not build the commit leaf" parseLeaf (rd leaf)
  let t ← Attempt.lift (t.set (2 * g.me) { nodeSetLeaf v with priv := some leafKeys.1 })
  let th ← Attempt.lift (treeRootHash cr t)
  let ctx := groupContext g pc.epoch th pc.cth
  let nodes ← sealNodes cr rnd t g.me exclude ctx fdp (rnd.bytes .pathSecret) 0
  pure ⟨t, leaf ++ wOpaque nodes, fdp, commitSecret⟩

/-! ## Following a path -/

/-- The loop of `apply_update_path` that reads the keys of the nodes: the tree, the
reader, and where each node began. -/
def readNodeStep (acc : Tree × Rd × List Rd) (x : Nat) : Logged Access (Tree × Rd × List Rd) := do
  let (t, nodes, starts) := acc
  if nodes.err ∨ nodes.rest = [] then pure acc
  else
    let key := rFixed nodes npk
    let n ← t.get x
    let t ← t.set x { n with type := .parent, enc := key.1.getD n.enc }
    pure (t, (rSub key.2).2, starts ++ [nodes])

/-- The first node of a resolution that lies above a leaf and has a private key, with
its position. -/
def pickLoop (t : Tree) (me : Nat) : List Nat → Nat → Logged Access (Option (Nat × Nat))
  | [], _ => pure none
  | x :: rest, j => do
    let n ← t.get x
    if n.priv.isSome && tInSubtree x (2 * me) then pure (some (j, x))
    else pickLoop t me rest (j + 1)

/-- The ciphertexts up to the one at a position: the last pair, and the reader. -/
def pickCiphertext : Nat → Rd → (Option Bytes × Option Bytes) × Rd
  | 0, r => ((none, none), r)
  | count + 1, r =>
    let kem := rOpaque r
    let ct := rOpaque kem.2
    if count = 0 then ((kem.1, ct.1), ct.2) else pickCiphertext count ct.2

/-- The secret of the first node that a member shares with the committer. -/
def openPath (t : Tree) (me : Nat) (exclude : List Nat) (ctx : Bytes) (x : Nat) (start : Rd) :
    Try Bytes := do
  let res ← Attempt.lift (resolution t exclude (pathChild x (2 * me)) 512)
  let pick ← Attempt.lift (pickLoop t me res 0)
  let (j, y) ← Attempt.require "no key to decrypt the update path" pick
  let cts := (rSub (rFixed start npk).2).1
  let found := pickCiphertext (j + 1) cts
  Attempt.guard (!found.2.err) "missing update path ciphertext"
  let holder ← Attempt.lift (t.get y)
  let ps ← Attempt.require "could not decrypt the update path"
    (decryptWithLabel cr (holder.priv.getD []) holder.enc "UpdatePathNode" ctx
      (found.1.1.getD []) (found.1.2.getD []))
  Attempt.guard (ps.length = nh) "could not decrypt the update path"
  pure ps

/-- `apply_update_path`: the tree and the commit secret. -/
def applyUpdatePath (g : Group) (sender : Nat) (r : Rd) (exclude : List Nat) (pc : PathContext) :
    Try (Tree × Bytes × Rd) := do
  let (v, r) ← Try.parse "bad update path leaf" parseLeaf r
  Attempt.guard (v.source = srcCommit) "bad update path leaf"
  Attempt.guard (sender < g.tree.leaves) "update path from an empty leaf"
  let n ← Attempt.lift (g.tree.get (2 * sender))
  Attempt.guard (n.type = .leaf) "update path from an empty leaf"
  let fdp ← Attempt.lift (treeFilteredPath g.tree sender)
  let t ← Attempt.lift (blankPath g.tree sender)
  let t ← Attempt.lift (t.set (2 * sender) (nodeSetLeaf v))
  let nodes := rSub r
  let (t, rest, starts) ← Attempt.lift (fdp.foldlM readNodeStep (t, nodes.1, []))
  Attempt.guard (rDone rest ∧ starts.length = fdp.length) "update path does not match the tree"
  let (t, leafPh) ← Attempt.lift (treeSetParentHashes cr t sender fdp)
  Attempt.guard (v.ph = leafPh) "parent hash mismatch in update path"
  let th ← Attempt.lift (treeRootHash cr t)
  let ctx := groupContext g pc.epoch th pc.cth
  let lca := fdp.findIdx fun x => tInSubtree x (2 * g.me)
  let (x, start) ← Attempt.require "update path does not cover us" (fdp.zip starts)[lca]?
  let ps ← openPath cr t g.me exclude ctx x start
  let (t, commitSecret, ok) ← Attempt.lift (setPathKeys cr t (fdp.drop lca) ps)
  Attempt.guard ok "update path keys do not match the path secret"
  pure (t, commitSecret, nodes.2)

end

end Mls
