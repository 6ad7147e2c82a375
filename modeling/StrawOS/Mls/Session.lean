import StrawOS.Lib.Machine
import StrawOS.Mls.Group

/-!
# The session of a member

A session has a group, or a pending one of itself alone, a queue of proposals and a
commit that it prepared for them.  The functions of `mls.h` change it with whatever
data arrives.
-/

namespace Mls

structure Session where
  idn : Identity
  gid : Bytes
  haveLeaf : Bool
  leafPriv : Bytes
  leafPub : Bytes
  leafRaw : Bytes
  haveKp : Bool
  initPriv : Bytes
  initPub : Bytes
  kpRef : Bytes
  es : Bytes
  esKey : Bytes
  group : Option Group
  pending : Option Group
  queue : List Proposal
  outCommit : Bytes
  outState : Option Group
  err : String

/-- `mls_session_new`, with the key pair of `signing_key_pair`. -/
def mlsSessionNew (userId groupId : Nat) (sigPriv sigPub : Bytes) : Session :=
  { idn := ⟨userId, sigPriv, sigPub⟩, gid := wU64 groupId, haveLeaf := false
    leafPriv := List.replicate nsk 0, leafPub := List.replicate npk 0, leafRaw := []
    haveKp := false, initPriv := List.replicate nsk 0, initPub := List.replicate npk 0
    kpRef := zeros, es := [], esKey := List.replicate npk 0, group := none, pending := none
    queue := [], outCommit := [], outState := none, err := "" }

def Session.fail (s : Session) (msg : String) : Session := { s with err := msg }

def clearPending (s : Session) : Session :=
  { s with
    pending := none, outState := none, outCommit := [], queue := [], haveKp := false
    haveLeaf := false, leafRaw := [] }

/-- The group that proposals are for. -/
def Session.base (s : Session) : Option Group := s.pending.or s.group

section

variable (cr : Crypto)

/-- The extensions of a new group: the external sender. -/
def pendingExt (es : Bytes) : Bytes :=
  wOpaque (wU16 extExternalSenders ++ wOpaque (wOpaque es))

/-- The group that `create_pending_group` makes of a tree. -/
def pendingGroup (gid es : Bytes) (t : Tree) (epochSecret : Bytes) : Group :=
  let g := groupEpochSecret cr { Group.zero with gid := gid, tree := t, ext := pendingExt es }
    epochSecret
  groupUpdateInterim cr g (cr.hmac g.confirmKey [])

/-- `create_pending_group`.  When the leaf cannot be read the pointer keeps the group
that was freed. -/
def createPendingGroup (rnd : Entropy) (s : Session) : Logged Access Session :=
  if !s.haveLeaf || s.es.isEmpty then pure s
  else
    match (parseLeaf (rd s.leafRaw)).1 with
    | some v => do
      let t ← (treeResize ⟨[], 0⟩ 1).set 0 { nodeSetLeaf v with priv := some s.leafPriv }
      pure { s with pending := some (pendingGroup cr s.gid s.es t (rnd.bytes .epochSecret)) }
    | none => pure s

def mlsSessionInit (rnd : Entropy) (s : Session) : Logged Access Session := do
  let s := { clearPending s with group := none, err := "" }
  match deriveKeyPair cr (rnd.bytes .leafKey) with
  | some (priv, pub) =>
    createPendingGroup cr rnd { s with
      leafPriv := priv, leafPub := pub, haveLeaf := true
      leafRaw := buildLeaf cr s.idn pub srcKeyPackage [] [] 0 }
  | none => pure (s.fail "could not create the leaf node")

def mlsSetExternalSender (rnd : Entropy) (s : Session) (data : Bytes) :
    Logged Access (Bool × Session) :=
  if s.group.isSome then pure (false, s.fail "external sender changed after joining a group")
  else
    match rFixed (rd data) npk with
    | (none, _) => pure (false, s.fail "bad external sender key")
    | (some key, r) =>
      let s := { s with esKey := key }
      let type := rU16 r
      let credential := rSub type.2
      if type.1 ≠ 1 then
        pure (false, s.fail "external sender has an unexpected credential type")
      else if !rDone credential.2 then pure (false, s.fail "malformed external sender")
      else do
        let s ← createPendingGroup cr rnd { s with es := data }
        pure (true, s)

/-- What `mls_key_package` signs. -/
def keyPackageTbs (initPub leafRaw : Bytes) : Bytes :=
  wU16 1 ++ wU16 suite ++ wOpaque initPub ++ leafRaw ++ wVarint 0

def mlsKeyPackage (rnd : Entropy) (s : Session) : Option Bytes × Session :=
  if !s.haveLeaf then (none, s.fail "no leaf node")
  else
    match deriveKeyPair cr (rnd.bytes .initKey) with
    | none => (none, s.fail "could not create an init key")
    | some (priv, pub) =>
      let tbs := keyPackageTbs pub s.leafRaw
      let kp := tbs ++ wOpaque (signWithLabel cr s.idn.sigPriv "KeyPackageTBS" tbs)
      (some kp, { s with
        initPriv := priv, initPub := pub, haveKp := true
        kpRef := refHash cr "MLS 1.0 KeyPackage Reference" kp })

/-! ## Creating a commit -/

/-- The content of a commit. -/
def commitContent (base : Group) (queue : List Proposal) (path : Option Bytes) : Bytes :=
  wOpaque base.gid ++ wU64 base.epoch ++ wU8 (UInt8.ofNat senderMember) ++ wU32 base.me ++
    wVarint 0 ++ wU8 (UInt8.ofNat ctCommit) ++
    wOpaque (queue.flatMap fun p => wU8 2 ++ wOpaque p.ref) ++
    wU8 (if path.isSome then 1 else 0) ++ path.getD []

/-- The group information for the welcome, with its signature. -/
def groupInfo (sigPriv : Bytes) (ng : Group) (tag ctx : Bytes) : Bytes :=
  let gi := ctx ++ wOpaque (wU16 extRatchetTree ++ wOpaque (treeSerialize ng.tree)) ++ wOpaque tag ++
    wU32 ng.me
  gi ++ wOpaque (signWithLabel cr sigPriv "GroupInfoTBS" gi)

/-- The key and the nonce of the group information. -/
def welcomeKeys (secret : Bytes) : Bytes × Bytes :=
  (expandWithLabel cr secret "key" [] nk, expandWithLabel cr secret "nonce" [] nn)

/-- The secrets for an added member: the joiner secret, and the path secret if there is
a path. -/
def groupSecrets (joiner : Bytes) (path : Option (Bytes × List Nat)) (leaf : Nat) : Bytes :=
  wOpaque joiner ++
    (match path with
      | some (ps, fdp) =>
        wU8 1 ++ wOpaque (pathSecret cr ps (fdp.findIdx fun x => tInSubtree x (2 * leaf)))
      | none => wU8 0) ++
    wVarint 0

/-- The loop of `create_commit` over the added members.  What cannot be encrypted is
left out. -/
def welcomeLoop (rnd : Entropy) (egi joiner : Bytes) (path : Option (Bytes × List Nat)) :
    List Added → Nat → Bytes
  | [], _ => []
  | a :: rest, i =>
    wOpaque a.kpRef ++
      (encryptWithLabel cr (rnd.bytes (.welcomeSeal i)) a.initKey "Welcome" egi
        (groupSecrets cr joiner path a.leaf)).getD [] ++
      welcomeLoop rnd egi joiner path rest (i + 1)

/-- The welcome for the added members. -/
def welcome (rnd : Entropy) (keys : EpochKeys) (gi : Bytes) (path : Option (Bytes × List Nat))
    (added : List Added) : Bytes :=
  let (key, nonce) := welcomeKeys cr keys.welcome
  let (ct, gtag) := cr.gcm key nonce gi
  let egi := ct ++ gtag
  wU16 suite ++ wOpaque (welcomeLoop cr rnd egi keys.joiner path added 0) ++ wOpaque egi

/-- What `create_commit` prepares: the message, the commit in it and the next group. -/
structure Prepared where
  out : Bytes
  commit : Bytes
  state : Group

/-- The update path of a commit, if it has one: the tree, the path, its nodes and the
commit secret. -/
def commitPath (rnd : Entropy) (idn : Identity) (ng : Group) (exclude : List Nat)
    (pc : PathContext) (withPath : Bool) : Try (Tree × Option Path) := do
  if withPath then
    let p ← createUpdatePath cr rnd idn ng exclude pc
    pure (p.tree, some p)
  else pure (ng.tree, none)

def createCommit (rnd : Entropy) (idn : Identity) (base : Group) (queue : List Proposal) :
    Try Prepared := do
  let (t, added, hasRemove) ← applyProposals cr base queue
  let (t, path) ← commitPath cr rnd idn { base with tree := t } (added.map (·.leaf))
    ⟨(base.epoch + 1) % 2 ^ 64, base.cth⟩ (hasRemove || queue.isEmpty)
  let oldCtx ← Attempt.lift (groupCurrentContext cr base)
  let content := commitContent base queue (path.map (·.path))
  let tbs := wU16 1 ++ wU16 wirePublic ++ content ++ oldCtx
  let sig := signWithLabel cr idn.sigPriv "FramedContentTBS" tbs
  let (ng, keys) ← Attempt.lift (finishEpoch cr { base with tree := t } base content sig
    ((path.map (·.commitSecret)).getD zeros))
  let mtag := cr.hmac base.membershipKey (tbs ++ wOpaque sig ++ wOpaque keys.tag)
  let msg := wU16 1 ++ wU16 wirePublic ++ content ++ wOpaque sig ++ wOpaque keys.tag ++ wOpaque mtag
  if added.isEmpty then pure ⟨msg, msg, ng⟩
  else
    let ctx ← Attempt.lift (groupCurrentContext cr ng)
    let gi := groupInfo cr idn.sigPriv ng keys.tag ctx
    pure ⟨msg ++ welcome cr rnd keys gi
      (path.map fun p => (rnd.bytes .pathSecret, p.fdp)) added, msg, ng⟩

/-! ## Proposals -/

/-- A message of the list, checked and made an entry of the queue. -/
def acceptProposal (esKey : Bytes) (base : Group) (users : List Nat) (count : Nat)
    (m : PublicMessage) : Try Proposal := do
  checkExternalProposal cr esKey base m
  queueProposal cr count m users

/-- One round of the first loop of `mls_process_proposals`: the rest of the list, and
the entry. -/
def nextProposal (esKey : Bytes) (base : Group) (users : List Nat) (count : Nat) (list : Rd) :
    Except String (Rd × Proposal) :=
  match parseProposalMessage list with
  | (none, _) => .error "malformed proposal"
  | (some m, list) => (acceptProposal cr esKey base users count m).value.map fun p => (list, p)

/-- The first loop of `mls_process_proposals`: the queue, and why it stopped. -/
def proposalsLoop (esKey : Bytes) (base : Group) (users : List Nat) :
    Nat → Rd → List Proposal → List Proposal × Option String
  | 0, _, queue => (queue, none)
  | fuel + 1, list, queue =>
    if list.rest = [] then (queue, none)
    else
      match nextProposal cr esKey base users queue.length list with
      | .error e => (queue, some e)
      | .ok (list, p) => proposalsLoop esKey base users fuel list (queue ++ [p])

/-- The position of the last proposal with a reference. -/
def findRef (queue : List Proposal) (ref : Bytes) : Option Nat :=
  (queue.reverse.findIdx? fun p => p.ref = ref).map fun i => queue.length - 1 - i

/-- The second loop of `mls_process_proposals`, which revokes. -/
def revokeLoop : Nat → Rd → List Proposal → List Proposal × Option String
  | 0, _, queue => (queue, none)
  | fuel + 1, list, queue =>
    if list.rest = [] then (queue, none)
    else
      match rOpaque list with
      | (none, _) => (queue, some "malformed proposal ref")
      | (some ref, list) =>
        if ref.length ≠ nh then (queue, some "malformed proposal ref")
        else
          match findRef queue ref with
          | none => (queue, some "revoked an unknown proposal")
          | some i => revokeLoop fuel list (queue.eraseIdx i)

/-- What the loops of `mls_process_proposals` leave of the queue. -/
def changeQueue (s : Session) (base : Group) (op : UInt8) (list : Rd) (users : List Nat) :
    List Proposal × Option String :=
  if op = 0 then proposalsLoop cr s.esKey base users (list.rest.length + 1) list s.queue
  else if op = 1 then revokeLoop (list.rest.length + 1) list s.queue
  else (s.queue, some "unknown proposals operation")

/-- What `mls_process_proposals` does once the queue is changed. -/
def prepareCommit (rnd : Entropy) (s : Session) (base : Group) :
    Logged Access (Int × Bytes × Session) :=
  if s.queue.isEmpty then pure (0, [], { s with outState := none, outCommit := [] })
  else do
    let prepared ← (createCommit cr rnd s.idn base s.queue).run
    match prepared with
    | .ok p => pure (1, p.out, { s with outState := some p.state, outCommit := p.commit })
    | .error e => pure (-1, [], s.fail e)

def mlsProcessProposals (rnd : Entropy) (s : Session) (data : Bytes) (users : List Nat) :
    Logged Access (Int × Bytes × Session) :=
  match s.base, data with
  | none, _ => pure (-1, [], s.fail "proposals arrived without a group")
  | some _, [] => pure (-1, [], s.fail "empty proposals message")
  | some base, op :: data =>
    let (list, r) := rSub (rd data)
    if list.err || !rDone r then pure (-1, [], s.fail "malformed proposals message")
    else
      match changeQueue cr s base op list users with
      | (queue, some e) => pure (-1, [], ({ s with queue := queue } : Session).fail e)
      | (queue, none) => prepareCommit cr rnd { s with queue := queue } base

/-! ## Commits -/

def adopt (s : Session) (g : Group) : Session := clearPending { s with group := some g }

/-- The loop of `handle_commit` over the references. -/
def refsLoop (queue : List Proposal) : Nat → Rd → List Proposal → Try (List Proposal)
  | 0, _, props => pure props
  | fuel + 1, list, props => do
    if list.err ∨ list.rest = [] then
      Attempt.guard (!list.err) "malformed commit"
      pure props
    else
      let type := rU8 list
      Attempt.guard (type.1 = 2) "commit has an inline proposal"
      let (ref, r) ← Try.parse "malformed proposal ref in commit" Parser.vector type.2
      Attempt.guard (ref.length = nh ∧ props.length < maxQueue) "malformed proposal ref in commit"
      let i ← Attempt.require "commit references an unknown proposal" (findRef queue ref)
      let p ← Attempt.require "commit references an unknown proposal" queue[i]?
      refsLoop queue fuel r (props ++ [p])

/-- What `handle_commit` checks of a message before it looks at the body. -/
def checkCommit (base : Group) (m : PublicMessage) : Try Unit := do
  Attempt.guard (m.senderType = senderMember ∧ m.contentType = ctCommit) "not a member commit"
  Attempt.guard (m.epoch = base.epoch) "commit epoch mismatch"
  Attempt.guard (m.gid = base.gid) "commit for another group"
  Attempt.guard (m.sender < base.tree.leaves) "commit from an unknown member"
  let n ← Attempt.lift (base.tree.get (2 * m.sender))
  Attempt.guard (n.type = .leaf) "commit from an unknown member"
  let oldCtx ← Attempt.lift (groupCurrentContext cr base)
  let tbs := wContentTbs m oldCtx
  Attempt.guard (verifyWithLabel cr n.sig "FramedContentTBS" tbs m.sig) "bad commit signature"
  Attempt.guard (cr.hmac base.membershipKey (tbs ++ wAuth m) = m.mtag) "bad membership tag"

/-- The update path of a commit that came: the tree, the commit secret and the reader. -/
def followPath (ng : Group) (sender : Nat) (hasPath : Nat) (r : Rd) (exclude : List Nat)
    (pc : PathContext) : Try (Tree × Bytes × Rd) := do
  if hasPath = 1 then applyUpdatePath cr ng sender r exclude pc else pure (ng.tree, zeros, r)

/-- `handle_commit`: the next group. -/
def handleCommit (base : Group) (queue : List Proposal) (m : PublicMessage) : Try Group := do
  checkCommit cr base m
  let list := rSub (rd m.body)
  let props ← refsLoop queue (list.1.rest.length + 1) list.1 []
  let (t, added, hasRemove) ← applyProposals cr base props
  let hasPath := rU8 list.2
  let (t, commitSecret, r) ← followPath cr { base with tree := t } m.sender hasPath.1 hasPath.2
    (added.map (·.leaf)) ⟨(base.epoch + 1) % 2 ^ 64, base.cth⟩
  Attempt.guard (hasPath.1 ≤ 1 ∧ rDone r ∧ (hasRemove → hasPath.1 = 1)) "malformed commit"
  let (ng, keys) ← Attempt.lift (finishEpoch cr { base with tree := t } base m.content m.sig
    commitSecret)
  Attempt.guard (keys.tag = m.tag) "confirmation tag mismatch"
  pure ng

/-- What `mls_process_commit` does with a commit that this session did not prepare. -/
def processOther (s : Session) (data : Bytes) : Logged Access (Int × Session) :=
  match s.group with
  | none => pure (0, s)
  | some base =>
    if s.queue.isEmpty then pure (-1, s.fail "commit without queued proposals")
    else
      match (parsePublicMessage (rd data)).1 with
      | none => pure (-1, s.fail "malformed commit")
      | some m => do
        let next ← (handleCommit cr base s.queue m).run
        match next with
        | .ok ng => pure (1, adopt s ng)
        | .error e => pure (-1, s.fail e)

def mlsProcessCommit (s : Session) (data : Bytes) : Logged Access (Int × Session) :=
  if s.base.isNone then pure (0, s)
  else
    match s.outState with
    | some ng => if s.outCommit = data then pure (1, adopt s ng) else processOther cr s data
    | none => processOther cr s data

end

end Mls

/-!
# Joining by a welcome

`join_welcome` finds the secrets for the own key package, opens the group
information and takes the tree and the epoch from it.  The last section puts the
functions of `mls.h` together: a session, and the calls of its owner.
-/

namespace Mls

section

variable (cr : Crypto)

/-- The loop of `join_welcome` over the secrets: the ones for a key package. -/
def findSecret (kpRef : Bytes) : Nat → Rd → Option (Bytes × Bytes)
  | 0, _ => none
  | fuel + 1, secrets =>
    if secrets.err ∨ secrets.rest = [] then none
    else
      let ref := rOpaque secrets
      let kem := rOpaque ref.2
      let ct := rOpaque kem.2
      if ct.2.err = false ∧ ref.1 = some kpRef then some (kem.1.getD [], ct.1.getD [])
      else findSecret kpRef fuel ct.2

/-- The group secrets: the joiner secret, and the path secret if there is one. -/
def parseGroupSecrets : Parser (Bytes × Option Bytes) := do
  let joiner ← Parser.fixed nh
  let opt ← Parser.u8
  let ps ← (if opt = 1 then do
    let ps ← Parser.fixed nh
    pure (some ps)
  else pure none : Parser (Option Bytes))
  let psks ← Parser.sub
  Parser.check (opt ≤ 1 && psks.rest.isEmpty)
  Parser.done
  pure (joiner, ps)

/-- What the group information says of the group, before the extensions: the group,
the epoch, the hash of the tree, the transcript hash and the extensions of the context. -/
structure ContextView where
  gid : Bytes
  epoch : Nat
  th : Bytes
  cth : Bytes
  ext : Bytes

/-- The context at the front of the group information, after the version. -/
def parseContext : Parser ContextView := do
  let gid ← Parser.vector
  Parser.check (gid.length ≤ 32)
  let epoch ← Parser.u64
  let th ← Parser.fixed nh
  let cth ← Parser.vector
  Parser.check (cth.length ≤ nh)
  let (ext, _) ← Parser.span Parser.sub
  Parser.noErr
  pure ⟨gid, epoch, th, cth, ext⟩

/-- A tree that takes all of its input. -/
def wholeTree (d : Rd) : Option Tree := (do
  let t ← treeParse
  Parser.done
  pure t : Parser Tree) d |>.1

/-- The loop of `join_welcome` over the extensions: the tree, and the reader. -/
def treeLoop (external : Bool) : Nat → Rd → Option Tree → Option Tree × Rd
  | 0, exts, tree => (tree, exts)
  | fuel + 1, exts, tree =>
    if exts.err ∨ exts.rest = [] then (tree, exts)
    else
      let type := rU16 exts
      let d := rSub type.2
      if type.1 = extRatchetTree ∧ tree.isNone ∧ ¬ external then
        match wholeTree d.1 with
        | some t => treeLoop external fuel d.2 (some t)
        | none => (none, d.2)
      else treeLoop external fuel d.2 tree

/-- What the group information holds. -/
structure GroupInfo where
  ctx : Bytes
  view : ContextView
  tree : Tree
  tag : Bytes
  signer : Nat
  tbs : Bytes
  sig : Bytes

/-- The part of `join_welcome` that reads the group information. -/
def readGroupInfo (gi : Bytes) (extTree : Option Bytes) : Try GroupInfo := do
  let version := rU16 (rd gi)
  Attempt.guard (version.1 = 1) "group info has the wrong version"
  let s := rU16 version.2
  Attempt.guard (s.1 = suite) "group info has the wrong version"
  let (view, r) ← Try.parse "malformed group info" parseContext s.2
  let exts := rSub r
  let found := treeLoop extTree.isSome (exts.1.rest.length + 1) exts.1 none
  let tree := match extTree with
    | some data => wholeTree (rd data)
    | none => found.1
  let tag := rFixed exts.2 nh
  let signer := rU32 tag.2
  let sig := rOpaque signer.2
  let t ← Attempt.require "group info has no ratchet tree" tree
  Attempt.guard (!found.2.err && rDone sig.2) "malformed group info"
  pure ⟨gi.take (gi.length - r.rest.length), view, t, tag.1.getD [], signer.1,
    gi.take (gi.length - signer.2.rest.length), sig.1.getD []⟩

/-- The loop of `join_welcome` that looks for the own leaf: the last one. -/
def findMe (t : Tree) (enc sig : Bytes) : List Nat → Option Nat → Logged Access (Option Nat)
  | [], me => pure me
  | l :: rest, me => do
    let n ← t.get (2 * l)
    findMe t enc sig rest (if n.type = .leaf ∧ n.enc = enc ∧ n.sig = sig then some l else me)

/-- The private keys that the path secret of a welcome gives. -/
def joinPath (t : Tree) (signer me : Nat) : Option Bytes → Try Tree
  | none => pure t
  | some ps => do
    let fdp ← Attempt.lift (treeFilteredPath t signer)
    let lca := fdp.findIdx fun x => tInSubtree x (2 * me)
    Attempt.guard (lca < fdp.length) "path secret in welcome does not match the tree"
    let (t, _, ok) ← Attempt.lift (setPathKeys cr t (fdp.drop lca) ps)
    Attempt.guard ok "path secret in welcome does not match the tree"
    pure t

/-- The group secrets and the group information of a welcome. -/
def openWelcome (s : Session) (data : Bytes) : Try (Bytes × Option Bytes × Bytes) := do
  let suiteOf := rU16 (rd data)
  Attempt.guard (suiteOf.1 = suite) "welcome for another cipher suite"
  let secrets := rSub suiteOf.2
  let (egi, r) ← Try.parse "malformed welcome" Parser.vector secrets.2
  Attempt.guard (rDone r ∧ 16 ≤ egi.length) "malformed welcome"
  let (kem, ct) ← Attempt.require "welcome is not for our key package"
    (findSecret s.kpRef (secrets.1.rest.length + 1) secrets.1)
  let gs ← Attempt.require "could not decrypt the group secrets"
    (decryptWithLabel cr s.initPriv s.initPub "Welcome" egi kem ct)
  let ((joiner, ps), _) ← Try.parse "malformed group secrets" parseGroupSecrets (rd gs)
  let (key, nonce) := welcomeKeys cr (welcomeSecret cr joiner)
  let gi ← Attempt.require "could not decrypt the group info"
    (cr.gcmCheck key nonce (egi.take (egi.length - 16)) (egi.drop (egi.length - 16)))
  pure (joiner, ps, gi)

def joinWelcome (s : Session) (data : Bytes) (extTree : Option Bytes) : Try Group := do
  let (joiner, ps, gi) ← openWelcome cr s data
  let info ← readGroupInfo gi extTree
  let t := info.tree
  let th ← Attempt.lift (treeRootHash cr t)
  Attempt.guard (th = info.view.th) "ratchet tree does not match the tree hash"
  Attempt.guard (info.signer < t.leaves) "bad group info signature"
  let n ← Attempt.lift (t.get (2 * info.signer))
  Attempt.guard (n.type = .leaf ∧ verifyWithLabel cr n.sig "GroupInfoTBS" info.tbs info.sig)
    "bad group info signature"
  let mine ← Attempt.lift (findMe t s.leafPub s.idn.sigPub (List.range t.leaves) none)
  let me ← Attempt.require "we are not in the welcomed group" mine
  let n ← Attempt.lift (t.get (2 * me))
  let t ← Attempt.lift (t.set (2 * me) { n with priv := some s.leafPriv })
  let g := groupFromJoiner cr { Group.zero with
    gid := info.view.gid, epoch := info.view.epoch, tree := t, me := me, ext := info.view.ext
    cth := info.view.cth } joiner info.ctx
  Attempt.guard (cr.hmac g.confirmKey g.cth = info.tag) "confirmation tag mismatch in welcome"
  let g := groupUpdateInterim cr g info.tag
  let t ← joinPath cr g.tree info.signer me ps
  pure { g with tree := t }

/-! ## The roster -/

/-- The loops of `check_welcome_roster`. -/
def rosterLoop (t : Tree) (users : Option (List Nat)) : List Nat → Try Unit
  | [] => pure ()
  | l :: rest => do
    let n ← Attempt.lift (t.get (2 * l))
    if n.type = .leaf then
      Attempt.guard (users.all fun us => n.uid ∈ us) "welcome lists an unrecognized user"
      let dup ← Attempt.lift (hasUser t n.uid (List.range l))
      Attempt.guard (!dup) "welcome lists a user twice"
    rosterLoop t users rest

/-- One external sender, and nothing behind it. -/
def parseSender : Parser Unit := do
  let _ ← Parser.sub
  let _ ← Parser.u16
  let _ ← Parser.sub
  Parser.done

def checkWelcomeRoster (s : Session) (g : Group) (users : Option (List Nat)) : Try Unit := do
  rosterLoop g.tree users (List.range g.tree.leaves)
  let es ← Attempt.require "welcomed group has no external sender" (groupExternalSender g)
  Attempt.guard ((parseSender (rd es)).1.isSome ∧ es = s.es)
    "welcomed group has a different external sender"

/-- The group of a welcome, once its roster is checked. -/
def joinChecked (s : Session) (data : Bytes) (users : Option (List Nat)) : Try Group := do
  let g ← joinWelcome cr s data none
  checkWelcomeRoster s g users
  pure g

def mlsProcessWelcome (s : Session) (data : Bytes) (users : Option (List Nat)) :
    Logged Access (Bool × Session) :=
  if s.group.isSome then pure (false, s.fail "already in a group")
  else if !s.haveKp || !s.haveLeaf then pure (false, s.fail "welcome without a key package")
  else if s.es.isEmpty then pure (false, s.fail "welcome without an external sender")
  else do
    let joined ← (joinChecked cr s data users).run
    match joined with
    | .ok g => pure (true, adopt s g)
    | .error e => pure (false, s.fail e)

/-! ## Runs -/

/-- A call of the owner of a session, with what is drawn during it. -/
inductive Call
  | init (rnd : Entropy)
  | externalSender (rnd : Entropy) (data : Bytes)
  | keyPackage (rnd : Entropy)
  | proposals (rnd : Entropy) (data : Bytes) (users : List Nat)
  | commit (data : Bytes)
  | welcome (data : Bytes) (users : Option (List Nat))

/-- The session after a call, with the nodes that were touched. -/
def call (s : Session) : Call → Logged Access Session
  | .init rnd => mlsSessionInit cr rnd s
  | .externalSender rnd data => do
    let r ← mlsSetExternalSender cr rnd s data
    pure r.2
  | .keyPackage rnd => pure (mlsKeyPackage cr rnd s).2
  | .proposals rnd data users => do
    let r ← mlsProcessProposals cr rnd s data users
    pure r.2.2
  | .commit data => do
    let r ← mlsProcessCommit cr s data
    pure r.2
  | .welcome data users => do
    let r ← mlsProcessWelcome cr s data users
    pure r.2

/-- A session from `mls_session_new`, and the calls of its owner.  The output is the
nodes that were touched. -/
def machine : Machine Session Call Access where
  start s := ∃ userId groupId sk pk, cr.computePub sk = some pk ∧ s = mlsSessionNew userId groupId sk pk
  step s c := ((call cr s c).value, (call cr s c).log)

end

end Mls
