import WcashExplorer.AuxPow

/-! The chain synchronizer: one pass from the stored tip to the node's tip. -/
namespace WcashExplorer

open Effects

/-- The part of a network's configuration the synchronizer reads. -/
structure NetworkConfig where
  id : Text
  genesisHash : Text

/-- One configured synchronizer. -/
structure Indexer (lib : AuxPowCrate) where
  auxpow : AuxPowVerifier lib
  network : NetworkConfig
  maxReorgDepth : Nat
  evidenceRefreshDepth : Nat

/-- Observable result of one deterministic synchronization pass. -/
structure SyncOutcome where
  indexedBlocks : Nat
  indexedHeight : Nat
  nodeHeight : Nat
  reorgDepth : Nat
  deriving DecidableEq, Repr

def zeroHash : Text := List.replicate 64 '0'

/-- Issues a database method whose failure fails the program. -/
def issue (t : DbCall) : Action t.Result := @Prog.txn explorer t

namespace Database

def canonicalTip (networkId : Text) : Action (Option ChainTip) :=
  issue (.canonicalTip networkId)

def canonicalHash (networkId : Text) (height : Nat) : Action (Option Text) :=
  issue (.canonicalHash networkId height)

def evidenceRefreshCandidate (networkId : Text) (depth : Nat) : Action (Option (Nat × Text)) :=
  issue (.evidenceRefreshCandidate networkId depth)

def commitBlock (networkId : Text) (indexed : IndexedBlock) : Action Unit :=
  issue (.commitBlock networkId indexed)

def refreshBlockEvidence (networkId : Text) (indexed : IndexedBlock) : Action Unit :=
  issue (.refreshBlockEvidence networkId indexed)

def replaceCanonicalBranch (networkId : Text) (oldTip : ChainTip) (ancestor : Option (Nat × Text))
    (replacement : List IndexedBlock) : Action Unit :=
  issue (.replaceCanonicalBranch networkId oldTip ancestor replacement)

def observeNodeTip (networkId : Text) (nodeHeight : Nat) (nodeHash : Text) : Action Unit :=
  issue (.observeNodeTip networkId nodeHeight nodeHash)

def updateNodeTip (networkId : Text) (nodeHeight : Nat) (nodeHash : Text) (status : ChainStatus)
    (error : Option Text) : Action Unit :=
  issue (.updateNodeTip networkId nodeHeight nodeHash status error)

def markIndexerError (networkId error : Text) : Action Unit :=
  issue (.markIndexerError networkId error)

end Database

namespace Indexer

variable {lib : AuxPowCrate} (self : Indexer lib)

/-- The node's name for a configured network. -/
def expectedChain : Text :=
  if self.network.id = "mainnet".toList then "main".toList
  else if self.network.id = "testnet".toList then "test".toList
  else self.network.id

def validateIdentity (nodeChain : Text) : Action Unit := do
  let nodeGenesis ← Wcash.blockHash 0
  orFail (ensure (nodeGenesis = self.network.genesisHash) (.config
    s!"Wcash RPC genesis mismatch: expected {self.network.genesisHash.str}, received {nodeGenesis.str}"))
  orFail (ensure (nodeChain = self.expectedChain) (.config
    s!"Wcash RPC network mismatch: expected {self.expectedChain.str}, received {nodeChain.str}"))

/-- The predecessor a fetched block names is the one expected at its height. -/
def previousMatches (height : Nat) (block : RpcBlock) (expectedPrevious : Option Text) : Bool :=
  if height = 0 then block.previousblockhash = none || block.previousblockhash = some zeroHash
  else block.previousblockhash = expectedPrevious

def fetchIndexedBlock (height : Nat) (expectedPrevious : Option Text) : Action IndexedBlock := do
  let expectedHash ← Wcash.blockHash height
  let rawBlock ← Wcash.blockRaw expectedHash
  let (block, raw) ← Wcash.blockVerbose expectedHash
  orFail (ensure (block.hash = expectedHash && block.height = height) (.invalidNodeResponse
    s!"node returned inconsistent block identity at height {height}"))
  orFail (ensure (previousMatches height block expectedPrevious) (.notReady
    s!"chain changed while fetching height {height}; retrying"))
  let auxpow ← verify lib self.auxpow block rawBlock
  let confirmedHash ← Wcash.blockHash height
  orFail (ensure (confirmedHash = expectedHash) (.notReady
    s!"chain changed while validating height {height}; retrying"))
  let fetchedAt ← utcNow
  return { block, auxpow, fetchedAt, rawBlock, raw }

/-- Compares the stored and the node's hash at one height of the backward search. -/
def examineHeight (examined height : Nat) : Action (Option (Nat × Text)) := do
  orFail (ensure (examined ≤ self.maxReorgDepth) (.notReady
    s!"chain divergence exceeds MAX_REORG_DEPTH ({self.maxReorgDepth})"))
  let stored ← Database.canonicalHash self.network.id height
  let node ← Wcash.blockHash height
  return if stored = some node then some (height, node) else none

/-- The backward search from a height, after `examined` heights above it. -/
def searchAncestor : Nat → Nat → Action (Nat × Text)
  | examined, 0 => do
    match ← self.examineHeight examined 0 with
    | some ancestor => return ancestor
    | none => .fail (.config "stored and node genesis blocks differ")
  | examined, below + 1 => do
    match ← self.examineHeight examined (below + 1) with
    | some ancestor => return ancestor
    | none => searchAncestor (examined + 1) below

def findCommonAncestor (storedTip : ChainTip) (nodeHeight : Nat) : Action (Option (Nat × Text)) := do
  let ancestor ← self.searchAncestor 0 (min storedTip.height nodeHeight)
  return some ancestor

/-- Fetches `count` consecutive blocks for a replacement branch. -/
def stageBranch : Nat → Nat → Option Text → Action (List IndexedBlock)
  | 0, _, _ => .ret []
  | count + 1, height, expectedPrevious => do
    let indexed ← self.fetchIndexedBlock height expectedPrevious
    let rest ← stageBranch count (height + 1) (some indexed.block.hash)
    return indexed :: rest

/-- Fetches and commits `count` consecutive blocks, one transaction each. -/
def appendBlocks : Nat → Nat → Option Text → Action Nat
  | 0, _, _ => .ret 0
  | count + 1, height, expectedPrevious => do
    let indexed ← self.fetchIndexedBlock height expectedPrevious
    Database.commitBlock self.network.id indexed
    let committed ← appendBlocks count (height + 1) (some indexed.block.hash)
    return committed + 1

/-- The number of heights in `start..=last`. -/
def heightCount (start last : Nat) : Nat := last + 1 - start

def nextHeight (tip : Option Nat) : Nat :=
  match tip with
  | some height => saturatingAdd height 1
  | none => 0

/-- The node still serves the snapshot and the ancestor a branch was staged on. -/
def confirmSnapshot (nodeHeight : Nat) (nodeTipHash : Text) (ancestor : Option (Nat × Text)) :
    Action Unit := do
  let tipHash ← Wcash.blockHash nodeHeight
  orFail (ensure (tipHash = nodeTipHash) (.notReady
    "Wcash tip changed while staging a replacement branch"))
  match ancestor with
  | none => return ()
  | some (height, hash) =>
    let ancestorHash ← Wcash.blockHash height
    orFail (ensure (ancestorHash = hash) (.notReady
      "Wcash common ancestor changed while staging a replacement branch"))

/-- Stages and publishes the node's branch in place of a diverged one; yields the number of
its blocks and the depth of the reorganization. -/
def reorganize (info : BlockchainInfo) (nodeTipHash : Text) (storedTip : ChainTip) :
    Action (Nat × Nat) := do
  let ancestor ← self.findCommonAncestor storedTip info.blocks
  let reorgDepth := storedTip.height - (ancestor.map Prod.fst).getD 0
  let start := nextHeight (ancestor.map Prod.fst)
  let replacement ← self.stageBranch (heightCount start info.blocks) start (ancestor.map Prod.snd)
  confirmSnapshot info.blocks nodeTipHash ancestor
  Database.replaceCanonicalBranch self.network.id storedTip ancestor replacement
  let _ ← Database.canonicalTip self.network.id
  return (replacement.length, reorgDepth)

/-- The stored tip is still the node's block at its height. -/
def canonicalMatches (storedTip : ChainTip) (nodeHeight : Nat) : Action Bool :=
  if storedTip.height ≤ nodeHeight then do
    let hash ← Wcash.blockHash storedTip.height
    return hash = storedTip.blockHash
  else return false

/-- Appends the node's blocks above the stored tip; none of the old chain is detached. -/
def append (info : BlockchainInfo) (tip : Option ChainTip) : Action (Nat × Nat) := do
  let start := nextHeight (tip.map fun tip => tip.height)
  let indexedBlocks ← self.appendBlocks (heightCount start info.blocks) start
    (tip.map fun tip => tip.blockHash)
  return (indexedBlocks, 0)

/-- Brings the selector to the node's branch by a replacement or by appending. -/
def advance (info : BlockchainInfo) (nodeTipHash : Text) (tip : Option ChainTip) :
    Action (Nat × Nat) :=
  match tip with
  | none => self.append info none
  | some storedTip => do
    if ← canonicalMatches storedTip info.blocks then self.append info (some storedTip)
    else self.reorganize info nodeTipHash storedTip

/-- The predecessor the node currently serves for a height. -/
def servedPredecessor : Nat → Action (Option Text)
  | 0 => return none
  | below + 1 => do
    let hash ← Wcash.blockHash below
    return some hash

/-- Refreshes the evidence of one canonical block, if one is due. -/
def refreshEvidence : Action Unit := do
  match ← Database.evidenceRefreshCandidate self.network.id self.evidenceRefreshDepth with
  | none => return ()
  | some (height, _) =>
    let expectedPrevious ← servedPredecessor height
    let refreshed ← self.fetchIndexedBlock height expectedPrevious
    Database.refreshBlockEvidence self.network.id refreshed

/-- Records the pass: its snapshot of the node and whether the index has reached it. -/
def finish (info : BlockchainInfo) (nodeTipHash : Text) (indexedBlocks reorgDepth : Nat) :
    Action SyncOutcome := do
  let finalTip ← Database.canonicalTip self.network.id
  let finalHeight := (finalTip.map fun tip => tip.height).getD 0
  Database.updateNodeTip self.network.id info.blocks nodeTipHash
    (if finalHeight = info.blocks then .ready else .syncing) none
  return { indexedBlocks, indexedHeight := finalHeight, nodeHeight := info.blocks, reorgDepth }

/-- Synchronizes the database to one stable snapshot of the Wcash tip. -/
def syncOnce : Action SyncOutcome := do
  let info ← Wcash.blockchainInfo
  let nodeTipHash ← Wcash.blockHash info.blocks
  self.validateIdentity info.chain
  let tip ← Database.canonicalTip self.network.id
  Database.observeNodeTip self.network.id info.blocks nodeTipHash
  let (indexedBlocks, reorgDepth) ← self.advance info nodeTipHash tip
  self.refreshEvidence
  self.finish info nodeTipHash indexedBlocks reorgDepth

/-- One round of `run`: a failed pass is recorded, and a failure to record it is only logged. -/
def tick : Action Unit :=
  Prog.handle (self.syncOnce.bind fun _ => .ret ())
    fun error => Prog.handle (Database.markIndexerError self.network.id error.display.toList)
      fun _ => .ret ()

end Indexer

end WcashExplorer
