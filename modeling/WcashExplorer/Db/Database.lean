import Mathlib.Data.List.MinMax
import WcashExplorer.Db.InsertBlock

/-! The database's methods, each of them one atomic transaction on the store. -/
namespace WcashExplorer

open Effects Relational

/-- What a transaction reads from outside the store: the time, and which of several equally
good rows an under-specified `ORDER BY … LIMIT 1` returns. -/
structure World where
  now : Timestamp
  pick : Nat := 0

def parentEvidenceRefreshIntervalSeconds : Int := 30

variable (lib : AuxPowCrate)

/-- The rows of one network's selector. -/
def canonicalRows (db : Db) (networkId : Text) : List CanonicalRow :=
  db.canonicalChain.rows.filter fun r => r.networkId = networkId

/-- The highest selected row. -/
def tipRow (db : Db) (networkId : Text) : Option CanonicalRow :=
  (canonicalRows db networkId).argmax fun r => r.height

/-- `canonical_tip`. -/
def canonicalTip (db : Db) (networkId : Text) : Option ChainTip :=
  (tipRow db networkId).map fun r =>
    { height := r.height, blockHash := r.blockHash, witnessHash := r.witnessHash }

/-- `canonical_hash`. -/
def canonicalHash (db : Db) (networkId : Text) (height : Nat) : Result (Option Text) := do
  let height ← toI64 height "height"
  .ok ((db.canonicalChain.find? (networkId, height)).map fun r => r.blockHash)

/-- The selected rows whose evidence is stale and recent enough to be refreshed, with the time
of their last verification. -/
def staleEvidence (db : Db) (networkId : Text) (depth : Nat) (now : Timestamp) :
    List (CanonicalRow × Timestamp) :=
  let tip := ((tipRow db networkId).map fun r => r.height).getD 0
  (canonicalRows db networkId).filterMap fun c =>
    match db.auxpowLinks.find? (c.blockHash, c.witnessHash) with
    | some a =>
      if max 1 (tip - depth) ≤ c.height &&
          a.verifiedAt < now - parentEvidenceRefreshIntervalSeconds * microsPerSecond then
        some (c, a.verifiedAt)
      else none
    | none => none

/-- The order of the refresh queue: the tip first, then the longest unverified. -/
def refreshBefore (tip : Nat) (x y : CanonicalRow × Timestamp) : Bool :=
  (x.1.height = tip && y.1.height ≠ tip) ||
    ((x.1.height = tip) = (y.1.height = tip) && x.2 < y.2)

/-- `evidence_refresh_candidate`. -/
def evidenceRefreshCandidate (db : Db) (networkId : Text) (depth : Nat) (world : World) :
    Result (Option (Nat × Text)) := do
  let depth ← toI64 depth "evidence refresh depth"
  let stale := staleEvidence db networkId depth world.now
  let tip := ((tipRow db networkId).map fun r => r.height).getD 0
  let first := stale.filter fun x => stale.all fun y => !refreshBefore tip y x
  .ok ((first[world.pick % first.length]?).map fun x => (x.1.height, x.1.blockHash))

/-- `insert_canonical_selector`: an occupied height is left alone, a hash selected elsewhere
is refused. -/
def insertCanonicalSelector (networkId : Text) (indexed : IndexedBlock) (db : Db) : Result Db := do
  let height ← toI64 indexed.block.height "block height"
  let row : CanonicalRow :=
    { networkId
      height
      blockHash := indexed.block.hash
      witnessHash := witnessHash lib indexed }
  match db.canonicalChain.find? row.key with
  | some _ => .ok db
  | none =>
    checked (db.canonicalChain.rows.all fun r =>
      !(r.networkId = networkId && r.blockHash = row.blockHash))
    .ok { db with canonicalChain := db.canonicalChain.insertNew row }

/-- Updates the network's row of `chain_state`. -/
def updateChainState (networkId : Text) (f : ChainStateRow → ChainStateRow)
    (hf : ∀ r, (f r).networkId = r.networkId) (db : Db) : Db :=
  { db with chainState := db.chainState.updateWhere (fun r => r.networkId = networkId) f hf }

/-- Records an indexed tip after the selector has moved. -/
def recordTip (networkId : Text) (height : Option Nat) (hash witness : Option Text)
    (now : Timestamp) (db : Db) : Db :=
  updateChainState networkId
    (fun r => { r with
      indexedHeight := height
      indexedHash := hash
      indexedWitnessHash := witness
      status := .syncing
      lastError := none
      updatedAt := now }) (fun _ => rfl) db

/-- `select_canonical`. -/
def selectCanonical (networkId : Text) (indexed : IndexedBlock) (now : Timestamp) (db : Db) :
    Result Db := do
  let witness := witnessHash lib indexed
  let db ← insertCanonicalSelector lib networkId indexed db
  let height ← toI64 indexed.block.height "block height"
  match db.canonicalChain.find? (networkId, height) with
  | none => .error .database
  | some selected =>
    ensure (selected.blockHash = indexed.block.hash && selected.witnessHash = witness)
      (.notReady "canonical height changed before the block could be committed")
    .ok (recordTip networkId (some height) (some indexed.block.hash) (some witness) now db)

/-- `commit_block`. -/
def commitBlock (networkId : Text) (indexed : IndexedBlock) (now : Timestamp) (db : Db) :
    Result Db := do
  let db ← insertBlock lib networkId indexed db
  selectCanonical lib networkId indexed now db

/-- `refresh_block_evidence`. -/
def refreshBlockEvidence (networkId : Text) (indexed : IndexedBlock) (db : Db) : Result Db :=
  insertBlock lib networkId indexed db

/-- The staged blocks continue one another from an expected height and predecessor. -/
def contiguousFrom : Nat → Option Text → List IndexedBlock → Bool
  | _, _, [] => true
  | expectedHeight, expectedPrevious, indexed :: rest =>
    indexed.block.height = expectedHeight && indexed.block.previousblockhash = expectedPrevious &&
      contiguousFrom (saturatingAdd expectedHeight 1) (some indexed.block.hash) rest

/-- `validate_replacement_branch`. -/
def validateReplacementBranch (ancestor : Option (Nat × Text)) (replacement : List IndexedBlock) :
    Result Unit :=
  let expectedHeight := match ancestor with
    | some (height, _) => saturatingAdd height 1
    | none => 0
  ensure (contiguousFrom expectedHeight (ancestor.map Prod.snd) replacement)
    (.notReady "staged reorganization branch is not contiguous")

def insertBlocks (networkId : Text) : List IndexedBlock → Db → Result Db
  | [], db => .ok db
  | indexed :: rest, db => do
    let db ← insertBlock lib networkId indexed db
    insertBlocks networkId rest db

def insertSelectors (networkId : Text) : List IndexedBlock → Db → Result Db
  | [], db => .ok db
  | indexed :: rest, db => do
    let db ← insertCanonicalSelector lib networkId indexed db
    insertSelectors networkId rest db

/-- Deletes the selector above the ancestor, or all of it. -/
def detach (networkId : Text) (ancestorHeight : Option Nat) (db : Db) : Db :=
  { db with canonicalChain := db.canonicalChain.deleteWhere fun r =>
      r.networkId = networkId && match ancestorHeight with
        | some height => height < r.height
        | none => true }

/-- The locked compare of the recorded tip with the tip the branch was staged against. -/
def tipUnchanged (networkId : Text) (oldTip : ChainTip) (db : Db) : Result Unit :=
  match db.chainState.find? networkId with
  | none => .error .database
  | some locked => do
    let oldHeight ← toI64 oldTip.height "old tip height"
    ensure (locked.indexedHeight = some oldHeight && locked.indexedHash = some oldTip.blockHash)
      (.notReady "canonical tip changed before the reorganization could be published")

/-- A fresh identifier for a reorganization event. -/
def freshEventId (db : Db) : Nat :=
  (db.reorgEvents.rows.map fun r => r.eventId).foldr max 0 + 1

def insertReorgEvent (eventId : Nat) (networkId : Text) (oldTip : ChainTip)
    (ancestorHeight : Option Nat) (ancestorHash : Option Text) (now : Timestamp) (db : Db) : Db :=
  let row : ReorgEventRow :=
    { eventId
      networkId
      oldTipHeight := oldTip.height
      oldTipHash := oldTip.blockHash
      commonAncestorHeight := ancestorHeight
      commonAncestorHash := ancestorHash
      detectedAt := now
      completedAt := none }
  { db with reorgEvents := db.reorgEvents.insertNew row }

def completeReorgEvent (eventId : Nat) (now : Timestamp) (db : Db) : Db :=
  { db with
    reorgEvents := db.reorgEvents.updateWhere (fun r => r.eventId = eventId)
      (fun r => { r with completedAt := some now }) fun _ => rfl }

/-- `replace_canonical_branch`. -/
def replaceCanonicalBranch (networkId : Text) (oldTip : ChainTip) (ancestor : Option (Nat × Text))
    (replacement : List IndexedBlock) (now : Timestamp) (db : Db) : Result Db := do
  tipUnchanged networkId oldTip db
  validateReplacementBranch ancestor replacement
  let db ← insertBlocks lib networkId replacement db
  let eventId := freshEventId db
  let ancestorHeight ← optional (fun a => toI64 a.1 "ancestor height") ancestor
  let ancestorHash := ancestor.map Prod.snd
  let db := insertReorgEvent eventId networkId oldTip ancestorHeight ancestorHash now db
  let db := detach networkId ancestorHeight db
  let db ← insertSelectors lib networkId replacement db
  let newTip := replacement.getLast?
  let newHeight ← optional (fun indexed => toI64 indexed.block.height "replacement tip height") newTip
  let indexedHeight := newHeight.or ancestorHeight
  let indexedHash := (newTip.map fun indexed => indexed.block.hash).or ancestorHash
  let indexedWitnessHash := newTip.map (witnessHash lib)
  let db := recordTip networkId indexedHeight indexedHash indexedWitnessHash now db
  .ok (completeReorgEvent eventId now db)

/-- `mark_indexer_error`. -/
def markIndexerError (networkId error : Text) (now : Timestamp) (db : Db) : Result Db := do
  let lastError := error.take 1000
  checked (Text.storable lastError)
  .ok (updateChainState networkId
    (fun r => { r with status := .error, lastError := some lastError, updatedAt := now })
    (fun _ => rfl) db)

/-- `observe_node_tip`. -/
def observeNodeTip (networkId : Text) (nodeHeight : Nat) (nodeHash : Text) (now : Timestamp)
    (db : Db) : Result Db := do
  let nodeHeight ← toI64 nodeHeight "node height"
  checked nodeHash.storable
  .ok (updateChainState networkId
    (fun r => { r with
      nodeHeight := some nodeHeight
      nodeHash := some nodeHash
      status :=
        if r.indexedHeight = some nodeHeight ∧ r.indexedHash = some nodeHash then r.status
        else .syncing
      updatedAt := now }) (fun _ => rfl) db)

/-- `update_node_tip`. -/
def updateNodeTip (networkId : Text) (nodeHeight : Nat) (nodeHash : Text) (status : ChainStatus)
    (error : Option Text) (now : Timestamp) (db : Db) : Result Db := do
  let nodeHeight ← toI64 nodeHeight "node height"
  let lastError := error.map (List.take 1000)
  checked (nodeHash.storable && nullOr Text.storable lastError)
  .ok (updateChainState networkId
    (fun r => { r with
      nodeHeight := some nodeHeight
      nodeHash := some nodeHash
      status
      lastError
      updatedAt := now }) (fun _ => rfl) db)

/-- A read-only method. -/
def reading {α : Type} (db : Db) (r : Result α) : Result (α × Db) := r >>= fun a => .ok (a, db)

/-- A method that only writes. -/
def writing (r : Result Db) : Result (Unit × Db) := r >>= fun db => .ok ((), db)

/-- What each database method does. -/
def exec : Semantics explorer Db World := fun world t db =>
  match t with
  | .canonicalTip networkId => reading db (.ok (canonicalTip db networkId))
  | .canonicalHash networkId height => reading db (canonicalHash db networkId height)
  | .evidenceRefreshCandidate networkId depth =>
      reading db (evidenceRefreshCandidate db networkId depth world)
  | .commitBlock networkId indexed => writing (commitBlock lib networkId indexed world.now db)
  | .refreshBlockEvidence networkId indexed =>
      writing (refreshBlockEvidence lib networkId indexed db)
  | .replaceCanonicalBranch networkId oldTip ancestor replacement =>
      writing (replaceCanonicalBranch lib networkId oldTip ancestor replacement world.now db)
  | .observeNodeTip networkId nodeHeight nodeHash =>
      writing (observeNodeTip networkId nodeHeight nodeHash world.now db)
  | .updateNodeTip networkId nodeHeight nodeHash status error =>
      writing (updateNodeTip networkId nodeHeight nodeHash status error world.now db)
  | .markIndexerError networkId error => writing (markIndexerError networkId error world.now db)

end WcashExplorer
