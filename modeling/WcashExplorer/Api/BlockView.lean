import WcashExplorer.Api.Lookup
import WcashExplorer.Db.WitnessEvidence

/-! The page of one block: its row, its pools, its transactions and its proof. -/
namespace WcashExplorer

open Relational

section Text

/-- `str::replace` of a pattern that is not empty; `skipped` characters of a match are left. -/
def replaceFrom (pattern value : Text) : Nat → Text → Text
  | _, [] => []
  | skipped + 1, _ :: rest => replaceFrom pattern value skipped rest
  | 0, c :: rest =>
    if pattern.isPrefixOf (c :: rest) then
      value ++ replaceFrom pattern value (pattern.length - 1) rest
    else c :: replaceFrom pattern value 0 rest

/-- The configured links to an explorer of the parent chain. -/
structure ParentExplorer where
  parentExplorerBlockUrl : Text
  parentExplorerTxUrl : Text

/-- `external_evidence_url`. -/
def externalEvidenceUrl (template : Text) (marker : String) (value : Text) : Option Text :=
  if template.isEmpty then none else some (replaceFrom marker.toList value 0 template)

example : externalEvidenceUrl "https://x/{hash}?a={hash}".toList "{hash}" "ff".toList =
    some "https://x/ff?a=ff".toList := by
  decide

end Text

section Pools

structure ValuePoolView where
  id : Text
  chainValue : Option AmountView
  valueDelta : Option AmountView
  reported : Bool
  monitored : Option Bool

def ValuePoolView.fromRow (network : NetworkProfile) (pool : ValuePoolSnapshotRow) :
    ValuePoolView where
  id := pool.poolId
  chainValue := pool.chainValueZat.map (amount network)
  valueDelta := pool.valueDeltaZat.map (amount network)
  reported := pool.chainValueZat.isSome
  monitored := pool.monitored

/-- The pools stored for a witness, in the order of the database's collation. -/
def witnessPools (collation : LinearOrder Text) (db : Db) (blockHash witness : Text) :
    List ValuePoolSnapshotRow :=
  letI := collation
  orderBy ValuePoolSnapshotRow.poolId (db.valuePoolSnapshots.rows.filter fun p =>
    p.blockHash = blockHash && p.witnessHash = witness)

end Pools

section Transactions

/-- The transactions placed under a witness, at the height of its block. -/
def blockTransactions (db : Db) (blockHash witness : Text) : List ChainTransaction :=
  match db.blocks.find? blockHash with
  | some b => selectedTransactions db ⟨b.networkId, b.height, b.blockHash, witness⟩
  | none => []

/-- `TRANSACTIONS_FOR_BLOCK_QUERY`. -/
def transactionsForBlockQuery (db : Db) (blockHash witness : Text) :
    Result (List TransactionSummaryRow) :=
  (orderBy (fun x => x.placement.txPosition) (blockTransactions db blockHash witness)).mapM
    (transactionSummaryRow db)

/-- `transaction_rows_for_block`. -/
def transactionRowsForBlock (network : NetworkProfile) (db : Db) (blockHash witness : Text) :
    Result (List TransactionSummary) :=
  (transactionsForBlockQuery db blockHash witness).map fun rows =>
    rows.map (TransactionSummary.fromRow network)

end Transactions

section Proof

structure AuxPowRow where
  proofVersion : Nat
  proofSize : Nat
  parentBlockHash : Text
  parentHeaderBits : Text
  parentHashMeetsClaimedTarget : Bool
  parentCoinbaseTxid : Text
  parentMerkleDepth : Nat
  parentCoinbaseIndex : Nat
  authDataMerkleDepth : Nat
  authDataCoinbaseIndex : Nat
  auxiliaryMerkleDepth : Nat
  auxiliaryIndex : Nat
  parentLookupState : ParentLookupState
  parentSourcesAgree : Bool
  verifiedAt : Timestamp
  exactWitnessState : WitnessState
  witnessConfirmations : Option Int
  localValidationState : ValidationState
  verifierVersion : Option Text

def auxPowRow (a : AuxpowLinkRow) (w : BlockWitnessRow) (confirmations : Int) : AuxPowRow where
  proofVersion := a.proofVersion
  proofSize := a.proofSize
  parentBlockHash := a.parentBlockHash
  parentHeaderBits := a.parentHeaderBits
  parentHashMeetsClaimedTarget := a.parentHashMeetsClaimedTarget
  parentCoinbaseTxid := a.parentCoinbaseTxid
  parentMerkleDepth := a.parentMerkleDepth
  parentCoinbaseIndex := a.parentCoinbaseIndex
  authDataMerkleDepth := a.authDataMerkleDepth
  authDataCoinbaseIndex := a.authDataCoinbaseIndex
  auxiliaryMerkleDepth := a.auxiliaryMerkleDepth
  auxiliaryIndex := a.auxiliaryIndex
  parentLookupState := a.parentLookupState
  parentSourcesAgree := a.parentSourcesAgree
  verifiedAt := a.verifiedAt
  exactWitnessState := w.exactWitnessState
  witnessConfirmations := some confirmations
  localValidationState := w.localValidationState
  verifierVersion := w.verifierVersion

/-- The selected row of a witness. -/
def selectorOf (db : Db) (networkId blockHash witness : Text) : Option CanonicalRow :=
  (canonicalRows db networkId).find? fun c => c.blockHash = blockHash && c.witnessHash = witness

/-- `AUXPOW_QUERY`: the proof of a witness that is selected when the statement is issued. -/
def auxpowQuery (db : Db) (networkId blockHash witness : Text) : Result (Option AuxPowRow) :=
  match db.auxpowLinks.find? (blockHash, witness), db.blockWitnesses.find? (blockHash, witness),
      selectorOf db networkId blockHash witness with
  | some a, some w, some c => do
    let confirmations ← asBigint (chainConfirmations db c)
    .ok (some (auxPowRow a w confirmations))
  | _, _, _ => .ok none

structure ParentObservationView where
  sourceName : Text
  observationState : ParentLookupState
  parentHeight : Option Nat
  parentConfirmations : Option Int
  parentTime : Option Timestamp
  parentBits : Option Text
  parentDifficultyText : Option Text
  embeddedHeaderMatches : Option Bool
  checkedAt : Timestamp

def ParentObservationView.fromRow (p : ParentObservationRow) : ParentObservationView where
  sourceName := p.sourceName
  observationState := p.observationState
  parentHeight := p.parentHeight
  parentConfirmations := p.parentConfirmations
  parentTime := p.parentTime
  parentBits := p.parentBits
  parentDifficultyText := p.parentDifficultyText
  embeddedHeaderMatches := p.embeddedHeaderMatches
  checkedAt := p.checkedAt

/-- What the parent nodes said of a witness, in the order of the database's collation. -/
def witnessObservations (collation : LinearOrder Text) (db : Db) (blockHash witness : Text) :
    List ParentObservationRow :=
  letI := collation
  orderBy ParentObservationRow.sourceName (db.parentChainObservations.rows.filter fun p =>
    p.blockHash = blockHash && p.witnessHash = witness)

structure AuxPowView extends AuxPowRow where
  witnessHash : Text
  parentBlockUrl : Option Text
  parentCoinbaseTxUrl : Option Text
  observations : List ParentObservationView

def AuxPowView.fromRow (explorer : ParentExplorer) (witness : Text) (row : AuxPowRow)
    (observations : List ParentObservationRow) : AuxPowView :=
  { row with
    witnessHash := witness
    parentBlockUrl := externalEvidenceUrl explorer.parentExplorerBlockUrl "{hash}"
      row.parentBlockHash
    parentCoinbaseTxUrl := externalEvidenceUrl explorer.parentExplorerTxUrl "{txid}"
      row.parentCoinbaseTxid
    observations := observations.map ParentObservationView.fromRow }

/-- `load_auxpow`: its two statements, each on the state it sees. -/
def loadAuxpow (collation : LinearOrder Text) (network : NetworkProfile) (explorer : ParentExplorer)
    (blockHash witness : Text) (atProof atObservations : Db) : Result (Option AuxPowView) := do
  let row ← auxpowQuery atProof network.id blockHash witness
  .ok (row.map fun row => AuxPowView.fromRow explorer witness row
    (witnessObservations collation atObservations blockHash witness))

end Proof

section Handlers

structure BlockDetail where
  summary : BlockSummary
  previousBlockHash : Option Text
  nextBlockHash : Option Text
  merkleRoot : Text
  blockCommitments : Option Text
  nonce : Text
  valuePools : List ValuePoolView
  transactions : List TransactionSummary
  auxpow : Option AuxPowView

variable (collation : LinearOrder Text) (network : NetworkProfile) (explorer : ParentExplorer)

/-- `GET /blocks/{id}`: its six statements, each on the state it sees. -/
def block (id : Text) (seen : ℕ → Db) (now : Timestamp) : Result (ApiEnvelope BlockDetail) := do
  let chain ← chainStateRow (seen 0) network
  let row ← findBlock network.toNetworkConfig id (seen 1)
  let summary := BlockSummary.fromRow network row.summary
  let pools := (witnessPools collation (seen 2) summary.hash summary.witnessHash).map
    (ValuePoolView.fromRow network)
  let txs ← transactionRowsForBlock network (seen 3) summary.hash summary.witnessHash
  let auxpow ← loadAuxpow collation network explorer summary.hash summary.witnessHash (seen 4)
    (seen 5)
  .ok (envelope network
    { summary
      previousBlockHash := row.previousBlockHash
      nextBlockHash := row.nextBlockHash
      merkleRoot := row.merkleRoot
      blockCommitments := row.blockCommitments
      nonce := row.nonce
      valuePools := pools
      transactions := txs
      auxpow } none chain now)

/-- `GET /blocks/{id}/auxpow`. -/
def blockAuxpow (id : Text) (seen : ℕ → Db) (now : Timestamp) :
    Result (ApiEnvelope (Option AuxPowView)) := do
  let chain ← chainStateRow (seen 0) network
  let row ← findBlock network.toNetworkConfig id (seen 1)
  let data ← loadAuxpow collation network explorer row.summary.hash row.summary.witnessHash (seen 2)
    (seen 3)
  .ok (envelope network data none chain now)

end Handlers

end WcashExplorer
