import WcashExplorer.Api.NetworkHistory
import WcashExplorer.Api.Readiness

/-! The status of the service and its readiness probe. -/
namespace WcashExplorer

open Relational

/-- The part of a network's configuration the status shows. -/
structure NetworkSettings extends NetworkProfile where
  displayName : Text
  targetSpacingSeconds : Nat
  maxSupplyZat : Int
  initialSubsidyZat : Int
  halvingInterval : Nat
  firstHalvingHeight : Nat
  halvingInterval_pos : 0 < halvingInterval

def readyMaxAgeSeconds : Int := 30

/-- `i64::saturating_sub`. -/
def i64SaturatingSub (a b : Int) : Int := max (-(2 : Int) ^ 63) (min (a - b) i64Max)

/-- `node_height.zip(indexed_height).map(|(node, indexed)| node.saturating_sub(indexed))`. -/
def ChainStateRow.lag (c : ChainStateRow) : Option Int :=
  match c.nodeHeight, c.indexedHeight with
  | some node, some indexed => some (i64SaturatingSub node indexed)
  | _, _ => none

def ChainStatus.asStr : ChainStatus → String
  | .starting => "starting"
  | .syncing => "syncing"
  | .ready => "ready"
  | .error => "error"

/-- The lag test of the probe: `lag.is_none_or(|blocks| blocks > 1)` fails it. -/
def ChainStateRow.lagPasses (c : ChainStateRow) : Bool := c.lag.any fun blocks => blocks ≤ 1

section Status

/-- `next_halving_height`. -/
def nextHalvingHeight (height : Nat) (network : NetworkSettings) : Nat :=
  if height < network.firstHalvingHeight then network.firstHalvingHeight
  else
    let elapsed := height - network.firstHalvingHeight
    network.firstHalvingHeight + (elapsed / network.halvingInterval + 1) * network.halvingInterval

structure LatestChainRow where
  difficultyText : Text
  chainSupplyZat : Option Int
  blockTime : Timestamp
  observedSpacingSeconds : Option Rat

/-- `canonical_chain JOIN blocks`, the highest first. -/
def latestBlocks (db : Db) (networkId : Text) : List HeightBlock :=
  below (fun x => x.1.height) none (joinBlocks db (canonicalRows db networkId))

/-- The span of the latest blocks by its heights, as the quotient that is rounded to a double. -/
def observedSpacing (recent : List HeightBlock) : Option Rat := do
  let times := recent.map fun x => x.2.blockTime
  let heights := recent.map fun x => x.1.height
  let newest ← times.max?
  let oldest ← times.min?
  let high ← heights.max?
  let low ← heights.min?
  if high - low = 0 then none
  else some ((newest - oldest : Int) / (microsPerSecond : Rat) / (high - low : Nat))

/-- The statement of `status`. -/
def latestChainQuery (db : Db) (networkId : Text) : Option LatestChainRow :=
  (latestBlocks db networkId).head?.map fun x =>
    { difficultyText := x.2.difficultyText
      chainSupplyZat := x.2.chainSupplyZat
      blockTime := x.2.blockTime
      observedSpacingSeconds := observedSpacing ((latestBlocks db networkId).take 101) }

structure StatusView where
  service : String
  version : String
  network : Text
  networkName : Text
  symbol : Text
  status : ChainStatus
  indexedHeight : Option Nat
  indexedHash : Option Text
  nodeHeight : Option Nat
  nodeHash : Option Text
  lagBlocks : Option Int
  updatedAt : Timestamp
  uptimeSeconds : Int
  difficulty : Option Text
  observedSpacingSeconds : Option Rat
  targetSpacingSeconds : Nat
  totalIssued : AmountView
  maxSupply : AmountView
  initialSubsidy : AmountView
  halvingInterval : Nat
  nextHalvingHeight : Nat
  coinbaseMaturity : Nat
  latestBlockTime : Option Timestamp
  privacyNotice : String

/-- `GET /status`: its two statements, each on the state it sees. -/
def status (network : NetworkSettings) (startedAt : Timestamp) (atState atLatest : Db)
    (now : Timestamp) : Result (ApiEnvelope StatusView) := do
  let chain ← chainStateRow atState network.toNetworkProfile
  let latest := latestChainQuery atLatest network.id
  let amount := amount network.toNetworkProfile
  .ok (envelope network.toNetworkProfile
    { service := "wcashexplorer"
      version := "0.1.0"
      network := network.id
      networkName := network.displayName
      symbol := network.symbol
      status := chain.status
      indexedHeight := chain.indexedHeight
      indexedHash := chain.indexedHash
      nodeHeight := chain.nodeHeight
      nodeHash := chain.nodeHash
      lagBlocks := chain.lag
      updatedAt := chain.updatedAt
      uptimeSeconds := ageSeconds now startedAt
      difficulty := latest.map LatestChainRow.difficultyText
      observedSpacingSeconds := latest.bind LatestChainRow.observedSpacingSeconds
      targetSpacingSeconds := network.targetSpacingSeconds
      totalIssued := amount ((latest.bind LatestChainRow.chainSupplyZat).getD 0)
      maxSupply := amount network.maxSupplyZat
      initialSubsidy := amount network.initialSubsidyZat
      halvingInterval := network.halvingInterval
      nextHalvingHeight := nextHalvingHeight (chain.indexedHeight.getD 0) network
      coinbaseMaturity := network.coinbaseMaturity
      latestBlockTime := latest.map LatestChainRow.blockTime
      privacyNotice :=
        "Shielded senders, recipients, per-note amounts, and memos are not public chain data." }
    none chain now)

end Status

section Ready

/-- `ParentEvidenceReadiness::status`. -/
def ParentEvidenceReadiness.status (r : ParentEvidenceReadiness) (now : Timestamp) : String :=
  if r.exempt then "not required"
  else if r.isReady now then "fresh canonical quorum"
  else "missing, stale, or inconsistent"

/-- The evidence the probe asks for: none at all, none for the genesis, or what is stored. -/
def requiredEvidence (network : NetworkSettings) (requireParentQuorum : Bool) (row : ChainStateRow)
    (atEvidence : Db) : ParentEvidenceReadiness :=
  if requireParentQuorum then
    match row.indexedHeight, row.indexedHash with
    | some 0, some _ => { exempt := true }
    | some height, some hash =>
        (loadParentEvidenceReadiness atEvidence network.id height hash).getD {}
    | _, _ => {}
  else { exempt := true }

structure ReadyView where
  status : String
  network : Text
  indexedHeight : Option Nat
  nodeHeight : Option Nat
  updatedAt : Timestamp

/-- `GET /health/ready`: its three statements, each on the state it sees. -/
def ready (network : NetworkSettings) (requireParentQuorum : Bool) (atState atTip atEvidence : Db)
    (now : Timestamp) : Result ReadyView := do
  let row ← chainStateRow atState network.toNetworkProfile
  let age := ageSeconds now row.updatedAt
  let tipsPresent := row.indexedHeight.isSome && row.indexedHash.isSome && row.nodeHeight.isSome &&
    row.nodeHash.isSome
  let sameHeightHashMatches : Bool :=
    row.indexedHeight ≠ row.nodeHeight || row.indexedHash = row.nodeHash
  let canonicalTipExists := match row.indexedHeight, row.indexedHash with
    | some height, some hash =>
        (atTip.canonicalChain.find? (network.id, height)).any fun c => c.blockHash = hash
    | _, _ => false
  let parentEvidence := requiredEvidence network requireParentQuorum row atEvidence
  if row.status ≠ .ready || !row.lagPasses || readyMaxAgeSeconds < age || !tipsPresent ||
      !sameHeightHashMatches || !canonicalTipExists || !parentEvidence.isReady now then
    let indexer := row.status.asStr
    let blocks := (row.lag.map fun blocks => toString blocks).getD "unknown"
    let integrity := if canonicalTipExists && sameHeightHashMatches then "valid" else "invalid"
    let evidence := parentEvidence.status now
    .error (.notReady s!"indexer status is {indexer}, lag is {blocks} block(s), heartbeat age is {age}s, canonical tip integrity is {integrity}, and parent evidence is {evidence}")
  else
    .ok
      { status := "ready"
        network := network.id
        indexedHeight := row.indexedHeight
        nodeHeight := row.nodeHeight
        updatedAt := row.updatedAt }

end Ready

end WcashExplorer
