import WcashExplorer.Api.Readiness
import WcashExplorer.Api.Traversal
import WcashExplorer.Db.Proofs
import WcashExplorer.Indexer.Tip
import WcashExplorer.Relational.Truth

/-! The merge-mining statistics: their query, and how its counters account for the chain. -/
namespace WcashExplorer

open Effects Relational

variable {lib : AuxPowCrate} {networkId : Text} {start db : Db} {log : List DbCall}
  {xs : List CanonicalRow}

section Query

/-- A row of the query's `evidence`: a canonical witness, with the columns of its proof null where
it has none. -/
structure EvidenceRow where
  height : Nat
  exactWitnessState : WitnessState
  localValidationState : ValidationState
  parentHashMeetsClaimedTarget : Option Bool
  parentLookupState : Option ParentLookupState
  parentSourcesAgree : Option Bool
  verifiedAt : Option Timestamp
  hasCanonicalParent : Bool
  sourceCount : Nat
  hasAuxpow : Bool

def evidenceRow (db : Db) (c : CanonicalRow) (w : BlockWitnessRow) : EvidenceRow :=
  let a := db.auxpowLinks.find? (c.blockHash, c.witnessHash)
  let observations := storedObservations db (c.blockHash, c.witnessHash)
  { height := c.height
    exactWitnessState := w.exactWitnessState
    localValidationState := w.localValidationState
    parentHashMeetsClaimedTarget := a.map AuxpowLinkRow.parentHashMeetsClaimedTarget
    parentLookupState := a.map AuxpowLinkRow.parentLookupState
    parentSourcesAgree := a.map AuxpowLinkRow.parentSourcesAgree
    verifiedAt := a.map AuxpowLinkRow.verifiedAt
    hasCanonicalParent := observations.any fun p =>
      p.observationState = .canonical && p.embeddedHeaderMatches = some true
    sourceCount := countSources observations
    hasAuxpow := a.isSome }

/-- `canonical_chain JOIN block_witnesses LEFT JOIN auxpow_links`. -/
def evidenceRows (db : Db) (networkId : Text) : List EvidenceRow :=
  (canonicalRows db networkId).filterMap fun c =>
    (db.blockWitnesses.find? (c.blockHash, c.witnessHash)).map (evidenceRow db c)

namespace EvidenceRow

variable (r : EvidenceRow)

def eligible : Truth := some (decide (0 < r.height))

def bestChain : Truth := some (decide (r.exactWitnessState = .bestChain))

def locallyVerified : Truth := some (decide (r.localValidationState = .auxpowVerified))

/-- The condition of `fully_verified_blocks`. -/
def fullyVerified : Truth :=
  .and (some r.hasAuxpow) <| .and r.bestChain <| .and r.locallyVerified <|
    .and (some (Truth.isTrue r.parentHashMeetsClaimedTarget)) <|
      .and (some (Truth.isTrue r.parentSourcesAgree)) (some r.hasCanonicalParent)

/-- The condition of `locally_verified_without_parent_observation_blocks`. -/
def verifiedWithoutParent : Truth :=
  .and (some r.hasAuxpow) <| .and r.bestChain <| .and r.locallyVerified <|
    .eq r.parentLookupState .notConfigured

/-- The condition of `disagreement_parent_blocks`. -/
def disagreement : Truth :=
  .and (some r.hasAuxpow) <| .and (.ne r.parentLookupState .notConfigured) <|
    .or (.eq r.parentLookupState .disagreement) (some !(Truth.isTrue r.parentSourcesAgree))

end EvidenceRow

structure MergeMiningStatsRow where
  eligibleChildBlocks : Nat
  auxpowBlocks : Nat
  locallyVerifiedBlocks : Nat
  parentTargetVerifiedBlocks : Nat
  canonicalParentBlocks : Nat
  orphanedParentBlocks : Nat
  notFoundParentBlocks : Nat
  unavailableParentBlocks : Nat
  disagreementParentBlocks : Nat
  parentQuorumAgreementBlocks : Nat
  bestChainWitnessBlocks : Nat
  fullyVerifiedBlocks : Nat
  locallyVerifiedWithoutParentObservationBlocks : Nat
  anomalyBlocks : Nat
  observationSourceCount : Nat
  lastVerifiedAt : Option Timestamp

/-- `MERGE_MINING_STATS_QUERY`. No lookup state is stored as `unknown`. -/
def mergeMiningStatsQuery (db : Db) (networkId : Text) : MergeMiningStatsRow :=
  let rows := evidenceRows db networkId
  let count (p : EvidenceRow → Truth) : Nat := countWhere (fun r => r.eligible.and (p r)) rows
  { eligibleChildBlocks := countWhere EvidenceRow.eligible rows
    auxpowBlocks := count fun r => some r.hasAuxpow
    locallyVerifiedBlocks := count EvidenceRow.locallyVerified
    parentTargetVerifiedBlocks := count fun r => some (Truth.isTrue r.parentHashMeetsClaimedTarget)
    canonicalParentBlocks := count fun r => some r.hasCanonicalParent
    orphanedParentBlocks := count fun r => .eq r.parentLookupState .orphaned
    notFoundParentBlocks := count fun r => .eq r.parentLookupState .notFound
    unavailableParentBlocks := count fun r => .eq r.parentLookupState .unavailable
    disagreementParentBlocks := count EvidenceRow.disagreement
    parentQuorumAgreementBlocks := count fun r => some (Truth.isTrue r.parentSourcesAgree)
    bestChainWitnessBlocks := count EvidenceRow.bestChain
    fullyVerifiedBlocks := count EvidenceRow.fullyVerified
    locallyVerifiedWithoutParentObservationBlocks := count EvidenceRow.verifiedWithoutParent
    anomalyBlocks := count fun r =>
      some !(Truth.or r.fullyVerified r.verifiedWithoutParent).isTrue
    observationSourceCount := ((rows.map EvidenceRow.sourceCount).max?).getD 0
    lastVerifiedAt := ((rows.filter fun r => r.eligible.isTrue).filterMap
      EvidenceRow.verifiedAt).max? }

structure MergeMiningStatsView where
  asOfHeight : Option Nat
  asOfHash : Option Text
  stats : MergeMiningStatsRow

/-- `GET /merge-mining/stats`, in one snapshot. -/
def mergeMiningStats (network : NetworkProfile) (db : Db) (now : Timestamp) :
    Result (ApiEnvelope MergeMiningStatsView) := do
  let chain ← chainStateRow db network
  .ok (envelope network
    { asOfHeight := chain.indexedHeight
      asOfHash := chain.indexedHash
      stats := mergeMiningStatsQuery db network.id } none chain now)

end Query

section Heights

theorem countP_range_pos (n : Nat) : (List.range n).countP (fun h => decide (0 < h)) = n - 1 := by
  induction n with
  | zero => rfl
  | succ n ih =>
    rw [List.range_succ, List.countP_append, ih]
    cases n with
    | zero => rfl
    | succ n => simp

/-- No canonical row is lost by the joins. -/
theorem map_height_evidenceRows (hs : StoreSound db) :
    (evidenceRows db networkId).map EvidenceRow.height =
      (canonicalRows db networkId).map CanonicalRow.height := by
  rw [evidenceRows, List.map_filterMap, ← List.filterMap_eq_map]
  refine List.filterMap_congr fun c hc => ?_
  obtain ⟨w, hw⟩ := Option.isSome_iff_exists.mp (hs.canonical c (mem_canonicalRows.mp hc).1)
  simp [hw, evidenceRow]

/-- The eligible blocks are as many as the tip is high. -/
theorem countWhere_eligible (hx : Selected networkId db xs) (hs : StoreSound db) :
    countWhere EvidenceRow.eligible (evidenceRows db networkId) = xs.length - 1 := by
  have hcount : countWhere EvidenceRow.eligible (evidenceRows db networkId) =
      ((evidenceRows db networkId).map EvidenceRow.height).countP fun h => decide (0 < h) := by
    rw [List.countP_map]
    simp only [countWhere, EvidenceRow.eligible, Truth.isTrue_some]
    rfl
  rw [hcount, map_height_evidenceRows hs, (hx.canonicalRows_perm.map _).countP_eq, hx.map_height,
    countP_range_pos]

end Heights

section Verdicts

/-- What the counters rely on in a row above genesis. -/
structure EvidenceRow.Verified (r : EvidenceRow) : Prop where
  auxpow : r.hasAuxpow = true
  bestChain : r.exactWitnessState = .bestChain
  locallyVerified : r.localValidationState = .auxpowVerified
  verdict : ∃ observations state agree, r.parentLookupState = some state ∧
    r.parentSourcesAgree = some agree ∧ classifyObservations observations = (state, agree)

theorem evidenceRows_verified (hx : Selected networkId db xs) (hp : ProofsStored db)
    {r : EvidenceRow} (hr : r ∈ evidenceRows db networkId) (hpos : 0 < r.height) : r.Verified := by
  obtain ⟨c, hc, hrow⟩ := List.mem_filterMap.mp hr
  obtain ⟨w, hw, rfl⟩ := Option.map_eq_some_iff.mp hrow
  obtain ⟨b, hb, hheight, -⟩ := hx.stored c (hx.mem_canonicalRows.mp hc)
  have hpositive : 0 < b.height := by
    rw [hheight]
    exact hpos
  obtain ⟨hbest, hvalid, link, hlink, observations, hverdict⟩ :=
    hp.proved (c.blockHash, c.witnessHash) b (Option.isSome_of_mem hw) hb hpositive
  have hfind : db.auxpowLinks.find? (c.blockHash, c.witnessHash) = some link := hlink
  simp only [evidence, hw, Option.map_some, Option.some.injEq] at hbest hvalid
  exact ⟨by simp [evidenceRow, hfind], hbest, hvalid, observations, link.parentLookupState,
    link.parentSourcesAgree, by simp [evidenceRow, hfind], by simp [evidenceRow, hfind], hverdict⟩

/-- Without an observer no sources agree. -/
theorem classifyObservations_notConfigured {observations : List ParentObservation} {agree : Bool}
    (h : classifyObservations observations = (.notConfigured, agree)) : agree = false := by
  cases observations with
  | nil => exact (congrArg Prod.snd h).symm
  | cons first rest =>
    have hstate := congrArg Prod.fst h
    simp only [classifyObservations] at hstate
    split at hstate
    · cases hstate
    · split at hstate
      · cases hstate
      · split at hstate
        · cases hstate
        · split at hstate <;> cases hstate

/-- A fully verified block was looked up at a parent. -/
theorem EvidenceRow.Verified.disjoint {r : EvidenceRow} (h : r.Verified)
    (hfull : r.fullyVerified.isTrue = true) : r.verifiedWithoutParent.isTrue = false := by
  obtain ⟨observations, state, agree, hstate, hagree, hverdict⟩ := h.verdict
  simp only [EvidenceRow.fullyVerified, Truth.isTrue_and, Truth.isTrue_some, hagree,
    Bool.and_eq_true] at hfull
  obtain ⟨-, -, -, -, htrue, -⟩ := hfull
  rw [EvidenceRow.verifiedWithoutParent]
  by_contra hwithout
  simp only [Truth.isTrue_and, Bool.not_eq_false, Bool.and_eq_true, Truth.isTrue_eq] at hwithout
  obtain ⟨-, -, -, hnone⟩ := hwithout
  rw [hstate] at hnone
  obtain rfl := Option.some.inj hnone
  rw [classifyObservations_notConfigured hverdict] at htrue
  cases htrue

end Verdicts

/-- The counters agree with the height of the tip, and the verdicts add up to it. -/
structure AccountsFor (tip : Nat) (s : MergeMiningStatsRow) : Prop where
  eligible : s.eligibleChildBlocks = tip
  auxpow : s.auxpowBlocks = tip
  verified : s.locallyVerifiedBlocks = tip
  bestChain : s.bestChainWitnessBlocks = tip
  verdicts : s.fullyVerifiedBlocks + s.locallyVerifiedWithoutParentObservationBlocks +
    s.anomalyBlocks = tip

theorem mergeMiningStatsQuery_accounts (hx : Selected networkId db xs) (hp : ProofsStored db) :
    AccountsFor (xs.length - 1) (mergeMiningStatsQuery db networkId) := by
  have heligible := countWhere_eligible hx hp.sound
  have hrow (r : EvidenceRow) (hr : r ∈ evidenceRows db networkId)
      (he : r.eligible.isTrue = true) : r.Verified :=
    evidenceRows_verified hx hp hr (by simpa [EvidenceRow.eligible] using he)
  have hall (p : EvidenceRow → Truth) (h : ∀ r : EvidenceRow, r.Verified → (p r).isTrue = true) :
      countWhere (fun r => r.eligible.and (p r)) (evidenceRows db networkId) = xs.length - 1 := by
    rw [← heligible]
    refine countWhere_congr fun r hr => ?_
    rw [Truth.isTrue_and]
    cases he : r.eligible.isTrue with
    | true => rw [h r (hrow r hr he), Bool.and_self]
    | false => rw [Bool.false_and]
  refine ⟨heligible, hall _ fun r h => ?_, hall _ fun r h => ?_, hall _ fun r h => ?_, ?_⟩
  · rw [Truth.isTrue_some, h.auxpow]
  · simp [EvidenceRow.locallyVerified, h.locallyVerified]
  · simp [EvidenceRow.bestChain, h.bestChain]
  · rw [← heligible]
    exact countWhere_partition fun r hr he hfull => (hrow r hr he).disjoint hfull

/-- In every state of a single writer's history, with the parent observers configured anew for each
pass, the merge-mining counters are the tip's height, and its three verdicts add up to it. -/
theorem merge_mining_accounted {network : NetworkProfile} (h : Filled lib network.id db)
    (now : Timestamp) : ∃ view, mergeMiningStats network db now = .ok view ∧
      view.data.asOfHeight = (tipRow db network.id).map CanonicalRow.height ∧
      AccountsFor (view.data.asOfHeight.getD 0) view.data.stats := by
  obtain ⟨xs, hx, chain, hchain, hheight, -⟩ := h.reachable.soundChain
  obtain ⟨start, -, hblocks, hhistory⟩ := h
  obtain ⟨log, hcalls⟩ := hhistory.calls
  have haccounts := mergeMiningStatsQuery_accounts hx (hcalls.proofsStored hblocks.proofsStored)
  have hstate : chainStateRow db network = .ok chain := by rw [chainStateRow, hchain]
  refine ⟨_, by rw [mergeMiningStats, hstate]; rfl, ?_, ?_⟩
  · rw [hx.tipRow_eq]
    exact hheight
  · have htip : chain.indexedHeight.getD 0 = xs.length - 1 := by
      rw [hheight]
      cases hlast : xs.getLast? with
      | none =>
        rw [List.getLast?_eq_none_iff.mp hlast]
        rfl
      | some r =>
        have hr := hx.last_height hlast
        simp only [Option.map_some, Option.getD_some]
        omega
    change AccountsFor (chain.indexedHeight.getD 0) (mergeMiningStatsQuery db network.id)
    rw [htip]
    exact haccounts

/-- Two blocks above genesis, indexed without a parent observer. -/
theorem merge_mining_accounted_unobserved : ∃ view,
    mergeMiningStats sampleProfile (sampleDb [['1', '2']]) 0 = .ok view ∧
      view.data.asOfHeight = some 2 ∧ AccountsFor 2 view.data.stats := by
  have hfilled : Filled sampleCrate sampleProfile.id (sampleDb [['1', '2']]) :=
    (Filled.initial sampleNetwork).round rfl
  obtain ⟨view, hview, htip, haccounts⟩ := merge_mining_accounted hfilled 0
  have hheight : (tipRow (sampleDb [['1', '2']]) sampleNetwork).map CanonicalRow.height = some 2 := by
    decide +kernel
  rw [htip.trans hheight] at haccounts
  exact ⟨view, hview, htip.trans hheight, haccounts⟩

end WcashExplorer
