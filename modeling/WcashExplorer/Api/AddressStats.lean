import WcashExplorer.Api.NetworkHistory
import WcashExplorer.Api.RichListView
import WcashExplorer.Relational.FirstSeen

/-! The growth of the addresses: how many are active, new and seen at each height. -/
namespace WcashExplorer

open Relational

section Query

/-- `events`: an address and a height at which it received or spent; a `UNION` holds each once. -/
def seenEvents (db : Db) (txs : List ChainTransaction) : List (Text × Nat) :=
  ((txs.flatMap fun x => (instanceOutputs db x.stored.transactionInstanceId).filterMap fun o =>
      o.address.map fun address => (address, x.selector.height)) ++
    txs.flatMap fun x => (instanceInputs db x.stored.transactionInstanceId).flatMap fun i =>
      (previousAddresses db txs i).map fun address => (address, x.selector.height)).dedup

structure AddressStatsRow where
  height : Nat
  blockTime : Timestamp
  activeAddresses : Nat
  newAddresses : Nat
  totalSeenAddresses : Nat

/-- `active` and `new_by_height`, joined to a height; a height without a group counts none. -/
def groupCount (count : List (Text × Nat) → Nat) (events : List (Text × Nat)) (height : Nat) : Nat :=
  ((((groupBy Prod.snd events).find? fun g => g.1 = height).map Prod.snd).map count).getD 0

/-- `metrics`; the running sum is over all rows up to the row's height. -/
def addressMetrics (db : Db) (networkId : Text) : List AddressStatsRow :=
  let events := seenEvents db (chainTransactions db networkId)
  let active := groupCount (fun rows => (rows.map Prod.fst).dedup.length) events
  let new := groupCount List.length (firstSeen events)
  let blocks := joinBlocks db (canonicalRows db networkId)
  blocks.map fun x =>
    { height := x.1.height
      blockTime := x.2.blockTime
      activeAddresses := active x.1.height
      newAddresses := new x.1.height
      totalSeenAddresses :=
        ((blocks.filter fun y => y.1.height ≤ x.1.height).map fun y => new y.1.height).sum }

/-- `ADDRESS_STATS_QUERY`. -/
def addressStatsQuery (db : Db) (networkId : Text) (before : Option Nat) (limit : Nat) :
    List AddressStatsRow :=
  recent AddressStatsRow.height before limit (addressMetrics db networkId)

structure AddressStatsPoint where
  height : Nat
  time : Timestamp
  activeAddresses : Nat
  newAddresses : Nat
  totalSeenAddresses : Nat

structure AddressStatsView where
  asOfHeight : Option Nat
  asOfHash : Option Text
  fundedAddressCount : Nat
  seenAddressCount : Nat
  addressedBalance : AmountView
  transparentPool : Option AmountView
  transparentPoolReported : Bool
  transparentPoolMonitored : Option Bool
  addresslessOrUndecodedBalance : Option AmountView
  points : List AddressStatsPoint

def AddressStatsPoint.fromRow (row : AddressStatsRow) : AddressStatsPoint where
  height := row.height
  time := row.blockTime
  activeAddresses := row.activeAddresses
  newAddresses := row.newAddresses
  totalSeenAddresses := row.totalSeenAddresses

/-- `GET /addresses/stats`, all of it read from one snapshot. -/
def addressStats (network : NetworkProfile) (query : HistoryQuery) (db : Db) (now : Timestamp) :
    Result (ApiEnvelope AddressStatsView) := do
  let limit := historyLimit query.limit
  let before ← historyBefore query.before
  let chain ← chainStateRow db network
  let rows := addressStatsQuery db network.id before limit
  let current ← currentAddressStatsQuery db network.id
  let row := latestTransparentPoolQuery db network.id
  let pool := row.bind LatestPoolRow.chainValueZat
  let unassigned ← unassignedTransparentBalance pool current.addressedBalanceZat
  .ok (envelope network
    { asOfHeight := chain.indexedHeight
      asOfHash := chain.indexedHash
      fundedAddressCount := current.fundedAddressCount
      seenAddressCount := current.seenAddressCount
      addressedBalance := amount network current.addressedBalanceZat
      transparentPool := pool.map (amount network)
      transparentPoolReported := pool.isSome
      transparentPoolMonitored := row.bind LatestPoolRow.monitored
      addresslessOrUndecodedBalance := unassigned.map (amount network)
      points := rows.map AddressStatsPoint.fromRow } none chain now)

end Query

section Events

variable {db : Db} {networkId address : Text} {height : Nat} {x y : ChainTransaction}

/-- The address received or spent an output at a canonical height. -/
def ActiveAt (db : Db) (networkId address : Text) (height : Nat) : Prop :=
  ∃ x ∈ chainTransactions db networkId, x.selector.height = height ∧ involves db networkId address x

theorem mem_seenEvents :
    (address, height) ∈ seenEvents db (chainTransactions db networkId) ↔
      ActiveAt db networkId address height := by
  simp only [seenEvents, ActiveAt, involves, List.mem_dedup, List.mem_append, List.mem_flatMap,
    List.mem_filterMap, List.mem_map, Option.map_eq_some_iff, Prod.mk.injEq,
    mem_previousAddresses, Bool.or_eq_true, List.any_eq_true, decide_eq_true_eq]
  constructor
  · rintro (⟨x, hx, o, ho, _, haddress, rfl, rfl⟩ | ⟨x, hx, i, hi, _, hspent, rfl, rfl⟩)
    · exact ⟨x, hx, rfl, Or.inl ⟨o, ho, haddress⟩⟩
    · exact ⟨x, hx, rfl, Or.inr ⟨i, hi, hspent⟩⟩
  · rintro ⟨x, hx, rfl, ⟨o, ho, haddress⟩ | ⟨i, hi, hspent⟩⟩
    · exact Or.inl ⟨x, hx, o, ho, address, haddress, rfl, rfl⟩
    · exact Or.inr ⟨x, hx, i, hi, address, hspent, rfl, rfl⟩

end Events

section Metrics

variable {db : Db} {networkId : Text} {t : Nat} {r : AddressStatsRow}

/-- The addresses that were active before a height. -/
def seenBefore (db : Db) (networkId : Text) (t : Nat) : Set Text :=
  {address | ∃ s < t, ActiveAt db networkId address s}

/-- The columns of a height, as sets of addresses. -/
structure CountsAddresses (db : Db) (networkId : Text) (p : AddressStatsPoint) : Prop where
  selected : ∃ c ∈ canonicalRows db networkId, c.height = p.height
  active : p.activeAddresses = {address | ActiveAt db networkId address p.height}.ncard
  total : p.totalSeenAddresses = (seenBefore db networkId (p.height + 1)).ncard
  new : p.newAddresses + (seenBefore db networkId p.height).ncard = p.totalSeenAddresses
  bounded : p.newAddresses ≤ p.activeAddresses

theorem groupCount_eq {count : List (Text × Nat) → Nat} {events : List (Text × Nat)}
    (hnil : count [] = 0) : groupCount count events t = count (group Prod.snd t events) :=
  getD_groupBy hnil

theorem SchemaHolds.joinBlocks_height (hs : SchemaHolds db) :
    (joinBlocks db (canonicalRows db networkId)).map (fun x => x.1.height) =
      (canonicalRows db networkId).map CanonicalRow.height := by
  rw [joinBlocks, List.map_filterMap, ← List.filterMap_eq_map]
  refine List.filterMap_congr fun c hc => ?_
  obtain ⟨b, hb⟩ := hs.block (mem_canonicalRows.mp hc).1
  rw [hb]
  rfl

theorem mem_addressMetrics (hs : SchemaHolds db) (hr : r ∈ addressMetrics db networkId) :
    CountsAddresses db networkId (.fromRow r) := by
  have hheights : (joinBlocks db (canonicalRows db networkId)).map (fun x => x.1.height) =
      (canonicalRows db networkId).map CanonicalRow.height := hs.joinBlocks_height
  have hcover : ∀ e ∈ seenEvents db (chainTransactions db networkId),
      e.2 ∈ (joinBlocks db (canonicalRows db networkId)).map fun x => x.1.height := by
    rintro ⟨address, height⟩ he
    obtain ⟨x, hx, rfl, -⟩ := mem_seenEvents.mp he
    rw [hheights]
    exact List.mem_map_of_mem (mem_chainTransactions.mp hx).selector
  have hnodup : ((joinBlocks db (canonicalRows db networkId)).map fun x => x.1.height).Nodup := by
    rw [hheights]
    exact canonicalRows_nodup
  have hseen (n : Nat) : {address | ∃ s < n,
      (address, s) ∈ seenEvents db (chainTransactions db networkId)} =
        seenBefore db networkId n := by
    ext address
    simp only [seenBefore, Set.mem_ofPred_eq, mem_seenEvents]
  have hnew : groupCount List.length (firstSeen (seenEvents db (chainTransactions db networkId))) =
      newAt (seenEvents db (chainTransactions db networkId)) := by
    funext t
    exact groupCount_eq rfl
  have hactive (t : Nat) : groupCount (fun rows => (rows.map Prod.fst).dedup.length)
      (seenEvents db (chainTransactions db networkId)) t =
        activeAt (seenEvents db (chainTransactions db networkId)) t := groupCount_eq rfl
  obtain ⟨x, hx, rfl⟩ := List.mem_map.mp hr
  have hsum := sum_newAt (t := x.1.height + 1) hnodup hcover
  rw [List.filter_map, List.map_map, hseen] at hsum
  have htotal : ((((joinBlocks db (canonicalRows db networkId)).filter fun y =>
      y.1.height ≤ x.1.height).map fun y =>
        newAt (seenEvents db (chainTransactions db networkId)) y.1.height).sum) =
          (seenBefore db networkId (x.1.height + 1)).ncard := by
    rw [← hsum]
    simp only [Function.comp_def, Nat.lt_succ_iff]
  refine ⟨?_, ?_, ?_, ?_, ?_⟩
  · have hmem := List.mem_map_of_mem (f := fun x => x.1.height) hx
    rw [hheights] at hmem
    exact List.mem_map.mp hmem
  · refine (hactive _).trans ?_
    rw [activeAt_eq]
    simp only [mem_seenEvents]
    rfl
  · simp only [AddressStatsPoint.fromRow, hnew]
    exact htotal
  · simp only [AddressStatsPoint.fromRow, hnew, htotal]
    rw [← hseen, ← hseen]
    exact newAt_add
  · simp only [AddressStatsPoint.fromRow, hnew, hactive]
    exact newAt_le_activeAt

end Metrics

section Current

variable {db : Db} {networkId : Text} {network : NetworkProfile} {query : HistoryQuery}
  {now : Timestamp} {stats : CurrentAddressStatsRow}

/-- The addresses that are ever active are those that some output pays: what is spent was paid to
the same address first. -/
theorem mem_addresses_iff {address : Text} : address ∈ (addressedOutputs db
    (chainInstances db networkId)).map AddressedOutput.address ↔
      ∃ t, ActiveAt db networkId address t := by
  have hpaid : address ∈ (addressedOutputs db (chainInstances db networkId)).map
      AddressedOutput.address ↔ ∃ y, y ∈ ownedOutputs db networkId address := by
    simp only [addressedOutputs_eq, List.mem_map, List.mem_filterMap, Option.map_eq_some_iff,
      mem_ownedOutputs]
    constructor
    · rintro ⟨_, ⟨y, hy, a, ha, rfl⟩, rfl⟩
      exact ⟨y, hy, ha⟩
    · rintro ⟨y, hy, haddress⟩
      exact ⟨_, ⟨y, hy, address, haddress, rfl⟩, rfl⟩
  rw [hpaid]
  constructor
  · rintro ⟨y, hy⟩
    obtain ⟨hchain, haddress⟩ := mem_ownedOutputs.mp hy
    obtain ⟨hmaker, houtput⟩ := mem_chainOutputs.mp hchain
    refine ⟨_, y.maker, hmaker, rfl, ?_⟩
    simp only [involves, Bool.or_eq_true, List.any_eq_true, decide_eq_true_eq]
    exact Or.inl ⟨y.output, houtput, haddress⟩
  · rintro ⟨t, x, hx, -, hinvolves⟩
    simp only [involves, Bool.or_eq_true, List.any_eq_true, decide_eq_true_eq] at hinvolves
    rcases hinvolves with ⟨o, ho, haddress⟩ | ⟨i, -, y, hy, -⟩
    · exact ⟨⟨x, o⟩, mem_ownedOutputs.mpr ⟨mem_chainOutputs.mpr ⟨hx, ho⟩, haddress⟩⟩
    · exact ⟨y, hy⟩

theorem currentAddressStats_counts (hs : SchemaHolds db)
    (h : currentAddressStatsQuery db networkId = .ok stats) :
    stats.seenAddressCount = {address | ∃ t, ActiveAt db networkId address t}.ncard ∧
      stats.fundedAddressCount ≤ stats.seenAddressCount := by
  simp only [currentAddressStatsQuery, hs.placedInstances_eq, Result.bind_eq_ok,
    castBigint_eq_ok_iff, Except.ok.injEq] at h
  obtain ⟨_, ⟨-, rfl⟩, _, -, rfl⟩ := h
  constructor
  · rw [ncard_eq_length (List.nodup_dedup _)]
    intro address
    rw [List.mem_dedup, mem_addresses_iff]
    rfl
  · have hnodup : ((utxos db (chainInstances db networkId)).map Prod.fst).Nodup :=
      (List.filter_sublist.map _).nodup keys_groupBy_nodup
    have hsub : (utxos db (chainInstances db networkId)).map Prod.fst ⊆
        ((addressedOutputs db (chainInstances db networkId)).map
          AddressedOutput.address).dedup := by
      intro address haddress
      obtain ⟨u, hu, rfl⟩ := List.mem_map.mp haddress
      obtain ⟨⟨y, hy, hkey⟩, -⟩ := mem_groupBy.mp (List.mem_filter.mp hu).1
      rw [← hkey]
      exact List.mem_dedup.mpr (List.mem_map_of_mem (List.mem_filter.mp hy).1)
    rw [← List.length_map Prod.fst]
    exact (List.subperm_of_subset hnodup hsub).length_le

/-- At the tip, all that was ever active was active before the next height. -/
theorem seenBefore_tip {height : Nat} (htip : ∀ c ∈ canonicalRows db networkId, c.height ≤ height) :
    seenBefore db networkId (height + 1) = {address | ∃ t, ActiveAt db networkId address t} := by
  ext address
  simp only [seenBefore, Set.mem_ofPred_eq]
  constructor
  · rintro ⟨t, -, hactive⟩
    exact ⟨t, hactive⟩
  · rintro ⟨t, x, hx, rfl, hinvolves⟩
    have hle := htip _ (mem_chainTransactions.mp hx).selector
    exact ⟨_, by omega, x, hx, rfl, hinvolves⟩

/-- Every point counts the addresses of the chain up to its height, whatever page shows it; at the
tip it agrees with the current statistics. -/
theorem address_stats_consistent (hs : SchemaHolds db) {answer : ApiEnvelope AddressStatsView}
    (h : addressStats network query db now = .ok answer) :
    (∀ p ∈ answer.data.points, CountsAddresses db network.id p ∧
      ((∀ c ∈ canonicalRows db network.id, c.height ≤ p.height) →
        p.totalSeenAddresses = answer.data.seenAddressCount)) ∧
      answer.data.fundedAddressCount ≤ answer.data.seenAddressCount := by
  simp only [addressStats, Result.bind_eq_ok, Except.ok.injEq] at h
  obtain ⟨before, -, chain, -, stats, hstats, _, -, rfl⟩ := h
  obtain ⟨hseen, hfunded⟩ := currentAddressStats_counts hs hstats
  refine ⟨fun p hp => ?_, hfunded⟩
  obtain ⟨row, hrow, rfl⟩ := List.mem_map.mp hp
  have hmetric : row ∈ addressMetrics db network.id :=
    (mem_below.mp (List.mem_of_mem_take (mem_orderBy.mp hrow))).1
  have hcounts := mem_addressMetrics hs hmetric
  refine ⟨hcounts, fun htip => ?_⟩
  rw [hcounts.total, seenBefore_tip htip]
  exact hseen.symm

end Current

section Sample

/-- Two addresses, one active at both heights. -/
theorem address_stats_consistent_spending : ∃ answer,
    addressStats poolNetwork ⟨none, none⟩ samplePool 0 = .ok answer ∧
      answer.data.points.map AddressStatsPoint.totalSeenAddresses = [1, 2] ∧
      ∀ p ∈ answer.data.points, CountsAddresses samplePool sampleNetwork p := by
  have hpoints : (addressStats poolNetwork ⟨none, none⟩ samplePool 0).map (fun answer =>
      answer.data.points.map AddressStatsPoint.totalSeenAddresses) = .ok [1, 2] := by
    decide +kernel
  cases hanswer : addressStats poolNetwork ⟨none, none⟩ samplePool 0 with
  | error error =>
    rw [hanswer] at hpoints
    cases hpoints
  | ok answer =>
    rw [hanswer] at hpoints
    have hs : SchemaHolds samplePool := ⟨sampleSpending_schema.witnesses,
      sampleSpending_schema.canonical, sampleSpending_schema.placements,
      sampleSpending_schema.outputs⟩
    exact ⟨answer, rfl, Except.ok.inj hpoints,
      fun p hp => ((address_stats_consistent hs hanswer).1 p hp).1⟩

end Sample

end WcashExplorer
