import WcashExplorer.Api.Address
import WcashExplorer.Api.Canonical
import WcashExplorer.Indexer.Filled

/-! The reward of a block: its own issuance, or the supply of the whole chain below it. -/
namespace WcashExplorer

open Relational

/-- The supply the canonical block of a height reports. -/
def reportedSupply (db : Db) (networkId : Text) (height : Nat) : Option Int := do
  let c ← db.canonicalChain.find? (networkId, height)
  let b ← db.blocks.find? c.blockHash
  b.chainSupplyZat

/-- What a block issues: the supply it adds where it and its predecessor report one, and otherwise
what its coinbase pays. -/
def issuedZat (db : Db) (c : CanonicalRow) (b : BlockRow) : Int :=
  match c.height, b.chainSupplyZat with
  | 0, some supply => supply
  | below + 1, some supply =>
    match reportedSupply db c.networkId below with
    | some previous => supply - previous
    | none => (coinbaseValues db c).sum
  | _, none => (coinbaseValues db c).sum

/-- A block above genesis reports a supply, its canonical predecessor reports none, and the coinbase
does not happen to pay that supply. -/
def AfterUnreported (db : Db) (c : CanonicalRow) (b : BlockRow) : Prop :=
  ∃ below supply, c.height = below + 1 ∧ b.chainSupplyZat = some supply ∧
    reportedSupply db c.networkId below = none ∧ supply ≠ (coinbaseValues db c).sum

/-- The row the API shows of the canonical block at a height. -/
def ShownAt (db : Db) (networkId : Text) (height : Nat) (row : BlockSummaryRow) : Prop :=
  ∃ x ∈ chainBlocks db networkId, x.1.height = height ∧
    blockSummaryRow db x.1 x.2.1 x.2.2 = .ok row

variable {networkId : Text} {db : Db} {c : CanonicalRow} {b : BlockRow} {w : BlockWitnessRow}
  {row : BlockSummaryRow}

theorem mem_chainBlocks : (c, b, w) ∈ chainBlocks db networkId ↔
    c ∈ canonicalRows db networkId ∧ db.blocks.find? c.blockHash = some b ∧
      db.blockWitnesses.find? (c.blockHash, c.witnessHash) = some w := by
  simp only [chainBlocks, List.mem_filterMap, Option.bind_eq_bind, Option.bind_eq_some_iff,
    Option.some.injEq, Prod.mk.injEq]
  constructor
  · rintro ⟨c, hc, b, hb, w, hw, rfl, rfl, rfl⟩
    exact ⟨hc, hb, hw⟩
  · rintro ⟨hc, hb, hw⟩
    exact ⟨c, hc, b, hb, w, hw, rfl, rfl, rfl⟩

theorem blockSummaryRow_reward (h : blockSummaryRow db c b w = .ok row) :
    row.rewardZat = rewardZat db c b := by
  simp only [blockSummaryRow, Result.bind_eq_ok, asBigint_eq_ok_iff] at h
  obtain ⟨reward, ⟨-, rfl⟩, confirmations, -, h⟩ := h
  rw [← Except.ok.inj h]

theorem previousSupply_eq {below : Nat} (h : c.height = below + 1) :
    previousSupply db c = reportedSupply db c.networkId below := by
  rw [previousSupply, h]
  rfl

theorem reportedSupply_eq (hx : (c, b, w) ∈ chainBlocks db networkId) :
    reportedSupply db networkId c.height = b.chainSupplyZat := by
  obtain ⟨hc, hb, -⟩ := mem_chainBlocks.mp hx
  obtain ⟨hrow, rfl⟩ := mem_canonicalRows.mp hc
  have hfound : db.canonicalChain.find? (c.networkId, c.height) = some c := Table.find?_of_mem hrow
  simp only [reportedSupply, hfound, Option.bind_eq_bind, Option.bind_some, hb]

theorem rewardZat_issued_iff : rewardZat db c b = issuedZat db c b ↔ ¬ AfterUnreported db c b := by
  cases hheight : c.height with
  | zero =>
    have hprevious : previousSupply db c = none := by rw [previousSupply, hheight]
    refine iff_of_true ?_ ?_
    · rw [rewardZat, issuedZat, hheight, hprevious]
      cases b.chainSupplyZat <;> simp
    · rintro ⟨below, -, hbelow, -⟩
      omega
  | succ below =>
    have hprevious : previousSupply db c = reportedSupply db c.networkId below :=
      previousSupply_eq hheight
    cases hsupply : b.chainSupplyZat with
    | none =>
      refine iff_of_true ?_ ?_
      · rw [rewardZat, issuedZat, hheight, hsupply]
      · rintro ⟨_, supply, -, hsome, -⟩
        rw [hsupply] at hsome
        cases hsome
    | some supply =>
      have hissued : issuedZat db c b = match reportedSupply db c.networkId below with
          | some previous => supply - previous
          | none => (coinbaseValues db c).sum := by rw [issuedZat, hheight, hsupply]
      rw [rewardZat, hsupply, hprevious, hissued]
      cases hreported : reportedSupply db c.networkId below with
      | some previous =>
        refine iff_of_true rfl ?_
        rintro ⟨below', -, hbelow, -, hnone, -⟩
        obtain rfl : below = below' := by omega
        rw [hreported] at hnone
        cases hnone
      | none =>
        simp only [Option.getD_none, Int.sub_zero]
        constructor
        · rintro hsame ⟨below', supply', -, hsome, -, hdiffers⟩
          rw [hsupply] at hsome
          exact hdiffers (Option.some.inj hsome ▸ hsame)
        · intro h
          by_contra hdiffers
          exact h ⟨below, supply, hheight, hsupply, hreported, hdiffers⟩

/-- Where the block and its predecessor report a supply, the reward is what it adds. -/
theorem ShownAt.reward_eq {height : Nat} {supply previous : Int}
    (h : ShownAt db networkId (height + 1) row)
    (hsupply : reportedSupply db networkId (height + 1) = some supply)
    (hprevious : reportedSupply db networkId height = some previous) :
    row.rewardZat = supply - previous := by
  obtain ⟨⟨c, b, w⟩, hx, hheight, hrow⟩ := h
  obtain ⟨-, rfl⟩ := mem_canonicalRows.mp (mem_chainBlocks.mp hx).1
  have hreported := reportedSupply_eq hx
  rw [hheight, hsupply] at hreported
  rw [blockSummaryRow_reward hrow, rewardZat, ← hreported, previousSupply_eq hheight, hprevious]
  rfl

/-- The rewards of a run of blocks that report, the first of them aside, add up to the supply. -/
theorem rewards_telescope {rows : Nat → BlockSummaryRow} {supply : Nat → Int} {first n : Nat}
    (hreported : ∀ i ≤ n, reportedSupply db networkId (first + i) = some (supply i))
    (hshown : ∀ i < n, ShownAt db networkId (first + i + 1) (rows i)) :
    ((List.range n).map fun i => (rows i).rewardZat).sum = supply n - supply 0 := by
  induction n with
  | zero => simp
  | succ n ih =>
    have hrest := ih (fun i hi => hreported i (by omega)) fun i hi => hshown i (by omega)
    have hlast := (hshown n (by omega)).reward_eq (hreported (n + 1) (Nat.le_refl _))
      (hreported n (by omega))
    rw [List.range_succ, List.map_append, List.sum_append, hrest, List.map_singleton,
      List.sum_singleton, hlast]
    omega

/-- A shown reward is the block's own issuance unless the block reports a supply over a predecessor
that reports none: then the supply of the whole chain is shown. Runs of reporting blocks add up to
the supply they add. -/
theorem rewards_are_issuance_iff (db : Db) (networkId : Text) :
    (∀ c b w, (c, b, w) ∈ chainBlocks db networkId → ∀ row, blockSummaryRow db c b w = .ok row →
      (row.rewardZat = issuedZat db c b ↔ ¬ AfterUnreported db c b) ∧
      (AfterUnreported db c b → b.chainSupplyZat = some row.rewardZat)) ∧
    ∀ (rows : Nat → BlockSummaryRow) (supply : Nat → Int) (first n : Nat),
      (∀ i ≤ n, reportedSupply db networkId (first + i) = some (supply i)) →
      (∀ i < n, ShownAt db networkId (first + i + 1) (rows i)) →
        ((List.range n).map fun i => (rows i).rewardZat).sum = supply n - supply 0 := by
  refine ⟨?_, fun rows supply first n => rewards_telescope⟩
  intro c b w _ row hrow
  rw [blockSummaryRow_reward hrow]
  refine ⟨rewardZat_issued_iff, ?_⟩
  rintro ⟨below, supply, hheight, hsupply, hnone, -⟩
  rw [rewardZat, hsupply, previousSupply_eq hheight, hnone]
  simp

section Sample

/-- The blocks of a chain with the supplies they report. -/
def sampleSupplies (supplies : List (Option Int)) : List NodeBlock :=
  ((sampleChain ['1', '2']).zip supplies).map fun (b, supply) =>
    { b with block := { b.block with chainSupply := some { chainValueZat := supply } } }

def sampleSupplyDb (supplies : List (Option Int)) : Db :=
  (sampleIndexer 10).round (nodeEnvironment sampleNetwork (fun _ => sampleSupplies supplies)
    { now := 0 }) (initialDb sampleNetwork)

/-- What is shown and what was issued, block by block. -/
def sampleRewards (db : Db) : List (Option Int × Int) :=
  (chainBlocks db sampleNetwork).map fun x =>
    ((blockSummaryRow db x.1 x.2.1 x.2.2).toOption.map BlockSummaryRow.rewardZat,
      issuedZat db x.1 x.2.1)

example : sampleRewards (sampleSupplyDb [some 5, some 12, none]) =
    [(some 5, 5), (some 7, 7), (some 0, 0)] := by decide +kernel

/-- The genesis block reports no supply, the next one the supply so far, and that is shown as its
reward. -/
theorem cumulative_supply_shown :
    Filled sampleCrate sampleNetwork (sampleSupplyDb [none, some 12, some 19]) ∧
      sampleRewards (sampleSupplyDb [none, some 12, some 19]) =
        [(some 0, 0), (some 12, 0), (some 7, 7)] :=
  ⟨(Filled.initial sampleNetwork).round rfl, by decide +kernel⟩

end Sample

end WcashExplorer
