import WcashExplorer.Api.Status
import WcashExplorer.Db.Transitions

/-! The identities of the networks a store is bound to, and the start of a process on it. -/
namespace WcashExplorer

open Relational

structure NetworkRow where
  networkId : Text
  displayName : Text
  symbol : Text
  decimals : Nat
  coinbaseMaturity : Nat
  targetSpacingSeconds : Nat
  maxSupplyZat : Int
  initialSubsidyZat : Int
  halvingInterval : Nat
  firstHalvingHeight : Nat
  genesisHash : Text
  createdAt : Timestamp
  deriving DecidableEq

namespace NetworkRow

def valid (r : NetworkRow) : Bool :=
  r.networkId.storable && r.displayName.storable && r.symbol.storable && r.decimals ≤ 18 &&
    0 < r.targetSpacingSeconds && 0 < r.maxSupplyZat && 0 < r.initialSubsidyZat &&
    0 < r.halvingInterval && 0 < r.firstHalvingHeight && isLowerHex 64 r.genesisHash

/-- The row under another ticker. -/
def withSymbol (r : NetworkRow) (symbol : Text) : NetworkRow := { r with symbol }

theorem networkId_withSymbol (r : NetworkRow) (symbol : Text) :
    (r.withSymbol symbol).networkId = r.networkId := rfl

/-- What identifies the chain: all but the ticker and the time of the insertion. -/
def identity (r : NetworkRow) : NetworkRow := { r with symbol := [], createdAt := 0 }

end NetworkRow

/-- The whole store: the networks it is bound to and what is indexed of them. -/
structure Store where
  networks : Table NetworkRow NetworkRow.networkId := .empty
  index : Db := {}

/-- The row a configuration asks for. -/
def NetworkSettings.row (network : NetworkSettings) (now : Timestamp) : NetworkRow where
  networkId := network.id
  displayName := network.displayName
  symbol := network.symbol
  decimals := network.decimals
  coinbaseMaturity := network.coinbaseMaturity
  targetSpacingSeconds := network.targetSpacingSeconds
  maxSupplyZat := network.maxSupplyZat
  initialSubsidyZat := network.initialSubsidyZat
  halvingInterval := network.halvingInterval
  firstHalvingHeight := network.firstHalvingHeight
  genesisHash := network.genesisHash
  createdAt := now

/-- The comparison of `initialize_network`. -/
def identityMatches (stored offered : NetworkRow) : Bool :=
  stored.genesisHash = offered.genesisHash && stored.decimals = offered.decimals &&
    stored.displayName = offered.displayName &&
    stored.coinbaseMaturity = offered.coinbaseMaturity &&
    stored.targetSpacingSeconds = offered.targetSpacingSeconds &&
    stored.maxSupplyZat = offered.maxSupplyZat &&
    stored.initialSubsidyZat = offered.initialSubsidyZat &&
    stored.halvingInterval = offered.halvingInterval &&
    stored.firstHalvingHeight = offered.firstHalvingHeight

/-- `INSERT INTO chain_state (network_id, status) VALUES ($1, 'starting') ON CONFLICT DO NOTHING`. -/
def startChainState (networkId : Text) (now : Timestamp) (db : Db) : Db :=
  { db with chainState := db.chainState.insertNew { networkId, updatedAt := now } }

/-- `initialize_network`. -/
def initializeNetwork (network : NetworkSettings) (now : Timestamp) (store : Store) :
    Result Store := do
  let halvingInterval ← toI64 network.halvingInterval "halving interval"
  let firstHalvingHeight ← toI64 network.firstHalvingHeight "first halving height"
  let row := { network.row now with halvingInterval, firstHalvingHeight }
  checked row.valid
  let networks := store.networks.insertNew row
  match networks.find? network.id with
  | none => .error .database
  | some stored =>
    ensure (identityMatches stored row) (.config
      s!"database network identity for {network.id.str} does not match runtime configuration")
    .ok
      { networks := networks.updateWhere
          (fun r => r.networkId = network.id && r.symbol ≠ network.symbol)
          (fun r => r.withSymbol network.symbol) fun r => r.networkId_withSymbol network.symbol
        index := startChainState network.id now store.index }

variable {network other : NetworkSettings} {now now' : Timestamp} {store store' : Store}
  {networkId : Text} {r s : NetworkRow}

/-- The comparison decides whether two rows of one network identify the same chain. -/
theorem identityMatches_iff (h : r.networkId = s.networkId) :
    identityMatches r s = true ↔ r.identity = s.identity := by
  cases r
  cases s
  obtain rfl : _ = _ := h
  simp only [identityMatches, NetworkRow.identity, Bool.and_eq_true, decide_eq_true_eq,
    NetworkRow.mk.injEq]
  tauto

/-- The row a network is bound to. -/
def Store.identity (store : Store) (networkId : Text) : Option NetworkRow :=
  (store.networks.find? networkId).map NetworkRow.identity

/-- The identity a configuration asks for. -/
def NetworkSettings.identity (network : NetworkSettings) : NetworkRow := (network.row 0).identity

theorem identity_row : (network.row now).identity = network.identity := rfl

/-- A start succeeds exactly where the values fit their columns and the network is either new or
bound to the same identity; it leaves the network bound, under the new ticker. -/
theorem initializeNetwork_ok : initializeNetwork network now store = .ok store' ↔
    (network.halvingInterval ≤ i64Max ∧ network.firstHalvingHeight ≤ i64Max ∧
      (network.row now).valid = true) ∧
    (∀ r, store.networks.find? network.id = some r → r.identity = network.identity) ∧
    store' =
      { networks := (store.networks.insertNew (network.row now)).updateWhere
          (fun r => r.networkId = network.id && r.symbol ≠ network.symbol)
          (fun r => r.withSymbol network.symbol) fun r => r.networkId_withSymbol network.symbol
        index := startChainState network.id now store.index } := by
  simp only [initializeNetwork, Result.bind_eq_ok, toI64_eq_ok, checked, ensure_eq_ok]
  have hfind : (store.networks.insertNew (network.row now)).find? network.id =
      (store.networks.find? network.id).or (some (network.row now)) := by
    rw [Table.find?_insertNew]
    simp [NetworkSettings.row]
  constructor
  · rintro ⟨_, ⟨hhalving, rfl⟩, _, ⟨hfirst, rfl⟩, -, hvalid, h⟩
    refine ⟨⟨hhalving, hfirst, hvalid⟩, ?_⟩
    split at h
    · cases h
    · rename_i stored hstored
      simp only [Result.bind_eq_ok, ensure_eq_ok] at h
      obtain ⟨-, hmatches, h⟩ := h
      cases h
      refine ⟨?_, rfl⟩
      intro r hr
      have hrow : stored = r := by
        have hfound := hfind.symm.trans hstored
        rw [hr] at hfound
        exact (Option.some.inj hfound).symm
      subst hrow
      exact (identityMatches_iff (Table.key_of_find? hr)).mp hmatches
  · rintro ⟨⟨hhalving, hfirst, hvalid⟩, hsame, rfl⟩
    refine ⟨_, ⟨hhalving, rfl⟩, _, ⟨hfirst, rfl⟩, (), hvalid, ?_⟩
    have hmatches : ∀ r, (store.networks.find? network.id).or (some (network.row now)) = some r →
        identityMatches r (network.row now) = true := by
      intro r hr
      cases hstored : store.networks.find? network.id with
      | none =>
        rw [hstored] at hr
        obtain rfl := Option.some.inj hr
        exact (identityMatches_iff rfl).mpr rfl
      | some s =>
        rw [hstored] at hr
        obtain rfl := Option.some.inj hr
        exact (identityMatches_iff (Table.key_of_find? hstored)).mpr (hsame _ hstored)
    split
    · rename_i hnone
      have hnone' := hfind.symm.trans hnone
      cases hstored : store.networks.find? network.id <;> simp [hstored] at hnone'
    · rename_i stored hstored
      simp only [Result.bind_eq_ok, ensure_eq_ok]
      exact ⟨(), hmatches stored (hfind.symm.trans hstored), rfl⟩

/-- A start binds a new network, or puts its ticker on the one that is bound. -/
theorem initializeNetwork_find? (h : initializeNetwork network now store = .ok store')
    (networkId : Text) : store'.networks.find? networkId =
      if networkId = network.id then
        some (((store.networks.find? networkId).getD (network.row now)).withSymbol network.symbol)
      else store.networks.find? networkId := by
  obtain ⟨-, -, rfl⟩ := initializeNetwork_ok.mp h
  rw [Table.find?_updateWhere, Table.find?_insertNew]
  by_cases hid : networkId = network.id
  · subst hid
    have hrow : (network.row now).networkId = network.id := rfl
    rw [if_pos hrow, if_pos rfl]
    have hrelabel : ∀ r : NetworkRow, r.networkId = network.id →
        (if r.networkId = network.id && r.symbol ≠ network.symbol then
          r.withSymbol network.symbol else r) = r.withSymbol network.symbol := by
      intro r hr
      by_cases hsymbol : r.symbol = network.symbol
      · rw [if_neg (by simp [hsymbol]), ← hsymbol]
        rfl
      · rw [if_pos (by simp [hr, hsymbol])]
    cases hstored : store.networks.find? network.id with
    | none => exact congrArg some (hrelabel (network.row now) hrow)
    | some r => exact congrArg some (hrelabel r (Table.key_of_find? hstored))
  · have hrow : (network.row now).networkId ≠ networkId := fun he => hid he.symm
    rw [if_neg hrow, if_neg hid]
    cases hstored : store.networks.find? networkId with
    | none => rfl
    | some r =>
      have hne : r.networkId ≠ network.id := Table.key_of_find? hstored ▸ hid
      simp [hne]

/-- The network is bound to what was configured. -/
theorem initializeNetwork_identity (h : initializeNetwork network now store = .ok store') :
    store'.identity network.id = some network.identity := by
  obtain ⟨-, hsame, -⟩ := initializeNetwork_ok.mp h
  rw [Store.identity, initializeNetwork_find? h, if_pos rfl, Option.map_some]
  refine congrArg some ?_
  cases hstored : store.networks.find? network.id with
  | none => rfl
  | some r => exact hsame r hstored

/-- No start changes what a network is bound to. -/
theorem initializeNetwork_keeps (h : initializeNetwork network now store = .ok store')
    (hr : store.identity networkId = some r) : store'.identity networkId = some r := by
  obtain ⟨s, hs, rfl⟩ := Option.map_eq_some_iff.mp hr
  rw [Store.identity, initializeNetwork_find? h]
  split
  · rw [hs, Option.map_some]
    rfl
  · rw [hs, Option.map_some]

theorem initializeNetwork_index (h : initializeNetwork network now store = .ok store') :
    store'.index = startChainState network.id now store.index := by
  obtain ⟨-, -, rfl⟩ := initializeNetwork_ok.mp h
  rfl

end WcashExplorer
