import Mathlib.Data.List.Forall2
import Mathlib.Tactic.NormNum
import WcashExplorer.Api.AddressAgreement
import WcashExplorer.Api.Amounts
import WcashExplorer.Api.Paging

/-! The rich list as it is shown: exact shares of the transparent pool, and the rest of the pool. -/
namespace WcashExplorer

open Codec Relational

/-- `i128::saturating_mul`. -/
def saturatingMul (a b : Int) : Int := max (-(2 : Int) ^ 127) (min (a * b) ((2 : Int) ^ 127 - 1))

/-- `{:0width$}`; a minus sign counts. -/
def zeroFilled (width : Nat) (z : Int) : Text :=
  if z < 0 then '-' :: padded (width - 1) z.natAbs else padded width z.natAbs

/-- `exact_percent`. -/
def exactPercent (numerator denominator : Int) : Text :=
  if denominator ≤ 0 then "0.00000000".toList
  else
    let scaled :=
      (saturatingMul (saturatingMul numerator 100) 100000000).tdiv denominator
    numericText (scaled.tdiv 100000000) ++ '.' :: zeroFilled 8 (scaled.tmod 100000000)

/-- `unassigned_transparent_balance`. -/
def unassignedTransparentBalance (transparentPoolZat : Option Int) (addressedBalanceZat : Int) :
    Result (Option Int) :=
  match transparentPoolZat with
  | some pool =>
    if InBigint (pool - addressedBalanceZat) ∧ 0 ≤ pool - addressedBalanceZat then
      .ok (some (pool - addressedBalanceZat))
    else invalidNodeResponse
      "decoded transparent balances exceed the monitored transparent value pool"
  | none => .ok none

structure LatestPoolRow where
  chainValueZat : Option Int
  monitored : Option Bool

/-- `LATEST_TRANSPARENT_POOL_QUERY`. -/
def latestTransparentPoolQuery (db : Db) (networkId : Text) : Option LatestPoolRow :=
  (db.chainState.find? networkId).map fun s =>
    let pool : Option ValuePoolSnapshotRow := do
      let height ← s.indexedHeight
      let c ← db.canonicalChain.find? (networkId, height)
      if s.indexedHash = some c.blockHash then
        db.valuePoolSnapshots.find? (c.blockHash, c.witnessHash, "transparent".toList)
      else none
    { chainValueZat := pool.bind ValuePoolSnapshotRow.chainValueZat
      monitored := pool.bind ValuePoolSnapshotRow.monitored }

/-- The transparent pool the tip reports. -/
def transparentPoolZat (db : Db) (networkId : Text) : Option Int :=
  (latestTransparentPoolQuery db networkId).bind LatestPoolRow.chainValueZat

structure RichListEntry where
  rank : Nat
  address : Text
  balance : AmountView
  totalReceived : AmountView
  totalSent : AmountView
  transparentPoolSharePercent : Option Text
  utxoCount : Nat
  transactionCount : Nat
  firstSeenHeight : Option Nat
  lastSeenHeight : Option Nat
  lastSeenAt : Option Timestamp

structure RichListView where
  asOfHeight : Option Nat
  asOfHash : Option Text
  transparentPool : Option AmountView
  transparentPoolReported : Bool
  transparentPoolMonitored : Option Bool
  fundedAddressCount : Nat
  addressedBalance : AmountView
  addresslessOrUndecodedBalance : Option AmountView
  top1Balance : AmountView
  top10Balance : AmountView
  top100Balance : AmountView
  addresses : List RichListEntry

def richListEntry (network : NetworkProfile) (pool : Option Int) (row : RichListRow) :
    Result RichListEntry := do
  let totalReceived ← amountFromZatoshiText network row.totalReceivedZat
  let totalSent ← amountFromZatoshiText network row.totalSentZat
  .ok
    { rank := row.rank
      address := row.address
      balance := amount network row.balanceZat
      totalReceived
      totalSent
      transparentPoolSharePercent :=
        (pool.filter fun denominator => 0 < denominator).map (exactPercent row.balanceZat)
      utxoCount := row.utxoCount
      transactionCount := row.transactionCount
      firstSeenHeight := row.firstSeenHeight
      lastSeenHeight := row.lastSeenHeight
      lastSeenAt := row.lastSeenAt }

def defaultRichListLimit : Nat := 50

def maxRichListLimit : Nat := 100

def boundedRichListLimit (limit : Option Nat) : Nat :=
  max 1 (min (limit.getD defaultRichListLimit) maxRichListLimit)

/-- `GET /api/v1/addresses/rich-list`, all of it read from one snapshot. -/
def richList (collation : LinearOrder Text) (network : NetworkProfile) (limit : Option Nat)
    (db : Db) (now : Timestamp) : Result (ApiEnvelope RichListView) := do
  let chain ← chainStateRow db network
  let rows ← richListQuery collation db network.id (boundedRichListLimit limit)
  let row := latestTransparentPoolQuery db network.id
  let pool := row.bind LatestPoolRow.chainValueZat
  let totals := richListTotals rows
  let addresses ← rows.mapM (richListEntry network pool)
  let unassigned ← unassignedTransparentBalance pool totals.addressedBalanceZat
  let data : RichListView :=
    { asOfHeight := chain.indexedHeight
      asOfHash := chain.indexedHash
      transparentPool := pool.map (amount network)
      transparentPoolReported := pool.isSome
      transparentPoolMonitored := row.bind LatestPoolRow.monitored
      fundedAddressCount := totals.fundedAddressCount
      addressedBalance := amount network totals.addressedBalanceZat
      addresslessOrUndecodedBalance := unassigned.map (amount network)
      top1Balance := amount network totals.top1Zat
      top10Balance := amount network totals.top10Zat
      top100Balance := amount network totals.top100Zat
      addresses }
  .ok (envelope network data none chain now)

section Percent

variable {numerator denominator : Int} {balances : List Int}

/-- Digits, a point and eight digits. -/
def IsPercent (text : Text) : Prop :=
  ∃ whole fractional, text = whole ++ '.' :: fractional ∧ whole ≠ [] ∧ whole.all isDigit ∧
    fractional.length = 8 ∧ fractional.all isDigit

/-- Products of machine integers never reach the range of the wide ones. -/
theorem saturatingMul_scaled (hnonneg : 0 ≤ numerator) (hle : numerator ≤ i64Max) :
    saturatingMul (saturatingMul numerator 100) 100000000 = numerator * 10 ^ 10 := by
  simp only [i64Max] at hle
  have hfirst : saturatingMul numerator 100 = numerator * 100 := by
    simp only [saturatingMul]
    omega
  rw [hfirst]
  simp only [saturatingMul]
  omega

theorem exactPercent_eq (hnonneg : 0 ≤ numerator) (hle : numerator ≤ i64Max)
    (hpos : 0 < denominator) :
    exactPercent numerator denominator =
      Nat.toDigits 10 ((numerator * 10 ^ 10 / denominator).toNat / 10 ^ 8) ++ '.' ::
        padded 8 ((numerator * 10 ^ 10 / denominator).toNat % 10 ^ 8) := by
  have hscaled : 0 ≤ numerator * 10 ^ 10 := by omega
  have hquotient := Int.ediv_nonneg hscaled hpos.le
  rw [exactPercent, if_neg (by omega), saturatingMul_scaled hnonneg hle]
  dsimp only
  rw [Int.tdiv_eq_ediv_of_nonneg hscaled, Int.tdiv_eq_ediv_of_nonneg hquotient,
    Int.tmod_eq_emod_of_nonneg hquotient, numericText, zeroFilled]
  generalize numerator * 10 ^ 10 / denominator = scaled at hquotient ⊢
  rw [if_neg (by omega), if_neg (by omega), List.nil_append]
  have hwhole : (scaled / 100000000).natAbs = scaled.toNat / 10 ^ 8 := by omega
  have hrest : (scaled % 100000000).natAbs = scaled.toNat % 10 ^ 8 := by omega
  rw [hwhole, hrest]

theorem isPercent_exactPercent (hnonneg : 0 ≤ numerator) (hle : numerator ≤ i64Max)
    (hpos : 0 < denominator) : IsPercent (exactPercent numerator denominator) := by
  have hwhole := isWhole_toDigits ((numerator * 10 ^ 10 / denominator).toNat / 10 ^ 8)
  refine ⟨_, _, exactPercent_eq hnonneg hle hpos, hwhole.1, hwhole.2.1,
    length_padded (by decide) (Nat.mod_lt _ (by decide)), List.all_eq_true.mpr fun c hc => ?_⟩
  rw [isDigit_eq]
  exact isDigit_of_mem_padded hc

/-- A share is the scaled quotient, rounded down. -/
theorem decimalValue_exactPercent (hnonneg : 0 ≤ numerator) (hle : numerator ≤ i64Max)
    (hpos : 0 < denominator) :
    decimalValue (exactPercent numerator denominator) =
      ((numerator * 10 ^ 10 / denominator : Int) : ℚ) / 10 ^ 8 := by
  have hscaled : 0 ≤ numerator * 10 ^ 10 := by omega
  have hquotient := Int.ediv_nonneg hscaled hpos.le
  have hdigits := all_isDigit
    (isWhole_toDigits ((numerator * 10 ^ 10 / denominator).toNat / 10 ^ 8)).2.1
  rw [exactPercent_eq hnonneg hle hpos, decimalValue_point hdigits,
    length_padded (by decide) (Nat.mod_lt _ (by decide)), numeralValue_toDigits,
    numeralValue_padded]
  generalize numerator * 10 ^ 10 / denominator = scaled at hquotient ⊢
  obtain ⟨n, rfl⟩ := Int.eq_ofNat_of_zero_le hquotient
  have hdivmod : 10 ^ 8 * ((n / 10 ^ 8 : Nat) : ℚ) + ((n % 10 ^ 8 : Nat) : ℚ) = n := by
    exact_mod_cast Nat.div_add_mod n (10 ^ 8)
  have hscale : (10 : ℚ) ^ 8 ≠ 0 := by simp
  rw [Int.toNat_natCast, Int.cast_natCast, eq_div_iff hscale, add_mul, div_mul_cancel₀ _ hscale,
    mul_comm, hdivmod]

/-- Rounded down, the shares of some balances are at most the share of their sum. -/
theorem sum_shares_le (hpos : 0 < denominator) :
    (balances.map fun b => b * 10 ^ 10 / denominator).sum * denominator ≤
      balances.sum * 10 ^ 10 := by
  induction balances with
  | nil => simp
  | cons b rest ih =>
    have hfloor := Int.ediv_mul_le (b * 10 ^ 10) hpos.ne'
    rw [List.map_cons, List.sum_cons, List.sum_cons, Int.add_mul, Int.add_mul]
    omega

theorem share_le (hpos : 0 < denominator) (hle : balances.sum ≤ denominator) :
    (balances.map fun b => b * 10 ^ 10 / denominator).sum ≤ 10 ^ 10 := by
  have hsum : (balances.map fun b => b * 10 ^ 10 / denominator).sum * denominator ≤
      balances.sum * 10 ^ 10 := sum_shares_le hpos
  by_contra hlarge
  have hmul := Int.mul_le_mul_of_nonneg_right (Int.le_of_lt (Int.lt_of_not_ge hlarge)) hpos.le
  have hstep : ((10 : Int) ^ 10 + 1) * denominator ≤
      (balances.map fun b => b * 10 ^ 10 / denominator).sum * denominator :=
    Int.mul_le_mul_of_nonneg_right (by omega) hpos.le
  rw [Int.add_mul] at hstep
  omega

theorem percent_le {scaled : Int} (h : scaled ≤ 10 ^ 10) : (scaled : ℚ) / 10 ^ 8 ≤ 100 := by
  rw [div_le_iff₀ (by norm_num)]
  have hcast : (scaled : ℚ) ≤ ((10 ^ 10 : Int) : ℚ) := Int.cast_le.mpr h
  push_cast at hcast
  exact hcast.trans_eq (by norm_num)

end Percent

section Totals

variable {collation : LinearOrder Text} {db : Db} {networkId : Text} {limit : Nat}
  {totals : RichListTotals} {rows : List RichListRow}

/-- The rich list shows the first ranked balances, each with the totals over all of them. -/
theorem richListQuery_eq_ok (h : richListQuery collation db networkId limit = .ok rows) :
    ∃ totals, windowTotals (chainRanked collation db networkId) = .ok totals ∧
      rows = ((chainRanked collation db networkId).take limit).map (richListRow totals) ∧
      ∀ r ∈ chainRanked collation db networkId, 0 < r.1.balanceZat ∧ r.1.balanceZat ≤ i64Max := by
  rw [richListQuery] at h
  cases hall : richListRows collation db networkId with
  | error error =>
    rw [hall] at h
    cases h
  | ok all =>
    rw [hall] at h
    obtain rfl := Except.ok.inj h
    simp only [richListRows, Result.bind_eq_ok, castBigint_eq_ok_iff, Except.ok.injEq] at hall
    obtain ⟨groups, ⟨hfits, rfl⟩, totals, htotals, rfl⟩ := hall
    refine ⟨totals, htotals, List.map_take.symm, fun r hr => ?_⟩
    obtain ⟨u, hu, heq⟩ := mem_chainRanked hr
    have hbalance : r.1.balanceZat = groupValue u := by
      rw [← heq]
      exact ledger_balance_eq hu
    rw [hbalance]
    exact ⟨groupValue_pos hu, (hfits u hu).2⟩

/-- The totals over all balances are read off the first row, and are zero where there is none. -/
theorem richListTotals_eq {ranked : List (RichBalance × Nat)}
    (htotals : windowTotals ranked = .ok totals) (hlimit : 0 < limit) :
    richListTotals ((ranked.take limit).map (richListRow totals)) = totals := by
  obtain ⟨limit, rfl⟩ := Nat.exists_eq_succ_of_ne_zero hlimit.ne'
  cases ranked with
  | nil => exact Except.ok.inj htotals
  | cons r rest => rfl

/-- The totals are sums over growing parts of the balances. -/
theorem windowTotals_ordered {ranked : List (RichBalance × Nat)}
    (htotals : windowTotals ranked = .ok totals) (hpos : ∀ r ∈ ranked, 0 < r.1.balanceZat) :
    totals.addressedBalanceZat = (ranked.map fun r => r.1.balanceZat).sum ∧
      0 ≤ totals.top1Zat ∧ totals.top1Zat ≤ totals.top10Zat ∧
      totals.top10Zat ≤ totals.top100Zat ∧ totals.top100Zat ≤ totals.addressedBalanceZat := by
  have hnonneg : ∀ r ∈ ranked, 0 ≤ r.1.balanceZat := fun r hr => (hpos r hr).le
  simp only [windowTotals, Result.bind_eq_ok, asBigint_eq_ok_iff, Except.ok.injEq] at htotals
  obtain ⟨_, ⟨-, rfl⟩, _, ⟨-, rfl⟩, _, ⟨-, rfl⟩, _, ⟨-, rfl⟩, rfl⟩ := htotals
  refine ⟨rfl, ?_, ?_, ?_, ?_⟩
  · exact sum_nonneg fun r hr => hnonneg r (List.mem_filter.mp hr).1
  · exact sum_filter_le hnonneg fun r hr => by simp at hr ⊢; omega
  · exact sum_filter_le hnonneg fun r hr => by simp at hr ⊢; omega
  · have hle := sum_filter_le (p := fun r => decide (r.2 ≤ 100)) (q := fun _ => true) hnonneg
      fun _ _ => rfl
    rwa [List.filter_true] at hle

/-- The balances that are listed are a part of all. -/
theorem sum_listed_le {ranked : List (RichBalance × Nat)}
    (hpos : ∀ r ∈ ranked, 0 < r.1.balanceZat) (limit : Nat) :
    ((ranked.take limit).map fun r => r.1.balanceZat).sum ≤
      (ranked.map fun r => r.1.balanceZat).sum := by
  refine ((List.take_sublist limit ranked).map _).sum_le_sum fun z hz => ?_
  obtain ⟨r, hr, rfl⟩ := List.mem_map.mp hz
  exact (hpos r hr).le

end Totals

section View

variable {collation : LinearOrder Text} {network : NetworkProfile} {limit : Option Nat} {db : Db}
  {now : Timestamp} {pool : Int}

/-- What all funded addresses together own. -/
def addressedZat (db : Db) (networkId : Text) : Int :=
  ((utxos db (chainInstances db networkId)).map groupValue).sum

/-- A rich list within a pool: balances in units, each with an exact share, totals that grow to the
addressed balance, and the rest of the pool. -/
structure WithinPool (network : NetworkProfile) (pool : Int) (view : RichListView)
    (balances : List Int) (totals : RichListTotals) : Prop where
  shares : List.Forall₂ (fun balance (entry : RichListEntry) =>
    entry.balance = amount network balance ∧ ∃ share,
      entry.transparentPoolSharePercent = some share ∧ IsPercent share ∧
      decimalValue share = ((balance * 10 ^ 10 / pool : Int) : ℚ) / 10 ^ 8 ∧
      decimalValue share ≤ 100) balances view.addresses
  sum : (view.addresses.map fun entry =>
    (entry.transparentPoolSharePercent.map decimalValue).getD 0).sum ≤ 100
  shown : view.top1Balance = amount network totals.top1Zat ∧
    view.top10Balance = amount network totals.top10Zat ∧
    view.top100Balance = amount network totals.top100Zat ∧
    view.addressedBalance = amount network totals.addressedBalanceZat ∧
    view.transparentPool = some (amount network pool)
  ordered : totals.top1Zat ≤ totals.top10Zat ∧ totals.top10Zat ≤ totals.top100Zat ∧
    totals.top100Zat ≤ totals.addressedBalanceZat ∧ totals.addressedBalanceZat ≤ pool
  rest : ∃ rest, view.addresslessOrUndecodedBalance = some (amount network rest) ∧
    totals.addressedBalanceZat + rest = pool

theorem boundedRichListLimit_pos (limit : Option Nat) : 0 < boundedRichListLimit limit := by
  rw [boundedRichListLimit]
  omega

theorem forall₂_of_mapM_ok {α β : Type} {f : α → Result β} {rows : List α} {shown : List β}
    (h : rows.mapM f = .ok shown) :
    List.Forall₂ (fun row entry => f row = .ok entry) rows shown := by
  induction rows generalizing shown with
  | nil =>
    rw [List.mapM_nil] at h
    rw [← Except.ok.inj h]
    exact .nil
  | cons row rows ih =>
    rw [List.mapM_cons] at h
    simp only [Result.bind_eq_ok] at h
    obtain ⟨entry, hentry, rest, hrest, h⟩ := h
    rw [← Except.ok.inj h]
    exact .cons hentry (ih hrest)

theorem unassigned_eq_ok {addressed : Int} {unassigned : Option Int} :
    unassignedTransparentBalance (some pool) addressed = .ok unassigned ↔
      InBigint (pool - addressed) ∧ 0 ≤ pool - addressed ∧ unassigned = some (pool - addressed) := by
  rw [unassignedTransparentBalance]
  split_ifs with h
  · rw [Except.ok.injEq]
    exact ⟨fun heq => ⟨h.1, h.2, heq.symm⟩, fun heq => heq.2.2.symm⟩
  · refine iff_of_false (fun heq => by cases heq) fun heq => h ⟨heq.1, heq.2.1⟩

/-- What a successful answer was made of. -/
theorem richList_eq_ok {answer : ApiEnvelope RichListView}
    (h : richList collation network limit db now = .ok answer)
    (hpool : transparentPoolZat db network.id = some pool) :
    ∃ rows, richListQuery collation db network.id (boundedRichListLimit limit) = .ok rows ∧
      List.Forall₂ (fun row entry => richListEntry network (some pool) row = .ok entry)
        rows answer.data.addresses ∧
      (InBigint (pool - (richListTotals rows).addressedBalanceZat) ∧
        0 ≤ pool - (richListTotals rows).addressedBalanceZat) ∧
      answer.data.transparentPool = some (amount network pool) ∧
      answer.data.addresslessOrUndecodedBalance =
        some (amount network (pool - (richListTotals rows).addressedBalanceZat)) ∧
      answer.data.addressedBalance = amount network (richListTotals rows).addressedBalanceZat ∧
      answer.data.top1Balance = amount network (richListTotals rows).top1Zat ∧
      answer.data.top10Balance = amount network (richListTotals rows).top10Zat ∧
      answer.data.top100Balance = amount network (richListTotals rows).top100Zat := by
  rw [transparentPoolZat] at hpool
  simp only [richList, Result.bind_eq_ok, hpool, unassigned_eq_ok] at h
  obtain ⟨chain, -, rows, hrows, addresses, haddresses, _, ⟨hfits, hnonneg, rfl⟩, h⟩ := h
  rw [← Except.ok.inj h]
  exact ⟨rows, hrows, forall₂_of_mapM_ok haddresses, ⟨hfits, hnonneg⟩, rfl, rfl, rfl, rfl, rfl, rfl⟩

theorem richListEntry_eq_ok {entry : RichListEntry} {row : RichListRow} (hpos : 0 < pool)
    (h : richListEntry network (some pool) row = .ok entry) :
    entry.balance = amount network row.balanceZat ∧
      entry.transparentPoolSharePercent = some (exactPercent row.balanceZat pool) := by
  simp only [richListEntry, Result.bind_eq_ok] at h
  obtain ⟨received, -, sent, -, h⟩ := h
  rw [← Except.ok.inj h]
  refine ⟨rfl, ?_⟩
  rw [Option.filter_some, if_pos (by simpa using hpos), Option.map_some]

/-- An entry shows a balance and its share of the pool. -/
def ShowsShare (network : NetworkProfile) (pool balance : Int) (entry : RichListEntry) : Prop :=
  (0 < balance ∧ balance ≤ i64Max) ∧ entry.balance = amount network balance ∧
    entry.transparentPoolSharePercent = some (exactPercent balance pool)

theorem ShowsShare.decimalValue_eq {balance : Int} {entry : RichListEntry} (hpos : 0 < pool)
    (h : ShowsShare network pool balance entry) :
    (entry.transparentPoolSharePercent.map decimalValue).getD 0 =
      ((balance * 10 ^ 10 / pool : Int) : ℚ) / 10 ^ 8 := by
  obtain ⟨⟨hbalance, hle⟩, -, hshare⟩ := h
  rw [hshare, Option.map_some, Option.getD_some,
    decimalValue_exactPercent hbalance.le hle hpos]

theorem sum_decimalValue {balances : List Int} {entries : List RichListEntry} (hpos : 0 < pool)
    (h : List.Forall₂ (ShowsShare network pool) balances entries) :
    (entries.map fun entry => (entry.transparentPoolSharePercent.map decimalValue).getD 0).sum =
      (((balances.map fun b => b * 10 ^ 10 / pool).sum : Int) : ℚ) / 10 ^ 8 := by
  induction h with
  | nil => simp
  | cons hhead _ ih =>
    rw [List.map_cons, List.sum_cons, List.map_cons, List.sum_cons, ih, hhead.decimalValue_eq hpos,
      Int.cast_add, add_div]

/-- A successful answer leaves the unaddressed rest of the pool within the range of its type. -/
theorem addressed_within_of_ok {answer : ApiEnvelope RichListView}
    (h : richList collation network limit db now = .ok answer)
    (hpool : transparentPoolZat db network.id = some pool) :
    InBigint (pool - addressedZat db network.id) ∧ 0 ≤ pool - addressedZat db network.id := by
  obtain ⟨rows, hrows, -, hrest, -⟩ := richList_eq_ok h hpool
  obtain ⟨totals, htotals, rfl, hbalances⟩ := richListQuery_eq_ok hrows
  have haddressed := (windowTotals_ordered htotals fun r hr => (hbalances r hr).1).1
  rw [sum_chainRanked] at haddressed
  rw [richListTotals_eq htotals (boundedRichListLimit_pos limit), haddressed] at hrest
  exact hrest

/-- The numbers behind a successful answer. -/
theorem withinPool_of_ok {answer : ApiEnvelope RichListView}
    (h : richList collation network limit db now = .ok answer)
    (hpool : transparentPoolZat db network.id = some pool) (hpos : 0 < pool) :
    ∃ balances totals, WithinPool network pool answer.data balances totals ∧
      totals.addressedBalanceZat = addressedZat db network.id := by
  obtain ⟨rows, hrows, hentries, ⟨-, hnonneg⟩, hshownPool, hrest, haddressed, htop⟩ :=
    richList_eq_ok h hpool
  obtain ⟨totals, htotals, rfl, hbalances⟩ := richListQuery_eq_ok hrows
  have hread := richListTotals_eq htotals (boundedRichListLimit_pos limit)
  rw [hread] at hnonneg hrest haddressed
  rw [hread] at htop
  have hpositive := fun r hr => (hbalances r hr).1
  obtain ⟨hall, -, hle1, hle10, hle100⟩ := windowTotals_ordered htotals hpositive
  have hlisted := sum_listed_le hpositive (boundedRichListLimit limit)
  have hshares : List.Forall₂ (ShowsShare network pool)
      (((chainRanked collation db network.id).take (boundedRichListLimit limit)).map fun r =>
        r.1.balanceZat) answer.data.addresses := by
    rw [List.forall₂_map_left_iff] at hentries ⊢
    refine (List.forall₂_and_left _ _).mpr
      ⟨fun r hr => hbalances r (List.mem_of_mem_take hr), ?_⟩
    exact hentries.imp fun r entry hentry => richListEntry_eq_ok hpos hentry
  generalize ((chainRanked collation db network.id).take (boundedRichListLimit limit)).map
    (fun r => r.1.balanceZat) = balances at hshares hlisted
  have hfits := ((List.forall₂_and_left _ _).mp hshares).1
  have hbounded : ∀ b ∈ balances, b ≤ pool := by
    intro b hb
    have hle := List.single_le_sum (fun b hb => (hfits b hb).1.le) b hb
    omega
  refine ⟨balances, totals, ⟨?_, ?_, ?_, ?_, ?_⟩, ?_⟩
  · refine ((List.forall₂_and_left _ _).mpr ⟨hbounded, hshares⟩).imp fun balance entry hshow => ?_
    obtain ⟨hwithin, ⟨hbalance, hle⟩, hamount, hshare⟩ := hshow
    have hvalue := decimalValue_exactPercent hbalance.le hle hpos
    refine ⟨hamount, _, hshare, isPercent_exactPercent hbalance.le hle hpos, hvalue, ?_⟩
    rw [hvalue]
    refine percent_le (Int.ediv_le_of_le_mul hpos ?_)
    omega
  · rw [sum_decimalValue hpos hshares]
    exact percent_le (share_le hpos (by omega))
  · exact ⟨htop.1, htop.2.1, htop.2.2, haddressed, hshownPool⟩
  · exact ⟨hle1, hle10, hle100, by omega⟩
  · exact ⟨_, hrest, by omega⟩
  · rw [hall, sum_chainRanked]
    rfl

/-- Where the handler answers, every share is the rounded quotient of its balance and the pool, the
shares stay within the pool, and the totals grow to it; addressed balances beyond the pool, or a
rest that does not fit, are refused. -/
theorem rich_list_within_pool (hpool : transparentPoolZat db network.id = some pool) :
    (∀ answer, richList collation network limit db now = .ok answer → 0 < pool →
      ∃ balances totals, WithinPool network pool answer.data balances totals ∧
        totals.addressedBalanceZat = addressedZat db network.id) ∧
    (pool < addressedZat db network.id ∨ ¬InBigint (pool - addressedZat db network.id) →
      ∃ error, richList collation network limit db now = .error error) := by
  refine ⟨fun answer h hpos => withinPool_of_ok h hpool hpos, fun hbeyond => ?_⟩
  cases hanswer : richList collation network limit db now with
  | error error => exact ⟨error, rfl⟩
  | ok answer =>
    obtain ⟨hfits, hnonneg⟩ := addressed_within_of_ok hanswer hpool
    rcases hbeyond with hexceeds | hlarge
    · omega
    · exact absurd hfits hlarge

end View

section Sample

def poolNetwork : NetworkProfile := { wholeNetwork with id := sampleNetwork, decimals := 8 }

/-- Two addresses own a hundred of the hundred and twenty in the pool. -/
def samplePool : Db :=
  { sampleSpending with
    chainState := Table.empty.insertNew
      { networkId := sampleNetwork, indexedHeight := some 1, indexedHash := some (sampleHash '1'),
        updatedAt := 0 }
    valuePoolSnapshots := Table.empty.insertNew
      ⟨sampleHash '1', sampleHash '1', "transparent".toList, some 120, none, some true⟩ }

theorem rich_list_within_pool_sample : ∃ answer balances totals,
    richList inferInstance poolNetwork none samplePool 0 = .ok answer ∧
      answer.data.addresses.length = 2 ∧
      WithinPool poolNetwork 120 answer.data balances totals := by
  have hlength : (richList inferInstance poolNetwork none samplePool 0).map
      (fun answer => answer.data.addresses.length) = .ok 2 := by decide +kernel
  have hpool : transparentPoolZat samplePool poolNetwork.id = some 120 := by decide +kernel
  cases hanswer : richList inferInstance poolNetwork none samplePool 0 with
  | error error =>
    rw [hanswer] at hlength
    cases hlength
  | ok answer =>
    rw [hanswer] at hlength
    obtain ⟨balances, totals, hview, -⟩ :=
      (rich_list_within_pool hpool).1 answer hanswer (by decide)
    exact ⟨answer, balances, totals, rfl, Except.ok.inj hlength, hview⟩

end Sample

end WcashExplorer
