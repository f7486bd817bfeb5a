import WcashExplorer.Api.SameAddresses
import WcashExplorer.Api.SameHistories

/-! The rich list and the address statistics of one chain are the same. -/
namespace WcashExplorer

open Relational

variable {networkId : Text} {network : NetworkProfile} {db db' : Db} {xs : List CanonicalRow}
  {now : Timestamp} {x y : ChainTransaction} {collation : LinearOrder Text}

section Ledgers

theorem SameChain.isSpent_eq (h : SameChain networkId db db' xs) {y z : ChainOutput}
    (hyz : SameOutput db db' y z) : isSpent db networkId y = isSpent db' networkId z := by
  refine h.inputs.any_eq fun i j hij => ?_
  rw [prevout_eq hij.2, hyz.outpoint]

theorem SameChain.involves_eq (h : SameChain networkId db db' xs) (address : Text)
    (hxy : SameView db db' x y) :
    involves db networkId address x = involves db' networkId address y := by
  have hpaid := hxy.stored.outputs.any_eq (p := fun o => o.address = some address)
    (q := fun o => o.address = some address) fun o p hop => by
      rw [(TransparentOutputRow.columns hop).2.2.1]
  have hspent (i j : TransparentInputRow) (hij : i.anonymous = j.anonymous) :
      ((ownedOutputs db networkId address).any fun y => i.prevout = some y.outpoint) =
        (ownedOutputs db' networkId address).any fun y => j.prevout = some y.outpoint :=
    (h.owned address).any_eq fun y z hyz => by rw [prevout_eq hij, hyz.outpoint]
  rw [involves, involves, hpaid, hxy.stored.inputs.any_eq hspent]

theorem SameChain.events (h : SameChain networkId db db' xs) (address : Text) :
    Similar (SameView db db') (addressEvents db networkId address)
      (addressEvents db' networkId address) :=
  h.views.filter fun _ _ hxy => h.involves_eq address hxy

/-- A ledger shows the same balances and the same first and last events. -/
theorem SameChain.richBalance_eq (h : SameChain networkId db db' xs) (address : Text) :
    (addressLedger db networkId address).richBalance address =
      (addressLedger db' networkId address).richBalance address := by
  have howned := h.owned address
  have hevents := h.events address
  have hunspent (y z : ChainOutput) (hyz : SameOutput db db' y z) :
      (!isSpent db networkId y) = !isSpent db' networkId z := by rw [h.isSpent_eq hyz]
  have hends {κ : Type} [LinearOrder κ] (key : ChainTransaction → κ)
      (hkey : ∀ x y, SameView db db' x y → key x = key y)
      (hnodup : ((addressEvents db networkId address).map key).Nodup) :
      Option.Rel (SameView db db') (orderBy key (addressEvents db networkId address)).head?
        (orderBy key (addressEvents db' networkId address)).head? :=
    head?_rel (hevents.orderBy hkey hnodup)
  have hfirst := hends ChainTransaction.order (fun _ _ hxy => hxy.order) addressEvents_order_nodup
  have hlast := hends (fun x => OrderDual.toDual x.order) (fun _ _ hxy => by rw [hxy.order])
    addressEvents_order_nodup
  have hmap {α : Type} {f : ChainTransaction → α} {o p : Option ChainTransaction}
      (hop : Option.Rel (SameView db db') o p) (hf : ∀ x y, SameView db db' x y → f x = f y) :
      o.map f = p.map f := by
    cases hop with
    | none => rfl
    | some hxy => exact congrArg some (hf _ _ hxy)
  have hheight (x y : ChainTransaction) (hxy : SameView db db' x y) :
      x.selector.height = y.selector.height := by rw [hxy.selector]
  simp only [AddressLedger.richBalance, addressLedger,
    sumWhere_same howned hunspent, (howned.filter hunspent).length_eq,
    howned.sum_eq fun y z hyz => hyz.value, sumWhere_same howned fun y z hyz => h.isSpent_eq hyz,
    hevents.length_eq, hmap hfirst hheight, hmap hlast hheight,
    hmap hlast fun x y hxy => hxy.blockTime]

end Ledgers

section Funded

variable {txs txs' : List TransactionInstanceRow}

/-- Two outputs to an address look the same. -/
structure SameAddressed (y z : AddressedOutput) : Prop where
  address : y.address = z.address
  txid : y.tx.txid = z.tx.txid
  output : y.output.anonymous = z.output.anonymous

theorem addressedOutputs_same (h : Similar (SameStored db db') txs txs') :
    Similar SameAddressed (addressedOutputs db txs) (addressedOutputs db' txs') := by
  refine h.flatMap fun t t' ht => ht.outputs.filterMap fun o p hop => ?_
  rw [(TransparentOutputRow.columns hop).2.2.1]
  cases p.address with
  | none => exact .none
  | some a => exact .some ⟨rfl, ht.txid, hop⟩

theorem spentPrevouts_perm (h : Similar (SameStored db db') txs txs') :
    (spentPrevouts db txs).Perm (spentPrevouts db' txs') := by
  refine List.Perm.dedup (Similar.perm ((h.flatMap fun t t' ht => ht.inputs).filterMap ?_))
  intro i j hij
  obtain ⟨-, htxid, hindex, -⟩ := TransparentInputRow.columns hij
  rw [htxid, hindex]
  cases j.previousTxid with
  | none => exact .none
  | some txid => exact .some rfl

/-- The funded addresses are the same, each of them with as much. -/
theorem utxos_same (h : Similar (SameStored db db') txs txs') :
    Similar (fun u v => u.1 = v.1 ∧ groupValue u = groupValue v) (utxos db txs) (utxos db' txs') := by
  have hspent (y z : AddressedOutput) (hyz : SameAddressed y z) :
      (!(spentPrevouts db txs).any y.spentBy) = !(spentPrevouts db' txs').any z.spentBy := by
    have hby : y.spentBy = z.spentBy := by
      funext s
      rw [AddressedOutput.spentBy, AddressedOutput.spentBy, hyz.txid,
        (TransparentOutputRow.columns hyz.output).1]
    rw [hby, (spentPrevouts_perm h).any_eq]
  have hgroups := ((addressedOutputs_same h).filter hspent).groupBy fun y z hyz => hyz.address
  refine (hgroups.mono fun u v huv => ⟨huv.1, ?_⟩).filter fun u v huv => by rw [huv.2]
  exact huv.2.sum_eq fun y z hyz => (TransparentOutputRow.columns hyz.output).2.1

end Funded

section RichList

/-- The ranked balances are the same. -/
theorem SameChain.ranked_eq (h : SameChain networkId db db' xs) :
    chainRanked collation db networkId = chainRanked collation db' networkId := by
  have hperm : (richBalances db (chainTransactions db networkId)
      (utxos db (chainInstances db networkId))).Perm (richBalances db'
        (chainTransactions db' networkId) (utxos db' (chainInstances db' networkId))) := by
    rw [richBalances_eq, richBalances_eq]
    refine (utxos_same h.storedTransactions).perm_map fun u v huv => ?_
    rw [huv.1, h.richBalance_eq]
  have haddresses : ((richBalances db (chainTransactions db networkId)
      (utxos db (chainInstances db networkId))).map RichBalance.address).Nodup := by
    rw [richBalances_eq, List.map_map]
    exact (List.filter_sublist.map _).nodup keys_groupBy_nodup
  let _ := collation
  refine congrArg (fun rows => List.zipIdx rows 1) (orderBy_perm_eq hperm ?_)
  refine List.Nodup.of_map (fun k : Lex (Intᵒᵈ × Text) => (ofLex k).2) ?_
  rw [List.map_map]
  exact haddresses

theorem SameChain.richListQuery_eq (h : SameChain networkId db db' xs) (limit : Nat) :
    richListQuery collation db networkId limit = richListQuery collation db' networkId limit := by
  refine congrArg (Except.map (List.take limit)) ?_
  refine castBigint_bind_eq (utxos_same h.storedTransactions) (fun u v huv => huv.2) ?_
  exact congrArg (fun rows => windowTotals rows >>= fun totals =>
    Except.ok (rows.map (richListRow totals))) h.ranked_eq

theorem SameChain.latestTransparentPoolQuery_eq (h : SameChain networkId db db' xs) :
    latestTransparentPoolQuery db networkId = latestTransparentPoolQuery db' networkId := by
  obtain ⟨s, hs, hheight, hhash⟩ := h.recorded
  obtain ⟨s', hs', hheight', hhash'⟩ := h.recorded'
  rw [latestTransparentPoolQuery, latestTransparentPoolQuery, hs, hs', Option.map_some,
    Option.map_some, hheight, hheight', hhash, hhash']
  have hpool (height : Nat) : (db.canonicalChain.find? (networkId, height)).bind (fun c =>
      if xs.getLast?.map CanonicalRow.blockHash = some c.blockHash then
        db.valuePoolSnapshots.find? (c.blockHash, c.witnessHash, "transparent".toList)
      else none) = (db'.canonicalChain.find? (networkId, height)).bind fun c =>
        if xs.getLast?.map CanonicalRow.blockHash = some c.blockHash then
          db'.valuePoolSnapshots.find? (c.blockHash, c.witnessHash, "transparent".toList)
        else none := by
    rw [h.find?_eq height]
    cases hfound : db'.canonicalChain.find? (networkId, height) with
    | none => rfl
    | some c =>
      have hc : c ∈ canonicalRows db networkId := h.mem_rows.mpr (mem_canonicalRows.mpr
        ⟨Table.mem_of_find? hfound, congrArg Prod.fst (Table.key_of_find? hfound)⟩)
      rw [Option.bind_some, Option.bind_some, h.pools c hc]
  cases xs.getLast?.map CanonicalRow.height with
  | none => rfl
  | some height =>
    simp only [Option.bind_eq_bind, Option.bind_some, hpool height]

/-- The rich list is the same. -/
theorem SameChain.richList (h : SameChain network.id db db' xs) (limit : Option Nat) :
    (WcashExplorer.richList collation network limit db now).map (ApiEnvelope.present id) =
      (WcashExplorer.richList collation network limit db' now).map (ApiEnvelope.present id) := by
  have hpool := h.latestTransparentPoolQuery_eq
  refine bind_congr_view h.state fun s s' hs => ?_
  obtain ⟨hheight, hhash⟩ := Prod.mk.inj hs
  refine bind_congr_same (h.richListQuery_eq _) fun rows => ?_
  refine bind_congr_same (by rw [hpool]) fun addresses => ?_
  refine bind_congr_same (by rw [hpool]) fun unassigned => congrArg Except.ok ?_
  refine envelope_present ?_ hheight
  rw [hpool, hheight, hhash]

end RichList

section Statistics

variable {before : Option Nat} {limit : Nat}

theorem SameChain.activeAt_iff (h : SameChain networkId db db' xs) {address : Text} {t : Nat} :
    ActiveAt db networkId address t ↔ ActiveAt db' networkId address t := by
  have hheights := (h.events address).perm_map (f := fun x => x.selector.height)
    (g := fun y => y.selector.height) fun x y hxy => by rw [hxy.selector]
  have hmem := hheights.mem_iff (a := t)
  simp only [List.mem_map, addressEvents, List.mem_filter] at hmem
  constructor
  · rintro ⟨x, hx, hheight, hinvolves⟩
    obtain ⟨y, ⟨hy, hinvolves⟩, hheight⟩ := hmem.mp ⟨x, ⟨hx, hinvolves⟩, hheight⟩
    exact ⟨y, hy, hheight, hinvolves⟩
  · rintro ⟨y, hy, hheight, hinvolves⟩
    obtain ⟨x, ⟨hx, hinvolves⟩, hheight⟩ := hmem.mpr ⟨y, ⟨hy, hinvolves⟩, hheight⟩
    exact ⟨x, hx, hheight, hinvolves⟩

theorem SameChain.mem_seenEvents_iff (h : SameChain networkId db db' xs) {e : Text × Nat} :
    e ∈ seenEvents db (chainTransactions db networkId) ↔
      e ∈ seenEvents db' (chainTransactions db' networkId) :=
  (mem_seenEvents.trans h.activeAt_iff).trans mem_seenEvents.symm

/-- As many addresses are active at a height, and as many of them new. -/
theorem SameChain.counts_eq (h : SameChain networkId db db' xs) (t : Nat) :
    groupCount (fun rows => (rows.map Prod.fst).dedup.length)
        (seenEvents db (chainTransactions db networkId)) t =
      groupCount (fun rows => (rows.map Prod.fst).dedup.length)
        (seenEvents db' (chainTransactions db' networkId)) t ∧
    groupCount List.length (firstSeen (seenEvents db (chainTransactions db networkId))) t =
      groupCount List.length (firstSeen (seenEvents db' (chainTransactions db' networkId))) t := by
  have hactive (d : Db) : groupCount (fun rows => (rows.map Prod.fst).dedup.length)
      (seenEvents d (chainTransactions d networkId)) t =
        activeAt (seenEvents d (chainTransactions d networkId)) t := groupCount_eq rfl
  have hnew (d : Db) : groupCount List.length
      (firstSeen (seenEvents d (chainTransactions d networkId))) t =
        newAt (seenEvents d (chainTransactions d networkId)) t := groupCount_eq rfl
  constructor
  · rw [hactive, hactive, activeAt_eq, activeAt_eq]
    simp only [h.mem_seenEvents_iff]
  · have hadd := @newAt_add _ _ (seenEvents db (chainTransactions db networkId)) t
    have hadd' := @newAt_add _ _ (seenEvents db' (chainTransactions db' networkId)) t
    simp only [h.mem_seenEvents_iff] at hadd
    rw [hnew, hnew]
    omega

theorem SameChain.addressMetrics_perm (h : SameChain networkId db db' xs) :
    (addressMetrics db networkId).Perm (addressMetrics db' networkId) := by
  have hblocks : Similar (fun x y => x.1.height = y.1.height ∧ x.2.blockTime = y.2.blockTime)
      (WcashExplorer.joinBlocks db (canonicalRows db networkId))
      (WcashExplorer.joinBlocks db' (canonicalRows db' networkId)) := by
    refine h.rows.filterMap ?_
    rintro c _ ⟨hc, rfl⟩
    obtain ⟨b, b', hb, hb', hshown⟩ := h.header hc
    have htime : b.shown.blockTime = b'.shown.blockTime := congrArg _ hshown
    rw [hb, hb']
    exact .some ⟨rfl, htime⟩
  refine hblocks.perm_map fun x y hxy => ?_
  have hsum := ((hblocks.filter (p := fun z => z.1.height ≤ x.1.height)
    (q := fun z => z.1.height ≤ y.1.height) fun r s hrs => by rw [hrs.1, hxy.1]).perm_map
      fun r s hrs => (by rw [hrs.1, (h.counts_eq s.1.height).2] : groupCount List.length
        (firstSeen (seenEvents db (chainTransactions db networkId))) r.1.height =
          groupCount List.length (firstSeen (seenEvents db' (chainTransactions db' networkId)))
            s.1.height)).sum_eq
  rw [hsum, hxy.1, hxy.2, (h.counts_eq y.1.height).1, (h.counts_eq y.1.height).2]

theorem addressMetrics_nodup :
    ((addressMetrics db networkId).map AddressStatsRow.height).Nodup := by
  have hheights : (canonicalRows db networkId).Pairwise fun c d => c.height ≠ d.height :=
    List.pairwise_map.mp canonicalRows_nodup
  rw [addressMetrics, List.map_map]
  refine List.pairwise_map.mpr (hheights.filterMap _ fun c d hne x hx y hy => ?_)
  obtain ⟨b, -, rfl⟩ := Option.map_eq_some_iff.mp hx
  obtain ⟨b', -, rfl⟩ := Option.map_eq_some_iff.mp hy
  exact hne

theorem SameChain.addressStatsQuery_eq (h : SameChain networkId db db' xs) :
    addressStatsQuery db networkId before limit = addressStatsQuery db' networkId before limit := by
  refine congrArg (fun rows => orderBy AddressStatsRow.height (List.take limit rows)) ?_
  refine orderBy_perm_eq (h.addressMetrics_perm.filter _) ?_
  have hkept : (((addressMetrics db networkId).filter fun r =>
      before.all fun k => r.height < k).map AddressStatsRow.height).Nodup :=
    addressMetrics_nodup.sublist (List.filter_sublist.map _)
  exact hkept

theorem SameChain.currentAddressStatsQuery_eq (h : SameChain networkId db db' xs) :
    currentAddressStatsQuery db networkId = currentAddressStatsQuery db' networkId := by
  have hbalances := utxos_same h.instances
  have hseen := ((addressedOutputs_same h.instances).perm_map fun y z hyz =>
    hyz.address).dedup.length_eq
  refine castBigint_bind_eq hbalances (fun u v huv => huv.2) ?_
  refine bind_congr_eq (congrArg asBigint (hbalances.sum_eq fun u v huv => huv.2)) fun total => ?_
  rw [hbalances.length_eq, hseen]

/-- The address statistics are the same. -/
theorem SameChain.addressStats (h : SameChain network.id db db' xs) (query : HistoryQuery) :
    (WcashExplorer.addressStats network query db now).map (ApiEnvelope.present id) =
      (WcashExplorer.addressStats network query db' now).map (ApiEnvelope.present id) := by
  have hpool := h.latestTransparentPoolQuery_eq
  refine bind_congr_same rfl fun before => ?_
  refine bind_congr_view h.state fun s s' hs => ?_
  obtain ⟨hheight, hhash⟩ := Prod.mk.inj hs
  refine bind_congr_same h.currentAddressStatsQuery_eq fun current => ?_
  refine bind_congr_same (by rw [hpool]) fun unassigned => congrArg Except.ok ?_
  refine envelope_present ?_ hheight
  rw [hpool, hheight, hhash, h.addressStatsQuery_eq]

end Statistics

end WcashExplorer
