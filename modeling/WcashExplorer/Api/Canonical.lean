import WcashExplorer.Api.Summary
import WcashExplorer.Db.Growth

/-! The canonical transactions: each one once, and unchanged while the branch is kept. -/
namespace WcashExplorer

open Relational

variable {networkId : Text} {db db' : Db} {xs : List CanonicalRow} {c : CanonicalRow}
  {x y : ChainTransaction}

theorem mem_witnessPlacements {r : BlockTransactionRow} : r ∈ witnessPlacements db c ↔
    r ∈ db.blockTransactions.rows ∧ r.blockHash = c.blockHash ∧ r.witnessHash = c.witnessHash := by
  simp [witnessPlacements]

/-- A canonical transaction is a selected row, its block, one of its placements, and the instance
placed there. -/
structure IsChainTransaction (db : Db) (networkId : Text) (x : ChainTransaction) : Prop where
  selector : x.selector ∈ canonicalRows db networkId
  block : db.blocks.find? x.selector.blockHash = some x.block
  placement : x.placement ∈ witnessPlacements db x.selector
  stored : instanceById db x.placement.transactionInstanceId = some x.stored

theorem mem_selectedTransactions : x ∈ selectedTransactions db c ↔
    x.selector = c ∧ db.blocks.find? c.blockHash = some x.block ∧
      x.placement ∈ witnessPlacements db c ∧
      instanceById db x.placement.transactionInstanceId = some x.stored := by
  cases hb : db.blocks.find? c.blockHash with
  | none => simp [selectedTransactions, hb]
  | some b =>
    simp only [selectedTransactions, hb, List.mem_filterMap, Option.map_eq_some_iff,
      Option.some.injEq]
    constructor
    · rintro ⟨r, hr, t, ht, rfl⟩
      exact ⟨rfl, rfl, hr, ht⟩
    · rintro ⟨rfl, rfl, hr, ht⟩
      exact ⟨x.placement, hr, x.stored, ht, rfl⟩

theorem mem_chainTransactions :
    x ∈ chainTransactions db networkId ↔ IsChainTransaction db networkId x := by
  simp only [chainTransactions, List.mem_flatMap, mem_selectedTransactions]
  constructor
  · rintro ⟨c, hc, rfl, hb, hr, ht⟩
    exact ⟨hc, hb, hr, ht⟩
  · rintro ⟨hc, hb, hr, ht⟩
    exact ⟨x.selector, hc, rfl, hb, hr, ht⟩

/-- Height and position name one canonical transaction. -/
theorem IsChainTransaction.eq_of_order (hx : IsChainTransaction db networkId x)
    (hy : IsChainTransaction db networkId y) (h : x.order = y.order) : x = y := by
  obtain ⟨hheight, hposition⟩ := Prod.mk.inj (toLex_inj.mp h)
  have hselector : x.selector = y.selector :=
    List.inj_on_of_nodup_map canonicalRows_nodup hx.selector hy.selector hheight
  obtain ⟨hrx, hbx, hwx⟩ := mem_witnessPlacements.mp hx.placement
  obtain ⟨hry, hby, hwy⟩ := mem_witnessPlacements.mp hy.placement
  have hplacement : x.placement = y.placement := by
    refine List.inj_on_of_nodup_map db.blockTransactions.nodup hrx hry ?_
    rw [BlockTransactionRow.key, BlockTransactionRow.key, hbx, hwx, hby, hwy, hselector,
      hposition]
  have hblock : x.block = y.block := Option.some.inj
    (hx.block.symm.trans (hselector ▸ hy.block))
  have hstored : x.stored = y.stored := Option.some.inj
    (hx.stored.symm.trans (hplacement ▸ hy.stored))
  cases x
  cases y
  simp_all

theorem chainTransactions_nodup : (chainTransactions db networkId).Nodup := by
  refine List.nodup_flatMap.mpr ⟨fun c _ => ?_, ?_⟩
  · have hrows : (witnessPlacements db c).Nodup :=
      (List.Nodup.of_map _ db.blockTransactions.nodup).filter _
    unfold selectedTransactions
    cases db.blocks.find? c.blockHash with
    | none => exact List.nodup_nil
    | some b =>
      refine hrows.filterMap fun r s x hr hs => ?_
      obtain ⟨t, -, rfl⟩ := Option.map_eq_some_iff.mp hr
      obtain ⟨u, -, hu⟩ := Option.map_eq_some_iff.mp hs
      exact (congrArg ChainTransaction.placement hu).symm
  · have hrows : (canonicalRows db networkId).Nodup := List.Nodup.of_map _ canonicalRows_nodup
    refine hrows.imp fun hne x hx hy => hne ?_
    exact (mem_selectedTransactions.mp hx).1.symm.trans (mem_selectedTransactions.mp hy).1

theorem chainTransactions_order_nodup :
    ((chainTransactions db networkId).map ChainTransaction.order).Nodup :=
  chainTransactions_nodup.map_on fun _ hx _ hy h =>
    (mem_chainTransactions.mp hx).eq_of_order (mem_chainTransactions.mp hy) h

namespace Grown

theorem instanceById_eq (h : Grown networkId db xs db') {id : Nat}
    (hid : (readInstance db id).isSome) : instanceById db' id = instanceById db id := by
  obtain ⟨added, hadded⟩ := h.facts.transactionInstances
  rw [readInstance, Option.isSome_map] at hid
  rw [instanceById, instanceById, ← hadded, List.find?_append]
  obtain ⟨r, hr⟩ := Option.isSome_iff_exists.mp hid
  rw [hr]
  rfl

/-- While the branch is kept, the transactions at its heights are the same rows. -/
theorem mem_chainTransactions (h : Grown networkId db xs db')
    (hlt : x.selector.height < xs.length) :
    x ∈ chainTransactions db' networkId ↔ x ∈ chainTransactions db networkId := by
  rw [WcashExplorer.mem_chainTransactions, WcashExplorer.mem_chainTransactions]
  constructor
  · rintro ⟨hc, hb, hr, ht⟩
    have hc' := (h.mem_canonicalRows hlt).mp hc
    obtain ⟨b, hblock, hblock', -, -⟩ := h.block hc'
    obtain ⟨hr, hbr, hwr⟩ := mem_witnessPlacements.mp hr
    have hr' := (h.mem_placements hc' hbr hwr).mp hr
    refine ⟨hc', ?_, mem_witnessPlacements.mpr ⟨hr', hbr, hwr⟩, ?_⟩
    · rw [hblock, ← hb, hblock']
    · rw [← h.instanceById_eq (h.sound.placements _ hr').2]
      exact ht
  · rintro ⟨hc, hb, hr, ht⟩
    obtain ⟨hr, hbr, hwr⟩ := mem_witnessPlacements.mp hr
    have hr' := (h.mem_placements hc hbr hwr).mpr hr
    refine ⟨(h.mem_canonicalRows hlt).mpr hc, Table.find?_of_prefix h.facts.blocks hb,
      mem_witnessPlacements.mpr ⟨hr', hbr, hwr⟩, ?_⟩
    rw [h.instanceById_eq (h.sound.placements _ hr).2]
    exact ht

end Grown

end WcashExplorer
