import WcashExplorer.Api.PoolHistory
import WcashExplorer.Api.SamePages

/-! Searches and histories of one chain are the same. -/
namespace WcashExplorer

open Relational

variable {networkId : Text} {network : NetworkProfile} {db db' : Db} {c : CanonicalRow}
  {xs : List CanonicalRow} {now : Timestamp} {before : Option Nat} {limit : Nat}

section Search

variable {lib : AddressCrate}

theorem SameChain.paysAddress_eq (h : SameChain networkId db db' xs) (address : Text) :
    paysAddress db networkId address = paysAddress db' networkId address := by
  refine h.rows.any_eq ?_
  rintro c _ ⟨hc, rfl⟩
  refine (h.placements hc).any_eq ?_
  rintro r s ⟨-, t, t', ht, ht', hsame⟩
  have hid : t.transactionInstanceId = r.transactionInstanceId := by
    simpa using List.find?_some ht
  have hid' : t'.transactionInstanceId = s.transactionInstanceId := by
    simpa using List.find?_some ht'
  rw [← hid, ← hid']
  refine hsame.outputs.any_eq fun o p hop => ?_
  rw [(TransparentOutputRow.columns hop).2.2.1]

theorem SameChain.named_eq (h : SameChain network.id db db' xs) (needle : Text) :
    named lib network needle db = named lib network needle db' := by
  have hhash : ((canonicalRows db network.id).any fun c => c.blockHash = needle) =
      (canonicalRows db' network.id).any fun c => c.blockHash = needle := h.rows_perm.any_eq
  have htxid : ((placedInstances db network.id).any fun t => t.txid = needle) =
      (placedInstances db' network.id).any fun t => t.txid = needle :=
    h.instances.any_eq fun r s hrs => by rw [hrs.txid]
  simp only [named, h.find?_eq, hhash, htxid, h.paysAddress_eq]

/-- A search finds the same. -/
theorem SameChain.search (h : SameChain network.id db db' xs) (q : Text) :
    (WcashExplorer.search lib network q db now).map (ApiEnvelope.present id) =
      (WcashExplorer.search lib network q db' now).map (ApiEnvelope.present id) := by
  refine bind_congr_same rfl fun _ => ?_
  refine bind_congr_view h.state fun s s' hs => ?_
  refine bind_congr_same (h.named_eq _) fun found => ?_
  refine bind_congr_same rfl fun result => congrArg Except.ok ?_
  exact envelope_present rfl (Prod.mk.inj hs).1

end Search

section Network

/-- What the histories read of a selected row and its block. -/
def HeightBlock.shown (x : HeightBlock) : HeightBlock := (x.1, x.2.shown)

theorem map_lag {ρ σ : Type} (f : ρ → σ) (rows : List ρ) :
    (lag rows).map (Prod.map (Option.map f) f) = lag (rows.map f) := by
  rw [lag, lag, ← List.zip_map, List.map_cons, List.map_map, List.map_map]
  rfl

/-- The page of selected rows is the same. -/
theorem SameChain.below_eq (h : SameChain networkId db db' xs) :
    below CanonicalRow.height before (canonicalRows db networkId) =
      below CanonicalRow.height before (canonicalRows db' networkId) := by
  refine orderBy_perm_eq (h.rows_perm.filter _) ?_
  have hkept : (((canonicalRows db networkId).filter fun c =>
      before.all fun k => c.height < k).map CanonicalRow.height).Nodup :=
    canonicalRows_nodup.sublist (List.filter_sublist.map _)
  exact hkept

theorem SameChain.joinBlocks (h : SameChain networkId db db' xs) {selectors : List CanonicalRow}
    (hs : ∀ c ∈ selectors, c ∈ canonicalRows db networkId) :
    List.Forall₂ (fun x y => x.1 ∈ canonicalRows db networkId ∧ x.shown = y.shown)
      (WcashExplorer.joinBlocks db selectors) (WcashExplorer.joinBlocks db' selectors) := by
  induction selectors with
  | nil => exact .nil
  | cons c rest ih =>
    have hrest := ih fun d hd => hs d (List.mem_cons_of_mem c hd)
    have hc := hs c List.mem_cons_self
    obtain ⟨b, b', hb, hb', hshown⟩ := h.header hc
    have hjoin (d : Db) (e : BlockRow) (he : d.blocks.find? c.blockHash = some e) :
        WcashExplorer.joinBlocks d (c :: rest) = (c, e) :: WcashExplorer.joinBlocks d rest := by
      rw [WcashExplorer.joinBlocks, List.filterMap_cons, he]
      rfl
    rw [hjoin db b hb, hjoin db' b' hb']
    exact .cons ⟨hc, Prod.ext rfl hshown⟩ hrest

theorem joinBlocks_shown_of_forall₂ {P : HeightBlock → Prop} {ps qs : List HeightBlock}
    (h : List.Forall₂ (fun x y => P x ∧ x.shown = y.shown) ps qs) :
    ps.map HeightBlock.shown = qs.map HeightBlock.shown := by
  have hshown := h.imp fun _ _ hxy => hxy.2
  rwa [← List.forall₂_eq_eq_eq, List.forall₂_map_left_iff, List.forall₂_map_right_iff]

theorem windowRow_shown (x : Option HeightBlock × HeightBlock) :
    windowRow (Prod.map (Option.map HeightBlock.shown) HeightBlock.shown x) = windowRow x := by
  obtain ⟨previous, x⟩ := x
  cases previous <;> rfl

theorem SameChain.networkHistoryQuery_eq (h : SameChain networkId db db' xs) :
    networkHistoryQuery db networkId before limit =
      networkHistoryQuery db' networkId before limit := by
  have hselected : ∀ c ∈ (below CanonicalRow.height before (canonicalRows db networkId)).take
      (limit + 1), c ∈ canonicalRows db networkId := fun c hc =>
    (mem_below.mp (List.mem_of_mem_take hc)).1
  have hshown := joinBlocks_shown_of_forall₂ (h.joinBlocks hselected)
  have hwindow (ps : List HeightBlock) : (lag (orderBy (fun x => x.1.height) ps)).mapM windowRow =
      (lag (orderBy (fun x => x.1.height) (ps.map HeightBlock.shown))).mapM windowRow := by
    rw [← map_orderBy (fun x : HeightBlock => x.1.height) HeightBlock.shown, ← map_lag]
    have hrow : windowRow ∘ Prod.map (Option.map HeightBlock.shown) HeightBlock.shown = windowRow :=
      funext windowRow_shown
    rw [List.mapM_map, hrow]
    rfl
  rw [networkHistoryQuery, networkHistoryQuery, ← h.below_eq]
  refine congrArg (fun rows => rows >>= fun history =>
    Except.ok (recent NetworkHistoryRow.height none limit history)) ?_
  rw [hwindow, hshown, ← hwindow]

/-- The network history is the same. -/
theorem SameChain.networkHistory (h : SameChain network.id db db' xs) (targetSpacingSeconds : Nat)
    (query : HistoryQuery) :
    (WcashExplorer.networkHistory network targetSpacingSeconds query db now).map
        (ApiEnvelope.present id) =
      (WcashExplorer.networkHistory network targetSpacingSeconds query db' now).map
        (ApiEnvelope.present id) := by
  refine bind_congr_same rfl fun before => ?_
  refine bind_congr_view h.state fun s s' hs => ?_
  refine bind_congr_same h.networkHistoryQuery_eq fun rows => congrArg Except.ok ?_
  obtain ⟨hheight, hhash⟩ := Prod.mk.inj hs
  refine envelope_present ?_ hheight
  rw [hheight, hhash]

end Network

section Pools

end Pools

end WcashExplorer
