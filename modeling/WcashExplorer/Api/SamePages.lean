import WcashExplorer.Api.BlockSnapshot
import WcashExplorer.Api.SameChain

/-! Pages of one chain are the same, whatever else the store holds. -/
namespace WcashExplorer

open Relational

variable {networkId : Text} {network : NetworkProfile} {db db' : Db} {c : CanonicalRow}
  {xs : List CanonicalRow} {b b' : BlockRow} {w w' : BlockWitnessRow} {now : Timestamp}

section Answers

variable {α α' β β' γ δ : Type}

/-- What an answer shows, apart from the node's height and the age of the index. -/
def ApiEnvelope.present (show_ : α → β) (a : ApiEnvelope α) : ApiEnvelope β where
  data := show_ a.data
  pageMeta := { a.pageMeta with nodeHeight := none, freshnessSeconds := none }

theorem envelope_present {f : α → β} {a a' : α} {cursor : Option Text} {s s' : ChainStateRow}
    (hdata : f a = f a') (hheight : s.indexedHeight = s'.indexedHeight) :
    (envelope network a cursor s now).present f = (envelope network a' cursor s' now).present f := by
  simp only [ApiEnvelope.present, envelope, hdata, hheight]

/-- Two computations go on alike after results that look alike. -/
theorem bind_congr_view {r : Result α} {r' : Result α'} {k : α → Result β} {k' : α' → Result β'}
    {p : α → γ} {p' : α' → γ} {g : β → δ} {g' : β' → δ} (hr : r.map p = r'.map p')
    (hk : ∀ a a', p a = p' a' → (k a).map g = (k' a').map g') :
    (r >>= k).map g = (r' >>= k').map g' := by
  cases r with
  | error e =>
    cases r' with
    | error e' =>
      cases hr
      rfl
    | ok a' => cases hr
  | ok a =>
    cases r' with
    | error e' => cases hr
    | ok a' => exact hk a a' (Except.ok.inj hr)

/-- Two computations go on alike after the same result. -/
theorem bind_congr_same {r r' : Result α} {k : α → Result β} {k' : α → Result β'} {g : β → δ}
    {g' : β' → δ} (hr : r = r') (hk : ∀ a, (k a).map g = (k' a).map g') :
    (r >>= k).map g = (r' >>= k').map g' := by
  subst hr
  cases r with
  | error error => simp only [bind, Except.bind, Except.map]
  | ok a => exact hk a

theorem map_map (f : α → β) (g : β → γ) (r : Result α) : (r.map f).map g = r.map (g ∘ f) := by
  cases r <;> rfl

theorem mapM_congr_rel {R : α → α' → Prop} {f : α → Result β} {f' : α' → Result β'} {g : β → γ}
    {g' : β' → γ} (hf : ∀ a a', R a a' → (f a).map g = (f' a').map g') {l : List α} {l' : List α'}
    (h : List.Forall₂ R l l') : (l.mapM f).map (List.map g) = (l'.mapM f').map (List.map g') := by
  rw [map_mapM, map_mapM]
  induction h with
  | nil => rfl
  | cons hfirst _ ih => rw [List.mapM_cons, List.mapM_cons, hf _ _ hfirst, ih]

theorem SameChain.state (h : SameChain network.id db db' xs) :
    (chainStateRow db network).map (fun s => (s.indexedHeight, s.indexedHash)) =
      (chainStateRow db' network).map fun s => (s.indexedHeight, s.indexedHash) := by
  obtain ⟨s, s', hs, hs', hheight, hhash⟩ := h.stateRow rfl
  rw [hs, hs']
  exact congrArg Except.ok (Prod.ext hheight hhash)

end Answers

section Blocks

/-- No evidence about a block. -/
def noEvidence : MergeMiningSummary where
  exactWitnessState := .nativeGenesis
  localValidationState := .genesis
  parentBlockHash := none
  parentLookupState := []
  parentSourcesAgree := false
  parentHeight := none
  parentConfirmations := none

/-- A block's summary without its evidence. -/
def BlockSummary.facts (s : BlockSummary) : BlockSummary := { s with mergeMining := noEvidence }

/-- The columns of a block's row that are not evidence. -/
def BlockSummaryRow.facts (r : BlockSummaryRow) : BlockSummaryRow :=
  { r with
    exactWitnessState := .nativeGenesis
    localValidationState := .genesis
    parentBlockHash := none
    parentLookupState := none
    parentSourcesAgree := none
    parentHeight := none
    parentConfirmations := none }

theorem SameChain.rewardZat_eq (h : SameChain networkId db db' xs)
    (hc : c ∈ canonicalRows db networkId) (hb : b.shown = b'.shown) :
    rewardZat db c b = rewardZat db' c b' :=
  (h.block c hc).rewardZat hb (h.previousSupply_eq hc)

theorem SameChain.summaryRow (h : SameChain networkId db db' xs)
    (hc : c ∈ canonicalRows db networkId) (hb : b.shown = b'.shown) :
    (blockSummaryRow db c b w).map BlockSummaryRow.facts =
      (blockSummaryRow db' c b' w').map BlockSummaryRow.facts := by
  rw [blockSummaryRow, blockSummaryRow, h.rewardZat_eq hc hb, h.confirmations_eq hc]
  refine bind_congr_same rfl fun reward => ?_
  refine bind_congr_same rfl fun confirmations => ?_
  simp only [BlockRow.shown, BlockRow.mk.injEq] at hb
  simp only [BlockSummaryRow.facts, Except.map, hb]

theorem chainBlocks_heights : ((chainBlocks db networkId).map fun x => x.1.height).Nodup := by
  have hheights : (canonicalRows db networkId).Pairwise fun c d => c.height ≠ d.height :=
    List.pairwise_map.mp canonicalRows_nodup
  refine List.pairwise_map.mpr (hheights.filterMap _ fun c d hne x hx y hy => ?_)
  simp only [Option.bind_eq_bind, Option.bind_eq_some_iff] at hx hy
  obtain ⟨b, -, w, -, hx⟩ := hx
  obtain ⟨b', -, w', -, hy⟩ := hy
  cases hx
  cases hy
  exact hne

/-- The block list shows the same blocks. -/
theorem SameChain.blockList (h : SameChain network.id db db' xs) (query : PageQuery) :
    (blocks network query db db now).map (ApiEnvelope.present (List.map BlockSummary.facts)) =
      (blocks network query db' db' now).map
        (ApiEnvelope.present (List.map BlockSummary.facts)) := by
  refine bind_congr_view h.state fun s s' hs => ?_
  refine bind_congr_same rfl fun before => ?_
  have hrows : (blockSummaryQuery db network.id before (boundedLimit query.limit + 1)).map
      (List.map BlockSummaryRow.facts) = (blockSummaryQuery db' network.id before
        (boundedLimit query.limit + 1)).map (List.map BlockSummaryRow.facts) := by
    refine mapM_congr_rel (R := fun x y => x.1 ∈ canonicalRows db network.id ∧ x.1 = y.1 ∧
      x.2.1.shown = y.2.1.shown) ?_ ?_
    · rintro ⟨c, b, w⟩ ⟨_, b', w'⟩ ⟨hc, rfl, hb⟩
      exact h.summaryRow hc hb
    · refine List.forall₂_take _ (h.joined.below ?_ chainBlocks_heights)
      rintro x y ⟨-, hxy, -⟩
      rw [hxy]
  refine bind_congr_view hrows fun rows rows' hfacts => ?_
  have hlength : rows.length = rows'.length := by simpa using congrArg List.length hfacts
  have hdata : ((rows.take (boundedLimit query.limit)).map (BlockSummary.fromRow network)).map
      BlockSummary.facts = ((rows'.take (boundedLimit query.limit)).map
        (BlockSummary.fromRow network)).map BlockSummary.facts := by
    have hshown (l : List BlockSummaryRow) : (l.map (BlockSummary.fromRow network)).map
        BlockSummary.facts = (l.map BlockSummaryRow.facts).map fun r =>
          (BlockSummary.fromRow network r).facts := by
      rw [List.map_map, List.map_map]
      rfl
    simp only [hshown, List.map_take, hfacts]
  have hlast (l : List BlockSummary) : (l.getLast?.map fun block => encodeCursor block.height) =
      (l.map BlockSummary.facts).getLast?.map fun block => encodeCursor block.height := by
    rw [List.getLast?_map, Option.map_map]
    rfl
  have hcursor := hlast ((rows.take (boundedLimit query.limit)).map (BlockSummary.fromRow network))
  rw [hdata, ← hlast] at hcursor
  refine congrArg Except.ok ?_
  rw [hcursor, hlength]
  exact envelope_present hdata (Prod.mk.inj hs).1

end Blocks

section Block

variable {collation : LinearOrder Text} {explorer : ParentExplorer}

/-- A block's page without its evidence. -/
def BlockDetail.facts (d : BlockDetail) : BlockDetail :=
  { d with summary := d.summary.facts, auxpow := none }

/-- The columns of a block's row that its page shows, and what the statements after it read. -/
structure BlockPage where
  row : BlockDetailRow
  pools : List ValuePoolSnapshotRow
  transactions : Result (List TransactionSummary)
  proof : Result Unit

def blockPage (collation : LinearOrder Text) (network : NetworkProfile) (db : Db)
    (r : BlockDetailRow) : BlockPage where
  row := { r with summary := r.summary.facts }
  pools := witnessPools collation db r.summary.hash r.summary.witnessHash
  transactions := transactionRowsForBlock network db r.summary.hash r.summary.witnessHash
  proof := (auxpowQuery db network.id r.summary.hash r.summary.witnessHash).map fun _ => ()

/-- The statement that reads the proof succeeds where the block's row was read. -/
theorem auxpowQuery_ok (hs : SelectedStored db) (hc : c ∈ canonicalRows db networkId) {n : Int}
    (hfits : asBigint (chainConfirmations db c) = .ok n) :
    (auxpowQuery db networkId c.blockHash c.witnessHash).map (fun _ => ()) = .ok () := by
  rw [auxpowQuery, selectorOf_eq hs hc]
  cases db.auxpowLinks.find? (c.blockHash, c.witnessHash) with
  | none => rfl
  | some a =>
    cases db.blockWitnesses.find? (c.blockHash, c.witnessHash) with
    | none => rfl
    | some w =>
      simp only [hfits]
      rfl

theorem SameChain.detailRow (h : SameChain network.id db db' xs)
    (hc : c ∈ canonicalRows db network.id) (hb : b.shown = b'.shown) :
    (blockDetailRow db (c, b, w)).map (blockPage collation network db) =
      (blockDetailRow db' (c, b', w')).map (blockPage collation network db') := by
  have hnext (height : Nat) : storedHash c.networkId db height = storedHash c.networkId db' height := by
    rw [storedHash, storedHash, (mem_canonicalRows.mp hc).2, h.find?_eq]
  have hpools : witnessPools collation db c.blockHash c.witnessHash =
      witnessPools collation db' c.blockHash c.witnessHash := witnessPools_eq (h.pools c hc)
  have htransactions : transactionRowsForBlock network db c.blockHash c.witnessHash =
      transactionRowsForBlock network db' c.blockHash c.witnessHash :=
    (h.block c hc).transactionRows
  have hconfirmations := h.confirmations_eq hc
  rw [blockDetailRow_eq, blockDetailRow_eq, blockSummaryRow, blockSummaryRow, h.rewardZat_eq hc hb]
  cases asBigint (rewardZat db' c b') with
  | error error => simp only [bind, Except.bind, Except.map]
  | ok reward =>
    cases hfits : asBigint (chainConfirmations db' c) with
    | error error =>
      rw [hconfirmations, hfits]
      simp only [bind, Except.bind, Except.map]
    | ok confirmations =>
      have hproof := auxpowQuery_ok h.stored hc (hconfirmations ▸ hfits)
      have hproof' := auxpowQuery_ok h.stored' (h.mem_rows.mp hc) hfits
      rw [hconfirmations, hfits]
      cases asBigint (c.height + 1) with
      | error error => simp only [bind, Except.bind, Except.map]
      | ok next =>
        simp only [BlockRow.shown, BlockRow.mk.injEq] at hb
        refine congrArg Except.ok ?_
        simp only [blockPage, hpools, htransactions, hproof, hproof', hnext, BlockSummaryRow.facts,
          hb]

/-- A block's row that is asked for is joined alike. -/
theorem SameChain.askedFor (h : SameChain networkId db db' xs) {id : Text} {height : Option Nat}
    {hash : Option Text} (harguments : blockArguments id = .ok (height, hash)) :
    Option.Rel (fun x y => x.1 ∈ canonicalRows db networkId ∧ x.1 = y.1 ∧
        x.2.1.shown = y.2.1.shown)
      ((chainBlocks db networkId).find? fun x =>
        height = some x.1.height || hash = some x.1.blockHash)
      ((chainBlocks db' networkId).find? fun x =>
        height = some x.1.height || hash = some x.1.blockHash) := by
  refine h.joined.find?_rel (fun x y hxy => by rw [hxy.2.1]) ?_
  intro y hy z hz hnamed hnamed'
  simp only [Bool.or_eq_true, decide_eq_true_eq] at hnamed hnamed'
  refine chainBlocks_unique hy hz (h.stored'.eq_of_names (mem_chainBlocks.mp hy).1
    (mem_chainBlocks.mp hz).1 ((names_of_arguments harguments).mp hnamed)
    ((names_of_arguments harguments).mp hnamed'))

theorem SameChain.blockRow (h : SameChain network.id db db' xs) (collation : LinearOrder Text)
    (id : Text) :
    (findBlock network.toNetworkConfig id db).map (blockPage collation network db) =
      (findBlock network.toNetworkConfig id db').map (blockPage collation network db') := by
  rw [findBlock, findBlock]
  cases harguments : blockArguments id with
  | error error => simp only [bind, Except.bind, Except.map]
  | ok arguments =>
    obtain ⟨height, hash⟩ := arguments
    have hrel := h.askedFor harguments
    have hrow (d : Db) (found : Option ChainBlock)
        (hfound : ((chainBlocks d network.id).find? fun x =>
          height = some x.1.height || hash = some x.1.blockHash) = found) :
        (blockDetailQuery d network.id height hash >>= orNotFound) =
          found.elim (.error .notFound) (blockDetailRow d) := by
      rw [blockDetailQuery, hfound]
      cases found with
      | none => rfl
      | some x => 
        simp only [Option.elim_some]
        cases blockDetailRow d x <;> rfl
    change (blockDetailQuery db network.id height hash >>= orNotFound).map _ =
      (blockDetailQuery db' network.id height hash >>= orNotFound).map _
    rw [hrow db _ rfl, hrow db' _ rfl]
    generalize (chainBlocks db network.id).find? _ = found at hrel ⊢
    generalize (chainBlocks db' network.id).find? _ = found' at hrel ⊢
    cases hrel with
    | none => simp only [Option.elim_none, Except.map]
    | @some x y hxy =>
      obtain ⟨c, b, w⟩ := x
      obtain ⟨_, b', w'⟩ := y
      obtain ⟨hc, rfl, hb⟩ := hxy
      exact h.detailRow hc hb

end Block

section Transactions

variable {x y : ChainTransaction}

theorem SameView.summary (h : SameView db db' x y) (network : NetworkProfile) :
    (transactionSummaryRow db x).map (TransactionSummary.fromRow network) =
      (transactionSummaryRow db' y).map (TransactionSummary.fromRow network) :=
  transactionSummary_congr h

/-- The transaction list shows the same transactions. -/
theorem SameChain.transactionList (h : SameChain network.id db db' xs) (query : PageQuery) :
    (transactions network query db db now).map (ApiEnvelope.present id) =
      (transactions network query db' db' now).map (ApiEnvelope.present id) := by
  refine bind_congr_view h.state fun s s' hs => ?_
  refine bind_congr_same rfl fun cursor => ?_
  refine bind_congr_same rfl fun before => ?_
  have hrows : (transactionSummaryQuery db network.id before (boundedLimit query.limit + 1)).map
      (List.map (TransactionSummary.fromRow network)) = (transactionSummaryQuery db' network.id
        before (boundedLimit query.limit + 1)).map (List.map (TransactionSummary.fromRow network)) := by
    refine mapM_congr_rel (R := SameView db db') (fun _ _ hxy => hxy.summary network) ?_
    exact List.forall₂_take _ (h.views.below (fun _ _ hxy => hxy.order)
      chainTransactions_order_nodup)
  refine bind_congr_view hrows fun rows rows' hshown => ?_
  have hlength : rows.length = rows'.length := by simpa using congrArg List.length hshown
  have hdata : (rows.take (boundedLimit query.limit)).map (TransactionSummary.fromRow network) =
      (rows'.take (boundedLimit query.limit)).map (TransactionSummary.fromRow network) := by
    rw [List.map_take, List.map_take, hshown]
  refine congrArg Except.ok ?_
  rw [hdata, hlength]
  exact envelope_present rfl (Prod.mk.inj hs).1

/-- Where one row of its key contributes, the others of a selection add nothing. -/
theorem flatMap_of_key {ρ σ κ : Type} {key : ρ → κ} {f : ρ → List σ} {rows : List ρ} {r : ρ}
    (hnodup : (rows.map key).Nodup) (hr : r ∈ rows) (hother : ∀ s, key s ≠ key r → f s = []) :
    rows.flatMap f = f r := by
  induction rows with
  | nil => cases hr
  | cons first rest ih =>
    obtain ⟨hfirst, hrest⟩ := List.nodup_cons.mp hnodup
    rw [List.flatMap_cons]
    rcases List.mem_cons.mp hr with rfl | hr
    · have hnil : rest.flatMap f = [] := List.flatMap_eq_nil_iff.mpr fun s hs =>
        hother s fun hkey => hfirst (hkey ▸ List.mem_map_of_mem hs)
      rw [hnil, List.append_nil]
    · have hnil : f first = [] := hother first fun hkey => hfirst (hkey ▸ List.mem_map_of_mem hr)
      rw [hnil, List.nil_append, ih hrest hr]

/-- The canonical transactions of one height are those of its selected row. -/
theorem group_chainTransactions (hc : c ∈ canonicalRows db networkId) :
    group (fun x => OrderDual.toDual x.selector.height) (OrderDual.toDual c.height)
      (chainTransactions db networkId) = selectedTransactions db c := by
  rw [group, chainTransactions, List.filter_flatMap, flatMap_of_key canonicalRows_nodup hc]
  · refine List.filter_eq_self.mpr fun x hx => ?_
    rw [(mem_selectedTransactions.mp hx).1]
    exact decide_eq_true rfl
  · intro d hd
    refine List.filter_eq_nil_iff.mpr fun x hx heq => hd ?_
    rw [(mem_selectedTransactions.mp hx).1] at heq
    exact OrderDual.toDual_inj.mp (of_decide_eq_true heq)

/-- The transactions of one height look the same, one by one in their order of storage. -/
theorem SameChain.tied (h : SameChain networkId db db' xs) (k : ℕᵒᵈ) :
    List.Forall₂ (SameView db db')
      (group (fun x => OrderDual.toDual x.selector.height) k (chainTransactions db networkId))
      (group (fun x => OrderDual.toDual x.selector.height) k (chainTransactions db' networkId)) := by
  by_cases hk : ∃ c ∈ canonicalRows db networkId, OrderDual.toDual c.height = k
  · obtain ⟨c, hc, rfl⟩ := hk
    rw [group_chainTransactions hc, group_chainTransactions (h.mem_rows.mp hc)]
    have hviews := (h.block c hc).selectedTransactions
    rw [← List.forall₂_eq_eq_eq, List.forall₂_map_left_iff, List.forall₂_map_right_iff] at hviews
    exact hviews
  · have hnil (d : Db) (hd : (canonicalRows d networkId).Perm (canonicalRows db networkId)) :
        group (fun x => OrderDual.toDual x.selector.height) k (chainTransactions d networkId) =
          [] := by
      refine List.filter_eq_nil_iff.mpr fun x hx heq => hk ⟨x.selector, ?_, of_decide_eq_true heq⟩
      exact hd.mem_iff.mp (mem_chainTransactions.mp hx).selector
    rw [hnil db (.refl _), hnil db' h.rows_perm.symm]
    exact .nil

/-- The latest placement of a transaction id looks the same. -/
theorem SameChain.latest (h : SameChain networkId db db' xs) (txid : Text) (block : Option Text) :
    Option.Rel (SameView db db') (latestPlacement db networkId txid block)
      (latestPlacement db' networkId txid block) := by
  have hp (x y : ChainTransaction) (hxy : SameView db db' x y) :
      (x.stored.txid = txid && block.all fun hash => x.selector.blockHash = hash : Bool) =
        (y.stored.txid = txid && block.all fun hash => y.selector.blockHash = hash) := by
    rw [hxy.stored.txid, hxy.selector]
  refine (h.views.filter hp).head?_orderBy (fun x y hxy => by rw [hxy.selector]) fun k => ?_
  have hcomm (p : ChainTransaction → Bool) (l : List ChainTransaction) :
      group (fun x => OrderDual.toDual x.selector.height) k (l.filter p) =
        (group (fun x => OrderDual.toDual x.selector.height) k l).filter p := List.filter_comm _ _ l
  rw [hcomm, hcomm]
  exact filter_rel (h.tied k) hp

theorem inputViews_eq {r s : TransactionInstanceRow} (h : SameStored db db' r s) :
    inputViews db r.transactionInstanceId = inputViews db' s.transactionInstanceId := by
  have hnodup : ((instanceInputs db r.transactionInstanceId).map
      TransparentInputRow.inputIndex).Nodup := by
    refine ((List.Nodup.of_map _ db.transparentInputs.nodup).filter _).map_on ?_
    intro i hi j hj hindex
    simp only [List.mem_filter, decide_eq_true_eq] at hi hj
    refine List.inj_on_of_nodup_map db.transparentInputs.nodup hi.1 hj.1 ?_
    rw [TransparentInputRow.key, TransparentInputRow.key, hi.2, hj.2, hindex]
  have hrel := h.inputs.orderBy (fun _ _ hij => (TransparentInputRow.columns hij).1) hnodup
  rw [inputViews, inputViews, ← List.forall₂_eq_eq_eq, List.forall₂_map_left_iff,
    List.forall₂_map_right_iff]
  exact hrel.imp fun i j hij => by simp only [TransparentInputRow.columns hij]

theorem outputViews_eq {r s : TransactionInstanceRow} (h : SameStored db db' r s) :
    outputViews network db r.transactionInstanceId =
      outputViews network db' s.transactionInstanceId := by
  have hnodup : ((instanceOutputs db r.transactionInstanceId).map
      TransparentOutputRow.outputIndex).Nodup := by
    refine ((List.Nodup.of_map _ db.transparentOutputs.nodup).filter _).map_on ?_
    intro o ho p hp hindex
    simp only [List.mem_filter, decide_eq_true_eq] at ho hp
    refine List.inj_on_of_nodup_map db.transparentOutputs.nodup ho.1 hp.1 ?_
    rw [TransparentOutputRow.key, TransparentOutputRow.key, ho.2, hp.2, hindex]
  have hrel := h.outputs.orderBy (fun _ _ hop => (TransparentOutputRow.columns hop).1) hnodup
  rw [outputViews, outputViews, ← List.forall₂_eq_eq_eq, List.forall₂_map_left_iff,
    List.forall₂_map_right_iff]
  exact hrel.imp fun o p hop => by simp only [TransparentOutputRow.columns hop]

/-- A transaction's page without the raw answer. -/
def TransactionDetail.facts (d : TransactionDetail) : TransactionDetail := { d with rawRpc := .null }

/-- What a page shows of a transaction's row. -/
def detailView (network : NetworkProfile) (db : Db) (r : TransactionSummaryRow) :
    TransactionSummary × List InputView × List OutputView × Bool :=
  (TransactionSummary.fromRow network r, inputViews db r.transactionInstanceId,
    outputViews network db r.transactionInstanceId, (instanceById db r.transactionInstanceId).isSome)

theorem map_transactionSummaryRow {α : Type} (db : Db) (x : ChainTransaction)
    (f : TransactionSummaryRow → Nat → α) :
    (transactionSummaryRow db x).map (fun r => f r r.transactionInstanceId) =
      (transactionSummaryRow db x).map fun r => f r x.stored.transactionInstanceId := by
  rw [transactionSummaryRow]
  cases asBigint (publicOutputZat db x.stored.transactionInstanceId) with
  | error error => rfl
  | ok value => rfl

theorem SameView.detail (h : SameView db db' x y) (network : NetworkProfile)
    (hx : instanceById db x.stored.transactionInstanceId = some x.stored)
    (hy : instanceById db' y.stored.transactionInstanceId = some y.stored) :
    (transactionSummaryRow db x).map (detailView network db) =
      (transactionSummaryRow db' y).map (detailView network db') := by
  have hrow := map_transactionSummaryRow db x fun r id =>
    (TransactionSummary.fromRow network r, inputViews db id, outputViews network db id,
      (instanceById db id).isSome)
  have hrow' := map_transactionSummaryRow db' y fun r id =>
    (TransactionSummary.fromRow network r, inputViews db' id, outputViews network db' id,
      (instanceById db' id).isSome)
  refine hrow.trans (Eq.trans ?_ hrow'.symm)
  rw [inputViews_eq h.stored, outputViews_eq h.stored, hx, hy]
  have hsummary := congrArg (Except.map fun t => (t, inputViews db' y.stored.transactionInstanceId,
    outputViews network db' y.stored.transactionInstanceId, true)) (h.summary network)
  rw [map_map, map_map] at hsummary
  exact hsummary

theorem IsChainTransaction.instance (h : IsChainTransaction db networkId x) :
    instanceById db x.stored.transactionInstanceId = some x.stored := by
  have hid : x.stored.transactionInstanceId = x.placement.transactionInstanceId := by
    simpa using List.find?_some h.stored
  rw [hid]
  exact h.stored

theorem isChainTransaction_of_latest {txid : Text} {block : Option Text}
    (h : latestPlacement db networkId txid block = some x) : IsChainTransaction db networkId x := by
  have hmem : x ∈ placementsOf db networkId txid block :=
    mem_orderBy.mp (List.mem_of_mem_head? h)
  exact mem_chainTransactions.mp (List.mem_of_mem_filter hmem)

theorem SameChain.detailQuery (h : SameChain networkId db db' xs) (network : NetworkProfile)
    (txid : Text) (block : Option Text) :
    (transactionDetailQuery db networkId txid block).map (Option.map (detailView network db)) =
      (transactionDetailQuery db' networkId txid block).map
        (Option.map (detailView network db')) := by
  have hlatest := h.latest txid block
  rw [transactionDetailQuery, transactionDetailQuery]
  cases hx : latestPlacement db networkId txid block with
  | none =>
    cases hy : latestPlacement db' networkId txid block with
    | none => rfl
    | some y =>
      rw [hx, hy] at hlatest
      cases hlatest
  | some x =>
    cases hy : latestPlacement db' networkId txid block with
    | none =>
      rw [hx, hy] at hlatest
      cases hlatest
    | some y =>
      rw [hx, hy] at hlatest
      rcases hlatest with hxy | _
      have hdetail := congrArg (Except.map some) (hxy.detail network
        (isChainTransaction_of_latest hx).instance (isChainTransaction_of_latest hy).instance)
      rw [map_map, map_map] at hdetail
      rw [map_map, map_map]
      exact hdetail

/-- A transaction is looked up alike. -/
theorem SameChain.lookup (h : SameChain network.id db db' xs) (txid : Text) (block : Option Text) :
    (transaction network txid block (fun _ => db) now).map
        (ApiEnvelope.present TransactionDetail.facts) =
      (transaction network txid block (fun _ => db') now).map
        (ApiEnvelope.present TransactionDetail.facts) := by
  refine bind_congr_same rfl fun _ => ?_
  refine bind_congr_same rfl fun _ => ?_
  refine bind_congr_view h.state fun s s' hs => ?_
  refine bind_congr_view (h.detailQuery network txid block) fun found found' hfound => ?_
  have hrow : (orNotFound found).map (detailView network db) =
      (orNotFound found').map (detailView network db') := by
    cases found with
    | none =>
      rw [Option.map_none] at hfound
      rw [Option.map_eq_none_iff.mp hfound.symm]
      rfl
    | some r =>
      rw [Option.map_some] at hfound
      obtain ⟨r', rfl, hr⟩ := Option.map_eq_some_iff.mp hfound.symm
      exact congrArg Except.ok hr.symm
  refine bind_congr_view hrow fun r r' hr => ?_
  obtain ⟨hsummary, hinputs, houtputs, hstored⟩ : _ ∧ _ ∧ _ ∧ _ := by
    simpa only [detailView, Prod.mk.injEq] using hr
  have hraw : (storedRawRpc db r.transactionInstanceId).map (fun _ => ()) =
      (storedRawRpc db' r'.transactionInstanceId).map fun _ => () := by
    unfold storedRawRpc
    cases hx : instanceById db r.transactionInstanceId with
    | none =>
      rw [hx] at hstored
      rw [Option.isSome_eq_false_iff.mp hstored.symm |> Option.isNone_iff_eq_none.mp]
    | some t =>
      rw [hx] at hstored
      obtain ⟨t', ht'⟩ := Option.isSome_iff_exists.mp hstored.symm
      rw [ht']
      rfl
  refine bind_congr_view hraw fun raw raw' _ => congrArg Except.ok ?_
  refine envelope_present ?_ (Prod.mk.inj hs).1
  simp only [TransactionDetail.facts, hsummary, hinputs, houtputs]

end Transactions

end WcashExplorer
