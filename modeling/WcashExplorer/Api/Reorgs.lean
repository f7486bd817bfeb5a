import WcashExplorer.Api.Traversal
import WcashExplorer.Chain.Walk
import WcashExplorer.Db.Replace
import WcashExplorer.Indexer.Tip

/-! The log of reorganizations: what each of its entries says stays true. -/
namespace WcashExplorer

open Effects Relational

variable {lib : AuxPowCrate} {networkId : Text} {db db' : Db} {xs : List CanonicalRow}
  {e : ReorgEventRow}

section Log

/-- An entry says when a replacement was published and which branch it detached: from a stored tip
down to a block that the stored predecessors lead to. -/
structure Audited (db : Db) (e : ReorgEventRow) : Prop where
  completed : e.completedAt = some e.detectedAt
  tip : ∃ b, db.blocks.find? e.oldTipHash = some b ∧ b.height = e.oldTipHeight ∧
    b.networkId = e.networkId
  ancestor : ∃ a hash, e.commonAncestorHeight = some a ∧ e.commonAncestorHash = some hash ∧
    a ≤ e.oldTipHeight ∧
    Chain.ancestor (storedParent db) (e.oldTipHeight - a) e.oldTipHash = some hash

/-- Stored facts are only ever added to, so an entry stays true. -/
theorem Audited.appends (h : Audited db e) (ha : AppendsFacts db db') : Audited db' e where
  completed := h.completed
  tip := by
    obtain ⟨b, hb, hrest⟩ := h.tip
    exact ⟨b, Table.find?_of_prefix ha.blocks hb, hrest⟩
  ancestor := by
    obtain ⟨a, hash, ha₁, ha₂, hle, hwalk⟩ := h.ancestor
    refine ⟨a, hash, ha₁, ha₂, hle, Chain.ancestor_mono ?_ hwalk⟩
    intro x y hxy
    obtain ⟨b, hb, hparent⟩ := Option.bind_eq_some_iff.mp hxy
    simp [storedParent, Table.find?_of_prefix ha.blocks hb, hparent]

/-- A method logs nothing, or it replaces a branch. -/
theorem exec_reorgEvents {w : World} {t : DbCall} {r : t.Result}
    (h : exec lib w t db = .ok (r, db')) : db'.reorgEvents = db.reorgEvents ∨
      ∃ n oldTip ancestor blocks, t = .replaceCanonicalBranch n oldTip ancestor blocks := by
  have hstatus : StatusOnly db db' → db'.reorgEvents = db.reorgEvents := by
    rintro ⟨_, _, _, -, rfl⟩
    rfl
  cases t with
  | canonicalTip n => exact .inl ((reading_ok.mp h).2 ▸ rfl)
  | canonicalHash n height => exact .inl ((reading_ok.mp h).2 ▸ rfl)
  | evidenceRefreshCandidate n depth => exact .inl ((reading_ok.mp h).2 ▸ rfl)
  | commitBlock n indexed =>
    obtain ⟨db₁, db₂, hins, hsel, -, rfl⟩ := commitBlock_ok (writing_ok.mp h)
    refine .inl (Eq.trans ?_ (insertBlock_inserts hins).reorgEvents)
    obtain ⟨-, ⟨-, rfl⟩ | ⟨-, -, rfl⟩⟩ := insertCanonicalSelector_ok hsel <;> rfl
  | refreshBlockEvidence n indexed =>
    exact .inl (insertBlock_inserts (writing_ok.mp h)).reorgEvents
  | replaceCanonicalBranch n oldTip ancestor blocks => exact .inr ⟨_, _, _, _, rfl⟩
  | observeNodeTip n height hash => exact .inl (hstatus (observeNodeTip_ok (writing_ok.mp h)))
  | updateNodeTip n height hash status error =>
    exact .inl (hstatus (updateNodeTip_ok (writing_ok.mp h)))
  | markIndexerError n error => exact .inl (hstatus (markIndexerError_ok (writing_ok.mp h)))

/-- A replacement logs one entry behind the others. -/
theorem replaceCanonicalBranch_log {oldTip : ChainTip} {ancestor : Option (Nat × Text)}
    {blocks : List IndexedBlock} {now : Timestamp}
    (h : replaceCanonicalBranch lib networkId oldTip ancestor blocks now db = .ok db') :
    ∃ eventId, db'.reorgEvents.rows =
      db.reorgEvents.rows ++ [completedEvent eventId networkId oldTip ancestor now] := by
  obtain ⟨db₁, db₂, -, -, -, hins, hsel, rfl⟩ := replaceCanonicalBranch_ok h
  have hi := (insertBlocks_recorded hins).1
  refine ⟨freshEventId db₁, ?_⟩
  rw [← hi.reorgEvents, ← completeReorgEvent_rows, completeReorgEvent, completeReorgEvent,
    recordTip, updateChainState, insertSelectors_frame hsel]
  rfl

/-- The entry of a justified replacement reads the branch it detaches. -/
theorem Replaces.audited {indexer : Indexer lib} {opening : List CanonicalRow} {tr : Trace}
    {oldTip : ChainTip} {ancestor : Option (Nat × Text)} {eventId : Nat} {now : Timestamp}
    (h : Replaces indexer opening tr db oldTip ancestor) :
    Audited db (completedEvent eventId indexer.network.id oldTip ancestor now) := by
  obtain ⟨t, n, tipHash, a, hash, hlast, rfl, -, rfl, hle, -, hselected, -⟩ := h.found
  have hx := h.selected
  obtain ⟨c, hc, rfl⟩ := Option.map_eq_some_iff.mp (hx.storedHash_eq.symm.trans hselected)
  have hindex := hx.last_height hlast
  rw [List.getLast?_eq_getElem?] at hlast
  have hat : opening[a + (t.height - a)]? = some t := by
    obtain ⟨hlt, -⟩ := List.getElem?_eq_some_iff.mp hlast
    rw [← hlast]
    congr 1
    omega
  obtain ⟨b, hb, hheight, hnetwork⟩ := hx.stored t (List.mem_of_getElem? hat)
  refine ⟨rfl, ⟨b, hb, hheight, hnetwork.trans (hx.key_eq hat).1⟩, a, c.blockHash, rfl, rfl, ?_, ?_⟩
  · exact hle.trans (Nat.min_le_left _ _)
  · have hwalk : Chain.ancestor (storedParent db) (t.height - a) t.blockHash =
        (opening.map CanonicalRow.blockHash)[a]? :=
      hx.linked.ancestor (by rw [List.getElem?_map, hat, Option.map_some])
    rw [List.getElem?_map, hc] at hwalk
    exact hwalk

/-- The log of `db'` continues the log of `db`, and what it says of the network is true. -/
structure LogKept (networkId : Text) (db db' : Db) : Prop where
  grows : db.reorgEvents.rows <+: db'.reorgEvents.rows
  audited : ∀ e ∈ db'.reorgEvents.rows, e.networkId = networkId → Audited db' e

theorem Justified.logKept {indexer : Indexer lib} {opening : List CanonicalRow} {tr : Trace}
    {w : World} {t : DbCall} {r : t.Result} {start : Db} (hj : Justified indexer opening tr db t)
    (hexec : exec lib w t db = .ok (r, db')) (h : LogKept indexer.network.id start db) :
    LogKept indexer.network.id start db' := by
  have happends := exec_appendsFacts hexec
  rcases exec_reorgEvents hexec with hsame | ⟨n, oldTip, ancestor, blocks, rfl⟩
  · refine ⟨hsame ▸ h.grows, ?_⟩
    intro e he hn
    exact (h.audited e (hsame ▸ he) hn).appends happends
  · obtain ⟨rfl, hreplaces⟩ := hj
    obtain ⟨eventId, hlog⟩ := replaceCanonicalBranch_log (writing_ok.mp hexec)
    refine ⟨?_, ?_⟩
    · rw [hlog]
      exact h.grows.trans (List.prefix_append _ _)
    · intro e he hn
      rw [hlog] at he
      rcases List.mem_append.mp he with hold | hnew
      · exact (h.audited e hold hn).appends happends
      · obtain rfl := List.mem_singleton.mp hnew
        exact hreplaces.audited.appends happends

theorem History.logKept {P : PassProperty lib} (h : History lib networkId P db db')
    (hc : ChainInvariant networkId db)
    (hdb : ∀ e ∈ db.reorgEvents.rows, e.networkId = networkId → Audited db e) :
    LogKept networkId db db' := by
  refine (h.invariant (I := LogKept networkId db) ?_ hc ⟨List.prefix_refl _, hdb⟩).2
  rintro indexer start full pre w t r d d' opening xs ys rfl - - - hj - - - hexec hd
  exact hj.logKept hexec hd

theorem Reachable.logAudited (h : Reachable lib networkId db) :
    ∀ e ∈ db.reorgEvents.rows, e.networkId = networkId → Audited db e := by
  obtain ⟨start, hempty, hhistory⟩ := h
  exact (hhistory.logKept hempty.chainInvariant fun e he hn => (hempty.events e he hn).elim).audited

end Log

section Handler

structure ReorgView where
  eventId : Nat
  oldTipHeight : Nat
  oldTipHash : Text
  commonAncestorHeight : Option Nat
  commonAncestorHash : Option Text
  detectedAt : Timestamp
  completedAt : Option Timestamp

def ReorgEventRow.view (e : ReorgEventRow) : ReorgView where
  eventId := e.eventId
  oldTipHeight := e.oldTipHeight
  oldTipHash := e.oldTipHash
  commonAncestorHeight := e.commonAncestorHeight
  commonAncestorHash := e.commonAncestorHash
  detectedAt := e.detectedAt
  completedAt := e.completedAt

/-- `ORDER BY detected_at DESC LIMIT 100`; entries of one instant keep the order of the log. -/
def reorgsQuery (db : Db) (networkId : Text) : List ReorgEventRow :=
  (orderBy (fun e => OrderDual.toDual e.detectedAt) (db.reorgEvents.rows.filter fun e =>
    e.networkId = networkId)).take 100

/-- `GET /reorgs`: its two statements, each on the state it sees. -/
def reorgs (network : NetworkProfile) (atState atRows : Db) (now : Timestamp) :
    Result (ApiEnvelope (List ReorgView)) := do
  let chain ← chainStateRow atState network
  .ok (envelope network ((reorgsQuery atRows network.id).map ReorgEventRow.view) none chain now)

theorem mem_reorgsQuery (h : e ∈ reorgsQuery db networkId) :
    e ∈ db.reorgEvents.rows ∧ e.networkId = networkId := by
  simpa using mem_orderBy.mp (List.mem_of_mem_take h)

/-- The newest entries come first, and none that is left out is newer than one that is listed. -/
theorem reorgsQuery_newest : (reorgsQuery db networkId).Pairwise (fun e f =>
    f.detectedAt ≤ e.detectedAt) ∧ ∀ f ∈ db.reorgEvents.rows, f.networkId = networkId →
      f ∈ reorgsQuery db networkId ∨
        ∀ e ∈ reorgsQuery db networkId, f.detectedAt ≤ e.detectedAt := by
  have hsorted := orderBy_sorted (fun e : ReorgEventRow => OrderDual.toDual e.detectedAt)
    (db.reorgEvents.rows.filter fun e => e.networkId = networkId)
  refine ⟨List.Pairwise.sublist (List.take_sublist _ _) hsorted, ?_⟩
  intro f hf hn
  exact take_orderBy_first 100 (by simp [hf, hn])

theorem reorgsQuery_length : (reorgsQuery db networkId).length =
    min 100 (db.reorgEvents.rows.countP fun e => e.networkId = networkId) := by
  rw [reorgsQuery, List.length_take, (orderBy_perm _ _).length_eq, List.countP_eq_length_filter]

/-- The list of reorganizations is the newest of the log, and each entry stays true: whatever the
writer commits later it is still logged, and the stored predecessors still lead from the tip it
detached down to the block it names as the common ancestor. -/
theorem listed_reorgs_stay_true {network : NetworkProfile} {atState atRows later : Db}
    {now : Timestamp} (h : Reachable lib network.id atState)
    (hrows : History lib network.id (anyPass lib) atState atRows)
    (hlater : History lib network.id (anyPass lib) atRows later) :
    ∃ (chain : ChainStateRow) (listed : List ReorgEventRow),
      reorgs network atState atRows now =
        .ok (envelope network (listed.map ReorgEventRow.view) none chain now) ∧
      listed.length = min 100 (atRows.reorgEvents.rows.countP fun e => e.networkId = network.id) ∧
      listed.Pairwise (fun e f => f.detectedAt ≤ e.detectedAt) ∧
      (∀ f ∈ atRows.reorgEvents.rows, f.networkId = network.id →
        f ∈ listed ∨ ∀ e ∈ listed, f.detectedAt ≤ e.detectedAt) ∧
      ∀ e ∈ listed, e ∈ later.reorgEvents.rows ∧ Audited later e := by
  obtain ⟨chain, hchain⟩ := Option.isSome_iff_exists.mp h.chainInvariant.2
  have hc := hrows.chainInvariant h.chainInvariant
  have hkept := hrows.logKept h.chainInvariant h.logAudited
  have hlast := hlater.logKept hc hkept.audited
  refine ⟨chain, reorgsQuery atRows network.id, ?_, reorgsQuery_length, reorgsQuery_newest.1,
    reorgsQuery_newest.2, ?_⟩
  · rw [reorgs, chainStateRow, hchain]
    rfl
  · intro e he
    obtain ⟨hlogged, hn⟩ := mem_reorgsQuery he
    have hstill := hlast.grows.subset hlogged
    exact ⟨hstill, hlast.audited e hstill hn⟩

theorem sampleDb_concat (chains : List (List Char)) (digits : List Char) :
    sampleDb (chains ++ [digits]) =
      (sampleIndexer 10).round (steadyNode digits) (sampleDb chains) := by
  simp [sampleDb]

/-- The branch of the listed entry is displaced in its turn. -/
theorem listed_reorgs_stay_true_displaced : ∃ chain listed,
    reorgs sampleProfile (sampleDb [['1', '2'], ['1', '3', '4']])
        (sampleDb [['1', '2'], ['1', '3', '4']]) 0 =
      .ok (envelope sampleProfile (List.map ReorgEventRow.view listed) none chain 0) ∧
    listed.map (fun e => (e.oldTipHash, e.commonAncestorHash)) =
      [(sampleHash '2', some (sampleHash '1'))] ∧
    ∀ e ∈ listed, Audited (sampleDb ([['1', '2'], ['1', '3', '4']] ++ [['5', '6', '7', '8']])) e := by
  have hreach : Reachable sampleCrate sampleProfile.id (sampleDb [['1', '2'], ['1', '3', '4']]) :=
    sampleDb_reachable _
  have hrows : History sampleCrate sampleProfile.id (anyPass sampleCrate)
      (sampleDb [['1', '2'], ['1', '3', '4']]) (sampleDb [['1', '2'], ['1', '3', '4']]) := .refl _
  have hlater : History sampleCrate sampleProfile.id (anyPass sampleCrate)
      (sampleDb [['1', '2'], ['1', '3', '4']])
      (sampleDb ([['1', '2'], ['1', '3', '4']] ++ [['5', '6', '7', '8']])) := by
    rw [sampleDb_concat]
    exact hrows.round rfl trivial
  have hshown : (reorgs sampleProfile (sampleDb [['1', '2'], ['1', '3', '4']])
      (sampleDb [['1', '2'], ['1', '3', '4']]) 0).map (fun view => view.data.map fun e =>
        (e.oldTipHash, e.commonAncestorHash)) =
          .ok [(sampleHash '2', some (sampleHash '1'))] := by decide +kernel
  obtain ⟨chain, listed, hview, -, -, -, hall⟩ :=
    @listed_reorgs_stay_true _ _ _ _ _ 0 hreach hrows hlater
  refine ⟨chain, listed, hview, ?_, fun e he => (hall e he).2⟩
  rw [hview] at hshown
  have hshown' : (listed.map ReorgEventRow.view).map (fun e =>
      (e.oldTipHash, e.commonAncestorHash)) = [(sampleHash '2', some (sampleHash '1'))] :=
    Except.ok.inj hshown
  rwa [List.map_map] at hshown'

end Handler

end WcashExplorer
