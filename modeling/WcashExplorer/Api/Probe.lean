import WcashExplorer.Api.Lag
import WcashExplorer.Effects.Serial
import WcashExplorer.Indexer.Convergence
import WcashExplorer.Indexer.Snapshot

/-! The readiness probe after a synchronization pass that ended well. -/
namespace WcashExplorer

open Effects Relational

variable {lib : AuxPowCrate} {self indexer : Indexer lib} {networkId : Text} {db db' : Db}
  {tr : Trace} {outcome : SyncOutcome} {xs : List CanonicalRow} {now : Timestamp}

section Pass

theorem blockHash_asked {height : Nat} {hash : Text}
    (run : Run (exec lib) (Wcash.blockHash height, db) tr (.ret hash, db')) :
    tr = [asked (.blockHash height) (.ok hash)] := by
  cases run with
  | step hs hr =>
    cases hs with
    | ask a =>
      cases a with
      | ok a =>
        cases hr with
        | refl => rfl
        | step hs _ => cases hs
      | error e =>
        cases hr with
        | step hs _ => cases hs

/-- The last thing a pass that ends well does is to record its snapshot, as ready or as syncing by
the height it has indexed. -/
theorem syncOnce_last (run : Run (exec lib) (self.syncOnce, db) tr (.ret outcome, db')) :
    ∃ w height hash status db₁, asked (.blockHash height) (.ok hash) ∈ tr ∧
      tr.getLast? = some (done w (.updateNodeTip self.network.id height hash status none) (.ok ())) ∧
      status = (if ((canonicalTip db₁ self.network.id).map fun tip => tip.height).getD 0 = height
        then .ready else .syncing) ∧
      updateNodeTip self.network.id height hash status none w.now db₁ = .ok db' := by
  obtain ⟨info, _, tr₁, _, rfl, -, run₁⟩ := Run.of_bind run
  obtain ⟨hash, _, tr₂, _, rfl, ask, run₂⟩ := Run.of_bind run₁
  obtain ⟨_, _, tr₃, _, rfl, -, run₃⟩ := Run.of_bind run₂
  obtain ⟨_, _, tr₄, _, rfl, -, run₄⟩ := Run.of_bind run₃
  obtain ⟨_, _, tr₅, _, rfl, -, run₅⟩ := Run.of_bind run₄
  obtain ⟨_, _, tr₆, _, rfl, -, run₆⟩ := Run.of_bind run₅
  obtain ⟨_, _, tr₇, db₁, rfl, -, run₇⟩ := Run.of_bind run₆
  obtain ⟨tip, _, tr₈, _, rfl, read, run₈⟩ := Run.of_bind run₇
  obtain ⟨_, _, tr₉, _, rfl, write, run₉⟩ := Run.of_bind run₈
  obtain ⟨w, rfl, hread⟩ := read.of_txn
  obtain ⟨w', rfl, hwrite⟩ := write.of_txn
  obtain ⟨htip, rfl⟩ := reading_ok.mp hread
  obtain rfl := Except.ok.inj htip
  cases run₉ with
  | refl => exact ⟨w', _, _, _, _, by simp [blockHash_asked ask], by simp, rfl, writing_ok.mp hwrite⟩
  | step hs _ => cases hs

/-- What a pass that ends well leaves in the network's row. -/
structure PassRecorded (networkId : Text) (tr : Trace) (w : World) (tip : ChainTip) (hash : Text)
    (db : Db) (c : ChainStateRow) : Prop where
  opening : snapshotOf tr = some (tip.height, hash)
  snapshot : asked (.blockHash tip.height) (.ok hash) ∈ tr
  last : tr.getLast? = some (done w (.updateNodeTip networkId tip.height hash .ready none) (.ok ()))
  row : db.chainState.find? networkId = some c
  status : c.status = .ready
  indexed : c.indexedHeight = some tip.height ∧ c.indexedHash = some tip.blockHash
  node : c.nodeHeight = some tip.height ∧ c.nodeHash = some hash
  heartbeat : c.updatedAt = w.now
  settled : canonicalTip db networkId = some tip
  selected : ∃ r, db.canonicalChain.find? (networkId, tip.height) = some r ∧
    r.blockHash = tip.blockHash
  stable : tip.blockHash = hash ↔ SnapshotStable tr

/-- A pass over a sound chain leaves it sound. -/
theorem syncOnce_soundChain (hsound : SoundChain self.network.id db)
    (run : Run (exec lib) (self.syncOnce, db) tr (.ret outcome, db')) :
    SoundChain self.network.id db' := by
  obtain ⟨xs, hx, htip⟩ := hsound
  have hens := syncOnce_justified hx htip.initialized
  refine (hens.invariant (I := fun d => ChainInvariant self.network.id d ∧
    SoundChain self.network.id d) ?_ (fun ev _ => by cases ev <;> exact trivial) run
    ⟨⟨⟨xs, hx⟩, htip.initialized⟩, xs, hx, htip⟩).2
  rintro pre w t r d d' - hj ⟨⟨⟨zs, hz⟩, hinit⟩, hd⟩ hexec
  obtain ⟨ys, hy, hinit', hstep⟩ := justified_step hj hz hinit hexec
  exact ⟨⟨⟨ys, hy⟩, hinit'⟩, hstep.soundChain hz hy hd⟩

theorem syncOnce_recorded (hsound : SoundChain self.network.id db)
    (run : Run (exec lib) (self.syncOnce, db) tr (.ret outcome, db')) :
    ∃ w tip hash c, PassRecorded self.network.id tr w tip hash db' c := by
  obtain ⟨xs, hx, htip⟩ := hsound
  obtain ⟨n, hash, tip, hopening, hnode, hcanonical, rfl, hstable⟩ :=
    completed_on_snapshot hx htip.initialized run
  obtain ⟨ys, hy, c, hc, hheight, hhash⟩ := syncOnce_soundChain ⟨xs, hx, htip⟩ run
  obtain ⟨w, height, hash', status, db₁, hasked, hlast, hstatus, hwrite⟩ := syncOnce_last run
  have hrow := updateNodeTip_row hwrite
  rw [hc] at hrow
  obtain ⟨c₀, -, hrow⟩ := Option.map_eq_some_iff.mp hrow.symm
  rw [recordedNodeTip, hc, Option.map_some, Option.some.injEq, Prod.mk.injEq] at hnode
  have hheights : c.nodeHeight = some height ∧ c.nodeHash = some hash' := by
    rw [← hrow]
    exact ⟨rfl, rfl⟩
  obtain rfl := Option.some.inj (hheights.1.symm.trans hnode.1)
  obtain rfl := Option.some.inj (hheights.2.symm.trans hnode.2)
  have htips : canonicalTip db₁ self.network.id = some tip := by
    obtain ⟨_, _, _, -, rfl⟩ := updateNodeTip_ok hwrite
    exact hcanonical
  rw [htips, Option.map_some, Option.getD_some, if_pos rfl] at hstatus
  subst hstatus
  obtain ⟨l, hl, rfl⟩ := Option.map_eq_some_iff.mp (hy.canonicalTip_eq.symm.trans hcanonical)
  rw [hl, Option.map_some] at hheight hhash
  have hindex := hy.last_height hl
  refine ⟨w, l.tip, hash', c, hopening, hasked, hlast, hc, ?_, ⟨hheight, hhash⟩, hheights, ?_, hcanonical,
    ⟨l, ?_, rfl⟩, hstable⟩
  · rw [← hrow]
  · rw [← hrow]
  · rw [hy.represents, ← hl, List.getLast?_eq_getElem?]
    congr 1
    change l.height = ys.length - 1
    omega

end Pass

section Probe

/-- The evidence the strict probe asks for is there: the tip is the genesis, or what is stored for
it is ready. -/
def EvidenceReady (networkId : Text) (tip : ChainTip) (db : Db) (now : Timestamp) : Prop :=
  tip.height = 0 ∨ ∃ r, loadParentEvidenceReadiness db networkId tip.height tip.blockHash = some r ∧
    r.isReady now = true

theorem isOk_ite {α : Type} {b : Bool} {e : ExplorerError} {a : α} :
    (if b = true then Except.error e else Except.ok a : Result α).isOk = true ↔ b = false := by
  cases b <;> simp [Except.isOk, Except.toBool]

/-- The probe after a pass that ended well. -/
theorem PassRecorded.ready_iff {network : NetworkSettings} {w : World} {tip : ChainTip}
    {hash : Text} {c : ChainStateRow} (h : PassRecorded network.id tr w tip hash db c)
    (requireParentQuorum : Bool) :
    (ready network requireParentQuorum db db db now).isOk = true ↔
      SnapshotStable tr ∧ ageSeconds now w.now ≤ readyMaxAgeSeconds ∧
        (requireParentQuorum = true → EvidenceReady network.id tip db now) := by
  obtain ⟨r, hr, hhash⟩ := h.selected
  have hrow : chainStateRow db network.toNetworkProfile = .ok c := by
    rw [chainStateRow, h.row]
  have hlag : c.lagPasses = true := by
    rw [ChainStateRow.lagPasses, ChainStateRow.lag, h.node.1, h.indexed.1, Option.any_some,
      i64SaturatingSub]
    refine decide_eq_true ?_
    omega
  have hevidence : (requiredEvidence network requireParentQuorum c db).isReady now = true ↔
      (requireParentQuorum = true → EvidenceReady network.id tip db now) := by
    cases requireParentQuorum with
    | false => simp [requiredEvidence, ParentEvidenceReadiness.isReady]
    | true =>
      cases hheight : tip.height with
      | zero =>
        simp [requiredEvidence, h.indexed, hheight, ParentEvidenceReadiness.isReady, EvidenceReady]
      | succ below =>
        have hrequired : requiredEvidence network true c db =
            (loadParentEvidenceReadiness db network.id (below + 1) tip.blockHash).getD {} := by
          rw [requiredEvidence, if_pos rfl, h.indexed.1, h.indexed.2, hheight]
          rfl
        rw [hrequired, EvidenceReady, hheight]
        cases loadParentEvidenceReadiness db network.id (below + 1) tip.blockHash with
        | none => simp [ParentEvidenceReadiness.isReady]
        | some r => simp
  simp only [ready, hrow, bind, Except.bind, h.status, hlag, h.heartbeat, h.indexed, h.node]
  rw [isOk_ite, ← hevidence, ← h.stable, hr]
  simp [hhash, and_assoc, and_comm]

/-- One pass against a node that keeps its chain, from any store that a single writer filled, and
the probe passes for as long as the heartbeat is fresh. The node lists the outputs of a transaction
in the order of their numbers, and the refresh depth is one that a query can bind. -/
theorem converged_index_is_ready {network : NetworkSettings} {ledger : Ledger} {answers : Answers}
    {chain : List NodeBlock} {k : Nat} {env : Environment explorer World}
    (hn : indexer.network.id = network.id) (hfilled : Filled lib indexer.network.id db)
    (hagrees : ledger.AgreesWith db) (hchain : Conforming ledger indexer answers chain)
    (hordered : ∀ b ∈ chain, OutputsOrdered b.block)
    (hdepth : indexer.evidenceRefreshDepth ≤ i64Max)
    (hfork : ForkWithin indexer.maxReorgDepth indexer.network.id db chain k)
    (hkeeps : ∀ tr q, answers q (env.answer tr q)) :
    ∃ c, (indexer.pass env db).2.2.chainState.find? network.id = some c ∧
      c.indexedHeight = some (chain.length - 1) ∧ c.nodeHeight = some (chain.length - 1) ∧
      ∀ now, (ready network false (indexer.pass env db).2.2 (indexer.pass env db).2.2
        (indexer.pass env db).2.2 now).isOk = true ↔
          ageSeconds now c.updatedAt ≤ readyMaxAgeSeconds := by
  have hs := hchain.serving hordered
  have hanswers : ∀ q, ∃ a, answers q a := fun q => ⟨_, hkeeps [] q⟩
  obtain ⟨xs, hx⟩ := hfilled.holds hagrees
  obtain ⟨outcome, hok, -, -, ys, hy, hall⟩ :=
    (syncOnce_succeeds hs hanswers hdepth hx (hfork.shared hx.selected)).runWith hkeeps
  have hpass : (indexer.pass env db).2.1 = .ok outcome := hok
  have hrun := indexer.pass_run env db
  rw [hpass] at hrun
  obtain ⟨w, tip, hash, c, h⟩ := syncOnce_recorded hfilled.reachable.soundChain hrun
  obtain ⟨l, hl, rfl⟩ := Option.map_eq_some_iff.mp
    (hy.selected.canonicalTip_eq.symm.trans h.settled)
  have hlen := length_of_hashes hall
  have hindex := hy.selected.last_height hl
  have hheight : l.height = chain.length - 1 := by omega
  -- The snapshot is the hash the node has at the height of the tip, and so is the tip.
  have hhash : l.blockHash = hash := by
    obtain ⟨b, hb⟩ : ∃ b, chain[l.height]? = some b :=
      ⟨chain[l.height], List.getElem?_eq_getElem (by omega)⟩
    have hanswer := Prog.runWith_asked hkeeps (fun q a hq => by cases hq) _ _ h.snapshot
    have hserved := Except.ok.inj (hs.keeps.hash l.height b _ hb hanswer)
    have hat : ys.length - 1 = l.height := by omega
    rw [List.getLast?_eq_getElem?, hat] at hl
    have hname : (ys.map CanonicalRow.blockHash)[l.height]? = some l.blockHash := by
      rw [List.getElem?_map, hl, Option.map_some]
    rw [hall, hashes_getElem?, hb] at hname
    exact (hserved.trans (Option.some.inj hname)).symm
  rw [hn] at h
  refine ⟨c, h.row, h.indexed.1.trans (congrArg some hheight),
    h.node.1.trans (congrArg some hheight), fun now => ?_⟩
  rw [h.ready_iff false, h.heartbeat]
  simp [h.stable.mp hhash]

/-- A first pass over a chain of three blocks. -/
theorem converged_index_is_ready_first : ∃ c : ChainStateRow, c.indexedHeight = some 2 ∧
    ∀ now, (ready (plainSettings sampleNetwork) false
      ((sampleIndexer 10).pass (steadyNode ['1', '2']) (initialDb sampleNetwork)).2.2
      ((sampleIndexer 10).pass (steadyNode ['1', '2']) (initialDb sampleNetwork)).2.2
      ((sampleIndexer 10).pass (steadyNode ['1', '2']) (initialDb sampleNetwork)).2.2 now).isOk = true ↔
        ageSeconds now c.updatedAt ≤ readyMaxAgeSeconds := by
  have hchecks : sampleChecks (sampleChain ['1', '2']) [] = true := by decide +kernel
  have hagrees : (Ledger.ofBlocks (sampleEntries (sampleChain ['1', '2'] ++ []))).AgreesWith
      (initialDb sampleNetwork) := agreesWith_of_headersListed rfl
  have hordered : ∀ b ∈ sampleChain ['1', '2'], OutputsOrdered b.block := by
    unfold OutputsOrdered
    decide +kernel
  have hn : (sampleRefreshing 10).network.id = (plainSettings sampleNetwork).id := rfl
  have hkeeps : ∀ tr q, chainAnswers (sampleChain ['1', '2']) q
      ((steadyNode ['1', '2']).answer tr q) := fun tr q => rfl
  obtain ⟨c, -, hheight, -, hready⟩ := converged_index_is_ready hn (Filled.initial sampleNetwork)
    hagrees (sampleChecks_conforming hchecks) hordered (by decide +kernel) (.empty rfl) hkeeps
  have hsame : sampleRefreshing 10 = sampleIndexer 10 := rfl
  rw [hsame] at hready
  exact ⟨c, hheight, hready⟩

end Probe

end WcashExplorer
