import WcashExplorer.Indexer.Tip

/-! Readiness: a pass that ends well is on its snapshot exactly if the node kept to it. -/
namespace WcashExplorer

open Effects Relational

variable {lib : AuxPowCrate} {self : Indexer lib} {networkId : Text} {start db db' : Db}
  {tr : Trace} {xs ys : List CanonicalRow}

/-- A recorded status is only `ready` on an indexed tip that is the recorded node tip. -/
def ReadyAtNodeTip (networkId : Text) (db : Db) : Prop :=
  ∀ c ∈ db.chainState.find? networkId, c.status = .ready →
    c.indexedHeight = c.nodeHeight ∧ c.indexedHash = c.nodeHash

instance : Decidable (ReadyAtNodeTip networkId db) := by
  unfold ReadyAtNodeTip
  infer_instance

/-- A pass has recorded its end. -/
def isFinish : Event explorer World → Bool
  | .done _ (.updateNodeTip _ _ _ _ _) (.ok _) => true
  | _ => false

/-- A pass only records its end after a stable snapshot. -/
def StableAtFinish (lib : AuxPowCrate) : PassProperty lib := fun _ _ tr =>
  (∃ ev ∈ tr, isFinish ev = true) → SnapshotStable tr

theorem EmptyNetwork.readyAtNodeTip (h : EmptyNetwork networkId db) :
    ReadyAtNodeTip networkId db := by
  obtain ⟨updatedAt, hstate⟩ := h.state
  intro c hc hready
  rw [hstate] at hc
  cases hc
  cases hready

/-- Every transaction of a pass whose end is stable keeps the status honest. -/
theorem Justified.readyAtNodeTip {opening : List CanonicalRow} {w : World} {t : DbCall}
    {r : t.Result} (h : Justified self opening tr db t)
    (hexec : exec lib w t db = .ok (r, db')) (hsound : SoundChain self.network.id db)
    (hstable : isFinish (done w t (.ok r)) = true → ∃ rest, SnapshotStable (tr ++ rest))
    (hready : ReadyAtNodeTip self.network.id db) : ReadyAtNodeTip self.network.id db' := by
  have hsame : db'.chainState = db.chainState → ReadyAtNodeTip self.network.id db' := by
    intro heq
    rw [ReadyAtNodeTip, heq]
    exact hready
  cases t with
  | canonicalTip n => exact hsame ((reading_ok.mp hexec).2 ▸ rfl)
  | canonicalHash n height => exact hsame ((reading_ok.mp hexec).2 ▸ rfl)
  | evidenceRefreshCandidate n depth => exact hsame ((reading_ok.mp hexec).2 ▸ rfl)
  | refreshBlockEvidence n indexed =>
    exact hsame (insertBlock_inserts (writing_ok.mp hexec)).chainState
  | commitBlock n indexed =>
    obtain ⟨rfl, -⟩ := h
    obtain ⟨db₁, db₂, -, -, -, rfl⟩ := commitBlock_ok (writing_ok.mp hexec)
    intro c hc hc'
    have hsyncing := recordTip_status hc
    rw [hsyncing] at hc'
    cases hc'
  | replaceCanonicalBranch n oldTip ancestor blocks =>
    obtain ⟨rfl, -⟩ := h
    obtain ⟨db₁, db₂, -, -, -, -, -, rfl⟩ := replaceCanonicalBranch_ok (writing_ok.mp hexec)
    intro c hc hc'
    have hsyncing : c.status = .syncing := recordTip_status hc
    rw [hsyncing] at hc'
    cases hc'
  | observeNodeTip n height hash =>
    obtain rfl : n = self.network.id := h
    intro c hc hc'
    rw [Option.mem_def, observeNodeTip_row (writing_ok.mp hexec)] at hc
    obtain ⟨c₀, hc₀, rfl⟩ := Option.map_eq_some_iff.mp hc
    by_cases hsynced : c₀.indexedHeight = some height ∧ c₀.indexedHash = some hash
    · exact hsynced
    · simp [hsynced] at hc'
  | updateNodeTip n height hash status error =>
    obtain ⟨rfl, hfinishes⟩ := h
    obtain ⟨zs, l, hz, hl, hheight, hiff⟩ := hfinishes.settled
    obtain ⟨rest, hrest⟩ := hstable rfl
    have hhash : l.blockHash = hash := (hiff rest).mpr hrest
    obtain ⟨ys, hy, c₁, hc₁, htipHeight, htipHash⟩ := hsound
    obtain rfl := hy.unique hz
    intro c hc _
    rw [Option.mem_def, updateNodeTip_row (writing_ok.mp hexec), hc₁] at hc
    cases hc
    rw [hl, Option.map_some] at htipHeight htipHash
    exact ⟨htipHeight.trans (congrArg some hheight), htipHash.trans (congrArg some hhash)⟩
  | markIndexerError n error =>
    obtain rfl : n = self.network.id := h
    intro c hc hc'
    have herror := markIndexerError_status (writing_ok.mp hexec) hc
    rw [herror] at hc'
    cases hc'

/-- A pass that ends well has recorded its snapshot and stands at the snapshot's height; it
stands on the snapshot's hash exactly if the node kept to it while the tip was settled. -/
theorem completed_on_snapshot {outcome : SyncOutcome} (hx : Selected self.network.id db xs)
    (hinit : Initialized self.network.id db)
    (run : Run (exec lib) (self.syncOnce, db) tr (.ret outcome, db')) :
    ∃ n hash tip, snapshotOf tr = some (n, hash) ∧
      recordedNodeTip self.network.id db' = some (some n, some hash) ∧
      canonicalTip db' self.network.id = some tip ∧ tip.height = n ∧
      (tip.blockHash = hash ↔ SnapshotStable tr) := by
  have hallowed : ∀ ev ∈ tr, ev.Allowed (passContract self xs) := by
    intro ev _
    cases ev <;> exact trivial
  have hcompleted := (syncOnce_justified hx hinit).run hallowed run outcome rfl
  obtain ⟨n, hash, ys, l, hsnap, hy, hl, hheight, hiff, hnode⟩ := hcompleted.settled
  refine ⟨n, hash, l.tip, hsnap, hnode, ?_, hheight, hiff⟩
  rw [hy.canonicalTip_eq, hl, Option.map_some]

/-- As long as passes record their end after stable snapshots only, a `ready` index is on the
recorded node tip, and a pass that ends well after a stable snapshot is on exactly that. -/
theorem ready_on_stable_snapshots (hempty : EmptyNetwork networkId start)
    (h : History lib networkId (StableAtFinish lib) start db) :
    ReadyAtNodeTip networkId db ∧
    ∀ (indexer : Indexer lib) (tr : Trace) (outcome : SyncOutcome) (db' : Db),
      indexer.network.id = networkId → Run (exec lib) (indexer.syncOnce, db) tr (.ret outcome, db') →
      ∃ n hash tip, snapshotOf tr = some (n, hash) ∧
        recordedNodeTip networkId db' = some (some n, some hash) ∧
        canonicalTip db' networkId = some tip ∧ tip.height = n ∧
        (tip.blockHash = hash ↔ SnapshotStable tr) := by
  refine ⟨?_, ?_⟩
  · refine (h.invariant (I := fun db => SoundChain networkId db ∧ ReadyAtNodeTip networkId db) ?_
      hempty.chainInvariant ⟨hempty.soundChain, hempty.readyAtNodeTip⟩).2.2
    rintro indexer start full pre w t r d d' opening xs ys rfl hfinish - ⟨rest, rfl⟩ hj hx hy hstep
      hexec ⟨hsound, hready⟩
    refine ⟨hstep.soundChain hx hy hsound, hj.readyAtNodeTip hexec hsound ?_ hready⟩
    intro hev
    refine ⟨done w t (.ok r) :: rest, ?_⟩
    have hstable := hfinish ⟨done w t (.ok r), by simp, hev⟩
    rwa [List.append_assoc, List.singleton_append] at hstable
  · rintro indexer tr outcome db' rfl run
    obtain ⟨⟨xs, hx⟩, hinit⟩ := h.chainInvariant hempty.chainInvariant
    exact completed_on_snapshot hx hinit run

/-- A history is checked for stability event by event. -/
theorem snapshotStable_of_all (h : (snapshotOf tr).all
    (fun s => (settlingEvents tr).all (keepsTo s.1 s.2)) = true) : SnapshotStable tr := by
  intro n hash hsnap
  rw [hsnap] at h
  exact answers_of_keepsTo h

example : SnapshotStable [] := snapshotStable_of_all (by decide +kernel)

/-- A node that keeps to its chain gives stable snapshots only. -/
theorem ready_on_stable_snapshots_reorganized :
    ReadyAtNodeTip sampleNetwork (sampleDb [['1', '2'], ['1', '3', '4']]) := by
  have h₀ : History sampleCrate sampleNetwork (StableAtFinish sampleCrate)
      (initialDb sampleNetwork) (sampleDb []) := .refl _
  have h₁ := h₀.sample ['1', '2'] fun _ => snapshotStable_of_all (by decide +kernel)
  have h₂ : History sampleCrate sampleNetwork (StableAtFinish sampleCrate)
      (initialDb sampleNetwork) (sampleDb [['1', '2'], ['1', '3', '4']]) :=
    h₁.sample ['1', '3', '4'] fun _ => snapshotStable_of_all (by decide +kernel)
  exact (ready_on_stable_snapshots (initialDb_empty sampleNetwork) h₂).1

/-- A node that moves to a sibling branch right after its tip was read. -/
def switchingNode : Environment explorer World :=
  nodeEnvironment sampleNetwork
    (fun tr => if tr.length ≤ 2 then sampleChain ['1', '2'] else sampleChain ['1', '3']) { now := 0 }

/-- The index is then marked ready on a tip that is not the recorded node tip. -/
theorem ready_off_the_node_tip : ¬ ∀ db : Db, Reachable sampleCrate sampleNetwork db →
    ReadyAtNodeTip sampleNetwork db := by
  intro h
  have hready : ¬ ReadyAtNodeTip sampleNetwork
      ((sampleIndexer 10).round switchingNode (initialDb sampleNetwork)) := by
    decide +kernel
  exact hready (h _ ((Reachable.initial sampleNetwork).round rfl))

end WcashExplorer
