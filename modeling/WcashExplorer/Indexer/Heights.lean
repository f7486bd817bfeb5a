import WcashExplorer.Indexer.Overlap

/-! The two heights of a network's state row: the node tip a pass observes, and the tip of the
index. -/
namespace WcashExplorer

open Effects Relational

variable {lib : AuxPowCrate} {self : Indexer lib} {networkId : Text} {start db db' : Db} {tr : Trace}
  {n : Nat}

/-- The recorded node height and the recorded indexed height. -/
def recordedHeights (networkId : Text) (db : Db) : Option (Option Nat × Option Nat) :=
  (db.chainState.find? networkId).map fun c => (c.nodeHeight, c.indexedHeight)

/-- The node height a transaction reports. -/
def DbCall.reportedHeight : DbCall → Option Nat
  | .observeNodeTip _ n _ => some n
  | .updateNodeTip _ n _ _ _ => some n
  | _ => none

/-- The height of the tip a transaction publishes. -/
def DbCall.publishedHeight : DbCall → Option Nat
  | .commitBlock _ indexed => some indexed.block.height
  | .replaceCanonicalBranch _ _ ancestor blocks =>
      (blocks.getLast?.map fun b => b.block.height).or (ancestor.map Prod.fst)
  | _ => none

theorem reported_or_published (t : DbCall) : t.reportedHeight = none ∨ t.publishedHeight = none := by
  cases t with
  | observeNodeTip => exact .inr rfl
  | updateNodeTip => exact .inr rfl
  | _ => exact .inl rfl

theorem recordedHeights_congr (h : db'.chainState = db.chainState) :
    recordedHeights networkId db' = recordedHeights networkId db := by
  rw [recordedHeights, recordedHeights, h]

theorem recordedHeights_recordTip {height : Option Nat} {hash witness : Option Text}
    {now : Timestamp} : recordedHeights networkId (recordTip networkId height hash witness now db) =
      (recordedHeights networkId db).map fun h => (h.1, height) := by
  rw [recordedHeights, recordedHeights, recordTip, find?_updateChainState, Option.map_map,
    Option.map_map]
  rfl

/-- A transaction of a writer moves the node height to the one it reports, and the indexed
height to the one it publishes. -/
theorem recordedHeights_exec {w : World} {t : DbCall} {r : t.Result} (ht : OwnCall networkId t)
    (hexec : exec lib w t db = .ok (r, db')) : recordedHeights networkId db' =
      (recordedHeights networkId db).map fun h =>
        (t.reportedHeight.or h.1, t.publishedHeight.or h.2) := by
  obtain ⟨hn, hkeeps⟩ := ht
  have hread : db' = db → recordedHeights networkId db' =
      (recordedHeights networkId db).map fun h => (h.1, h.2) := by
    rintro rfl
    exact Option.map_id'.symm
  cases t with
  | canonicalTip m => exact hread (reading_ok.mp hexec).2
  | canonicalHash m height => exact hread (reading_ok.mp hexec).2
  | evidenceRefreshCandidate m depth => exact hread (reading_ok.mp hexec).2
  | commitBlock m indexed =>
    obtain rfl : m = networkId := hn
    obtain ⟨db₁, db₂, hins, hsel, -, rfl⟩ := commitBlock_ok (writing_ok.mp hexec)
    have hstate : db₂.chainState = db.chainState := by
      obtain ⟨-, ⟨-, rfl⟩ | ⟨-, -, rfl⟩⟩ := insertCanonicalSelector_ok hsel <;>
        exact (insertBlock_inserts hins).chainState
    rw [recordedHeights_recordTip, recordedHeights_congr hstate]
    rfl
  | refreshBlockEvidence m indexed =>
    have hstate := (insertBlock_inserts (writing_ok.mp hexec)).chainState
    rw [recordedHeights_congr hstate]
    exact Option.map_id'.symm
  | replaceCanonicalBranch m oldTip ancestor blocks =>
    obtain rfl : m = networkId := hn
    obtain ⟨a, rfl⟩ := Option.isSome_iff_exists.mp hkeeps
    obtain ⟨db₁, db₂, -, -, -, hins, hsel, rfl⟩ := replaceCanonicalBranch_ok (writing_ok.mp hexec)
    have hstate : db₂.chainState = db.chainState := by
      rw [insertSelectors_frame hsel]
      exact (insertBlocks_recorded hins).1.chainState
    have hcomplete : ∀ d : Db, (completeReorgEvent (freshEventId db₁) w.now d).chainState =
        d.chainState := fun _ => rfl
    rw [recordedHeights_congr (hcomplete _), recordedHeights_recordTip,
      recordedHeights_congr hstate]
    refine Option.map_congr ?_
    intro h _
    cases hlast : blocks.getLast? with
    | none => simp [DbCall.reportedHeight, DbCall.publishedHeight, hlast]
    | some b => simp [DbCall.reportedHeight, DbCall.publishedHeight, hlast]
  | observeNodeTip m height hash =>
    obtain rfl : m = networkId := hn
    rw [recordedHeights, observeNodeTip_row (writing_ok.mp hexec), recordedHeights, Option.map_map,
      Option.map_map]
    rfl
  | updateNodeTip m height hash status error =>
    obtain rfl : m = networkId := hn
    rw [recordedHeights, updateNodeTip_row (writing_ok.mp hexec), recordedHeights, Option.map_map,
      Option.map_map]
    rfl
  | markIndexerError m error =>
    obtain rfl : m = networkId := hn
    have hmark := writing_ok.mp hexec
    simp only [markIndexerError, Result.bind_eq_ok] at hmark
    obtain ⟨-, -, hmark⟩ := hmark
    cases hmark
    rw [recordedHeights, find?_updateChainState, recordedHeights, Option.map_map, Option.map_map]
    rfl

/-- The recorded node height. -/
def NodeAt (networkId : Text) (n : Nat) (db : Db) : Prop :=
  ∀ h ∈ recordedHeights networkId db, h.1 = some n

/-- What holds of the heights whenever a pass that started on `start` issues a transaction: it
observes the node on the heights it started with, and afterwards publishes nothing above the node
height it has recorded. -/
def Timely (networkId : Text) (start db : Db) (t : DbCall) : Prop :=
  OwnCall networkId t ∧ match t with
    | .observeNodeTip _ _ _ => recordedHeights networkId db = recordedHeights networkId start
    | .updateNodeTip _ n _ _ _ => NodeAt networkId n db
    | t => ∀ h ∈ t.publishedHeight, ∃ n, NodeAt networkId n db ∧ h ≤ n

/-- The contract of a pass: any answers at all, and every transaction timely. -/
def timelyContract (lib : AuxPowCrate) (networkId : Text) (start : Db) :
    Contract explorer Db World where
  exec := exec lib
  allow := fun _ _ => True
  check := fun _ db t => Timely networkId start db t

theorem NodeAt.exec {w : World} {t : DbCall} {r : t.Result} (h : NodeAt networkId n db)
    (ht : OwnCall networkId t) (hexec : exec lib w t db = .ok (r, db'))
    (hreport : ∀ m ∈ t.reportedHeight, m = n) : NodeAt networkId n db' := by
  intro x hx
  rw [recordedHeights_exec ht hexec] at hx
  obtain ⟨y, hy, rfl⟩ := Option.map_eq_some_iff.mp hx
  cases hr : t.reportedHeight with
  | none => exact h y hy
  | some m => simp [hreport m hr]

/-- An observation records the node height it reports. -/
theorem nodeAt_observed {w : World} {hash : Text} {u : Unit}
    (h : exec lib w (.observeNodeTip networkId n hash) db = .ok (u, db')) :
    NodeAt networkId n db' := by
  intro x hx
  have hown : OwnCall networkId (.observeNodeTip networkId n hash) := ⟨rfl, trivial⟩
  rw [recordedHeights_exec hown h] at hx
  obtain ⟨y, -, rfl⟩ := Option.map_eq_some_iff.mp hx
  rfl

/-- A method that reports nothing keeps the recorded node height. -/
theorem issue_nodeAt {t : DbCall} (h : NodeAt networkId n db) (ht : OwnCall networkId t)
    (hc : Timely networkId start db t) (hreport : t.reportedHeight = none) :
    (issue t).Ensures (timelyContract lib networkId start)
      (Prog.onOk fun _ _ db' => NodeAt networkId n db') tr db := by
  refine (issue_onOk hc).mono ?_
  rintro tr' o db' hok r rfl
  obtain ⟨w, hexec, -⟩ := hok r rfl
  refine h.exec ht hexec ?_
  rw [hreport]
  simp

section Pass

variable {height count : Nat} {previous : Option Text}

theorem timely_publishes {t : DbCall} (ht : OwnCall networkId t)
    (hnode : NodeAt networkId n db) (hreport : t.reportedHeight = none)
    (hpublish : ∀ k ∈ t.publishedHeight, k ≤ n) : Timely networkId start db t := by
  refine ⟨ht, ?_⟩
  cases t with
  | observeNodeTip => cases hreport
  | updateNodeTip => cases hreport
  | _ => exact fun k hk => ⟨n, hnode, hpublish k hk⟩

/-- Appending publishes the heights it was started for. -/
theorem appendBlocks_timely (hnode : NodeAt self.network.id n db)
    (hrange : ∀ k < count, height + k ≤ n) :
    (self.appendBlocks count height previous).Ensures
      (timelyContract lib self.network.id start)
      (Prog.onOk fun _ _ db' => NodeAt self.network.id n db') tr db := by
  induction count generalizing height previous tr db with
  | zero => exact Prog.Ensures.ret_onOk hnode
  | succ count ih =>
    refine Prog.Ensures.bind_onOk fetchIndexedBlock_events ?_
    rintro _ indexed _ ⟨rfl, seg, rfl, hfetched, -⟩
    have hown : OwnCall self.network.id (.commitBlock self.network.id indexed) := ⟨rfl, trivial⟩
    have hle := hrange 0 (Nat.succ_pos count)
    refine Prog.Ensures.bind_onOk (issue_nodeAt hnode hown
      (timely_publishes hown hnode rfl ?_) rfl) ?_
    · rintro k ⟨⟩
      rw [hfetched.atHeight]
      exact hle
    rintro _ _ db₁ hnode₁
    refine Prog.Ensures.bind_onOk (ih hnode₁ ?_) fun _ _ _ h => Prog.Ensures.ret_onOk h
    intro k hk
    have := hrange (k + 1) (by omega)
    omega

variable {info : BlockchainInfo} {tipHash : Text}

/-- A branch ends at the height it was staged for, or where it was to start. -/
theorem branchHeight_le {a : Nat} {hash : Text} {oldTip : ChainTip} {blocks : List IndexedBlock}
    {seg : Trace} {first : Nat} (ha : a ≤ n)
    (hstaged : Staged first (Indexer.heightCount first n) seg blocks) :
    ∀ k ∈ (DbCall.replaceCanonicalBranch networkId oldTip (some (a, hash)) blocks).publishedHeight,
      k ≤ n := by
  intro k hk
  simp only [DbCall.publishedHeight] at hk
  cases hlast : blocks.getLast? with
  | none =>
    rw [hlast] at hk
    obtain rfl : a = k := by simpa using hk
    exact ha
  | some b =>
    rw [hlast] at hk
    obtain rfl : b.block.height = k := by simpa using hk
    have hne : blocks ≠ [] := by
      rintro rfl
      cases hlast
    have hpos := List.length_pos_of_ne_nil hne
    have hlen := hstaged.length
    have htop := (hstaged.top b hlast).1
    unfold Indexer.heightCount at *
    omega

theorem reorganize_timely {storedTip : ChainTip} (hnode : NodeAt self.network.id info.blocks db) :
    (self.reorganize info tipHash storedTip).Ensures (timelyContract lib self.network.id start)
      (Prog.onOk fun _ _ db' => NodeAt self.network.id info.blocks db') tr db := by
  refine Prog.Ensures.bind_onOk (findCommonAncestor_onOk rfl fun _ _ _ => ⟨⟨rfl, trivial⟩, nofun⟩) ?_
  rintro _ _ _ ⟨rfl, ⟨a, hash⟩, rfl, hfound⟩
  have hbelow : a ≤ info.blocks := Nat.le_trans hfound.below (Nat.min_le_right _ _)
  refine Prog.Ensures.bind_onOk stageBranch_onOk ?_
  rintro _ blocks _ ⟨rfl, stage, rfl, hstaged⟩
  refine Prog.Ensures.bind_onOk confirmSnapshot_onOk ?_
  rintro _ _ _ ⟨rfl, rfl⟩
  have hown : OwnCall self.network.id
      (.replaceCanonicalBranch self.network.id storedTip (some (a, hash)) blocks) := ⟨rfl, rfl⟩
  refine Prog.Ensures.bind_onOk (issue_nodeAt hnode hown
    (timely_publishes hown hnode rfl (branchHeight_le hbelow hstaged)) rfl) ?_
  rintro _ _ db₁ hnode₁
  refine Prog.Ensures.bind_onOk (issue_nodeAt hnode₁ ⟨rfl, trivial⟩ ⟨⟨rfl, trivial⟩, nofun⟩ rfl) ?_
  rintro _ _ db₂ hnode₂
  exact Prog.Ensures.ret_onOk hnode₂

theorem append_timely {tip : Option ChainTip} (hnode : NodeAt self.network.id info.blocks db) :
    (self.append info tip).Ensures (timelyContract lib self.network.id start)
      (Prog.onOk fun _ _ db' => NodeAt self.network.id info.blocks db') tr db := by
  refine Prog.Ensures.bind_onOk (appendBlocks_timely hnode ?_) fun _ _ _ h =>
    Prog.Ensures.ret_onOk h
  intro k hk
  unfold Indexer.heightCount at hk
  omega

theorem advance_timely {tip : Option ChainTip} (hnode : NodeAt self.network.id info.blocks db) :
    (self.advance info tipHash tip).Ensures (timelyContract lib self.network.id start)
      (Prog.onOk fun _ _ db' => NodeAt self.network.id info.blocks db') tr db := by
  cases tip with
  | none => exact append_timely hnode
  | some storedTip =>
    refine Prog.Ensures.bind_onOk canonicalMatches_onOk ?_
    rintro _ found _ ⟨rfl, seg, rfl, -⟩
    cases found with
    | false => exact reorganize_timely hnode
    | true => exact append_timely hnode

theorem refreshEvidence_timely (hnode : NodeAt self.network.id n db) :
    self.refreshEvidence.Ensures (timelyContract lib self.network.id start)
      (Prog.onOk fun _ _ db' => NodeAt self.network.id n db') tr db := by
  refine Prog.Ensures.bind_onOk (issue_nodeAt hnode ⟨rfl, trivial⟩ ⟨⟨rfl, trivial⟩, nofun⟩ rfl) ?_
  rintro _ found db₁ hnode₁
  cases found with
  | none => exact Prog.Ensures.ret_onOk hnode₁
  | some c =>
    refine Prog.Ensures.bind_onOk (asks_onOk (servedPredecessor_asksOnly c.1)) ?_
    rintro _ previous _ ⟨rfl, seg, rfl, -⟩
    refine Prog.Ensures.bind_onOk fetchIndexedBlock_events ?_
    rintro _ refreshed _ ⟨rfl, seg', rfl, -⟩
    exact issue_nodeAt hnode₁ ⟨rfl, trivial⟩ ⟨⟨rfl, trivial⟩, nofun⟩ rfl

theorem finish_timely {indexedBlocks depth : Nat}
    (hnode : NodeAt self.network.id info.blocks db) :
    (self.finish info tipHash indexedBlocks depth).Ensures
      (timelyContract lib self.network.id start) (Prog.onOk fun _ _ _ => True) tr db := by
  refine Prog.Ensures.bind_onOk (issue_nodeAt hnode ⟨rfl, trivial⟩ ⟨⟨rfl, trivial⟩, nofun⟩ rfl) ?_
  rintro _ tip db₁ hnode₁
  refine Prog.Ensures.bind_onOk (issue_onOk ⟨⟨rfl, trivial⟩, hnode₁⟩) ?_
  intro _ _ _ _
  exact Prog.Ensures.ret_onOk trivial

/-- Every transaction of a pass is timely, whatever the node answers. -/
theorem syncOnce_timely : self.syncOnce.Ensures (timelyContract lib self.network.id start)
    (Prog.onOk fun _ _ _ => True) [] start := by
  refine Prog.Ensures.bind_onOk blockchainInfo_onOk ?_
  rintro _ info _ ⟨rfl, rfl⟩
  refine Prog.Ensures.bind_onOk blockHash_onOk ?_
  rintro _ tipHash _ ⟨rfl, rfl⟩
  refine Prog.Ensures.bind_onOk (asks_onOk (validateIdentity_asksOnly _)) ?_
  rintro _ _ _ ⟨rfl, identity, rfl, -⟩
  refine Prog.Ensures.bind_onOk (issue_onOk ⟨⟨rfl, trivial⟩, nofun⟩) ?_
  rintro _ tip _ ⟨w, hread, rfl⟩
  obtain ⟨-, rfl⟩ := reading_ok.mp hread
  refine Prog.Ensures.bind_onOk (issue_onOk ⟨⟨rfl, trivial⟩, rfl⟩) ?_
  rintro _ _ db₁ ⟨w₁, hobserve, rfl⟩
  have hobserve' : exec lib w₁ (.observeNodeTip self.network.id info.blocks tipHash) _ =
      .ok (_, db₁) := hobserve
  have hnode := nodeAt_observed hobserve'
  refine Prog.Ensures.bind_onOk (advance_timely hnode) ?_
  rintro _ _ db₂ hnode₂
  refine Prog.Ensures.bind_onOk (refreshEvidence_timely hnode₂) ?_
  rintro _ _ db₃ hnode₃
  exact finish_timely hnode₃

theorem tick_timely : self.tick.Ensures (timelyContract lib self.network.id start)
    (fun _ _ _ => True) [] start := by
  refine Prog.ensures_handle.mpr (Prog.Ensures.bind syncOnce_timely (fun _ _ _ _ => trivial) ?_)
  intro tr e db' _
  refine Prog.ensures_handle.mpr ?_
  exact Prog.Ensures.txn ⟨⟨rfl, trivial⟩, nofun⟩ (fun _ _ _ _ => trivial) fun _ _ _ => trivial

end Pass

end WcashExplorer
