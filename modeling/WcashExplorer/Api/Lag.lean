import WcashExplorer.Api.Status
import WcashExplorer.Indexer.Heights

/-! The lag behind the node: negative where a pass has observed a node below the index. -/
namespace WcashExplorer

open Effects Relational

variable {lib : AuxPowCrate} {networkId : Text} {start db db' : Db}

/-- What the two handlers make of the lag in a state: `/status` reports none or a count, and the
probe's lag test passes no index more than one block ahead of the recorded node tip. -/
structure LagSound (networkId : Text) (db : Db) : Prop where
  status : ∀ (network : NetworkSettings) (startedAt : Timestamp) (atLatest : Db) (now : Timestamp)
    (response : ApiEnvelope StatusView), network.id = networkId →
    status network startedAt db atLatest now = .ok response →
    ∀ lag ∈ response.data.lagBlocks, 0 ≤ lag
  ready : ∀ c ∈ db.chainState.find? networkId, c.lagPasses = true →
    ∀ node ∈ c.nodeHeight, ∀ indexed ∈ c.indexedHeight, indexed ≤ node + 1

/-- The recorded indexed height is not above the recorded node height. -/
def NotAhead (networkId : Text) (db : Db) : Prop :=
  ∀ h ∈ recordedHeights networkId db, ∀ node ∈ h.1, ∀ indexed ∈ h.2, indexed ≤ node

instance : Decidable (NotAhead networkId db) := by
  unfold NotAhead
  infer_instance

theorem i64SaturatingSub_nonneg {a b : Int} : 0 ≤ i64SaturatingSub a b ↔ b ≤ a := by
  have hmax : (i64Max : Int) = 2 ^ 63 - 1 := rfl
  unfold i64SaturatingSub
  omega

/-- The settings of a network that configures nothing else. -/
def plainSettings (networkId : Text) : NetworkSettings where
  id := networkId
  genesisHash := []
  symbol := []
  decimals := 8
  coinbaseMaturity := 100
  displayName := []
  targetSpacingSeconds := 75
  maxSupplyZat := 2100000000000000
  initialSubsidyZat := 625000000
  halvingInterval := 1680000
  firstHalvingHeight := 1680001
  halvingInterval_pos := by decide

theorem status_ok {network : NetworkSettings} {startedAt now : Timestamp} {atLatest : Db}
    {response : ApiEnvelope StatusView}
    (h : status network startedAt db atLatest now = .ok response) :
    ∃ c ∈ db.chainState.find? network.id, response.data.lagBlocks = c.lag := by
  simp only [status, Result.bind_eq_ok] at h
  obtain ⟨c, hc, h⟩ := h
  cases h
  unfold chainStateRow at hc
  split at hc
  · cases hc
    exact ⟨c, ‹_›, rfl⟩
  · cases hc

theorem status_of_row {network : NetworkSettings} (startedAt : Timestamp) (atLatest : Db)
    (now : Timestamp) {c : ChainStateRow} (hc : db.chainState.find? network.id = some c) :
    ∃ response, status network startedAt db atLatest now = .ok response := by
  rw [status, chainStateRow, hc]
  exact ⟨_, rfl⟩

/-- The handlers' lag is sound exactly where the index is not ahead of the node. -/
theorem lagSound_iff : LagSound networkId db ↔ NotAhead networkId db := by
  constructor
  · intro h x hx node hnode indexed hindexed
    obtain ⟨c, hc, rfl⟩ := Option.map_eq_some_iff.mp hx
    have hrow : db.chainState.find? (plainSettings networkId).id = some c := hc
    obtain ⟨response, hok⟩ := status_of_row 0 db 0 hrow
    obtain ⟨c', hc', hlag⟩ := status_ok hok
    obtain rfl := Option.some.inj (hc.symm.trans hc')
    have hvalue : c.lag = some (i64SaturatingSub node indexed) := by
      have hnode' : c.nodeHeight = some node := hnode
      have hindexed' : c.indexedHeight = some indexed := hindexed
      rw [ChainStateRow.lag, hnode', hindexed']
    have hnonneg := h.status _ _ _ _ response rfl hok _ (hlag.trans hvalue)
    have := i64SaturatingSub_nonneg.mp hnonneg
    omega
  · intro h
    have hbehind : ∀ c ∈ db.chainState.find? networkId, ∀ node ∈ c.nodeHeight,
        ∀ indexed ∈ c.indexedHeight, indexed ≤ node := fun c hc =>
      h _ (Option.mem_map_of_mem _ hc)
    refine ⟨?_, ?_⟩
    · rintro network startedAt atLatest now response rfl hok lag hlag
      obtain ⟨c, hc, heq⟩ := status_ok hok
      rw [heq, Option.mem_def, ChainStateRow.lag] at hlag
      split at hlag
      · rename_i node indexed hnode hindexed
        obtain rfl := Option.some.inj hlag
        have := hbehind c hc node hnode indexed hindexed
        exact i64SaturatingSub_nonneg.mpr (by omega)
      · cases hlag
    · intro c hc _ node hnode indexed hindexed
      have := hbehind c hc node hnode indexed hindexed
      omega

/-- The heights a transaction moves to fit the heights it finds: what it reports is not below the
recorded index, and what it publishes is not above the recorded node. -/
def FitsHeights (networkId : Text) (db : Db) (t : DbCall) : Prop :=
  ∀ h ∈ recordedHeights networkId db,
    (∀ node ∈ t.reportedHeight, ∀ indexed ∈ h.2, indexed ≤ node) ∧
    ∀ indexed ∈ t.publishedHeight, ∀ node ∈ h.1, indexed ≤ node

/-- A transaction keeps the index behind the node exactly if its heights fit. -/
theorem notAhead_exec_iff {w : World} {t : DbCall} {r : t.Result} (ht : OwnCall networkId t)
    (hexec : exec lib w t db = .ok (r, db')) (h : NotAhead networkId db) :
    NotAhead networkId db' ↔ FitsHeights networkId db t := by
  rw [NotAhead, recordedHeights_exec ht hexec]
  unfold FitsHeights
  cases hrow : recordedHeights networkId db with
  | none => simp
  | some x =>
    have hx := h x hrow
    rcases reported_or_published t with hr | hp
    · cases hp : t.publishedHeight with
      | none => simpa [hr, hp] using hx
      | some i => simp [hr]
    · cases hr : t.reportedHeight with
      | none => simpa [hr, hp] using hx
      | some node => simp [hp]

/-- A committed transaction of the network fits the heights it finds. -/
def StaysBehind (networkId : Text) (db : Db) : Event explorer World → Prop
  | .done _ t (.ok _) => t.networkId = networkId → FitsHeights networkId db t
  | _ => True

/-- A pass observes the node at or above the index it started on. -/
def ObservesNoRollback (lib : AuxPowCrate) : PassProperty lib := fun indexer start tr =>
  ∀ w node hash r, done w (.observeNodeTip indexer.network.id node hash) (.ok r) ∈ tr →
    ∀ h ∈ recordedHeights indexer.network.id start, ∀ indexed ∈ h.2, indexed ≤ node

theorem EmptyNetwork.notAhead (h : EmptyNetwork networkId db) : NotAhead networkId db := by
  obtain ⟨updatedAt, hstate⟩ := h.state
  intro x hx
  rw [recordedHeights, hstate] at hx
  cases hx
  intro node hnode
  cases hnode

/-- Timely transactions keep the index behind the node, if the observation does. -/
theorem NotAhead.timely {w : World} {t : DbCall} {r : t.Result} (h : NotAhead networkId db)
    (ht : Timely networkId start db t) (hexec : exec lib w t db = .ok (r, db'))
    (hobserves : ∀ node hash, t = .observeNodeTip networkId node hash →
      ∀ x ∈ recordedHeights networkId start, ∀ indexed ∈ x.2, indexed ≤ node) :
    NotAhead networkId db' := by
  obtain ⟨hown, htimely⟩ := ht
  refine (notAhead_exec_iff hown hexec h).mpr ?_
  intro x hx
  have hpublishes : (∀ k ∈ t.publishedHeight, ∃ n, NodeAt networkId n db ∧ k ≤ n) →
      ∀ indexed ∈ t.publishedHeight, ∀ node ∈ x.1, indexed ≤ node := by
    intro hall indexed hindexed node hnode
    obtain ⟨n, hn, hle⟩ := hall indexed hindexed
    obtain rfl : n = node := Option.some.inj ((hn x hx).symm.trans hnode)
    exact hle
  cases t with
  | observeNodeTip m n hash =>
    obtain rfl : m = networkId := hown.1
    refine ⟨?_, nofun⟩
    rintro node ⟨⟩ indexed hindexed
    exact hobserves n hash rfl x (htimely ▸ hx) indexed hindexed
  | updateNodeTip m n hash status error =>
    refine ⟨?_, nofun⟩
    rintro node ⟨⟩ indexed hindexed
    exact h x hx n (htimely x hx) indexed hindexed
  | _ => exact ⟨nofun, hpublishes htimely⟩

/-- A history of passes that observe no rollback keeps the index behind the node. -/
theorem History.notAhead (h : History lib networkId (ObservesNoRollback lib) db db')
    (hdb : NotAhead networkId db) : NotAhead networkId db' := by
  induction h with
  | refl => exact hdb
  | @pass db₁ db₂ indexer tr rest _ network run holds ih =>
    subst network
    have htick : indexer.tick.Ensures (timelyContract lib indexer.network.id db₁) _ [] db₁ :=
      tick_timely
    refine htick.invariant (I := NotAhead indexer.network.id) ?_
      (fun ev _ => by cases ev <;> exact trivial) run ih
    intro pre w t r s s' hpre htimely hs hexec
    refine hs.timely htimely hexec ?_
    rintro node hash rfl
    have hmem := hpre.subset (List.mem_append_right pre List.mem_cons_self)
    exact holds w node hash r hmem

/-- Interleaved writers of a network keep the index behind the node while every committed
transaction fits the heights it finds. -/
theorem interleaved_notAhead {ι : Type} [DecidableEq ι] {writers : ι → Indexer lib}
    {rounds : ι → Nat} {rest : ι → Action Unit} {log : List (ι × Event explorer World)}
    (hnetwork : ∀ i, (writers i).network.id = networkId)
    (run : Effects.Interleaved (exec lib) (StaysBehind networkId)
      (fun i => (writers i).rounds (rounds i), db) log (rest, db')) (h : NotAhead networkId db) :
    NotAhead networkId db' := by
  refine run.invariant (P := OwnCall networkId) ?_ ?_ h
  · intro i
    have hissues : ((writers i).rounds (rounds i)).Issues (OwnCall (writers i).network.id) :=
      rounds_issues (rounds i)
    rwa [hnetwork i] at hissues
  · intro w t r s s' ht hfits hexec hs
    exact (notAhead_exec_iff ht hexec hs).mpr (hfits ht.1)

/-- The lag is sound in every state that is reached without a rollback: by passes of one writer
that observe no node below the index, and by interleaved writers whose transactions fit the
heights they find. An observation below the index makes it unsound at once. -/
theorem lag_sound_without_rollback :
    (∀ start db, EmptyNetwork networkId start →
      History lib networkId (ObservesNoRollback lib) start db → LagSound networkId db) ∧
    (∀ (ι : Type) (_ : DecidableEq ι) (writers : ι → Indexer lib) (rounds : ι → Nat)
      (rest : ι → Action Unit) (log : List (ι × Event explorer World)) (start db : Db),
      (∀ i, (writers i).network.id = networkId) → EmptyNetwork networkId start →
      Effects.Interleaved (exec lib) (StaysBehind networkId)
        (fun i => (writers i).rounds (rounds i), start) log (rest, db) → LagSound networkId db) ∧
    ∀ (w : World) (node : Nat) (hash : Text) (u : Unit) (db db' : Db),
      exec lib w (.observeNodeTip networkId node hash) db = .ok (u, db') →
      (LagSound networkId db' ↔
        ∀ h ∈ recordedHeights networkId db, ∀ indexed ∈ h.2, indexed ≤ node) := by
  refine ⟨?_, ?_, ?_⟩
  · intro start db hempty hhistory
    exact lagSound_iff.mpr (hhistory.notAhead hempty.notAhead)
  · intro ι _ writers rounds rest log start db hnetwork hempty run
    exact lagSound_iff.mpr (interleaved_notAhead hnetwork run hempty.notAhead)
  · intro w node hash u db db' hexec
    have hown : OwnCall networkId (.observeNodeTip networkId node hash) := ⟨rfl, trivial⟩
    rw [lagSound_iff, NotAhead, recordedHeights_exec hown hexec]
    cases recordedHeights networkId db with
    | none => simp
    | some x => simp [DbCall.reportedHeight, DbCall.publishedHeight]

theorem observesNoRollback_of_all {indexer : Indexer lib} {tr : Trace}
    (h : (tr.all fun ev => match ev with
      | .done _ (.observeNodeTip _ node _) _ =>
        (recordedHeights indexer.network.id db).all fun x => x.2.all fun indexed => indexed ≤ node
      | _ => true) = true) : ObservesNoRollback lib indexer db tr := by
  intro w node hash r hdone x hx indexed hindexed
  have hall := (Option.all_eq_true _ _).mp (List.all_eq_true.mp h _ hdone) x hx
  exact of_decide_eq_true ((Option.all_eq_true _ _).mp hall indexed hindexed)

/-- Two passes, the second of which displaces block `3` by a longer branch. -/
theorem lag_sound_without_rollback_reorganized :
    (sampleDb [['3'], ['1', '2']]).reorgEvents.rows.length = 1 ∧
      recordedHeights sampleNetwork (sampleDb [['3'], ['1', '2']]) = some (some 2, some 2) ∧
      LagSound sampleNetwork (sampleDb [['3'], ['1', '2']]) := by
  have hstart : History sampleCrate sampleNetwork (ObservesNoRollback sampleCrate)
      (initialDb sampleNetwork) (sampleDb []) := .refl _
  have hfirst := hstart.sample ['3'] (observesNoRollback_of_all (by decide +kernel))
  have hsecond := hfirst.sample ['1', '2'] (observesNoRollback_of_all (by decide +kernel))
  have hsound := lag_sound_without_rollback.1 _ _ (initialDb_empty sampleNetwork) hsecond
  exact ⟨by decide +kernel, by decide +kernel, hsound⟩

/-- A node that has rolled back to a shorter sibling branch, beyond the limit of the search: the
failed pass leaves an index two blocks ahead of the recorded node tip. -/
theorem rollback_makes_lag_negative : ¬ ∀ db : Db, Reachable sampleCrate sampleNetwork db →
    LagSound sampleNetwork db := by
  intro h
  have hreach : Reachable sampleCrate sampleNetwork
      ((sampleIndexer 0).round (steadyNode ['4']) (sampleDb [['1', '2', '3']])) :=
    (sampleDb_reachable [['1', '2', '3']]).round rfl
  have hbehind := lagSound_iff.mp (h _ hreach)
  revert hbehind
  decide +kernel

end WcashExplorer
