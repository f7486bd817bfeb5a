import WcashExplorer.Db.Complete
import WcashExplorer.Indexer.Node
import WcashExplorer.Indexer.Vetted

/-! Stores that a single writer filled from empty tables. -/
namespace WcashExplorer

open Effects Relational

variable {lib : AuxPowCrate} {networkId n : Text} {db db' : Db} {log : List DbCall}
  {P : Db → DbCall → Prop}

/-- A committed state of a single writer whose tables were empty at the start. -/
def Filled (lib : AuxPowCrate) (networkId : Text) (db : Db) : Prop :=
  ∃ start, EmptyNetwork networkId start ∧ NoBlocks start ∧
    History lib networkId (anyPass lib) start db

namespace Filled

theorem reachable (h : Filled lib networkId db) : Reachable lib networkId db := by
  obtain ⟨start, hempty, -, hhistory⟩ := h
  exact ⟨start, hempty, hhistory⟩

theorem selected (h : Filled lib networkId db) : ∃ xs, Selected networkId db xs :=
  h.reachable.chainInvariant.1

theorem initialized (h : Filled lib networkId db) : Initialized networkId db :=
  h.reachable.chainInvariant.2

theorem sound (h : Filled lib networkId db) : StoreSound db := by
  obtain ⟨start, -, hblocks, hhistory⟩ := h
  obtain ⟨log, hcalls⟩ := hhistory.calls
  exact hcalls.sound hblocks.sound

theorem initial (networkId : Text) : Filled lib networkId (initialDb networkId) :=
  ⟨_, initialDb_empty networkId, ⟨⟨rfl, rfl, rfl, rfl, rfl⟩, rfl, rfl, rfl, rfl⟩, .refl _⟩

theorem round {indexer : Indexer lib} {env : Environment explorer World}
    (h : Filled lib networkId db) (hn : indexer.network.id = networkId) :
    Filled lib networkId (indexer.round env db) := by
  obtain ⟨start, hempty, hblocks, hhistory⟩ := h
  exact ⟨start, hempty, hblocks, hhistory.round hn trivial⟩

end Filled

/-- No method adds or removes a network's row of `chain_state`. -/
theorem exec_initialized {w : World} {t : DbCall} {r : t.Result}
    (h : exec lib w t db = .ok (r, db')) : Initialized n db' ↔ Initialized n db := by
  have hstate {m : Text} {f : ChainStateRow → ChainStateRow}
      {hf : ∀ r, (f r).networkId = r.networkId} {d : Db} (hd : d.chainState = db.chainState) :
      Initialized n (updateChainState m f hf d) ↔ Initialized n db := by
    rw [Initialized, updateChainState, Table.find?_updateWhere, Option.isSome_map, hd]
    rfl
  have hstatus (hs : StatusOnly db db') : Initialized n db' ↔ Initialized n db := by
    obtain ⟨m, f, hf, -, rfl⟩ := hs
    exact hstate rfl
  cases t with
  | canonicalTip m => rw [(reading_ok.mp h).2]
  | canonicalHash m height => rw [(reading_ok.mp h).2]
  | evidenceRefreshCandidate m depth => rw [(reading_ok.mp h).2]
  | commitBlock m indexed =>
    obtain ⟨db₁, db₂, hins, hsel, -, rfl⟩ := commitBlock_ok (writing_ok.mp h)
    refine hstate ?_
    have hstate₁ := (insertBlock_inserts hins).chainState
    obtain ⟨-, ⟨-, rfl⟩ | ⟨-, -, rfl⟩⟩ := insertCanonicalSelector_ok hsel <;> exact hstate₁
  | refreshBlockEvidence m indexed =>
    rw [Initialized, (insertBlock_inserts (writing_ok.mp h)).chainState]
    rfl
  | replaceCanonicalBranch m oldTip ancestor replacement =>
    obtain ⟨db₁, db₂, -, -, -, hins, hsel, rfl⟩ := replaceCanonicalBranch_ok (writing_ok.mp h)
    have hstate₁ := (insertBlocks_recorded hins).1.chainState
    have hstate₂ : db₂.chainState = db.chainState := by
      rw [insertSelectors_frame hsel]
      exact hstate₁
    change Initialized n (recordTip m _ _ _ w.now db₂) ↔ _
    exact hstate hstate₂
  | observeNodeTip m height hash => exact hstatus (observeNodeTip_ok (writing_ok.mp h))
  | updateNodeTip m height hash status error => exact hstatus (updateNodeTip_ok (writing_ok.mp h))
  | markIndexerError m error => exact hstatus (markIndexerError_ok (writing_ok.mp h))

theorem Calls.initialized (h : Calls lib P db log db') : Initialized n db' ↔ Initialized n db :=
  h.invariant (I := fun d => Initialized n d ↔ Initialized n db) .rfl
    fun _ _ _ _ _ _ hd hx => (exec_initialized hx).trans hd

end WcashExplorer
