import WcashExplorer.Api.SameRankings
import WcashExplorer.Indexer.Vouched

/-! Histories of one node that end with one canonical map are answered the same. -/
namespace WcashExplorer

open Effects Relational

section Answers

variable (collation : LinearOrder Text) (network : NetworkProfile) (addresses : AddressCrate)
  (explorer : ParentExplorer) (targetSpacingSeconds : Nat) (now : Timestamp)

end Answers

section Nodes

theorem FilledFrom.round {lib : AuxPowCrate} {networkId : Text} {B : IndexedBlock → Prop} {db : Db}
    {indexer : Indexer lib} {env : Environment explorer World}
    (h : FilledFrom lib networkId B db) (hn : indexer.network.id = networkId)
    (hcommits : commitsFrom lib B indexer db (indexer.roundTrace env db)) :
    FilledFrom lib networkId B (indexer.round env db) := by
  obtain ⟨start, hempty, hblocks, hpools, hhistory⟩ := h
  exact ⟨start, hempty, hblocks, hpools, hhistory.round hn hcommits⟩

end Nodes

section Sample

end Sample

end WcashExplorer
