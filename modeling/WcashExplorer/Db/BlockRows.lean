import WcashExplorer.Indexer.Filled

/-! Where the rows of `blocks` come from, and what that says of their times. -/
namespace WcashExplorer

open Relational

variable {lib : AuxPowCrate} {networkId : Text} {db db' start : Db} {b : BlockRow}
  {log : List DbCall} {P : Db → DbCall → Prop}

/-- A row that an insertion made of a node's block, and that the table accepted. -/
def BlockRow.Made (b : BlockRow) : Prop :=
  b.valid = true ∧ ∃ networkId indexed, blockRow networkId indexed = .ok b

def BlocksMade (db : Db) : Prop := ∀ b ∈ db.blocks.rows, b.Made

theorem BlocksMade.insertBlock {indexed : IndexedBlock} (hs : BlocksMade db)
    (h : insertBlock lib networkId indexed db = .ok db') : BlocksMade db' := by
  obtain ⟨row, stored, db₂, db₃, hrow, hvalid, -, -, hdb₂, hloop, hdb'⟩ := insertBlock_loop h
  have hblocks : db'.blocks = db.blocks.insertNew row := by
    rw [hdb', insertBlockTransactions_only hloop, hdb₂]
  intro b hb
  rw [hblocks] at hb
  rcases Table.mem_insertNew.mp hb with hold | ⟨rfl, -⟩
  · exact hs b hold
  · exact ⟨hvalid, _, _, hrow⟩

theorem BlocksMade.insertBlocks {blocks : List IndexedBlock} (hs : BlocksMade db)
    (h : insertBlocks lib networkId blocks db = .ok db') : BlocksMade db' := by
  induction blocks generalizing db with
  | nil =>
    cases h
    exact hs
  | cons first rest ih =>
    obtain ⟨db₁, hfirst, hrest⟩ := insertBlocks_cons h
    exact ih (hs.insertBlock hfirst) hrest

theorem Calls.blocksMade (h : Calls lib P start log db) (hs : BlocksMade start) :
    BlocksMade db := by
  refine h.invariant hs fun d w t r d' _ hd hx => ?_
  obtain ⟨d₁, hins, hd'⟩ := exec_insertBlocks hx
  have hblocks : d'.blocks = d₁.blocks := by rw [hd']
  intro b hb
  exact hd.insertBlocks hins b (hblocks ▸ hb)

theorem Filled.blocksMade (h : Filled lib networkId db) : BlocksMade db := by
  obtain ⟨start, -, hblocks, hhistory⟩ := h
  obtain ⟨log, hcalls⟩ := hhistory.calls
  refine hcalls.blocksMade fun b hb => ?_
  rw [hblocks.blocks] at hb
  cases hb

/-- A block's time is a whole second within the range of the column. -/
theorem BlockRow.Made.blockTime (h : b.Made) : ∃ secs : Int, b.blockTime = secs * microsPerSecond ∧
    -210866803200 ≤ secs ∧ secs ≤ 8210266876799 := by
  obtain ⟨hvalid, n, indexed, hrow⟩ := h
  have htime : fromTimestamp indexed.block.time = some b.blockTime := by
    simp only [blockRow, Result.bind_eq_ok] at hrow
    obtain ⟨t, ht, _, -, _, -, _, -, hrow⟩ := hrow
    cases hrow
    rw [blockTimestamp] at ht
    split at ht
    · rename_i t' hfrom
      cases ht
      exact hfrom
    · cases ht
  rw [fromTimestamp] at htime
  split_ifs at htime with hrange
  have hstorable : timestampStorable b.blockTime = true := by
    simp only [BlockRow.valid, Bool.and_eq_true] at hvalid
    tauto
  have heq := (Option.some.inj htime).symm
  rw [heq, timestampStorable, decide_eq_true_eq] at hstorable
  simp only [microsPerSecond] at heq hstorable ⊢
  exact ⟨indexed.block.time, heq, by omega, hrange.2⟩

section Selectors

variable {c d : CanonicalRow} {w : World} {t : DbCall} {r : t.Result}

/-- Every selected row is that of a stored block. -/
def SelectedStored (db : Db) : Prop := ∀ c ∈ db.canonicalChain.rows, BlockStored db c

theorem SelectedStored.exec (hs : SelectedStored db) (h : exec lib w t db = .ok (r, db')) :
    SelectedStored db' := by
  intro c hc
  obtain ⟨db₁, hins, hdb'⟩ := exec_insertBlocks h
  obtain ⟨hi, hrecorded⟩ := insertBlocks_recorded hins
  have hblocks : db'.blocks = db₁.blocks := by rw [hdb']
  have hstored : BlockStored db₁ c := by
    rcases exec_canonicalRows h hc with hold | ⟨b, hb, rfl⟩
    · exact (hs c hold).of_inserts hi
    · obtain ⟨row, hrow, hn, hheight, -⟩ := hrecorded b hb
      exact ⟨row, hrow, hheight, hn⟩
  obtain ⟨b, hb, hcolumns⟩ := hstored
  exact ⟨b, hblocks ▸ hb, hcolumns⟩

theorem Calls.selectedStored (h : Calls lib P start log db) (hs : SelectedStored start) :
    SelectedStored db :=
  h.invariant hs fun _ _ _ _ _ _ hd hx => hd.exec hx

theorem Filled.selectedStored (h : Filled lib networkId db) : SelectedStored db := by
  obtain ⟨start, -, hblocks, hhistory⟩ := h
  obtain ⟨log, hcalls⟩ := hhistory.calls
  refine hcalls.selectedStored fun c hc => ?_
  rw [hblocks.canonicalChain] at hc
  cases hc

/-- A network selects a hash once. -/
theorem SelectedStored.eq_of_hash (hs : SelectedStored db) (hc : c ∈ canonicalRows db networkId)
    (hd : d ∈ canonicalRows db networkId) (h : c.blockHash = d.blockHash) : c = d := by
  simp only [canonicalRows, List.mem_filter, decide_eq_true_eq] at hc hd
  obtain ⟨b, hb, hheight, -⟩ := hs c hc.1
  obtain ⟨b', hb', hheight', -⟩ := hs d hd.1
  rw [h, hb'] at hb
  obtain rfl := Option.some.inj hb
  refine List.inj_on_of_nodup_map db.canonicalChain.nodup hc.1 hd.1 ?_
  rw [CanonicalRow.key, CanonicalRow.key, hc.2, hd.2, ← hheight, ← hheight']

end Selectors

end WcashExplorer
