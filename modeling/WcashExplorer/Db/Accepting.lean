import WcashExplorer.Db.Ledger
import WcashExplorer.Indexer.Tip

/-! The methods that move the selection succeed on blocks the ledger describes. -/
namespace WcashExplorer

open Relational

variable {lib : AuxPowCrate} {networkId : Text} {indexed : IndexedBlock} {db db' : Db}
  {xs : List CanonicalRow} {blocks : List IndexedBlock} {ledger : Ledger} {now : Timestamp}
  {a k : Nat} {previous : Option Text}

/-- A block that fits its tables and that the ledger describes. -/
def Conforms (lib : AuxPowCrate) (ledger : Ledger) (networkId : Text) (indexed : IndexedBlock) :
    Prop :=
  ∃ facts, Fits lib networkId indexed facts ∧
    ledger.Describes indexed.block.hash (witnessHash lib indexed) facts

/-- A conforming block that is read back as it was offered. -/
structure Acceptable (lib : AuxPowCrate) (ledger : Ledger) (networkId : Text)
    (indexed : IndexedBlock) : Prop where
  conforms : Conforms lib ledger networkId indexed
  ordered : OutputsOrdered indexed.block

/-- The selector is the chain `xs`, its tip is recorded, and the facts below it are sound and
the ledger's. -/
structure Holds (ledger : Ledger) (networkId : Text) (xs : List CanonicalRow) (db : Db) : Prop where
  agrees : ledger.AgreesWith db
  sound : FactsSound db
  selected : Selected networkId db xs
  tip : TipRecorded networkId db xs

/-- The height the ledger gives a block hash. -/
def Ledger.heightOf (ledger : Ledger) (hash : Text) : Option Nat :=
  (ledger.header hash).map fun r => r.height

theorem Acceptable.height (h : Acceptable lib ledger networkId indexed) :
    indexed.block.height ≤ i64Max ∧ ledger.heightOf indexed.block.hash = some indexed.block.height := by
  obtain ⟨facts, hfits, hl⟩ := h.conforms
  obtain ⟨row, hrow, -, hheader, -⟩ := blockFacts_ok hfits.stated
  have hheight : row.height = indexed.block.height := (blockRow_ok hrow).2.2.1
  refine ⟨?_, ?_⟩
  · simp only [blockRow, Result.bind_eq_ok, toI64_eq_ok] at hrow
    obtain ⟨-, -, -, ⟨hle, -⟩, -⟩ := hrow
    exact hle
  · rw [Ledger.heightOf, hl.header, hheader, Option.map_some, ← hheight]
    rfl

theorem Acceptable.inserts (ha : ledger.AgreesWith db) (hs : FactsSound db)
    (h : Acceptable lib ledger networkId indexed) :
    ∃ db', insertBlock lib networkId indexed db = .ok db' ∧ ledger.AgreesWith db' ∧
      FactsSound db' := by
  obtain ⟨⟨facts, hfits, hl⟩, hordered⟩ := h
  exact insertBlock_succeeds ha hs hfits hordered hl

namespace Holds

theorem initialized (h : Holds ledger networkId xs db) : Initialized networkId db := by
  obtain ⟨c, hc, -⟩ := h.tip
  exact Option.isSome_of_mem hc

/-- Moving only the selector, the states and the events leaves the facts as they are. -/
theorem of_frame (h : Holds ledger networkId xs db) {ys : List CanonicalRow}
    (hframe : db' = { db with
      canonicalChain := db'.canonicalChain
      chainState := db'.chainState
      reorgEvents := db'.reorgEvents })
    (hx : Selected networkId db' ys) (htip : TipRecorded networkId db' ys) :
    Holds ledger networkId ys db' where
  agrees := by
    rw [hframe]
    exact ⟨h.agrees.blocks, h.agrees.instances, h.agrees.placements⟩
  sound := by
    rw [hframe]
    exact ⟨⟨h.sound.instances.ids_nodup, h.sound.instances.ids_lt, h.sound.instances.inputs_refer,
      h.sound.instances.outputs_refer⟩, ⟨h.sound.placements.once, h.sound.placements.counted⟩⟩
  selected := hx
  tip := htip

/-- Inserting a described block moves nothing of it. -/
theorem of_inserts (h : Holds ledger networkId xs db) (hi : Inserts db db')
    (ha : ledger.AgreesWith db') (hs : FactsSound db') : Holds ledger networkId xs db' where
  agrees := ha
  sound := hs
  selected := h.selected.of_inserts hi
  tip := by
    rw [TipRecorded, hi.chainState]
    exact h.tip

theorem of_status (h : Holds ledger networkId xs db) (hstatus : StatusOnly db db') :
    Holds ledger networkId xs db' := by
  have hx := hstatus.selected h.selected
  have htip : TipRecorded networkId db' xs := by
    rw [tipRecorded_iff, hstatus.recordedTip_eq]
    exact tipRecorded_iff.mp h.tip
  obtain ⟨n, f, hf, -, rfl⟩ := hstatus
  exact h.of_frame rfl hx htip

/-- A selected hash has the height the ledger gives it. -/
theorem heightOf (h : Holds ledger networkId xs db) {r : CanonicalRow} (hr : r ∈ xs) :
    ledger.heightOf r.blockHash = some r.height := by
  obtain ⟨b, hb, hheight, -⟩ := h.selected.stored r hr
  have hheader := h.agrees.blocks b (Table.mem_of_find? hb)
  have hhash : b.blockHash = r.blockHash := Table.key_of_find? hb
  rw [hhash] at hheader
  rw [Ledger.heightOf, hheader, Option.map_some, ← hheight]
  rfl

theorem insertBlocks (h : Holds ledger networkId xs db)
    (hblocks : ∀ b ∈ blocks, Acceptable lib ledger networkId b) :
    ∃ db', insertBlocks lib networkId blocks db = .ok db' ∧ Holds ledger networkId xs db' := by
  induction blocks generalizing db with
  | nil => exact ⟨db, rfl, h⟩
  | cons first rest ih =>
    obtain ⟨db₁, hfirst, ha, hs⟩ := (hblocks first (by simp)).inserts h.agrees h.sound
    obtain ⟨db', hrest, h'⟩ := ih (h.of_inserts (insertBlock_inserts hfirst) ha hs)
      fun b hb => hblocks b (by simp [hb])
    refine ⟨db', ?_, h'⟩
    simp only [WcashExplorer.insertBlocks, Result.bind_eq_ok]
    exact ⟨db₁, hfirst, hrest⟩

end Holds

section Selectors

/-- The hashes selected for a network have the heights the ledger gives them, all below `k`. -/
def SelectedBelow (ledger : Ledger) (networkId : Text) (k : Nat) (db : Db) : Prop :=
  ∀ s ∈ db.canonicalChain.rows, s.networkId = networkId →
    ledger.heightOf s.blockHash = some s.height ∧ s.height < k

/-- The next height is free, and the hash of its block is not selected. -/
theorem insertCanonicalSelector_succeeds (hdb : SelectedBelow ledger networkId k db)
    (hle : indexed.block.height ≤ i64Max) (hh : indexed.block.height = k)
    (hl : ledger.heightOf indexed.block.hash = some indexed.block.height) :
    insertCanonicalSelector lib networkId indexed db = .ok { db with
      canonicalChain := db.canonicalChain.insertNew (canonicalRow lib networkId indexed) } := by
  have hfree : db.canonicalChain.find? (networkId, indexed.block.height) = none := by
    refine Table.find?_eq_none.mpr ?_
    intro s hs hkey
    have hn : s.networkId = networkId := congrArg Prod.fst hkey
    have hheight : s.height = indexed.block.height := congrArg Prod.snd hkey
    have := (hdb s hs hn).2
    omega
  have hnew : db.canonicalChain.rows.all (fun r =>
      !(r.networkId = networkId && r.blockHash = indexed.block.hash)) = true := by
    refine List.all_eq_true.mpr ?_
    intro s hs
    by_contra hne
    simp only [Bool.not_eq_true', Bool.not_eq_false, Bool.and_eq_true, decide_eq_true_eq] at hne
    obtain ⟨hheight, hlt⟩ := hdb s hs hne.1
    rw [hne.2, hl] at hheight
    have := Option.some.inj hheight
    omega
  simp only [insertCanonicalSelector, Result.bind_eq_ok]
  refine ⟨_, toI64_eq_ok.mpr ⟨hle, rfl⟩, ?_⟩
  simp only [CanonicalRow.key, hfree, Result.bind_eq_ok, checked, ensure_eq_ok]
  exact ⟨(), hnew, rfl⟩

theorem SelectedBelow.insertNew (hdb : SelectedBelow ledger networkId k db)
    (hh : indexed.block.height = k)
    (hl : ledger.heightOf indexed.block.hash = some indexed.block.height) :
    SelectedBelow ledger networkId (k + 1) { db with
      canonicalChain := db.canonicalChain.insertNew (canonicalRow lib networkId indexed) } := by
  intro s hs hn
  rcases Table.mem_insertNew.mp hs with hs | ⟨rfl, -⟩
  · obtain ⟨hheight, hlt⟩ := hdb s hs hn
    exact ⟨hheight, by omega⟩
  · refine ⟨hl, ?_⟩
    change indexed.block.height < k + 1
    omega

/-- The selectors of a contiguous branch are all inserted. -/
theorem insertSelectors_succeeds (hdb : SelectedBelow ledger networkId k db)
    (hblocks : ∀ b ∈ blocks, b.block.height ≤ i64Max ∧
      ledger.heightOf b.block.hash = some b.block.height)
    (hc : contiguousFrom k previous blocks = true) :
    ∃ db', insertSelectors lib networkId blocks db = .ok db' := by
  induction blocks generalizing db k previous with
  | nil => exact ⟨db, rfl⟩
  | cons first rest ih =>
    simp only [contiguousFrom, Bool.and_eq_true, decide_eq_true_eq] at hc
    obtain ⟨⟨hh, -⟩, hc⟩ := hc
    obtain ⟨hle, hl⟩ := hblocks first (by simp)
    rw [saturatingAdd_one (hh ▸ hle)] at hc
    obtain ⟨db', hrest⟩ := ih (hdb.insertNew hh hl) (fun b hb => hblocks b (by simp [hb])) hc
    refine ⟨db', ?_⟩
    simp only [insertSelectors, Result.bind_eq_ok]
    exact ⟨_, insertCanonicalSelector_succeeds hdb hle hh hl, hrest⟩

theorem Holds.selectedBelow (h : Holds ledger networkId xs db) :
    SelectedBelow ledger networkId xs.length db := by
  intro s hs hn
  have hmem : s ∈ xs := h.selected.mem_canonicalRows.mp (by simp [canonicalRows, hs, hn])
  refine ⟨h.heightOf hmem, ?_⟩
  obtain ⟨i, hi⟩ := List.mem_iff_getElem?.mp hmem
  obtain ⟨hlt, -⟩ := List.getElem?_eq_some_iff.mp hi
  rw [(h.selected.key_eq hi).2]
  exact hlt

/-- Below an ancestor nothing is detached. -/
theorem SelectedBelow.detach (hdb : SelectedBelow ledger networkId k db) :
    SelectedBelow ledger networkId (a + 1) (detach networkId (some a) db) := by
  intro s hs hn
  obtain ⟨hs, hkept⟩ := List.mem_filter.mp hs
  refine ⟨(hdb s hs hn).1, ?_⟩
  simp only [hn, decide_true, Bool.true_and, Bool.not_eq_true', decide_eq_false_iff_not] at hkept
  omega

end Selectors

section Methods

/-- The next block of the chain is committed on top of it. -/
theorem Holds.commitBlock (h : Holds ledger networkId xs db)
    (hok : Acceptable lib ledger networkId indexed) (hh : indexed.block.height = xs.length)
    (hp : ∀ s ∈ xs.getLast?, indexed.block.previousblockhash = some s.blockHash) :
    ∃ db', commitBlock lib networkId indexed now db = .ok db' ∧
      Holds ledger networkId (xs ++ [canonicalRow lib networkId indexed]) db' := by
  obtain ⟨hle, hl⟩ := hok.height
  obtain ⟨db₁, hins, ha, hs⟩ := hok.inserts h.agrees h.sound
  have h₁ := h.of_inserts (insertBlock_inserts hins) ha hs
  have hsel : insertCanonicalSelector lib networkId indexed db₁ = _ :=
    insertCanonicalSelector_succeeds h₁.selectedBelow hle hh hl
  have hfound : (db₁.canonicalChain.insertNew (canonicalRow lib networkId indexed)).find?
      (networkId, indexed.block.height) = some (canonicalRow lib networkId indexed) := by
    rw [Table.find?_insertNew, h₁.selected.represents, hh, List.getElem?_eq_none (Nat.le_refl _),
      Option.none_or, ← hh]
    exact if_pos rfl
  have hcommit : WcashExplorer.commitBlock lib networkId indexed now db =
      .ok (recordTip networkId (some indexed.block.height) (some indexed.block.hash)
        (some (witnessHash lib indexed)) now { db₁ with
          canonicalChain := db₁.canonicalChain.insertNew (canonicalRow lib networkId indexed) }) := by
    simp only [WcashExplorer.commitBlock, selectCanonical, Result.bind_eq_ok]
    refine ⟨db₁, hins, _, hsel, _, toI64_eq_ok.mpr ⟨hle, rfl⟩, ?_⟩
    simp only [hfound, Result.bind_eq_ok, ensure_eq_ok]
    exact ⟨(), by simp [canonicalRow], trivial⟩
  obtain ⟨hx, htip⟩ := h.selected.commitBlock h.initialized hh hp hcommit
  obtain ⟨ys, hy, hrecorded⟩ := SelectionStep.soundChain
    (.append (t := .commitBlock networkId indexed) rfl htip) h.selected hx ⟨xs, h.selected, h.tip⟩
  obtain rfl := hy.unique hx
  exact ⟨_, hcommit, h₁.of_frame rfl hx hrecorded⟩

/-- The recorded tip is the chain's, so it is unchanged. -/
theorem Holds.tipUnchanged {l : CanonicalRow} (h : Holds ledger networkId xs db)
    (hl : xs.getLast? = some l) : tipUnchanged networkId l.tip db = .ok () := by
  obtain ⟨c, hc, hheight, hhash⟩ := h.tip
  have hle := h.selected.bounded l (List.mem_of_getLast? hl)
  rw [hl] at hheight hhash
  simp only [WcashExplorer.tipUnchanged, hc, Result.bind_eq_ok]
  refine ⟨_, toI64_eq_ok.mpr ⟨hle, rfl⟩, ?_⟩
  simp [hheight, hhash, CanonicalRow.tip]

/-- A branch over a selected ancestor replaces what is selected above it. -/
theorem Holds.replaceCanonicalBranch {r l : CanonicalRow} (h : Holds ledger networkId xs db)
    (hr : xs[a]? = some r) (hl : xs.getLast? = some l)
    (hblocks : ∀ b ∈ blocks, Acceptable lib ledger networkId b)
    (hc : contiguousFrom (a + 1) (some r.blockHash) blocks = true) :
    ∃ db', replaceCanonicalBranch lib networkId l.tip (some (a, r.blockHash)) blocks now db =
        .ok db' ∧
      Holds ledger networkId (xs.take (a + 1) ++ blocks.map (canonicalRow lib networkId)) db' := by
  have hale : a ≤ i64Max := by
    have hle := h.selected.bounded r (List.mem_of_getElem? hr)
    rw [(h.selected.key_eq hr).2] at hle
    exact hle
  have hval : validateReplacementBranch (some (a, r.blockHash)) blocks = .ok () := by
    simp only [validateReplacementBranch, ensure_eq_ok, saturatingAdd_one hale]
    exact hc
  have hheights : ∀ b ∈ blocks, b.block.height ≤ i64Max ∧
      ledger.heightOf b.block.hash = some b.block.height := fun b hb => (hblocks b hb).height
  obtain ⟨db₁, hins, h₁⟩ := h.insertBlocks hblocks
  have hlogged : SelectedBelow ledger networkId xs.length (insertReorgEvent (freshEventId db₁)
      networkId l.tip (some a) (some r.blockHash) now db₁) := h₁.selectedBelow
  obtain ⟨db₂, hsel⟩ : ∃ db₂, insertSelectors lib networkId blocks (detach networkId (some a)
      (insertReorgEvent (freshEventId db₁) networkId l.tip (some a) (some r.blockHash) now db₁)) =
        .ok db₂ := insertSelectors_succeeds hlogged.detach hheights hc
  obtain ⟨newHeight, hnew⟩ : ∃ newHeight, optional (fun indexed : IndexedBlock =>
      toI64 indexed.block.height "replacement tip height") blocks.getLast? = .ok newHeight := by
    cases hlast : blocks.getLast? with
    | none => exact ⟨none, rfl⟩
    | some b =>
      have hle := (hheights b (List.mem_of_getLast? hlast)).1
      exact ⟨some b.block.height, optional_eq_ok.mpr
        (.inr ⟨b, _, rfl, rfl, toI64_eq_ok.mpr ⟨hle, rfl⟩⟩)⟩
  obtain ⟨db', hreplace⟩ : ∃ db', WcashExplorer.replaceCanonicalBranch lib networkId l.tip
      (some (a, r.blockHash)) blocks now db = .ok db' := by
    simp only [WcashExplorer.replaceCanonicalBranch, Result.bind_eq_ok]
    exact ⟨_, (), h.tipUnchanged hl, (), hval, db₁, hins, some a, optional_eq_ok.mpr
      (.inr ⟨_, _, rfl, rfl, toI64_eq_ok.mpr ⟨hale, rfl⟩⟩), db₂, hsel, newHeight, hnew, rfl⟩
  have hx := h.selected.replaceCanonicalBranch hr rfl hreplace
  have htip := recordedTip_replaceCanonicalBranch h.initialized hreplace
  obtain ⟨ys, hy, hrecorded⟩ := SelectionStep.soundChain
    (.replace (t := .replaceCanonicalBranch networkId l.tip (some (a, r.blockHash)) blocks) rfl hr
      htip) h.selected hx ⟨xs, h.selected, h.tip⟩
  obtain rfl := hy.unique hx
  refine ⟨db', hreplace, h₁.of_frame ?_ hx hrecorded⟩
  obtain ⟨db₁', db₂', -, -, -, hins', hsel', rfl⟩ := replaceCanonicalBranch_ok hreplace
  obtain rfl := Except.ok.inj (hins.symm.trans hins')
  rw [insertSelectors_frame hsel']
  rfl

end Methods

end WcashExplorer
