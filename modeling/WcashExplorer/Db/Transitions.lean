import WcashExplorer.Db.Selection

/-! What each successful database method does to the selection and to the recorded tip. -/
namespace WcashExplorer

open Relational

variable {lib : AuxPowCrate} {networkId : Text} {indexed : IndexedBlock} {db db' : Db}
  {xs : List CanonicalRow} {now : Timestamp}

theorem toI64_eq_ok {n m : Nat} {label : String} : toI64 n label = .ok m ↔ n ≤ i64Max ∧ n = m := by
  unfold toI64
  split <;> simp_all

theorem asI32_eq_ok {n m : Nat} {message : String} :
    asI32 n message = .ok m ↔ n ≤ i32Max ∧ n = m := by
  unfold asI32
  split <;> simp_all

theorem optional_eq_ok {α β : Type} {f : α → Result β} {a : Option α} {b : Option β} :
    optional f a = .ok b ↔ (a = none ∧ b = none) ∨ ∃ x y, a = some x ∧ b = some y ∧ f x = .ok y := by
  cases a with
  | none => simp [optional, eq_comm]
  | some x =>
    simp only [optional, Result.bind_eq_ok]
    constructor
    · rintro ⟨y, hy, h⟩
      cases h
      exact .inr ⟨x, y, rfl, rfl, hy⟩
    · rintro (⟨h, -⟩ | ⟨x', y, hx, rfl, hy⟩)
      · cases h
      · cases hx
        exact ⟨y, hy, rfl⟩

theorem reading_ok {α : Type} {r : Result α} {a : α} :
    reading db r = .ok (a, db') ↔ r = .ok a ∧ db' = db := by
  simp only [reading, Result.bind_eq_ok]
  constructor
  · rintro ⟨a', rfl, h⟩
    cases h
    exact ⟨rfl, rfl⟩
  · rintro ⟨rfl, rfl⟩
    exact ⟨a, rfl, rfl⟩

theorem writing_ok {r : Result Db} {u : Unit} : writing r = .ok (u, db') ↔ r = .ok db' := by
  simp only [writing, Result.bind_eq_ok]
  constructor
  · rintro ⟨d, rfl, h⟩
    cases h
    rfl
  · rintro rfl
    exact ⟨db', rfl, rfl⟩

theorem canonicalHash_ok {height : Nat} {hash : Option Text}
    (h : canonicalHash db networkId height = .ok hash) : height ≤ i64Max ∧
      hash = (db.canonicalChain.find? (networkId, height)).map CanonicalRow.blockHash := by
  simp only [canonicalHash, Result.bind_eq_ok, toI64_eq_ok] at h
  obtain ⟨_, ⟨hle, rfl⟩, h⟩ := h
  cases h
  exact ⟨hle, rfl⟩

section InsertBlock

/-- The stored block agrees with a fetched one in network, height and predecessor. -/
def BlockRecorded (networkId : Text) (db : Db) (block : RpcBlock) : Prop :=
  ∃ b, db.blocks.find? block.hash = some b ∧ b.networkId = networkId ∧ b.height = block.height ∧
    b.previousBlockHash = block.previousblockhash

theorem BlockRecorded.of_inserts {block : RpcBlock} (hi : Inserts db db')
    (hr : BlockRecorded networkId db block) : BlockRecorded networkId db' block := by
  obtain ⟨b, hb, hrest⟩ := hr
  exact ⟨b, Table.find?_of_prefix hi.blocks hb, hrest⟩

theorem BlockRecorded.storedParent_eq {block : RpcBlock} (hr : BlockRecorded networkId db block) :
    storedParent db block.hash = block.previousblockhash := by
  obtain ⟨b, hb, -, -, hp⟩ := hr
  simp [storedParent, hb, hp]

theorem BlockRecorded.congr {block : RpcBlock} (hb : db'.blocks = db.blocks)
    (hr : BlockRecorded networkId db block) : BlockRecorded networkId db' block := by
  obtain ⟨b, hrest⟩ := hr
  exact ⟨b, hb ▸ hrest⟩

/-- The row `insert_block` offers carries the block's own columns. -/
theorem blockRow_ok {row : BlockRow} (h : blockRow networkId indexed = .ok row) :
    row.blockHash = indexed.block.hash ∧ row.networkId = networkId ∧
      row.height = indexed.block.height ∧
      row.previousBlockHash = indexed.block.previousblockhash := by
  simp only [blockRow, Result.bind_eq_ok, toI64_eq_ok] at h
  obtain ⟨t, -, height, ⟨-, rfl⟩, size, -, count, -, h⟩ := h
  cases h
  exact ⟨rfl, rfl, rfl, rfl⟩

theorem insertBlock_recorded (h : insertBlock lib networkId indexed db = .ok db') :
    BlockRecorded networkId db' indexed.block := by
  obtain ⟨db₁, db₂, db₃, db₄, h₁, h₂, h₃, h₄, h₅⟩ := insertBlock_ok h
  have hrest := (insertWitness_inserts h₂).trans ((insertBlockTransactions_inserts h₃).trans
    ((insertValuePools_inserts h₄).trans (insertEvidence_inserts h₅)))
  obtain ⟨row, stored, hrow, -, -, hstored, hm⟩ := insertBlockFacts_ok h₁
  obtain ⟨-, hn, hh, hp⟩ := blockRow_ok hrow
  simp only [immutableBlockMatches, Bool.and_eq_true, decide_eq_true_eq] at hm
  obtain ⟨⟨⟨⟨⟨⟨⟨⟨⟨⟨hsn, hsh⟩, hsp⟩, -⟩, -⟩, -⟩, -⟩, -⟩, -⟩, -⟩, -⟩ := hm
  exact ⟨stored, Table.find?_of_prefix hrest.blocks hstored, hsn.trans hn, hsh.trans hh,
    hsp.trans hp⟩

theorem insertBlocks_cons {blocks : List IndexedBlock}
    (h : insertBlocks lib networkId (indexed :: blocks) db = .ok db') :
    ∃ db₁, insertBlock lib networkId indexed db = .ok db₁ ∧
      insertBlocks lib networkId blocks db₁ = .ok db' := by
  simpa only [insertBlocks, Result.bind_eq_ok] using h

/-- Inserting a staged branch keeps the selection and records every block of it. -/
theorem insertBlocks_recorded {blocks : List IndexedBlock}
    (h : insertBlocks lib networkId blocks db = .ok db') :
    Inserts db db' ∧ ∀ b ∈ blocks, BlockRecorded networkId db' b.block := by
  induction blocks generalizing db with
  | nil =>
    cases h
    exact ⟨.refl _, by simp⟩
  | cons first rest ih =>
    obtain ⟨db₁, hfirst, hrest⟩ := insertBlocks_cons h
    obtain ⟨hi, hrec⟩ := ih hrest
    refine ⟨(insertBlock_inserts hfirst).trans hi, ?_⟩
    intro b hb
    rcases List.mem_cons.mp hb with rfl | hb
    · exact (insertBlock_recorded hfirst).of_inserts hi
    · exact hrec b hb

end InsertBlock

section Selector

/-- The selector row of a block. -/
def canonicalRow (lib : AuxPowCrate) (networkId : Text) (indexed : IndexedBlock) : CanonicalRow where
  networkId := networkId
  height := indexed.block.height
  blockHash := indexed.block.hash
  witnessHash := witnessHash lib indexed

/-- A selector insertion is ignored at an occupied height, and otherwise adds a new hash. -/
theorem insertCanonicalSelector_ok
    (h : insertCanonicalSelector lib networkId indexed db = .ok db') :
    indexed.block.height ≤ i64Max ∧
      (((db.canonicalChain.find? (networkId, indexed.block.height)).isSome ∧ db' = db) ∨
        (db.canonicalChain.find? (networkId, indexed.block.height) = none ∧
          (∀ s ∈ db.canonicalChain.rows, s.networkId = networkId →
            s.blockHash ≠ indexed.block.hash) ∧
          db' = { db with
            canonicalChain := db.canonicalChain.insertNew (canonicalRow lib networkId indexed) })) := by
  simp only [insertCanonicalSelector, Result.bind_eq_ok, toI64_eq_ok] at h
  obtain ⟨height, ⟨hle, rfl⟩, h⟩ := h
  refine ⟨hle, ?_⟩
  split at h
  · rename_i s hs
    cases h
    exact .inl ⟨by simpa [CanonicalRow.key] using Option.isSome_of_mem hs, rfl⟩
  · rename_i hnone
    simp only [Result.bind_eq_ok, checked, ensure_eq_ok] at h
    obtain ⟨-, hall, h⟩ := h
    cases h
    refine .inr ⟨hnone, ?_, rfl⟩
    intro s hs hn he
    have := List.all_eq_true.mp hall s hs
    simp [hn, he] at this

/-- Selecting a recorded block one height above the chain extends the chain. -/
theorem Selected.insertSelector (hx : Selected networkId db xs)
    (hrec : BlockRecorded networkId db indexed.block) (hh : indexed.block.height = xs.length)
    (hp : ∀ s ∈ xs.getLast?, indexed.block.previousblockhash = some s.blockHash)
    (h : insertCanonicalSelector lib networkId indexed db = .ok db') :
    Selected networkId db' (xs ++ [canonicalRow lib networkId indexed]) := by
  obtain ⟨hle, ⟨hsome, -⟩ | ⟨-, hnew, rfl⟩⟩ := insertCanonicalSelector_ok h
  · rw [hx.represents, hh] at hsome
    simp at hsome
  · have hparent := hrec.storedParent_eq
    obtain ⟨b, hb, hn, hbh, -⟩ := hrec
    refine hx.concat rfl hh hnew ?_ ⟨b, hb, hbh, hn⟩ hle
    intro s hs
    rw [canonicalRow, hparent]
    exact hp s hs

/-- Selecting a contiguous branch above the chain appends all of it. -/
theorem Selected.insertSelectors {blocks : List IndexedBlock} (hx : Selected networkId db xs)
    (hrec : ∀ b ∈ blocks, BlockRecorded networkId db b.block) {previous : Option Text}
    (hc : contiguousFrom xs.length previous blocks = true)
    (hp : previous = xs.getLast?.map CanonicalRow.blockHash)
    (h : insertSelectors lib networkId blocks db = .ok db') :
    Selected networkId db' (xs ++ blocks.map (canonicalRow lib networkId)) := by
  induction blocks generalizing db xs previous with
  | nil =>
    cases h
    simpa using hx
  | cons first rest ih =>
    simp only [WcashExplorer.insertSelectors, Result.bind_eq_ok] at h
    obtain ⟨db₁, hfirst, hrest⟩ := h
    simp only [contiguousFrom, Bool.and_eq_true, decide_eq_true_eq] at hc
    obtain ⟨⟨hh, hprev⟩, hc⟩ := hc
    obtain ⟨hle, hcases⟩ := insertCanonicalSelector_ok hfirst
    have hx₁ : Selected networkId db₁ (xs ++ [canonicalRow lib networkId first]) := by
      refine hx.insertSelector (hrec first (by simp)) hh ?_ hfirst
      intro s hs
      have hs' : xs.getLast? = some s := hs
      rw [hprev, hp, hs', Option.map_some]
    have hsat : saturatingAdd xs.length 1 = (xs ++ [canonicalRow lib networkId first]).length := by
      have hbound : xs.length ≤ i64Max := hh ▸ hle
      rw [saturatingAdd_one hbound, List.length_append, List.length_singleton]
    have hblocks : db₁.blocks = db.blocks := by
      rcases hcases with ⟨-, rfl⟩ | ⟨-, -, rfl⟩ <;> rfl
    rw [List.map_cons, ← List.singleton_append, ← List.append_assoc]
    refine ih hx₁ ?_ (hsat ▸ hc) (by simp [canonicalRow]) hrest
    intro b hb
    exact (hrec b (by simp [hb])).congr hblocks

/-- Selectors move nothing but the selection. -/
theorem insertSelectors_frame {blocks : List IndexedBlock}
    (h : insertSelectors lib networkId blocks db = .ok db') :
    db' = { db with canonicalChain := db'.canonicalChain } := by
  induction blocks generalizing db with
  | nil =>
    cases h
    rfl
  | cons first rest ih =>
    simp only [insertSelectors, Result.bind_eq_ok] at h
    obtain ⟨db₁, hfirst, hrest⟩ := h
    obtain ⟨-, ⟨-, rfl⟩ | ⟨-, -, rfl⟩⟩ := insertCanonicalSelector_ok hfirst
    · exact ih hrest
    · have hframe := ih hrest
      exact hframe

end Selector

section RecordedTip

theorem find?_updateChainState {f : ChainStateRow → ChainStateRow}
    {hf : ∀ r, (f r).networkId = r.networkId} :
    (updateChainState networkId f hf db).chainState.find? networkId =
      (db.chainState.find? networkId).map f := by
  rw [updateChainState, Table.find?_updateWhere]
  cases hc : db.chainState.find? networkId with
  | none => rfl
  | some c => simp [Table.key_of_find? hc]

/-- The tip columns of the network's row of `chain_state`. -/
def recordedTip (networkId : Text) (db : Db) : Option (Option Nat × Option Text × Option Text) :=
  (db.chainState.find? networkId).map fun c =>
    (c.indexedHeight, c.indexedHash, c.indexedWitnessHash)

/-- The network's row of `chain_state` exists. -/
def Initialized (networkId : Text) (db : Db) : Prop := (db.chainState.find? networkId).isSome

theorem recordedTip_recordTip {height : Option Nat} {hash witness : Option Text}
    (hi : Initialized networkId db) :
    recordedTip networkId (recordTip networkId height hash witness now db) =
      some (height, hash, witness) := by
  obtain ⟨c, hc⟩ := Option.isSome_iff_exists.mp hi
  simp [recordedTip, recordTip, find?_updateChainState, hc]

theorem tipRecorded_iff : TipRecorded networkId db xs ↔
    ∃ w, recordedTip networkId db = some (xs.getLast?.map CanonicalRow.height,
      xs.getLast?.map CanonicalRow.blockHash, w) := by
  constructor
  · rintro ⟨c, hc, hh, hb⟩
    exact ⟨c.indexedWitnessHash, by simp [recordedTip, hc, hh, hb]⟩
  · rintro ⟨w, hw⟩
    obtain ⟨c, hc, he⟩ := Option.map_eq_some_iff.mp hw
    simp only [Prod.mk.injEq] at he
    exact ⟨c, hc, he.1, he.2.1⟩

theorem initialized_of_recordedTip {t : Option Nat × Option Text × Option Text}
    (h : recordedTip networkId db = some t) : Initialized networkId db := by
  obtain ⟨c, hc, -⟩ := Option.map_eq_some_iff.mp h
  exact Option.isSome_of_mem hc

end RecordedTip

section Methods

/-- A successful `commit_block` inserts the block, finds it selected, and records it as tip. -/
theorem commitBlock_ok (h : commitBlock lib networkId indexed now db = .ok db') :
    ∃ db₁ db₂, insertBlock lib networkId indexed db = .ok db₁ ∧
      insertCanonicalSelector lib networkId indexed db₁ = .ok db₂ ∧
      db₂.canonicalChain.find? (networkId, indexed.block.height) =
        some (canonicalRow lib networkId indexed) ∧
      db' = recordTip networkId (some indexed.block.height) (some indexed.block.hash)
        (some (witnessHash lib indexed)) now db₂ := by
  simp only [commitBlock, selectCanonical, Result.bind_eq_ok, toI64_eq_ok] at h
  obtain ⟨db₁, hins, db₂, hsel, height, ⟨-, rfl⟩, h⟩ := h
  split at h
  · cases h
  · rename_i selected hselected
    simp only [Result.bind_eq_ok, ensure_eq_ok, Bool.and_eq_true, decide_eq_true_eq] at h
    obtain ⟨-, ⟨hb, hw⟩, h⟩ := h
    cases h
    have hk := Table.key_of_find? hselected
    have hn : selected.networkId = networkId := congrArg Prod.fst hk
    have hh : selected.height = indexed.block.height := congrArg Prod.snd hk
    have hrow : selected = canonicalRow lib networkId indexed := by
      cases selected
      simp_all [canonicalRow]
    exact ⟨db₁, db₂, hins, hsel, hrow ▸ hselected, rfl⟩

/-- `commit_block` of the next block extends the chain and records it as the tip. -/
theorem Selected.commitBlock (hx : Selected networkId db xs) (hinit : Initialized networkId db)
    (hh : indexed.block.height = xs.length)
    (hp : ∀ s ∈ xs.getLast?, indexed.block.previousblockhash = some s.blockHash)
    (h : commitBlock lib networkId indexed now db = .ok db') :
    Selected networkId db' (xs ++ [canonicalRow lib networkId indexed]) ∧
      recordedTip networkId db' = some (some indexed.block.height, some indexed.block.hash,
        some (witnessHash lib indexed)) := by
  obtain ⟨db₁, db₂, hins, hsel, -, rfl⟩ := commitBlock_ok h
  have hi := insertBlock_inserts hins
  have hx₂ := (hx.of_inserts hi).insertSelector (insertBlock_recorded hins) hh hp hsel
  have hstate : db₂.chainState = db.chainState := by
    obtain ⟨-, ⟨-, rfl⟩ | ⟨-, -, rfl⟩⟩ := insertCanonicalSelector_ok hsel <;> exact hi.chainState
  refine ⟨hx₂.of_eq rfl rfl, recordedTip_recordTip ?_⟩
  rw [Initialized, hstate]
  exact hinit

/-- `commit_block` of a block that is selected already changes only the recorded tip. -/
theorem Selected.commitBlock_again (hx : Selected networkId db xs)
    (hinit : Initialized networkId db) (hlt : indexed.block.height < xs.length)
    (h : WcashExplorer.commitBlock lib networkId indexed now db = .ok db') :
    Selected networkId db' xs ∧ xs[indexed.block.height]? = some (canonicalRow lib networkId indexed) ∧
      recordedTip networkId db' = some (some indexed.block.height, some indexed.block.hash,
        some (witnessHash lib indexed)) := by
  obtain ⟨db₁, db₂, hins, hsel, hfound, rfl⟩ := commitBlock_ok h
  have hi := insertBlock_inserts hins
  have hx₁ := hx.of_inserts hi
  obtain ⟨-, ⟨-, rfl⟩ | ⟨hnone, -, rfl⟩⟩ := insertCanonicalSelector_ok hsel
  · refine ⟨hx₁.of_eq rfl rfl, (hx₁.represents _).symm.trans hfound, recordedTip_recordTip ?_⟩
    rw [Initialized, hi.chainState]
    exact hinit
  · rw [hx₁.represents] at hnone
    have hge := List.getElem?_eq_none_iff.mp hnone
    omega

/-- The stages of a successful `replace_canonical_branch`. -/
theorem replaceCanonicalBranch_ok {oldTip : ChainTip} {ancestor : Option (Nat × Text)}
    {replacement : List IndexedBlock}
    (h : replaceCanonicalBranch lib networkId oldTip ancestor replacement now db = .ok db') :
    ∃ db₁ db₂, tipUnchanged networkId oldTip db = .ok () ∧
      validateReplacementBranch ancestor replacement = .ok () ∧
      (∀ a ∈ ancestor, a.1 ≤ i64Max) ∧
      insertBlocks lib networkId replacement db = .ok db₁ ∧
      insertSelectors lib networkId replacement
        (detach networkId (ancestor.map Prod.fst) (insertReorgEvent (freshEventId db₁) networkId
          oldTip (ancestor.map Prod.fst) (ancestor.map Prod.snd) now db₁)) = .ok db₂ ∧
      db' = completeReorgEvent (freshEventId db₁) now (recordTip networkId
        ((replacement.getLast?.map fun i => i.block.height).or (ancestor.map Prod.fst))
        ((replacement.getLast?.map fun i => i.block.hash).or (ancestor.map Prod.snd))
        (replacement.getLast?.map (witnessHash lib)) now db₂) := by
  simp only [replaceCanonicalBranch, Result.bind_eq_ok, optional_eq_ok, toI64_eq_ok] at h
  obtain ⟨_, htip, _, hval, db₁, hins, a, ha, db₂, hsel, b, hb, h⟩ := h
  have ha' : a = ancestor.map Prod.fst ∧ ∀ x ∈ ancestor, x.1 ≤ i64Max := by
    rcases ha with ⟨rfl, rfl⟩ | ⟨x, y, rfl, rfl, hle, rfl⟩ <;> simp_all
  have hb' : b = replacement.getLast?.map fun i => i.block.height := by
    rcases hb with ⟨hx, rfl⟩ | ⟨x, y, hx, rfl, -, rfl⟩ <;> simp [hx]
  obtain ⟨rfl, hle⟩ := ha'
  subst hb'
  cases h
  exact ⟨db₁, db₂, htip, hval, hle, hins, hsel, rfl⟩

/-- `replace_canonical_branch` over a selected ancestor keeps the chain up to it and continues
with the replacement. -/
theorem Selected.replaceCanonicalBranch (hx : Selected networkId db xs) {oldTip : ChainTip}
    {a : Nat} {hash : Text} {replacement : List IndexedBlock} {r : CanonicalRow}
    (hr : xs[a]? = some r) (hhash : r.blockHash = hash)
    (h : replaceCanonicalBranch lib networkId oldTip (some (a, hash)) replacement now db = .ok db') :
    Selected networkId db' (xs.take (a + 1) ++ replacement.map (canonicalRow lib networkId)) := by
  obtain ⟨db₁, db₂, -, hval, hle, hins, hsel, rfl⟩ := replaceCanonicalBranch_ok h
  obtain ⟨hi, hrec⟩ := insertBlocks_recorded hins
  obtain ⟨halt, -⟩ := List.getElem?_eq_some_iff.mp hr
  have hlen : (xs.take (a + 1)).length = a + 1 := by
    rw [List.length_take]
    omega
  have hx₁ : Selected networkId (insertReorgEvent (freshEventId db₁) networkId oldTip (some a)
      (some hash) now db₁) xs := (hx.of_inserts hi).of_eq rfl rfl
  have hx₂ := hx₁.detach a
  have hcont : contiguousFrom (xs.take (a + 1)).length (some hash) replacement = true := by
    have hv : contiguousFrom (saturatingAdd a 1) (some hash) replacement = true :=
      ensure_eq_ok.mp hval
    rw [saturatingAdd_one (hle (a, hash) rfl)] at hv
    rw [hlen]
    exact hv
  have hlast : some hash = (xs.take (a + 1)).getLast?.map CanonicalRow.blockHash := by
    have : (xs.take (a + 1)).getLast? = some r := by
      rw [List.getLast?_take]
      simp [hr]
    rw [this, Option.map_some, hhash]
  have hx₃ := hx₂.insertSelectors (fun b hb => (hrec b hb).congr rfl) hcont hlast hsel
  exact hx₃.of_eq rfl rfl

/-- The tip recorded by a replacement: its last block, or the ancestor without a witness. -/
theorem recordedTip_replaceCanonicalBranch {oldTip : ChainTip} {ancestor : Option (Nat × Text)}
    {replacement : List IndexedBlock} (hinit : Initialized networkId db)
    (h : replaceCanonicalBranch lib networkId oldTip ancestor replacement now db = .ok db') :
    recordedTip networkId db' = some
      ((replacement.getLast?.map fun i => i.block.height).or (ancestor.map Prod.fst),
        (replacement.getLast?.map fun i => i.block.hash).or (ancestor.map Prod.snd),
        replacement.getLast?.map (witnessHash lib)) := by
  obtain ⟨db₁, db₂, -, -, -, hins, hsel, rfl⟩ := replaceCanonicalBranch_ok h
  obtain ⟨hi, -⟩ := insertBlocks_recorded hins
  have hstate : db₂.chainState = db.chainState := by
    rw [insertSelectors_frame hsel]
    exact hi.chainState
  have hinit₂ : Initialized networkId db₂ := by
    rw [Initialized, hstate]
    exact hinit
  exact recordedTip_recordTip hinit₂

/-- A replacement logs one event over the old tip; earlier ones keep their tips and ancestors. -/
theorem replaceCanonicalBranch_events {oldTip : ChainTip} {ancestor : Option (Nat × Text)}
    {replacement : List IndexedBlock}
    (h : replaceCanonicalBranch lib networkId oldTip ancestor replacement now db = .ok db')
    {e : ReorgEventRow} (he : e ∈ db'.reorgEvents.rows) :
    (∃ e₀ ∈ db.reorgEvents.rows, e = e₀ ∨ e = { e₀ with completedAt := some now }) ∨
      (e.networkId = networkId ∧ e.oldTipHeight = oldTip.height ∧
        e.commonAncestorHeight = ancestor.map Prod.fst) := by
  obtain ⟨db₁, db₂, -, -, -, hins, hsel, rfl⟩ := replaceCanonicalBranch_ok h
  obtain ⟨hi, -⟩ := insertBlocks_recorded hins
  rw [insertSelectors_frame hsel] at he
  obtain ⟨e₁, he₁, rfl⟩ := List.mem_map.mp he
  have hkind : (e₁ ∈ db.reorgEvents.rows) ∨ (e₁.networkId = networkId ∧
      e₁.oldTipHeight = oldTip.height ∧ e₁.commonAncestorHeight = ancestor.map Prod.fst) := by
    rcases Table.mem_insertNew.mp he₁ with hold | ⟨rfl, -⟩
    · exact .inl (hi.reorgEvents ▸ hold)
    · exact .inr ⟨rfl, rfl, rfl⟩
  by_cases hid : e₁.eventId = freshEventId db₁
  · rw [if_pos (decide_eq_true hid)]
    exact hkind.imp (fun hold => ⟨e₁, hold, .inr rfl⟩) id
  · rw [if_neg (by simpa using hid)]
    exact hkind.imp (fun hold => ⟨e₁, hold, .inl rfl⟩) id

/-- A replacement is only published over the tip it was staged against. -/
theorem tipUnchanged_ok {oldTip : ChainTip} (h : tipUnchanged networkId oldTip db = .ok ()) :
    ∃ w, recordedTip networkId db = some (some oldTip.height, some oldTip.blockHash, w) := by
  unfold tipUnchanged at h
  split at h
  · cases h
  · rename_i c hc
    simp only [Result.bind_eq_ok, toI64_eq_ok, ensure_eq_ok, Bool.and_eq_true,
      decide_eq_true_eq] at h
    obtain ⟨height, ⟨-, rfl⟩, hh, hb⟩ := h
    exact ⟨c.indexedWitnessHash, by simp [recordedTip, hc, hh, hb]⟩

/-- The network's state row after `observe_node_tip`. -/
theorem observeNodeTip_row {nodeHeight : Nat} {nodeHash : Text}
    (h : observeNodeTip networkId nodeHeight nodeHash now db = .ok db') :
    db'.chainState.find? networkId = (db.chainState.find? networkId).map fun r =>
      { r with
        nodeHeight := some nodeHeight
        nodeHash := some nodeHash
        status :=
          if r.indexedHeight = some nodeHeight ∧ r.indexedHash = some nodeHash then r.status
          else .syncing
        updatedAt := now } := by
  simp only [observeNodeTip, Result.bind_eq_ok, toI64_eq_ok] at h
  obtain ⟨_, ⟨-, rfl⟩, -, -, h⟩ := h
  cases h
  exact find?_updateChainState

/-- The network's state row after `update_node_tip`. -/
theorem updateNodeTip_row {nodeHeight : Nat} {nodeHash : Text} {status : ChainStatus}
    {error : Option Text}
    (h : updateNodeTip networkId nodeHeight nodeHash status error now db = .ok db') :
    db'.chainState.find? networkId = (db.chainState.find? networkId).map fun r =>
      { r with
        nodeHeight := some nodeHeight
        nodeHash := some nodeHash
        status
        lastError := error.map (List.take 1000)
        updatedAt := now } := by
  simp only [updateNodeTip, Result.bind_eq_ok, toI64_eq_ok] at h
  obtain ⟨_, ⟨-, rfl⟩, -, -, h⟩ := h
  cases h
  exact find?_updateChainState

/-- Nothing is ready right after an error was recorded. -/
theorem markIndexerError_status {error : Text} {c : ChainStateRow}
    (h : markIndexerError networkId error now db = .ok db')
    (hc : db'.chainState.find? networkId = some c) : c.status = .error := by
  simp only [markIndexerError, Result.bind_eq_ok] at h
  obtain ⟨-, -, h⟩ := h
  cases h
  rw [find?_updateChainState] at hc
  obtain ⟨r, -, rfl⟩ := Option.map_eq_some_iff.mp hc
  rfl

theorem recordTip_status {height : Option Nat} {hash witness : Option Text} {c : ChainStateRow}
    (hc : (recordTip networkId height hash witness now db).chainState.find? networkId = some c) :
    c.status = .syncing := by
  rw [recordTip, find?_updateChainState] at hc
  obtain ⟨r, -, rfl⟩ := Option.map_eq_some_iff.mp hc
  rfl

/-- A method that only updates status columns of `chain_state`. -/
def StatusOnly (db db' : Db) : Prop :=
  ∃ networkId f hf, (∀ c : ChainStateRow, (f c).indexedHeight = c.indexedHeight ∧
    (f c).indexedHash = c.indexedHash ∧ (f c).indexedWitnessHash = c.indexedWitnessHash) ∧
    db' = updateChainState networkId f hf db

theorem observeNodeTip_ok {nodeHeight : Nat} {nodeHash : Text}
    (h : observeNodeTip networkId nodeHeight nodeHash now db = .ok db') : StatusOnly db db' := by
  simp only [observeNodeTip, Result.bind_eq_ok] at h
  obtain ⟨height, -, -, -, h⟩ := h
  cases h
  refine ⟨networkId, _, _, ?_, rfl⟩
  intro c
  exact ⟨rfl, rfl, rfl⟩

theorem updateNodeTip_ok {nodeHeight : Nat} {nodeHash : Text} {status : ChainStatus}
    {error : Option Text}
    (h : updateNodeTip networkId nodeHeight nodeHash status error now db = .ok db') :
    StatusOnly db db' := by
  simp only [updateNodeTip, Result.bind_eq_ok] at h
  obtain ⟨height, -, -, -, h⟩ := h
  cases h
  refine ⟨networkId, _, _, ?_, rfl⟩
  intro c
  exact ⟨rfl, rfl, rfl⟩

theorem markIndexerError_ok {error : Text}
    (h : markIndexerError networkId error now db = .ok db') : StatusOnly db db' := by
  simp only [markIndexerError, Result.bind_eq_ok] at h
  obtain ⟨-, -, h⟩ := h
  cases h
  refine ⟨networkId, _, _, ?_, rfl⟩
  intro c
  exact ⟨rfl, rfl, rfl⟩

theorem StatusOnly.recordedTip_eq (h : StatusOnly db db') (networkId : Text) :
    recordedTip networkId db' = recordedTip networkId db := by
  obtain ⟨n, f, hf, htip, rfl⟩ := h
  rw [recordedTip, recordedTip, updateChainState, Table.find?_updateWhere, Option.map_map]
  congr 1
  funext c
  by_cases hc : c.networkId = n <;> simp [hc, htip c]

theorem initialized_iff : Initialized networkId db ↔ (recordedTip networkId db).isSome := by
  rw [recordedTip, Option.isSome_map, Initialized]

theorem StatusOnly.initialized (h : StatusOnly db db') (hi : Initialized networkId db) :
    Initialized networkId db' := by
  rw [initialized_iff, h.recordedTip_eq]
  exact initialized_iff.mp hi

theorem StatusOnly.selected (h : StatusOnly db db') (hx : Selected networkId db xs) :
    Selected networkId db' xs := by
  obtain ⟨n, f, hf, -, rfl⟩ := h
  exact hx.of_eq rfl rfl

end Methods

end WcashExplorer
