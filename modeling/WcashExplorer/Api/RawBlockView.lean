import WcashExplorer.Api.BlockSnapshot
import WcashExplorer.Hex
import WcashExplorer.Indexer.Vetted

/-! The raw bytes of a block as a client gets them, and how it can check them. -/
namespace WcashExplorer

open Effects Relational

variable {lib : AuxPowCrate} {networkId : Text} {indexed : IndexedBlock} {db db' : Db}
  {log log' : List DbCall} {k : Text × Text}

section Handler

structure RawBlockView where
  blockHash : Text
  witnessHash : Text
  encoding : String
  data : Text

/-- `SELECT raw_block FROM block_witnesses`; no row is an error of the database. -/
def rawBlockQuery (db : Db) (blockHash witness : Text) : Result Bytes :=
  match db.blockWitnesses.find? (blockHash, witness) with
  | some w => .ok w.rawBlock
  | none => .error .database

/-- `GET /blocks/{id}/raw`: its three statements, each on the state it sees. -/
def rawBlock (network : NetworkProfile) (id : Text) (seen : ℕ → Db) (now : Timestamp) :
    Result (ApiEnvelope RawBlockView) := do
  let chain ← chainStateRow (seen 0) network
  let row ← findBlock network.toNetworkConfig id (seen 1)
  let rawBlockBytes ← rawBlockQuery (seen 2) row.summary.hash row.summary.witnessHash
  .ok (envelope network
    { blockHash := row.summary.hash
      witnessHash := row.summary.witnessHash
      encoding := "hex"
      data := hexEncode rawBlockBytes } none chain now)

end Handler

section Hex

theorem hexDigitValue_hexDigit : ∀ n < 16, hexDigitValue (hexDigit n) = some (UInt8.ofNat n) := by
  decide

theorem isHexDigit_hexDigit : ∀ n < 16, isHexDigit (hexDigit n) = true := by decide

theorem length_hexEncode (bytes : Bytes) : (hexEncode bytes).length = 2 * bytes.length := by
  induction bytes with
  | nil => rfl
  | cons b bytes ih =>
    rw [hexEncode_cons, List.length_cons, List.length_cons, ih, List.length_cons]
    omega

theorem all_hexEncode (bytes : Bytes) : (hexEncode bytes).all isHexDigit = true := by
  induction bytes with
  | nil => rfl
  | cons b bytes ih =>
    have hb := b.toNat_lt
    rw [hexEncode_cons, List.all_cons, List.all_cons, ih, isHexDigit_hexDigit _ (by omega),
      isHexDigit_hexDigit _ (by omega)]
    rfl

theorem hexDecodeFrom_hexEncode (bytes : Bytes) (index : Nat) :
    hexDecodeFrom index (hexEncode bytes) = .ok bytes := by
  induction bytes generalizing index with
  | nil => rfl
  | cons b bytes ih =>
    have hb := b.toNat_lt
    have hbyte : UInt8.ofNat (b.toNat / 16) * 16 + UInt8.ofNat (b.toNat % 16) = b := by
      refine UInt8.toNat_inj.mp ?_
      simp only [UInt8.toNat_add, UInt8.toNat_mul, UInt8.toNat_ofNat', UInt8.reduceToNat]
      omega
    rw [hexEncode_cons, hexDecodeFrom, hexDigitValue_hexDigit _ (by omega),
      hexDigitValue_hexDigit _ (by omega), ih]
    exact congrArg (fun x => Except.ok (x :: bytes)) hbyte

/-- Encoded bytes decode to themselves. -/
theorem hexDecode_hexEncode (bytes : Bytes) : hexDecode (hexEncode bytes) = .ok bytes := by
  unfold hexDecode
  rw [len_eq_length (all_hexEncode bytes), length_hexEncode, if_pos (Nat.mul_mod_right 2 _)]
  exact hexDecodeFrom_hexEncode bytes 0

end Hex

section Witnesses

/-- A stored witness is named by the hash of its bytes, and the bytes are those of a block that
some accepted call brought under the block's hash. -/
def Certified (lib : AuxPowCrate) (log : List DbCall) (w : BlockWitnessRow) : Prop :=
  w.witnessHash = blockWitnessHash lib w.rawBlock ∧
    ∃ t ∈ log, ∃ b ∈ t.blocks, b.block.hash = w.blockHash ∧ b.rawBlock = w.rawBlock

theorem Certified.mono {w : BlockWitnessRow} (h : Certified lib log w) (hlog : log ⊆ log') :
    Certified lib log' w := by
  obtain ⟨hhash, t, ht, hb⟩ := h
  exact ⟨hhash, t, hlog ht, hb⟩

/-- A refresh changes neither the names nor the bytes of a witness. -/
theorem Certified.refreshed {w row : BlockWitnessRow} (h : Certified lib log w) :
    Certified lib log (row.refreshedBy w) := h

/-- The witness of a vetted block is named by the hash of its bytes. -/
theorem Vetted.witnessHash_eq {verifier : AuxPowVerifier lib} (h : Vetted lib verifier indexed) :
    witnessHash lib indexed = blockWitnessHash lib indexed.rawBlock := by
  unfold witnessHash
  split
  · rename_i aux haux
    rw [Vetted, haux] at h
    obtain ⟨_, _, _, _, _, -, -, rfl⟩ := h
    rfl
  · rfl

theorem blockWitnessRow_bytes {row : BlockWitnessRow} (h : blockWitnessRow lib indexed = .ok row) :
    row.blockHash = indexed.block.hash ∧ row.witnessHash = witnessHash lib indexed ∧
      row.rawBlock = indexed.rawBlock := by
  unfold blockWitnessRow at h
  split at h
  · simp only [Result.bind_eq_ok] at h
    obtain ⟨bytes, -, h⟩ := h
    cases h
    exact ⟨rfl, rfl, rfl⟩
  · cases h
    exact ⟨rfl, rfl, rfl⟩

theorem mem_upsert {ρ κ : Type} [DecidableEq κ] {key : ρ → κ} {t : Table ρ key} {r s : ρ}
    {f : ρ → ρ} {hf : ∀ s, key (f s) = key s} (h : s ∈ (t.upsert r f hf).rows) :
    s = r ∨ ∃ u ∈ t.rows, s = u ∨ s = f u := by
  unfold Table.upsert at h
  split at h
  · rw [Table.rows_updateWhere] at h
    obtain ⟨u, hu, rfl⟩ := List.mem_map.mp h
    refine .inr ⟨u, hu, ?_⟩
    split
    · exact .inr rfl
    · exact .inl rfl
  · rcases Table.mem_insertNew.mp h with hold | ⟨rfl, -⟩
    · exact .inr ⟨s, hold, .inl rfl⟩
    · exact .inl rfl

theorem insertBlocks_certified {blocks : List IndexedBlock} {t : DbCall}
    (hall : ∀ w ∈ db.blockWitnesses.rows, Certified lib log w) (ht : t ∈ log)
    (hblocks : blocks ⊆ t.blocks) (hvetted : ∀ b ∈ blocks, ∃ verifier, Vetted lib verifier b)
    (h : insertBlocks lib networkId blocks db = .ok db') :
    ∀ w ∈ db'.blockWitnesses.rows, Certified lib log w := by
  induction blocks generalizing db with
  | nil =>
    cases h
    exact hall
  | cons first rest ih =>
    obtain ⟨db₁, hfirst, hrest⟩ := insertBlocks_cons h
    refine ih ?_ (fun b hb => hblocks (List.mem_cons_of_mem _ hb))
      (fun b hb => hvetted b (List.mem_cons_of_mem _ hb)) hrest
    obtain ⟨row, hrow, htable⟩ := insertBlock_witnesses hfirst
    obtain ⟨hhash, hwitness, hraw⟩ := blockWitnessRow_bytes hrow
    obtain ⟨verifier, hverified⟩ := hvetted first List.mem_cons_self
    rw [htable]
    intro w hw
    rcases mem_upsert hw with rfl | ⟨u, hu, rfl | rfl⟩
    · refine ⟨?_, t, ht, first, hblocks List.mem_cons_self, hhash.symm, hraw.symm⟩
      rw [hwitness, hverified.witnessHash_eq, hraw]
    · exact hall w hu
    · exact (hall u hu).refreshed

/-- Every witness a sequence of vetted calls leaves is certified by the calls. -/
theorem Calls.certified {start : Db} (h : Calls lib (someVetted lib) start log db)
    (hstart : start.blockWitnesses.rows = []) :
    ∀ w ∈ db.blockWitnesses.rows, Certified lib log w := by
  induction h with
  | nil => simp [hstart]
  | @accepted db₁ db₂ log w t r _ hvetted hx ih =>
    obtain ⟨db₃, hins, hdb₂⟩ := exec_insertBlocks hx
    have htable : db₂.blockWitnesses = db₃.blockWitnesses := by rw [hdb₂]
    rw [htable]
    refine insertBlocks_certified ?_ (List.mem_append_right log List.mem_cons_self)
      (List.Subset.refl _) hvetted hins
    intro w hw
    exact (ih w hw).mono (List.subset_append_left _ _)
  | rejected _ _ ih => exact ih

/-- The bytes stored under the witness. -/
def storedRaw (db : Db) (k : Text × Text) : Option Bytes :=
  (db.blockWitnesses.find? k).map BlockWitnessRow.rawBlock

theorem rawBlockQuery_ok {blockHash witness : Text} {bytes : Bytes}
    (h : storedRaw db (blockHash, witness) = some bytes) :
    rawBlockQuery db blockHash witness = .ok bytes := by
  obtain ⟨w, hw, rfl⟩ := Option.map_eq_some_iff.mp h
  rw [rawBlockQuery, hw]

theorem insertBlocks_storedRaw {blocks : List IndexedBlock} {bytes : Bytes}
    (h : insertBlocks lib networkId blocks db = .ok db') (hraw : storedRaw db k = some bytes) :
    storedRaw db' k = some bytes := by
  induction blocks generalizing db with
  | nil =>
    cases h
    exact hraw
  | cons first rest ih =>
    obtain ⟨db₁, hfirst, hrest⟩ := insertBlocks_cons h
    refine ih hrest ?_
    obtain ⟨row, -, htable⟩ := insertBlock_witnesses hfirst
    obtain ⟨w, hw, rfl⟩ := Option.map_eq_some_iff.mp hraw
    rw [storedRaw, htable]
    by_cases hk : row.key = k
    · subst hk
      rw [Table.find?_upsert_self, hw]
      rfl
    · rw [Table.find?_upsert_of_ne hk, hw]
      rfl

/-- Bytes stored under a witness never change. -/
theorem Calls.storedRaw_stays {P : Db → DbCall → Prop} (h : Calls lib P db log db') {bytes : Bytes}
    (hraw : storedRaw db k = some bytes) : storedRaw db' k = some bytes := by
  refine h.invariant (I := fun d => storedRaw d k = some bytes) hraw ?_
  intro d w t r d' _ hd hx
  obtain ⟨d₁, hins, hd'⟩ := exec_insertBlocks hx
  have htable : d'.blockWitnesses = d₁.blockWitnesses := by rw [hd']
  rw [storedRaw, htable]
  exact insertBlocks_storedRaw hins hd

end Witnesses

section Endpoint

variable {network : NetworkProfile} {id : Text} {seen : ℕ → Db} {now : Timestamp} {start : Db}
  {row : BlockDetailRow} {chain : ChainStateRow}

/-- Whatever any writers commit before and between the statements of a request, a block that is
found is served: its bytes hash to the witness that is shown beside them, and they are the bytes
of a block that an accepted call brought under the hash that is shown. -/
theorem raw_block_certifies_itself (hstart : start.blockWitnesses.rows = [])
    (hfirst : Calls lib (someVetted lib) start log (seen 0))
    (hnext : ∀ i, ∃ log, Calls lib (someVetted lib) (seen i) log (seen (i + 1)))
    (hchain : chainStateRow (seen 0) network = .ok chain)
    (hrow : findBlock network.toNetworkConfig id (seen 1) = .ok row) :
    ∃ view bytes, rawBlock network id seen now = .ok (envelope network view none chain now) ∧
      view.blockHash = row.summary.hash ∧ view.witnessHash = row.summary.witnessHash ∧
      hexDecode view.data = .ok bytes ∧ blockWitnessHash lib bytes = view.witnessHash ∧
      ∃ log', Calls lib (someVetted lib) start log' (seen 1) ∧ ∃ t ∈ log', ∃ b ∈ t.blocks,
        b.block.hash = view.blockHash ∧ b.rawBlock = bytes := by
  obtain ⟨log₁, hlog₁⟩ := hnext 0
  obtain ⟨log₂, hlog₂⟩ := hnext 1
  have hfound := hfirst.trans hlog₁
  obtain ⟨⟨c, b, w⟩, hx, hdetail, -⟩ := findBlock_eq_ok hrow
  obtain ⟨hhash, hwitness⟩ : row.summary.hash = c.blockHash ∧
      row.summary.witnessHash = c.witnessHash :=
    ⟨(blockDetailRow_selector hdetail).2, blockDetailRow_witness hdetail⟩
  obtain ⟨-, -, hw⟩ := mem_chainBlocks.mp hx
  have hkey : w.key = (c.blockHash, c.witnessHash) := Table.key_of_find? hw
  have hraw : storedRaw (seen 2) (row.summary.hash, row.summary.witnessHash) = some w.rawBlock := by
    refine hlog₂.storedRaw_stays ?_
    rw [hhash, hwitness, storedRaw, hw, Option.map_some]
  obtain ⟨hcertified, t, ht, indexed, hindexed, hname, hbrought⟩ :=
    hfound.certified hstart w (Table.mem_of_find? hw)
  refine ⟨{
      blockHash := row.summary.hash
      witnessHash := row.summary.witnessHash
      encoding := "hex"
      data := hexEncode w.rawBlock }, w.rawBlock, ?_, rfl, rfl, hexDecode_hexEncode _, ?_, _, hfound,
    t, ht, indexed, hindexed, ?_, hbrought⟩
  · simp only [rawBlock, Result.bind_eq_ok]
    exact ⟨chain, hchain, row, hrow, w.rawBlock, rawBlockQuery_ok hraw, rfl⟩
  · rw [← hcertified, hwitness]
    exact congrArg Prod.snd hkey
  · rw [hname, hhash]
    exact congrArg Prod.fst hkey

/-- The block is displaced between the two statements, and its bytes are served all the same. -/
theorem raw_block_certifies_itself_displaced : ∃ view bytes,
    rawBlock sampleProfile ['2'] (sampleSeen 2) 0 = .ok view ∧
      view.data.blockHash = sampleHash '2' ∧ hexDecode view.data.data = .ok bytes ∧
      blockWitnessHash sampleCrate bytes = view.data.witnessHash := by
  have hseen : ∀ i, ∃ log, Calls sampleCrate (someVetted sampleCrate) (sampleSeen 2 i) log
      (sampleSeen 2 (i + 1)) := by
    intro i
    rcases Nat.lt_trichotomy i 1 with hi | rfl | hi
    · rw [sampleSeen_early (by omega), sampleSeen_early (by omega)]
      exact ⟨[], .nil _⟩
    · rw [sampleSeen_early (by omega), sampleSeen_late (by omega)]
      have hnone : someVetted sampleCrate (sampleDb [['1', '2']]) sampleTruncation := by
        intro b hb
        cases hb
      exact ⟨_, (Calls.nil _).next hnone (by decide +kernel)⟩
    · rw [sampleSeen_late (by omega), sampleSeen_late (by omega)]
      exact ⟨[], .nil _⟩
  have hopening : History sampleCrate sampleNetwork (anyPass sampleCrate)
      (initialDb sampleNetwork) (sampleDb []) := .refl _
  have hhistory := hopening.sample ['1', '2'] trivial
  rw [List.nil_append] at hhistory
  obtain ⟨log, hlog⟩ := hhistory.calls
  have hshown : (findBlock sampleProfile.toNetworkConfig ['2'] (sampleSeen 2 1)).map
      (fun row => row.summary.hash) = .ok (sampleHash '2') := by decide +kernel
  have hbefore : Calls sampleCrate (someVetted sampleCrate) (initialDb sampleNetwork) log
      (sampleSeen 2 0) := by
    rw [sampleSeen_early (by omega)]
    exact hlog
  have hstate : (chainStateRow (sampleSeen 2 0) sampleProfile).isOk := by decide +kernel
  cases hchain : chainStateRow (sampleSeen 2 0) sampleProfile with
  | error e => simp [hchain, Except.isOk, Except.toBool] at hstate
  | ok chain =>
    cases hrow : findBlock sampleProfile.toNetworkConfig ['2'] (sampleSeen 2 1) with
    | error e =>
      rw [hrow] at hshown
      cases hshown
    | ok row =>
      rw [hrow] at hshown
      have hname : row.summary.hash = sampleHash '2' := by injection hshown
      have hstart : (initialDb sampleNetwork).blockWitnesses.rows = [] := rfl
      obtain ⟨view, bytes, hview, hhash, -, hbytes, hcertified, -⟩ :=
        raw_block_certifies_itself hstart hbefore hseen hchain hrow
      exact ⟨_, bytes, hview, hhash.trans hname, hbytes, hcertified⟩

end Endpoint

end WcashExplorer
