import Mathlib.Data.Set.Function
import WcashExplorer.Db.Complete

/-! Transaction instances: which transactions share a stored row, and what a row came from. -/
namespace WcashExplorer

open Effects Relational

variable {lib : AuxPowCrate} {networkId blockHash witness : Text} {indexed : IndexedBlock}
  {t t' : RpcTransaction} {start db db₁ db' : Db} {log : List DbCall} {P : Db → DbCall → Prop}
  {id id' position : Nat} {row r : TransactionInstanceRow}

/-- What identifies a transaction without an authorization digest: its serialized bytes where the
node supplied them, else the text of its id. -/
def fingerprint (t : RpcTransaction) : Result Bytes := do
  let raw ← optional (fun value => decodeHex value (4 * 1024 * 1024)) t.hex
  .ok (raw.getD (asciiBytes t.txid))

/-- One txid, and one authorization digest or one fingerprint, by the format of both. -/
def SameIdentity (t t' : RpcTransaction) : Prop :=
  t.txid = t'.txid ∧ ((5 ≤ t.version ∧ 5 ≤ t'.version ∧ t.authdigest = t'.authdigest) ∨
    (t.version < 5 ∧ t'.version < 5 ∧ fingerprint t = fingerprint t'))

/-- What is hashed for the accepted transactions that have no authorization digest. -/
def hashInputs (log : List DbCall) : Set Bytes :=
  {x | ∃ call ∈ log, ∃ b ∈ call.blocks, ∃ t ∈ b.block.tx, t.version < 5 ∧
    ∃ bytes, fingerprint t = .ok bytes ∧ x = rawTxHashDomain ++ bytes}

/-- An accepted block carries the transaction at some position, and the store keeps it there
under an instance id. -/
def Received (lib : AuxPowCrate) (log : List DbCall) (db : Db) (t : RpcTransaction) (id : Nat) :
    Prop :=
  ∃ call ∈ log, ∃ b ∈ call.blocks, ∃ i, b.block.tx[i]? = some t ∧
    db.blockTransactions.find? (b.block.hash, witnessHash lib b, i) =
      some ⟨b.block.hash, witnessHash lib b, i, id⟩

section Columns

/-- The columns that identify the row a transaction offers. -/
structure Identified (lib : AuxPowCrate) (t : RpcTransaction) (row : TransactionInstanceRow) :
    Prop where
  txid : row.txid = t.txid
  version : row.version = t.version
  modern : 5 ≤ t.version → row.authDigest = t.authdigest ∧ t.authdigest = some row.instanceDigest
  legacy : t.version < 5 → row.authDigest = none ∧ row.instanceDigest = row.rawHash ∧
    ∃ bytes, fingerprint t = .ok bytes ∧
      row.rawHash = hexEncode (lib.sha256 (rawTxHashDomain ++ bytes))

theorem authDigest_eq_ok {digest : Option Text} (h : authDigest t = .ok digest) :
    if 5 ≤ t.version then t.authdigest = digest ∧ digest.isSome else digest = none := by
  unfold authDigest at h
  split at h
  · rename_i hversion
    rw [if_pos hversion]
    split at h
    · cases h
    · rename_i value hvalue
      obtain ⟨-, -, h⟩ := Result.bind_eq_ok.mp h
      cases h
      exact ⟨hvalue, rfl⟩
  · rename_i hversion
    rw [if_neg hversion]
    cases h
    rfl

theorem transactionInstanceRow_identified (h : transactionInstanceRow lib t id = .ok row) :
    Identified lib t row := by
  simp only [transactionInstanceRow, Result.bind_eq_ok] at h
  obtain ⟨raw, hraw, -, -, digest, hdigest, size, -, lock, -, expiry, -, spends, -, outputs, -, h⟩ :=
    h
  have hauth := authDigest_eq_ok hdigest
  cases h
  refine ⟨rfl, rfl, fun hmodern => ?_, fun hlegacy => ?_⟩
  · rw [if_pos hmodern] at hauth
    obtain ⟨hsame, hsome⟩ := hauth
    obtain ⟨value, rfl⟩ := Option.isSome_iff_exists.mp hsome
    exact ⟨hsame.symm, hsame⟩
  · have hnot : ¬ 5 ≤ t.version := by omega
    rw [if_neg hnot] at hauth
    subst hauth
    refine ⟨rfl, rfl, raw.getD (asciiBytes t.txid), ?_, ?_⟩
    · simp only [fingerprint, Result.bind_eq_ok]
      exact ⟨raw, hraw, rfl⟩
    · cases raw with
      | none => simp [rawTransactionHash, hnot]
      | some bytes => rfl

end Columns

section StoredAs

/-- A stored row has the id, and the compared columns the transaction offers. -/
def StoredAs (lib : AuxPowCrate) (db : Db) (t : RpcTransaction) (id : Nat) : Prop :=
  ∃ row stored, transactionInstanceRow lib t 0 = .ok row ∧
    stored ∈ db.transactionInstances.rows ∧ stored.transactionInstanceId = id ∧
    stored.anonymous = row.anonymous

theorem StoredAs.of_reads (hs : InstancesSound db) {facts : TransactionFacts}
    (hfacts : transactionFacts lib t = .ok facts) (hread : readInstance db id = some facts) :
    StoredAs lib db t id := by
  obtain ⟨row, hrow, -, hcolumns, -⟩ := transactionFacts_ok hfacts
  obtain ⟨stored, hmem, hid, rfl⟩ := (readInstance_eq_some hs).mp hread
  exact ⟨row, stored, hrow, hmem, hid, hcolumns⟩

theorem StoredAs.of_prefix (h : StoredAs lib db t id)
    (hp : db.transactionInstances.rows <+: db'.transactionInstances.rows) :
    StoredAs lib db' t id := by
  obtain ⟨row, stored, hrow, hmem, hid, hsame⟩ := h
  exact ⟨row, stored, hrow, hp.subset hmem, hid, hsame⟩

theorem anonymous_identity {s : TransactionInstanceRow} (h : r.anonymous = s.anonymous) :
    r.key = s.key ∧ r.version = s.version ∧ r.authDigest = s.authDigest ∧ r.rawHash = s.rawHash := by
  simp only [TransactionInstanceRow.anonymous, TransactionInstanceRow.mk.injEq] at h
  obtain ⟨-, htxid, hdigest, hauth, hhash, -, hversion, -⟩ := h
  exact ⟨Prod.ext htxid hdigest, hversion, hauth, hhash⟩

/-- Same rows exactly for same identities, where the digests of the fingerprints do not collide. -/
theorem StoredAs.id_eq_iff (hs : InstancesSound db)
    (hcollision : ∀ x x', fingerprint t = .ok x → fingerprint t' = .ok x' →
      t.version < 5 → t'.version < 5 →
      lib.sha256 (rawTxHashDomain ++ x) = lib.sha256 (rawTxHashDomain ++ x') → x = x')
    (h : StoredAs lib db t id) (h' : StoredAs lib db t' id') : id = id' ↔ SameIdentity t t' := by
  obtain ⟨row, stored, hrow, hmem, rfl, hsame⟩ := h
  obtain ⟨row', stored', hrow', hmem', rfl, hsame'⟩ := h'
  obtain ⟨htxid, hversion, hmodern, hlegacy⟩ := transactionInstanceRow_identified hrow
  obtain ⟨htxid', hversion', hmodern', hlegacy'⟩ := transactionInstanceRow_identified hrow'
  constructor
  · intro hid
    obtain rfl : stored = stored' := List.inj_on_of_nodup_map hs.ids_nodup hmem hmem' hid
    obtain ⟨hkey, hver, hauth, hhash⟩ := anonymous_identity (hsame.symm.trans hsame')
    have htx : t.txid = t'.txid := by
      rw [← htxid, ← htxid']
      exact congrArg Prod.fst hkey
    have hvers : t.version = t'.version := by rw [← hversion, hver, hversion']
    refine ⟨htx, ?_⟩
    by_cases hnew : 5 ≤ t.version
    · have hnew' : 5 ≤ t'.version := by omega
      left
      rw [← (hmodern hnew).1, hauth, (hmodern' hnew').1]
      exact ⟨hnew, hnew', rfl⟩
    · have hold : t.version < 5 := by omega
      have hold' : t'.version < 5 := by omega
      obtain ⟨-, -, x, hx, hrawHash⟩ := hlegacy hold
      obtain ⟨-, -, x', hx', hrawHash'⟩ := hlegacy' hold'
      right
      rw [hrawHash, hrawHash'] at hhash
      rw [hx, hx', hcollision x x' hx hx' hold hold' (hexEncode_injective hhash)]
      exact ⟨hold, hold', rfl⟩
  · rintro ⟨htx, hidentity⟩
    have hdigest : row.instanceDigest = row'.instanceDigest := by
      rcases hidentity with ⟨hnew, hnew', hauth⟩ | ⟨hold, hold', hprint⟩
      · rw [(hmodern hnew).2, (hmodern' hnew').2] at hauth
        exact Option.some.inj hauth
      · obtain ⟨-, hown, x, hx, hrawHash⟩ := hlegacy hold
        obtain ⟨-, hown', x', hx', hrawHash'⟩ := hlegacy' hold'
        rw [hx, hx'] at hprint
        rw [hown, hown', hrawHash, hrawHash', Except.ok.inj hprint]
    have hkey : stored.key = stored'.key := by
      rw [(anonymous_identity hsame).1, (anonymous_identity hsame').1]
      exact Prod.ext (htxid.trans (htx.trans htxid'.symm)) hdigest
    rw [List.inj_on_of_nodup_map db.transactionInstances.nodup hmem hmem' hkey]

end StoredAs

section Rows

/-- A stored row is what some transaction of the list offered. -/
def OfferedBy (lib : AuxPowCrate) (txs : List RpcTransaction) (r : TransactionInstanceRow) : Prop :=
  ∃ t ∈ txs, transactionInstanceRow lib t r.transactionInstanceId = .ok r

theorem insertBlockTransactions_rows {txs : List RpcTransaction}
    (h : insertBlockTransactions lib blockHash witness position txs db = .ok db')
    (hr : r ∈ db'.transactionInstances.rows) :
    r ∈ db.transactionInstances.rows ∨ OfferedBy lib txs r := by
  induction txs generalizing position db with
  | nil =>
    cases h
    exact .inl hr
  | cons first rest ih =>
    obtain ⟨id, db₁, db₂, placed, hfirst, -, hplace, -, -, hrest⟩ := insertBlockTransactions_cons h
    obtain ⟨row, stored, hin⟩ := insertTransaction_inserted hfirst
    obtain ⟨rfl, -⟩ := insertBlockTransaction_ok hplace
    rcases ih hrest with hr | ⟨t, ht, hoffered⟩
    · rcases hin.mem_instances.mp hr with hr | ⟨rfl, -⟩
      · exact .inl hr
      · refine .inr ⟨first, by simp, ?_⟩
        rw [hin.row_id]
        exact hin.offered
    · exact .inr ⟨t, by simp [ht], hoffered⟩

theorem insertBlock_rows (h : insertBlock lib networkId indexed db = .ok db')
    (hr : r ∈ db'.transactionInstances.rows) :
    r ∈ db.transactionInstances.rows ∨ OfferedBy lib indexed.block.tx r := by
  obtain ⟨row, stored, db₂, db₃, -, -, -, -, hdb₂, hloop, hdb'⟩ := insertBlock_loop h
  have hinstances : db₂.transactionInstances = db.transactionInstances := by rw [hdb₂]
  have hinstances' : db'.transactionInstances = db₃.transactionInstances := by rw [hdb']
  rw [← hinstances]
  exact insertBlockTransactions_rows hloop (hinstances' ▸ hr)

theorem insertBlocks_rows {blocks : List IndexedBlock}
    (h : insertBlocks lib networkId blocks db = .ok db') (hr : r ∈ db'.transactionInstances.rows) :
    r ∈ db.transactionInstances.rows ∨ ∃ b ∈ blocks, OfferedBy lib b.block.tx r := by
  induction blocks generalizing db with
  | nil =>
    cases h
    exact .inl hr
  | cons first rest ih =>
    obtain ⟨db₁, hfirst, hrest⟩ := insertBlocks_cons h
    rcases ih hrest with hr | ⟨b, hb, hoffered⟩
    · exact (insertBlock_rows hfirst hr).imp id fun hoffered => ⟨first, by simp, hoffered⟩
    · exact .inr ⟨b, by simp [hb], hoffered⟩

end Rows

section Placed

/-- Each transaction of the block has its placement, and the placed row is its own. -/
def AllPlaced (lib : AuxPowCrate) (db : Db) (b : IndexedBlock) : Prop :=
  ∀ i t, b.block.tx[i]? = some t → ∃ id,
    db.blockTransactions.find? (b.block.hash, witnessHash lib b, i) =
      some ⟨b.block.hash, witnessHash lib b, i, id⟩ ∧ StoredAs lib db t id

theorem AllPlaced.of_appends (h : AllPlaced lib db indexed) (ha : AppendsFacts db db') :
    AllPlaced lib db' indexed := by
  intro i t ht
  obtain ⟨id, hfind, hstored⟩ := h i t ht
  exact ⟨id, Table.find?_of_prefix ha.blockTransactions hfind,
    hstored.of_prefix ha.transactionInstances⟩

theorem Recorded.allPlaced {ids : List Nat} (hr : Recorded lib networkId db indexed ids)
    (hs : InstancesSound db) : AllPlaced lib db indexed := by
  intro i t ht
  obtain ⟨hi, rfl⟩ := List.getElem?_eq_some_iff.mp ht
  have hlen : i < ids.length := by
    rw [hr.reads.length_eq]
    exact hi
  obtain ⟨facts, hfacts, hread⟩ := (List.forall₂_iff_get.mp hr.reads).2 i hlen hi
  exact ⟨_, hr.found i _ (List.getElem?_eq_getElem hlen), .of_reads hs hfacts hread⟩

theorem insertBlocks_placed {blocks : List IndexedBlock} (hs : FactsSound db)
    (h : insertBlocks lib networkId blocks db = .ok db') : ∀ b ∈ blocks, AllPlaced lib db' b := by
  induction blocks generalizing db with
  | nil => simp
  | cons first rest ih =>
    obtain ⟨db₁, hfirst, hrest⟩ := insertBlocks_cons h
    obtain ⟨hs₁, ids, hrecorded⟩ := insertBlock_recordedFacts hs hfirst
    intro b hb
    rcases List.mem_cons.mp hb with rfl | hb
    · exact (hrecorded.allPlaced hs₁.instances).of_appends (insertBlocks_recorded hrest).1.appendsFacts
    · exact ih hs₁ hrest b hb

end Placed

section Calls

/-- Every stored row came from an accepted transaction, and every accepted transaction has its
placement. -/
structure Accounted (lib : AuxPowCrate) (log : List DbCall) (db : Db) : Prop where
  sound : StoreSound db
  rows : ∀ r ∈ db.transactionInstances.rows,
    ∃ call ∈ log, ∃ b ∈ call.blocks, OfferedBy lib b.block.tx r
  placed : ∀ call ∈ log, ∀ b ∈ call.blocks, AllPlaced lib db b

theorem Accounted.accepted {w : World} {call : DbCall} {result : call.Result}
    (ha : Accounted lib log db) (h : exec lib w call db = .ok (result, db')) :
    Accounted lib (log ++ [call]) db' := by
  refine ⟨ha.sound.exec h, fun r hr => ?_, fun earlier hcall b hb => ?_⟩
  · obtain ⟨db₁, hins, hdb'⟩ := exec_insertBlocks h
    have hinstances : db'.transactionInstances = db₁.transactionInstances := by rw [hdb']
    rcases insertBlocks_rows hins (hinstances ▸ hr) with hold | ⟨b, hb, hoffered⟩
    · obtain ⟨earlier, hcall, hrest⟩ := ha.rows r hold
      exact ⟨earlier, by simp [hcall], hrest⟩
    · exact ⟨call, by simp, b, hb, hoffered⟩
  · rcases List.mem_append.mp hcall with hcall | hcall
    · exact (ha.placed earlier hcall b hb).of_appends (exec_appendsFacts h)
    · obtain rfl := List.mem_singleton.mp hcall
      obtain ⟨db₁, hins, hdb'⟩ := exec_insertBlocks h
      have hplaced := insertBlocks_placed ha.sound.facts hins b hb
      rw [hdb']
      exact hplaced

theorem Calls.accounted (h : Calls lib P start log db) (hempty : NoBlocks start) :
    Accounted lib log db := by
  induction h with
  | nil => exact ⟨hempty.sound, by simp [hempty.transactionInstances], by simp⟩
  | accepted _ _ hx ih => exact ih.accepted hx
  | rejected _ _ ih => exact ih

namespace Accounted

variable (ha : Accounted lib log db)

include ha

theorem storedAs (h : Received lib log db t id) : StoredAs lib db t id := by
  obtain ⟨call, hcall, b, hb, i, ht, hfind⟩ := h
  obtain ⟨id', hfind', hstored⟩ := ha.placed call hcall b hb i t ht
  rw [hfind] at hfind'
  obtain rfl : id = id' := congrArg BlockTransactionRow.transactionInstanceId
    (Option.some.inj hfind')
  exact hstored

theorem received {call : DbCall} {b : IndexedBlock} (hcall : call ∈ log) (hb : b ∈ call.blocks)
    (ht : t ∈ b.block.tx) : ∃ id, Received lib log db t id := by
  obtain ⟨i, hi⟩ := List.mem_iff_getElem?.mp ht
  obtain ⟨id, hfind, -⟩ := ha.placed call hcall b hb i t hi
  exact ⟨id, call, hcall, b, hb, i, hi, hfind⟩

/-- A stored row was received by the transaction it came from. -/
theorem row_received (hr : r ∈ db.transactionInstances.rows) :
    ∃ t, Received lib log db t r.transactionInstanceId ∧ Identified lib t r := by
  obtain ⟨call, hcall, b, hb, t, ht, hoffered⟩ := ha.rows r hr
  obtain ⟨id, hreceived⟩ := ha.received hcall hb ht
  obtain ⟨row, stored, hrow, hmem, rfl, hsame⟩ := ha.storedAs hreceived
  obtain ⟨-, hoffered'⟩ := transactionInstanceRow_under hoffered 0
  obtain rfl := Except.ok.inj (hoffered'.symm.trans hrow)
  obtain rfl : stored = r := List.inj_on_of_nodup_map db.transactionInstances.nodup hmem hr
    (anonymous_identity hsame).1
  exact ⟨t, hreceived, transactionInstanceRow_identified hoffered⟩

/-- Whoever received a row finds in it what identifies itself. -/
theorem received_identity (h : Received lib log db t r.transactionInstanceId)
    (hr : r ∈ db.transactionInstances.rows) (hversion : 5 ≤ r.version) :
    t.authdigest = some r.instanceDigest := by
  obtain ⟨row, stored, hrow, hmem, hid, hsame⟩ := ha.storedAs h
  obtain rfl : stored = r :=
    List.inj_on_of_nodup_map ha.sound.facts.instances.ids_nodup hmem hr hid
  obtain ⟨hkey, hver, -, -⟩ := anonymous_identity hsame
  have hidentified := transactionInstanceRow_identified hrow
  have hmodern : 5 ≤ t.version := by rw [← hidentified.version, ← hver]; exact hversion
  have hdigest : stored.instanceDigest = row.instanceDigest := congrArg Prod.snd hkey
  rw [hdigest]
  exact (hidentified.modern hmodern).2

end Accounted

end Calls

end WcashExplorer
