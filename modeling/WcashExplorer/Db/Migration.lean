import WcashExplorer.Db.Database
import WcashExplorer.Db.Instances
import WcashExplorer.Db.RawRpc
import WcashExplorer.Hex
import WcashExplorer.Relational.Rekeyed

/-! The migration that separates the instance key of a transaction from its authorization digest. -/
namespace WcashExplorer

open Relational Json

/-- `transaction_instances` before the migration. -/
structure LegacyInstanceRow where
  transactionInstanceId : Nat
  txid : Text
  authDigest : Text
  rawHash : Text
  rawTransaction : Option Bytes
  version : Int
  sizeBytes : Nat
  lockTime : Nat
  expiryHeight : Nat
  isCoinbase : Bool
  valueBalanceZat : Option Int
  saplingSpendCount : Nat
  saplingOutputCount : Nat
  orchardActionCount : Nat
  ironwoodActionCount : Nat
  rawRpc : Json

namespace LegacyInstanceRow

def key (r : LegacyInstanceRow) : Text × Text := (r.txid, r.authDigest)

def valid (r : LegacyInstanceRow) : Bool :=
  isLowerHex 64 r.txid && isLowerHex 64 r.authDigest && isLowerHex 64 r.rawHash &&
    0 < r.sizeBytes && r.rawRpc.storable

/-- `RENAME COLUMN auth_digest TO instance_digest` and `ADD COLUMN auth_digest`. -/
def renamed (r : LegacyInstanceRow) : TransactionInstanceRow where
  transactionInstanceId := r.transactionInstanceId
  txid := r.txid
  instanceDigest := r.authDigest
  authDigest := none
  rawHash := r.rawHash
  rawTransaction := r.rawTransaction
  version := r.version
  sizeBytes := r.sizeBytes
  lockTime := r.lockTime
  expiryHeight := r.expiryHeight
  isCoinbase := r.isCoinbase
  valueBalanceZat := r.valueBalanceZat
  saplingSpendCount := r.saplingSpendCount
  saplingOutputCount := r.saplingOutputCount
  orchardActionCount := r.orchardActionCount
  ironwoodActionCount := r.ironwoodActionCount
  rawRpc := r.rawRpc

end LegacyInstanceRow

section Migrate

-- The text PostgreSQL gives a member that is neither a string nor null.
variable (jsonText : Json → Text)

/-- `value ->> name`. -/
def memberText (name : Text) : Json → Option Text
  | .object members =>
    match get? members name with
    | some (.string s) => some s
    | some .null => none
    | some value => some (jsonText value)
    | none => none
  | _ => none

namespace TransactionInstanceRow

/-- The first `UPDATE`: the consensus digest of the formats that define one. -/
def withAuthDigest (r : TransactionInstanceRow) : TransactionInstanceRow :=
  { r with
    authDigest :=
      if 5 ≤ r.version then (memberText jsonText "authdigest".toList r.rawRpc).filter (isLowerHex 64)
      else none }

/-- The second `UPDATE`. -/
def withInstanceDigest (r : TransactionInstanceRow) : TransactionInstanceRow :=
  { r with
    instanceDigest := if 5 ≤ r.version then r.authDigest.getD r.rawHash else r.rawHash }

/-- The constraints of the table while the migration runs. -/
def midValid (r : TransactionInstanceRow) : Bool :=
  isLowerHex 64 r.txid && isLowerHex 64 r.instanceDigest && nullOr (isLowerHex 64) r.authDigest &&
    isLowerHex 64 r.rawHash && 0 < r.sizeBytes && r.rawRpc.storable

/-- `transaction_instances_auth_digest_version_check`. -/
def versionValid (r : TransactionInstanceRow) : Bool :=
  (r.version < 5 && r.authDigest.isNone) || (5 ≤ r.version && r.authDigest.isSome)

end TransactionInstanceRow

/-- The migration, over the rows in the order in which the updates visit them. The unique
constraint of the first schema is in force until the new one replaces it. -/
def migrate (rows : List LegacyInstanceRow) : Result (List TransactionInstanceRow) := do
  let digested := rows.map fun r => r.renamed.withAuthDigest jsonText
  checked (digested.all TransactionInstanceRow.midValid)
  match rekey TransactionInstanceRow.key TransactionInstanceRow.midValid
      TransactionInstanceRow.withInstanceDigest [] digested with
  | none => .error .database
  | some migrated => do
    checked (migrated.all TransactionInstanceRow.versionValid)
    checked (migrated.map TransactionInstanceRow.key).Nodup
    .ok migrated

/-- What the migration makes of a row. -/
def LegacyInstanceRow.migrated (r : LegacyInstanceRow) : TransactionInstanceRow :=
  (r.renamed.withAuthDigest jsonText).withInstanceDigest

end Migrate

variable {lib : AuxPowCrate} {jsonText : Json → Text} {t : RpcTransaction} {digest : Text}
  {id : Nat} {r : LegacyInstanceRow} {rows : List LegacyInstanceRow}

section Rows

/-- The row of a transaction in the first schema: the columns it shares with the current one as
`insert_transaction` fills them, under any digest. -/
def legacyInstanceRow (lib : AuxPowCrate) (t : RpcTransaction) (digest : Text) (id : Nat) :
    Result LegacyInstanceRow := do
  let raw ← optional (fun value => decodeHex value (4 * 1024 * 1024)) t.hex
  ensureHash "transaction ID" t.txid
  let sizeBytes ← toI64 t.size "transaction size"
  let lockTime ← toI64 t.locktime "lock time"
  let expiryHeight ← toI64 t.expiryheight "expiry height"
  let saplingSpendCount ← toI32 t.shieldedSpends.length "Sapling spend count"
  let saplingOutputCount ← toI32 t.shieldedOutputs.length "Sapling output count"
  .ok
    { transactionInstanceId := id
      txid := t.txid
      authDigest := digest
      rawHash := rawTransactionHash lib t raw
      rawTransaction := raw
      version := t.version
      sizeBytes
      lockTime
      expiryHeight
      isCoinbase := t.vin.any fun input => input.coinbase.isSome
      valueBalanceZat := t.valueBalanceZat
      saplingSpendCount
      saplingOutputCount
      orchardActionCount := bundleActionCount t.orchard
      ironwoodActionCount := bundleActionCount t.ironwood
      rawRpc := t.toJson }

/-- A stored row of a transaction that a node's answer decoded to. -/
structure WrittenFor (lib : AuxPowCrate) (t : RpcTransaction) (r : LegacyInstanceRow) : Prop where
  decoded : ∃ j, RpcTransaction.fromJson j = some t
  columns : ∃ digest id, legacyInstanceRow lib t digest id = .ok r
  valid : r.valid = true

/-- A transaction of a modern format carries a digest that the column takes. -/
def Identifiable (t : RpcTransaction) : Prop :=
  5 ≤ t.version → ∃ digest, t.authdigest = some digest ∧ isLowerHex 64 digest = true

theorem isHash_of_isLowerHex (h : isLowerHex 64 digest = true) : isHash digest = true := by
  simp only [isLowerHex, Bool.and_eq_true, beq_iff_eq] at h
  have hdigits : digest.all isHexDigit = true := by
    refine List.all_eq_true.mpr fun c hc => ?_
    have hlower := List.all_eq_true.mp h.2 c hc
    simp only [isLowerHexDigit, isHexDigit, Bool.or_eq_true] at hlower ⊢
    exact .inl hlower
  simp [isHash, len_eq_length hdigits, h.1, hdigits]

theorem fromJson_extra {j : Json} (h : RpcTransaction.fromJson j = some t) :
    ∃ members, t.extra = flattened RpcTransaction.names members := by
  match j, h with
  | .object members, h =>
    rw [RpcTransaction.fromJson] at h
    iterate 14 obtain ⟨_, -, h⟩ := Option.bind_eq_some_iff.mp h
    obtain rfl := Option.some.inj h
    exact ⟨members, rfl⟩

/-- The stored JSON of a decoded transaction keeps the digest it was decoded with. -/
theorem memberText_toJson (h : ∃ j, RpcTransaction.fromJson j = some t) :
    memberText jsonText "authdigest".toList t.toJson = t.authdigest := by
  obtain ⟨j, hj⟩ := h
  obtain ⟨members, hextra⟩ := fromJson_extra hj
  have hmember : ∃ stored, t.toJson = .object stored ∧
      get? stored "authdigest".toList = some (.ofOption .string t.authdigest) := by
    refine ⟨_, rfl, ?_⟩
    rw [hextra, get?_foldl_insert _ _ _ ?_]
    · rfl
    · rw [List.map_append]
      refine List.Nodup.append (by decide : RpcTransaction.names.Nodup)
        (ordered_nodup (foldr_insert_ordered _)) ?_
      intro name hname hname'
      obtain ⟨m, hm, rfl⟩ := List.mem_map.mp hname'
      exact not_mem_of_flattened hm hname
  obtain ⟨stored, hstored, hget⟩ := hmember
  rw [hstored, memberText, hget]
  cases t.authdigest <;> rfl

theorem legacyInstanceRow_ok (h : legacyInstanceRow lib t digest id = .ok r) :
    r.version = t.version ∧ r.rawRpc = t.toJson ∧
      ∀ auth, authDigest t = .ok auth → transactionInstanceRow lib t r.transactionInstanceId = .ok
        { r.renamed with authDigest := auth, instanceDigest := auth.getD r.rawHash } := by
  simp only [legacyInstanceRow, Result.bind_eq_ok] at h
  obtain ⟨raw, hraw, hash, htxid, size, hsize, lock, hlock, expiry, hexpiry, spends, hspends, outputs,
    houtputs, h⟩ := h
  cases h
  refine ⟨rfl, rfl, fun auth hauth => ?_⟩
  simp only [transactionInstanceRow, Result.bind_eq_ok]
  exact ⟨raw, hraw, hash, htxid, auth, hauth, size, hsize, lock, hlock, expiry, hexpiry, spends,
    hspends, outputs, houtputs, rfl⟩

theorem WrittenFor.authDigest_eq (h : WrittenFor lib t r) (jsonText : Json → Text) :
    (r.migrated jsonText).authDigest =
      if 5 ≤ t.version then t.authdigest.filter (isLowerHex 64) else none := by
  obtain ⟨digest, id, hrow⟩ := h.columns
  obtain ⟨hversion, hjson, -⟩ := legacyInstanceRow_ok hrow
  have hmember : memberText jsonText "authdigest".toList r.rawRpc = t.authdigest := by
    rw [hjson, memberText_toJson h.decoded]
  change (if 5 ≤ r.version then (memberText jsonText "authdigest".toList r.rawRpc).filter
    (isLowerHex 64) else none) = _
  rw [hversion, hmember]

/-- Both updates keep every constraint of the columns, whatever the stored JSON is. -/
theorem LegacyInstanceRow.midValid (h : r.valid = true) (jsonText : Json → Text) :
    (r.renamed.withAuthDigest jsonText).midValid = true ∧ (r.migrated jsonText).midValid = true := by
  simp only [valid, Bool.and_eq_true] at h
  obtain ⟨⟨⟨⟨htxid, hdigest⟩, hraw⟩, hsize⟩, hjson⟩ := h
  have hauth : ∀ value, (r.renamed.withAuthDigest jsonText).authDigest = some value →
      isLowerHex 64 value = true := by
    intro value hvalue
    change (if 5 ≤ r.version then _ else none) = some value at hvalue
    split at hvalue
    · exact (Option.filter_eq_some_iff.mp hvalue).2
    · cases hvalue
  have hnull : nullOr (isLowerHex 64) (r.renamed.withAuthDigest jsonText).authDigest = true := by
    cases hvalue : (r.renamed.withAuthDigest jsonText).authDigest with
    | none => rfl
    | some value => exact hauth value hvalue
  have hinstance : isLowerHex 64 (r.migrated jsonText).instanceDigest = true := by
    change isLowerHex 64 (if 5 ≤ r.version then
      (r.renamed.withAuthDigest jsonText).authDigest.getD r.rawHash else r.rawHash) = true
    split
    · cases hvalue : (r.renamed.withAuthDigest jsonText).authDigest with
      | none => exact hraw
      | some value => exact hauth value hvalue
    · exact hraw
  simp only [TransactionInstanceRow.midValid, Bool.and_eq_true]
  exact ⟨⟨⟨⟨⟨⟨htxid, hdigest⟩, hnull⟩, hraw⟩, hsize⟩, hjson⟩,
    ⟨⟨⟨⟨⟨htxid, hinstance⟩, hnull⟩, hraw⟩, hsize⟩, hjson⟩⟩

theorem WrittenFor.versionValid_iff (h : WrittenFor lib t r) (jsonText : Json → Text) :
    (r.migrated jsonText).versionValid = true ↔ Identifiable t := by
  have hauth := h.authDigest_eq jsonText
  obtain ⟨digest, id, hrow⟩ := h.columns
  have hversion : (r.migrated jsonText).version = t.version := (legacyInstanceRow_ok hrow).1
  rw [TransactionInstanceRow.versionValid, hauth, hversion, Identifiable]
  by_cases hmodern : 5 ≤ t.version
  · have hnot : ¬ t.version < 5 := by omega
    cases hdigest : t.authdigest with
    | none => simp [hmodern, hnot]
    | some value => cases hlower : isLowerHex 64 value <;> simp [hmodern, hnot, Option.filter, hlower]
  · have hlegacy : t.version < 5 := by omega
    simp [hmodern, hlegacy]

/-- An identifiable transaction's row comes out as the one the current writer offers for it. -/
theorem WrittenFor.current (h : WrittenFor lib t r) (hidentifiable : Identifiable t) :
    transactionInstanceRow lib t (r.migrated jsonText).transactionInstanceId =
        .ok (r.migrated jsonText) ∧ (r.migrated jsonText).valid = true := by
  have hstored := h.authDigest_eq jsonText
  have hversionValid := (h.versionValid_iff jsonText).mpr hidentifiable
  have hmid := (LegacyInstanceRow.midValid h.valid jsonText).2
  obtain ⟨digest, id, hrow⟩ := h.columns
  obtain ⟨hversion, -, hoffered⟩ := legacyInstanceRow_ok hrow
  have hauth : authDigest t = .ok (r.migrated jsonText).authDigest := by
    rw [hstored, authDigest]
    by_cases hmodern : 5 ≤ t.version
    · obtain ⟨value, hvalue, hlower⟩ := hidentifiable hmodern
      rw [if_pos hmodern, if_pos hmodern, hvalue]
      simp [ensureHash, ensure, isHash_of_isLowerHex hlower, Option.filter, hlower, bind, Except.bind]
    · rw [if_neg hmodern, if_neg hmodern]
  have hsame : (r.migrated jsonText).instanceDigest =
      (r.migrated jsonText).authDigest.getD r.rawHash := by
    change (if 5 ≤ r.version then (r.migrated jsonText).authDigest.getD r.rawHash else r.rawHash) = _
    split
    · rfl
    · rename_i hlegacy
      rw [hstored, if_neg (hversion ▸ hlegacy), Option.getD_none]
  constructor
  · have hid : (r.migrated jsonText).transactionInstanceId = r.transactionInstanceId := rfl
    rw [hid, hoffered _ hauth, ← hsame]
    rfl
  · simp only [TransactionInstanceRow.midValid, Bool.and_eq_true] at hmid
    obtain ⟨⟨⟨⟨⟨htxid, hdigest⟩, hnull⟩, hraw⟩, hsize⟩, hjson⟩ := hmid
    simp only [TransactionInstanceRow.valid, Bool.and_eq_true]
    refine ⟨⟨⟨⟨⟨⟨htxid, hdigest⟩, hnull⟩, hraw⟩, hsize⟩, ?_⟩, hjson⟩
    simp only [TransactionInstanceRow.versionValid, Bool.or_eq_true, Bool.and_eq_true,
      decide_eq_true_eq] at hversionValid
    rcases hversionValid with ⟨hold, hnone⟩ | ⟨hnew, hsome⟩
    · rw [if_pos hold]
      exact hnone
    · rw [if_neg (not_lt.mpr hnew)]
      exact hsome

end Rows

section Store

/-- No two rows of a table have one key, and no row's new key is one that a later row still has. -/
def Unclashing (jsonText : Json → Text) (rows : List LegacyInstanceRow) : Prop :=
  rows.Pairwise fun r s => (r.migrated jsonText).key ≠ s.key ∧
    (r.migrated jsonText).key ≠ (s.migrated jsonText).key

theorem migrate_eq_ok {migrated : List TransactionInstanceRow}
    (hvalid : ∀ r ∈ rows, r.valid = true) : migrate jsonText rows = .ok migrated ↔
      migrated = rows.map (LegacyInstanceRow.migrated jsonText) ∧ Unclashing jsonText rows ∧
        ∀ r ∈ migrated, r.versionValid = true := by
  have hfirst : (rows.map fun r => r.renamed.withAuthDigest jsonText).all
      TransactionInstanceRow.midValid = true := by
    refine List.all_eq_true.mpr fun r hr => ?_
    obtain ⟨r, hmem, rfl⟩ := List.mem_map.mp hr
    exact (LegacyInstanceRow.midValid (hvalid r hmem) jsonText).1
  have hrekey : ∀ out, rekey TransactionInstanceRow.key TransactionInstanceRow.midValid
      TransactionInstanceRow.withInstanceDigest []
        (rows.map fun r => r.renamed.withAuthDigest jsonText) = some out ↔
      out = rows.map (LegacyInstanceRow.migrated jsonText) ∧ Unclashing jsonText rows := by
    intro out
    rw [rekey_eq_some, List.nil_append, List.map_map, List.pairwise_map]
    refine ⟨fun ⟨hout, _, _, hpairs⟩ => ⟨hout, hpairs⟩, fun ⟨hout, hpairs⟩ =>
      ⟨hout, fun r hr => ?_, by simp, hpairs⟩⟩
    obtain ⟨r, hmem, rfl⟩ := List.mem_map.mp hr
    exact (LegacyInstanceRow.midValid (hvalid r hmem) jsonText).2
  simp only [migrate, Result.bind_eq_ok, checked, ensure_eq_ok]
  constructor
  · rintro ⟨_, -, h⟩
    split at h
    · cases h
    · rename_i out hout
      simp only [Result.bind_eq_ok, ensure_eq_ok] at h
      obtain ⟨_, hversion, _, -, h⟩ := h
      cases h
      obtain ⟨heq, hpairs⟩ := (hrekey _).mp hout
      exact ⟨heq, hpairs, fun r hr => List.all_eq_true.mp hversion r hr⟩
  · rintro ⟨heq, hpairs, hversion⟩
    have hout := (hrekey migrated).mpr ⟨heq, hpairs⟩
    refine ⟨(), hfirst, ?_⟩
    rw [hout]
    refine Result.bind_eq_ok.mpr ⟨(), ensure_eq_ok.mpr (List.all_eq_true.mpr hversion), ?_⟩
    exact Result.bind_eq_ok.mpr
      ⟨(), ensure_eq_ok.mpr (decide_eq_true (rekey_nodup hout)), rfl⟩

/-- A transaction whose row is stored finds it, and stores nothing. -/
theorem insertInstance_stored {db : Db} {row : TransactionInstanceRow}
    (hoffered : transactionInstanceRow lib t row.transactionInstanceId = .ok row)
    (hvalid : row.valid = true) (hmem : row ∈ db.transactionInstances.rows) :
    insertInstance lib t db = .ok (row, { db with
      nextTransactionInstanceId := db.nextTransactionInstanceId + 1 }) := by
  have hoffered' := (transactionInstanceRow_under hoffered db.nextTransactionInstanceId).2
  let offered : TransactionInstanceRow :=
    { row with transactionInstanceId := db.nextTransactionInstanceId }
  have hfound : db.transactionInstances.find? offered.key = some row := Table.find?_of_mem hmem
  have hmatches : immutableTransactionMatches row offered = true := by
    simp [immutableTransactionMatches, offered]
  refine Result.bind_eq_ok.mpr ⟨offered, hoffered', ?_⟩
  refine Result.bind_eq_ok.mpr ⟨(), ensure_eq_ok.mpr hvalid, ?_⟩
  simp only [Table.insertNew_of_some hfound, hfound]
  exact Result.bind_eq_ok.mpr ⟨(), ensure_eq_ok.mpr hmatches, rfl⟩

/-- The migration of the rows of some transactions succeeds exactly if every one of a modern format
is identifiable and no keys clash on the way. It then leaves just the rows that the current writer
offers for them, under their ids, and every one of the transactions finds its row when it is stored
again. -/
theorem migration_keeps_transactions {stored : List (RpcTransaction × LegacyInstanceRow)}
    (hw : ∀ p ∈ stored, WrittenFor lib p.1 p.2) :
    ((∃ migrated, migrate jsonText (stored.map Prod.snd) = .ok migrated) ↔
      (∀ p ∈ stored, Identifiable p.1) ∧ Unclashing jsonText (stored.map Prod.snd)) ∧
    ∀ migrated, migrate jsonText (stored.map Prod.snd) = .ok migrated →
      migrated.map (fun r => r.transactionInstanceId) =
        stored.map (fun p => p.2.transactionInstanceId) ∧
      ∀ p ∈ stored, ∃ r ∈ migrated, r.transactionInstanceId = p.2.transactionInstanceId ∧
        transactionInstanceRow lib p.1 r.transactionInstanceId = .ok r ∧ r.valid = true ∧
        ∀ db : Db, db.transactionInstances.rows = migrated →
          insertInstance lib p.1 db = .ok (r, { db with
            nextTransactionInstanceId := db.nextTransactionInstanceId + 1 }) := by
  have hvalid : ∀ r ∈ stored.map Prod.snd, r.valid = true := by
    intro r hr
    obtain ⟨p, hp, rfl⟩ := List.mem_map.mp hr
    exact (hw p hp).valid
  have hversions : (∀ r ∈ (stored.map Prod.snd).map (LegacyInstanceRow.migrated jsonText),
      r.versionValid = true) ↔ ∀ p ∈ stored, Identifiable p.1 := by
    rw [List.map_map, List.forall_mem_map]
    exact forall₂_congr fun p hp => (hw p hp).versionValid_iff jsonText
  constructor
  · constructor
    · rintro ⟨migrated, h⟩
      obtain ⟨rfl, hclash, hversion⟩ := (migrate_eq_ok hvalid).mp h
      exact ⟨hversions.mp hversion, hclash⟩
    · rintro ⟨hidentifiable, hclash⟩
      exact ⟨_, (migrate_eq_ok hvalid).mpr ⟨rfl, hclash, hversions.mpr hidentifiable⟩⟩
  · intro migrated h
    obtain ⟨rfl, -, hversion⟩ := (migrate_eq_ok hvalid).mp h
    refine ⟨by rw [List.map_map, List.map_map]; rfl, fun p hp => ?_⟩
    have hmem : p.2.migrated jsonText ∈
        (stored.map Prod.snd).map (LegacyInstanceRow.migrated jsonText) :=
      List.mem_map_of_mem (List.mem_map_of_mem hp)
    obtain ⟨hoffered, hrow⟩ := (hw p hp).current (hversions.mp hversion p hp)
    exact ⟨_, hmem, rfl, hoffered, hrow, fun db hdb =>
      insertInstance_stored hoffered hrow (hdb ▸ hmem)⟩

end Store

section Sample

/-- A transaction of a modern format. -/
def storedModern : RpcTransaction where
  txid := List.replicate 64 'd'
  authdigest := some (List.replicate 64 'c')
  version := 5
  size := 20

def storedModernRpc : Json :=
  .object [("authdigest".toList, .string (List.replicate 64 'c')), ("size".toList, .nat 20),
    ("txid".toList, .string (List.replicate 64 'd')), ("version".toList, .nat 5)]

/-- A stored row of a transaction without a raw form, filed under a digest. -/
def sampleLegacyRow (t : RpcTransaction) (digest : Char) (id : Nat) : LegacyInstanceRow where
  transactionInstanceId := id
  txid := t.txid
  authDigest := List.replicate 64 digest
  rawHash := rawTransactionHash targetCrate t none
  rawTransaction := none
  version := t.version
  sizeBytes := t.size
  lockTime := t.locktime
  expiryHeight := t.expiryheight
  isCoinbase := false
  valueBalanceZat := t.valueBalanceZat
  saplingSpendCount := 0
  saplingOutputCount := 0
  orchardActionCount := 0
  ironwoodActionCount := 0
  rawRpc := t.toJson

/-- A legacy transaction filed under a digest the node had made up, and a modern one filed under
its fingerprint. -/
def sampleStored : List (RpcTransaction × LegacyInstanceRow) :=
  [(sampleDecoded, sampleLegacyRow sampleDecoded 'b' 1),
    (storedModern, sampleLegacyRow storedModern '0' 2)]

/-- Both rows are migrated, and both transactions found under their new keys. -/
theorem migration_keeps_transactions_mixed :
    ∃ migrated, migrate Json.toText (sampleStored.map Prod.snd) = .ok migrated ∧
      ∃ r ∈ migrated, r.transactionInstanceId = 2 ∧
        transactionInstanceRow targetCrate storedModern r.transactionInstanceId = .ok r := by
  have hw : ∀ p ∈ sampleStored, WrittenFor targetCrate p.1 p.2 := by
    simp only [sampleStored, List.forall_mem_cons, List.not_mem_nil, false_implies, implies_true,
      and_true]
    exact ⟨⟨⟨sampleRpc namedScript, rfl⟩, ⟨_, _, rfl⟩, by decide +kernel⟩,
      ⟨⟨storedModernRpc, rfl⟩, ⟨_, _, rfl⟩, by decide +kernel⟩⟩
  have hidentifiable : ∀ p ∈ sampleStored, Identifiable p.1 := by
    simp only [sampleStored, List.forall_mem_cons, List.not_mem_nil, false_implies, implies_true,
      and_true]
    refine ⟨fun h => ?_, fun _ => ⟨_, rfl, by decide⟩⟩
    have hlegacy : ¬ (5 : Int) ≤ 4 := by decide
    exact absurd h hlegacy
  have hclash : Unclashing Json.toText (sampleStored.map Prod.snd) := by
    unfold Unclashing
    decide +kernel
  obtain ⟨hok, hkept⟩ := @migration_keeps_transactions targetCrate Json.toText sampleStored hw
  obtain ⟨migrated, h⟩ := hok.mpr ⟨hidentifiable, hclash⟩
  obtain ⟨-, hrows⟩ := hkept migrated h
  obtain ⟨r, hr, hid, hoffered, -⟩ := hrows (storedModern, sampleLegacyRow storedModern '0' 2)
    (by simp [sampleStored])
  exact ⟨migrated, h, r, hr, hid, hoffered⟩

end Sample

end WcashExplorer
