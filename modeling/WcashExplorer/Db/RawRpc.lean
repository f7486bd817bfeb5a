import WcashExplorer.AuxPow.Target
import WcashExplorer.Db.InsertBlock
import WcashExplorer.Serde

/-! Decoding a transaction of the node, and what its stored JSON holds of the original. -/
namespace WcashExplorer

open Json

namespace ScriptPubKey

def names : List Text :=
  ["asm".toList, "hex".toList, "type".toList, "address".toList, "addresses".toList]

/-- An item of a record given as a list; the missing ones take their defaults. -/
def positional {α : Type} (decode : Json → Option α) (absent : α) (items : List Json) (i : Nat) :
    Option α :=
  match items[i]? with
  | none => some absent
  | some value => decode value

/-- The derived decoder. No member is kept that it does not name, and a list of at most five items
is read as the five members in their order. -/
def fromJson : Json → Option ScriptPubKey
  | .object members => do
    let asm ← defaulted (decodeOption decodeString) none members "asm".toList
    let hex ← defaulted (decodeOption decodeString) none members "hex".toList
    let scriptType ← defaulted (decodeOption decodeString) none members "type".toList
    let address ← defaulted (decodeOption decodeString) none members "address".toList
    let addresses ← defaulted (decodeArray decodeString) [] members "addresses".toList
    return { asm, hex, scriptType, address, addresses }
  | .array items =>
    if 5 < items.length then none
    else do
      let asm ← positional (decodeOption decodeString) none items 0
      let hex ← positional (decodeOption decodeString) none items 1
      let scriptType ← positional (decodeOption decodeString) none items 2
      let address ← positional (decodeOption decodeString) none items 3
      let addresses ← positional (decodeArray decodeString) [] items 4
      return { asm, hex, scriptType, address, addresses }
  | _ => none

end ScriptPubKey

namespace RpcOutput

def names : List Text := ["valueZat".toList, "n".toList, "scriptPubKey".toList]

def fromJson : Json → Option RpcOutput
  | .object members => do
    let valueZat ← required decodeI64 members "valueZat".toList
    let n ← required (decodeUnsigned u32Max) members "n".toList
    let scriptPubKey ← required ScriptPubKey.fromJson members "scriptPubKey".toList
    return { valueZat, n, scriptPubKey, extra := flattened names members }
  | _ => none

end RpcOutput

namespace RpcInput

def names : List Text :=
  ["txid".toList, "vout".toList, "coinbase".toList, "sequence".toList, "scriptSig".toList]

def fromJson : Json → Option RpcInput
  | .object members => do
    let txid ← defaulted (decodeOption decodeString) none members "txid".toList
    let vout ← defaulted (decodeOption (decodeUnsigned u32Max)) none members "vout".toList
    let coinbase ← defaulted (decodeOption decodeString) none members "coinbase".toList
    let sequence ← defaulted (decodeOption (decodeUnsigned u64Max)) none members "sequence".toList
    let scriptSig ← defaulted (decodeOption some) none members "scriptSig".toList
    return { txid, vout, coinbase, sequence, scriptSig, extra := flattened names members }
  | _ => none

end RpcInput

namespace RpcTransaction

def names : List Text :=
  ["txid".toList, "authdigest".toList, "version".toList, "size".toList, "locktime".toList,
    "expiryheight".toList, "vin".toList, "vout".toList, "vShieldedSpend".toList,
    "vShieldedOutput".toList, "orchard".toList, "ironwood".toList, "valueBalanceZat".toList,
    "hex".toList]

def fromJson : Json → Option RpcTransaction
  | .object members => do
    let txid ← required decodeString members "txid".toList
    let authdigest ← defaulted (decodeOption decodeString) none members "authdigest".toList
    let version ← required decodeI64 members "version".toList
    let size ← required (decodeUnsigned u64Max) members "size".toList
    let locktime ← defaulted (decodeUnsigned u64Max) 0 members "locktime".toList
    let expiryheight ← defaulted (decodeUnsigned u64Max) 0 members "expiryheight".toList
    let vin ← defaulted (decodeArray RpcInput.fromJson) [] members "vin".toList
    let vout ← defaulted (decodeArray RpcOutput.fromJson) [] members "vout".toList
    let shieldedSpends ← defaulted (decodeArray some) [] members "vShieldedSpend".toList
    let shieldedOutputs ← defaulted (decodeArray some) [] members "vShieldedOutput".toList
    let orchard ← defaulted (decodeOption some) none members "orchard".toList
    let ironwood ← defaulted (decodeOption some) none members "ironwood".toList
    let valueBalanceZat ← defaulted (decodeOption decodeI64) none members "valueBalanceZat".toList
    let hex ← defaulted (decodeOption decodeString) none members "hex".toList
    return { txid, authdigest, version, size, locktime, expiryheight, vin, vout, shieldedSpends,
             shieldedOutputs, orchard, ironwood, valueBalanceZat, hex,
             extra := flattened names members }
  | _ => none

end RpcTransaction

/-- A script that is an object of the five members the record names, in any number. -/
def ScriptNamed (j : Json) : Prop :=
  ∃ members, j = .object members ∧
    ∀ key value, get? members key = some value → key ∈ ScriptPubKey.names

/-- Every script of the transaction's outputs is such an object. -/
def ScriptsNamed (j : Json) : Prop :=
  ∀ members outputs output fields script, j = .object members →
    get? members "vout".toList = some (.array outputs) → output ∈ outputs →
      output = .object fields → get? fields "scriptPubKey".toList = some script → ScriptNamed script

section Scripts

theorem ScriptPubKey.preservesWhen :
    PreservesWhen ScriptPubKey.fromJson ScriptPubKey.toJson ScriptNamed := by
  intro j script h
  match j, h with
  | .object members, h =>
    simp only [fromJson, Option.bind_eq_bind, Option.bind_eq_some_iff, Option.pure_def,
      Option.some.injEq] at h
    obtain ⟨asm, hasm, hex, hhex, scriptType, htype, address, haddress, h⟩ := h
    obtain ⟨addresses, haddresses, rfl⟩ := h
    have hstring := preserves_option preserves_string
    have hlist := defaulted_held (preserves_array preserves_string) haddresses
    rw [toJson, within_named (by rfl) (by decide : ScriptPubKey.names.Nodup)]
    · constructor
      · exact fun hnamed => ⟨members, rfl, hnamed⟩
      · rintro ⟨members', heq, hnamed⟩
        obtain rfl := Json.object.inj heq
        exact hnamed
    · simp only [List.forall_mem_cons, List.not_mem_nil, false_implies, implies_true, and_true]
      exact ⟨defaulted_held hstring hasm, defaulted_held hstring hhex,
        defaulted_held hstring htype, defaulted_held hstring haddress, hlist⟩
  | .array items, h =>
    refine iff_of_false (fun hwithin => ?_) ?_
    · rw [toJson, ofMembers] at hwithin
      cases hwithin
    · rintro ⟨members, heq, -⟩
      cases heq

/-- A member of an object is good. -/
def MemberGood (key : Text) (good : Json → Prop) (j : Json) : Prop :=
  ∀ members value, j = .object members → get? members key = some value → good value

theorem RpcOutput.preservesWhen :
    PreservesWhen RpcOutput.fromJson RpcOutput.toJson
      (MemberGood "scriptPubKey".toList ScriptNamed) := by
  intro j output h
  match j, h with
  | .object members, h =>
    simp only [fromJson, Option.bind_eq_bind, Option.bind_eq_some_iff, Option.pure_def,
      Option.some.injEq] at h
    obtain ⟨valueZat, hvalue, n, hn, script, hscript, rfl⟩ := h
    rw [toJson, within_flattened (by rfl) (by decide : RpcOutput.names.Nodup)]
    simp only [List.forall_mem_cons, List.not_mem_nil, false_implies, implies_true, and_true,
      iff_true_intro (required_held preserves_i64 hvalue),
      iff_true_intro (required_held (preserves_unsigned _) hn), true_and,
      required_iff ScriptPubKey.preservesWhen hscript]
    constructor
    · rintro hgood members' value heq hmember
      obtain rfl := Json.object.inj heq
      exact hgood value hmember
    · exact fun hgood value hmember => hgood members value rfl hmember

theorem RpcInput.preserves : Preserves RpcInput.fromJson RpcInput.toJson := by
  intro j input h
  match j, h with
  | .object members, h =>
    simp only [fromJson, Option.bind_eq_bind, Option.bind_eq_some_iff, Option.pure_def,
      Option.some.injEq] at h
    obtain ⟨txid, htxid, vout, hvout, coinbase, hcoinbase, sequence, hsequence, script, hscript,
      rfl⟩ := h
    have hstring := preserves_option preserves_string
    rw [toJson, within_flattened (by rfl) (by decide : RpcInput.names.Nodup)]
    simp only [List.forall_mem_cons, List.not_mem_nil, false_implies, implies_true, and_true]
    exact ⟨defaulted_held hstring htxid,
      defaulted_held (preserves_option (preserves_unsigned _)) hvout,
      defaulted_held hstring hcoinbase,
      defaulted_held (preserves_option (preserves_unsigned _)) hsequence,
      defaulted_held (preserves_option preserves_value) hscript⟩

theorem RpcTransaction.preservesWhen :
    PreservesWhen RpcTransaction.fromJson RpcTransaction.toJson
      (MemberGood "vout".toList fun j => ∀ outputs, j = .array outputs →
        ∀ output ∈ outputs, MemberGood "scriptPubKey".toList ScriptNamed output) := by
  intro j t h
  match j, h with
  | .object members, h =>
    rw [fromJson] at h
    obtain ⟨txid, htxid, h⟩ := Option.bind_eq_some_iff.mp h
    obtain ⟨authdigest, hauthdigest, h⟩ := Option.bind_eq_some_iff.mp h
    obtain ⟨version, hversion, h⟩ := Option.bind_eq_some_iff.mp h
    obtain ⟨size, hsize, h⟩ := Option.bind_eq_some_iff.mp h
    obtain ⟨locktime, hlocktime, h⟩ := Option.bind_eq_some_iff.mp h
    obtain ⟨expiryheight, hexpiryheight, h⟩ := Option.bind_eq_some_iff.mp h
    obtain ⟨vin, hvin, h⟩ := Option.bind_eq_some_iff.mp h
    obtain ⟨vout, hvout, h⟩ := Option.bind_eq_some_iff.mp h
    obtain ⟨spends, hspends, h⟩ := Option.bind_eq_some_iff.mp h
    obtain ⟨outputs, houtputs, h⟩ := Option.bind_eq_some_iff.mp h
    obtain ⟨orchard, horchard, h⟩ := Option.bind_eq_some_iff.mp h
    obtain ⟨ironwood, hironwood, h⟩ := Option.bind_eq_some_iff.mp h
    obtain ⟨balance, hbalance, h⟩ := Option.bind_eq_some_iff.mp h
    obtain ⟨hex, hhex, h⟩ := Option.bind_eq_some_iff.mp h
    obtain rfl := Option.some.inj h
    have hstring := preserves_option preserves_string
    have hvalues := preserves_array preserves_value
    have hvalue := preserves_option preserves_value
    -- what each member decoded to is encoded back
    have htxid := required_held preserves_string htxid
    have hauthdigest := defaulted_held hstring hauthdigest
    have hversion := required_held preserves_i64 hversion
    have hsize := required_held (preserves_unsigned _) hsize
    have hlocktime := defaulted_held (preserves_unsigned _) hlocktime
    have hexpiryheight := defaulted_held (preserves_unsigned _) hexpiryheight
    have hvin := defaulted_held (preserves_array RpcInput.preserves) hvin
    have hspends := defaulted_held hvalues hspends
    have houtputs := defaulted_held hvalues houtputs
    have horchard := defaulted_held hvalue horchard
    have hironwood := defaulted_held hvalue hironwood
    have hbalance := defaulted_held (preserves_option preserves_i64) hbalance
    have hhex := defaulted_held hstring hhex
    have hscripts := defaulted_iff (preservesWhen_array RpcOutput.preservesWhen) hvout
    simp only [List.map_id] at hspends houtputs
    rw [toJson, within_flattened (by rfl) (by decide : RpcTransaction.names.Nodup)]
    repeat rw [List.forall_mem_cons]
    constructor
    · rintro ⟨-, -, -, -, -, -, -, hheld, -⟩ members' value heq hmember
      obtain rfl := Json.object.inj heq
      exact hscripts.mp hheld value hmember
    · intro hgood
      have hheld := hscripts.mpr fun value hmember => hgood members value rfl hmember
      exact ⟨htxid, hauthdigest, hversion, hsize, hlocktime, hexpiryheight, hvin, hheld, hspends,
        houtputs, horchard, hironwood, hbalance, hhex, fun _ hnone => absurd hnone List.not_mem_nil⟩

theorem scriptsNamed_iff {j : Json} :
    ScriptsNamed j ↔ MemberGood "vout".toList (fun j => ∀ outputs, j = .array outputs →
      ∀ output ∈ outputs, MemberGood "scriptPubKey".toList ScriptNamed output) j := by
  constructor
  · intro h members value hj hvalue outputs hvout output hmem fields script hfields hscript
    subst hvout
    exact h members outputs output fields script hj hvalue hmem hfields hscript
  · intro h members outputs output fields script hj hvalue hmem hfields hscript
    exact h members _ hj hvalue outputs rfl output hmem fields script hfields hscript

theorem transactionInstanceRow_rawRpc {lib : AuxPowCrate} {t : RpcTransaction} {id : Nat}
    {row : TransactionInstanceRow} (h : transactionInstanceRow lib t id = .ok row) :
    row.rawRpc = t.toJson := by
  simp only [transactionInstanceRow, Result.bind_eq_ok] at h
  obtain ⟨raw, -, -, -, digest, -, size, -, lock, -, expiry, -, spends, -, outputs, -, h⟩ := h
  rw [← Except.ok.inj h]

end Scripts

/-- The stored JSON of a transaction holds the node's object exactly when every output script of it
is an object of members the script record names: the other records keep what they do not name. -/
theorem raw_rpc_lossless_iff {lib : AuxPowCrate} {j : Json} {t : RpcTransaction} {id : Nat}
    {row : TransactionInstanceRow} (hdecode : RpcTransaction.fromJson j = some t)
    (hrow : transactionInstanceRow lib t id = .ok row) :
    Within j row.rawRpc ↔ ScriptsNamed j := by
  rw [transactionInstanceRow_rawRpc hrow, scriptsNamed_iff]
  exact RpcTransaction.preservesWhen j t hdecode

section Sample

/-- A transaction with members no record names, beside the given ones of its output script. -/
def sampleRpc (script : List (Text × Json)) : Json :=
  .object [("blocktime".toList, .nat 7), ("size".toList, .nat 10),
    ("txid".toList, .string (List.replicate 64 'a')), ("version".toList, .nat 4),
    ("vout".toList, .array [.object [("n".toList, .nat 0), ("scriptPubKey".toList, .object script),
      ("spent".toList, .bool true), ("valueZat".toList, .nat 5)]])]

def sampleDecoded : RpcTransaction where
  txid := List.replicate 64 'a'
  version := 4
  size := 10
  vout := [{ valueZat := 5, n := 0, scriptPubKey := { hex := some ['5', '1'] },
             extra := [("spent".toList, .bool true)] }]
  extra := [("blocktime".toList, .nat 7)]

def namedScript : List (Text × Json) := [("hex".toList, .string ['5', '1'])]

/-- The node reports the required signatures beside the script itself. -/
def signedScript : List (Text × Json) := namedScript ++ [("reqSigs".toList, .nat 1)]

theorem sampleRpc_named : RpcTransaction.fromJson (sampleRpc namedScript) = some sampleDecoded := rfl

theorem sampleRpc_signed : RpcTransaction.fromJson (sampleRpc signedScript) = some sampleDecoded :=
  rfl

theorem sampleRow_ok : ∃ row, transactionInstanceRow targetCrate sampleDecoded 0 = .ok row :=
  ⟨_, rfl⟩

theorem sampleRpc_scriptsNamed : ScriptsNamed (sampleRpc namedScript) := by
  rintro members outputs output fields script ⟨⟩ ⟨⟩ hmem hfields hscript
  rw [List.mem_singleton.mp hmem] at hfields
  obtain rfl := Json.object.inj hfields
  obtain rfl := Option.some.inj hscript
  refine ⟨namedScript, rfl, fun key value hvalue => ?_⟩
  rw [namedScript, get?_cons] at hvalue
  by_cases hkey : "hex".toList = key
  · rw [← hkey]
    decide
  · rw [if_neg hkey] at hvalue
    cases hvalue

/-- Members beside the script record survive. -/
theorem raw_rpc_lossless_iff_named :
    ∃ row, transactionInstanceRow targetCrate sampleDecoded 0 = .ok row ∧
      Within (sampleRpc namedScript) row.rawRpc := by
  obtain ⟨row, hrow⟩ := sampleRow_ok
  exact ⟨row, hrow, (raw_rpc_lossless_iff sampleRpc_named hrow).mpr sampleRpc_scriptsNamed⟩

/-- The required signatures of a script are decoded away and missing from the stored JSON. -/
theorem required_signatures_dropped :
    RpcTransaction.fromJson (sampleRpc signedScript) = some sampleDecoded ∧
      ∃ row, transactionInstanceRow targetCrate sampleDecoded 0 = .ok row ∧
        ¬ Within (sampleRpc signedScript) row.rawRpc := by
  obtain ⟨row, hrow⟩ := sampleRow_ok
  refine ⟨sampleRpc_signed, row, hrow, fun hwithin => ?_⟩
  rw [transactionInstanceRow_rawRpc hrow] at hwithin
  have hnamed := scriptsNamed_iff.mpr
    ((RpcTransaction.preservesWhen _ _ sampleRpc_signed).mp hwithin)
  obtain ⟨members, hscript, hnames⟩ := hnamed _ _ _ _ _ rfl rfl List.mem_cons_self rfl rfl
  obtain rfl := Json.object.inj hscript
  exact absurd (hnames "reqSigs".toList (.nat 1) rfl) (by decide)

end Sample

end WcashExplorer
