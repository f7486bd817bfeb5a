import WcashExplorer.Calls

/-! The strict JSON-RPC client: what is checked before a request and after its answer. -/
namespace WcashExplorer

open Effects

def maxRpcResponseBytes : Nat := 32 * 1024 * 1024

/-- `validate_hash`. -/
def validateHash (value : Text) : Result Unit :=
  ensure (isHash value) (.invalidRequest "block hash must be exactly 32 bytes of hexadecimal")

/-- `decode_hex_bounded`. -/
def decodeHexBounded (label : String) (value : Text) (maximumBytes : Nat) : Result Bytes :=
  if value.len % 2 ≠ 0 || value.len / 2 > maximumBytes then
    .error (.invalidNodeResponse s!"{label} has an invalid encoded length")
  else
    match hexDecode value with
    | .ok bytes => .ok bytes
    | .error error => .error (.invalidNodeResponse s!"{label} is not hexadecimal: {error}")

namespace Wcash

/-- Current node network and tip metadata. -/
def blockchainInfo : Action BlockchainInfo := .ask RpcCall.blockchainInfo orFail

/-- The canonical block hash at `height`. -/
def blockHash (height : Nat) : Action Text := .ask (RpcCall.blockHash height) orFail

/-- A block with fully decoded transactions, beside its raw JSON. -/
def blockVerbose (hash : Text) : Action (RpcBlock × Json) := do
  orFail (validateHash hash)
  .ask (RpcCall.blockVerbose hash) orFail

/-- Canonical serialized block bytes. -/
def blockRaw (hash : Text) : Action Bytes := do
  orFail (validateHash hash)
  let encoded : Text ← .ask (RpcCall.blockRaw hash) orFail
  orFail (decodeHexBounded "raw block" encoded (maxRpcResponseBytes / 2))

/-- The exact witness-bound chain state. -/
def auxBlockStatus (hash proofHex : Text) : Action AuxStatus := do
  orFail (validateHash hash)
  orFail (ensure (proofHex.len ≤ 512 * 1024 && proofHex.len % 2 = 0)
    (.invalidRequest "AuxPoW proof has an invalid encoded length"))
  .ask (RpcCall.auxBlockStatus hash proofHex) orFail

end Wcash

namespace Parent

/-- Looks up an exact parent block hash on one of the parent nodes. -/
def parentBlock (parent : Nat) (hash : Text) : Action ParentBlock := do
  orFail (validateHash hash)
  .ask (RpcCall.parentBlock parent hash) orFail

def blockRaw (parent : Nat) (hash : Text) : Action Bytes := do
  orFail (validateHash hash)
  let encoded : Text ← .ask (RpcCall.parentRaw parent hash) orFail
  orFail (decodeHexBounded "raw block" encoded (maxRpcResponseBytes / 2))

end Parent

/-- `Utc::now`. -/
def utcNow : Action Timestamp := .ask RpcCall.utcNow .ret

end WcashExplorer
