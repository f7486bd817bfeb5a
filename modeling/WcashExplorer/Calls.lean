import WcashExplorer.Models
import WcashExplorer.Effects.Program

/-! Everything the indexer asks of its nodes and issues on its database. -/
namespace WcashExplorer

open Effects

/-- A question to the Wcash node, to one of the configured parent nodes, or to the clock. -/
inductive RpcCall
  | blockchainInfo
  | blockHash (height : Nat)
  | blockVerbose (hash : Text)
  | blockRaw (hash : Text)
  | auxBlockStatus (blockHash proofHex : Text)
  | parentBlock (parent : Nat) (hash : Text)
  | parentRaw (parent : Nat) (hash : Text)
  | utcNow
  deriving DecidableEq

/-- A question to the Wcash node itself. -/
def RpcCall.isWcash : RpcCall → Bool
  | parentBlock _ _ => false
  | parentRaw _ _ => false
  | utcNow => false
  | _ => true

/-- Transport, protocol and decoding failures are answers like any other. -/
def RpcCall.Answer : RpcCall → Type
  | blockchainInfo => Result BlockchainInfo
  | blockHash _ => Result Text
  | blockVerbose _ => Result (RpcBlock × Json)
  | blockRaw _ => Result Text
  | auxBlockStatus _ _ => Result AuxStatus
  | parentBlock _ _ => Result ParentBlock
  | parentRaw _ _ => Result Text
  | utcNow => Timestamp

/-- Canonical chain tip persisted by the indexer. -/
structure ChainTip where
  height : Nat
  blockHash : Text
  witnessHash : Text
  deriving DecidableEq

/-- The status column of `chain_state`. -/
inductive ChainStatus
  | starting
  | syncing
  | ready
  | error
  deriving DecidableEq, Repr

/-- One method of the database, each of them one transaction. -/
inductive DbCall
  | canonicalTip (networkId : Text)
  | canonicalHash (networkId : Text) (height : Nat)
  | evidenceRefreshCandidate (networkId : Text) (depth : Nat)
  | commitBlock (networkId : Text) (indexed : IndexedBlock)
  | refreshBlockEvidence (networkId : Text) (indexed : IndexedBlock)
  | replaceCanonicalBranch (networkId : Text) (oldTip : ChainTip)
      (ancestor : Option (Nat × Text)) (replacement : List IndexedBlock)
  | observeNodeTip (networkId : Text) (nodeHeight : Nat) (nodeHash : Text)
  | updateNodeTip (networkId : Text) (nodeHeight : Nat) (nodeHash : Text)
      (status : ChainStatus) (error : Option Text)
  | markIndexerError (networkId : Text) (error : Text)

def DbCall.Result : DbCall → Type
  | canonicalTip _ => Option ChainTip
  | canonicalHash _ _ => Option Text
  | evidenceRefreshCandidate _ _ => Option (Nat × Text)
  | _ => Unit

/-- The explorer's interactions. -/
abbrev explorer : Signature where
  Query := RpcCall
  Answer := RpcCall.Answer
  Txn := DbCall
  Result := DbCall.Result
  Error := ExplorerError

/-- A program of the explorer. -/
abbrev Action (α : Type) : Type := Prog explorer α

/-- The `?` operator on a result at hand. -/
abbrev orFail {α : Type} (r : Result α) : Action α := Prog.ofExcept r

end WcashExplorer
