import WcashExplorer.Api.RichList
import WcashExplorer.Api.Traversal
import WcashExplorer.Codec.Decimal
import WcashExplorer.Hex

/-! Finding a block, a transaction or an address by what a client typed. -/
namespace WcashExplorer

open Codec Relational

section Text

/-- `char::is_whitespace`. -/
def isWhitespace (c : Char) : Bool :=
  let n := c.toNat
  (9 ≤ n && n ≤ 13) || n = 0x20 || n = 0x85 || n = 0xa0 || n = 0x1680 ||
    (0x2000 ≤ n && n ≤ 0x200a) || n = 0x2028 || n = 0x2029 || n = 0x202f || n = 0x205f ||
    n = 0x3000

/-- `str::trim`. -/
def Text.trim (t : Text) : Text :=
  ((t.dropWhile isWhitespace).reverse.dropWhile isWhitespace).reverse

/-- `parse::<u64>`: decimal digits, with or without a plus sign before them. -/
def parseU64 (t : Text) : Option Nat :=
  let digits := if t.head? = some '+' then t.tail else t
  if !digits.isEmpty && digits.all isDigit && numeralValue digits ≤ u64Max then
    some (numeralValue digits)
  else none

/-- `ensure_hash` of the API. -/
def requestHash (label : String) (value : Text) : Result Unit :=
  ensure (isHash value) (.invalidRequest s!"{label} must be exactly 32 bytes of hexadecimal")

end Text

section Block

structure BlockDetailRow where
  summary : BlockSummaryRow
  previousBlockHash : Option Text
  nextBlockHash : Option Text
  merkleRoot : Text
  blockCommitments : Option Text
  nonce : Text

/-- The row of one canonical block, with the hash of the next one. -/
def blockDetailRow (db : Db) (x : ChainBlock) : Result BlockDetailRow := do
  let (c, b, w) := x
  let summary ← blockSummaryRow db c b w
  let next ← asBigint (c.height + 1)
  .ok
    { summary
      previousBlockHash := b.previousBlockHash
      nextBlockHash := (db.canonicalChain.find? (c.networkId, next.toNat)).map
        CanonicalRow.blockHash
      merkleRoot := b.merkleRoot
      blockCommitments := b.blockCommitments
      nonce := b.nonce }

/-- `BLOCK_DETAIL_QUERY`; a null argument equals nothing. -/
def blockDetailQuery (db : Db) (networkId : Text) (height : Option Nat) (hash : Option Text) :
    Result (Option BlockDetailRow) :=
  match (chainBlocks db networkId).find? fun x =>
      height = some x.1.height || hash = some x.1.blockHash with
  | some x => (blockDetailRow db x).map some
  | none => .ok none

def orNotFound {α : Type} (found : Option α) : Result α :=
  match found with
  | some a => .ok a
  | none => .error .notFound

/-- What reads as a number is a height, and anything else has to be a hash. -/
def blockArguments (id : Text) : Result (Option Nat × Option Text) :=
  match parseU64 id with
  | some height => (requestToI64 height "block height").map fun height => (some height, none)
  | none => (requestHash "block hash" id).map fun _ => (none, some id)

/-- `find_block`. -/
def findBlock (network : NetworkConfig) (id : Text) (db : Db) : Result BlockDetailRow := do
  let (height, hash) ← blockArguments id
  let row ← blockDetailQuery db network.id height hash
  orNotFound row

end Block

section Transaction

/-- Where the canonical chain places a transaction id, in one block if it is named. -/
def placementsOf (db : Db) (networkId txid : Text) (block : Option Text) : List ChainTransaction :=
  (chainTransactions db networkId).filter fun x =>
    x.stored.txid = txid && block.all fun hash => x.selector.blockHash = hash

def latestPlacement (db : Db) (networkId txid : Text) (block : Option Text) :
    Option ChainTransaction :=
  (orderBy (fun x => OrderDual.toDual x.selector.height)
    (placementsOf db networkId txid block)).head?

/-- `TRANSACTION_DETAIL_QUERY`. -/
def transactionDetailQuery (db : Db) (networkId txid : Text) (block : Option Text) :
    Result (Option TransactionSummaryRow) :=
  match latestPlacement db networkId txid block with
  | some x => (transactionSummaryRow db x).map some
  | none => .ok none

structure InputView where
  inputIndex : Nat
  previousTxid : Option Text
  previousOutputIndex : Option Nat
  coinbaseData : Option Text
  sequence : Option Nat

structure OutputView where
  index : Nat
  value : AmountView
  address : Option Text
  scriptType : Option Text
  scriptHex : Option Text

structure TransactionDetail where
  summary : TransactionSummary
  inputs : List InputView
  outputs : List OutputView
  rawRpc : Json

def inputViews (db : Db) (id : Nat) : List InputView :=
  (orderBy TransparentInputRow.inputIndex (instanceInputs db id)).map fun i =>
    { inputIndex := i.inputIndex
      previousTxid := i.previousTxid
      previousOutputIndex := i.previousOutputIndex
      coinbaseData := i.coinbaseData
      sequence := i.sequence }

def outputViews (network : NetworkProfile) (db : Db) (id : Nat) : List OutputView :=
  (orderBy TransparentOutputRow.outputIndex (instanceOutputs db id)).map fun o =>
    { index := o.outputIndex
      value := amount network o.valueZat
      address := o.address
      scriptType := o.scriptType
      scriptHex := o.scriptHex }

/-- A column of the one row of a primary key. -/
def storedRawRpc (db : Db) (id : Nat) : Result Json :=
  match instanceById db id with
  | some t => .ok t.rawRpc
  | none => .error .database

/-- `GET /tx/{txid}`: its statements, each on the state it sees. -/
def transaction (network : NetworkProfile) (txid : Text) (block : Option Text) (seen : ℕ → Db)
    (now : Timestamp) : Result (ApiEnvelope TransactionDetail) := do
  requestHash "transaction ID" txid
  let _ ← optional (requestHash "block hash") block
  let chain ← chainStateRow (seen 0) network
  let found ← transactionDetailQuery (seen 1) network.id txid block
  let row ← orNotFound found
  let inputs := inputViews (seen 2) row.transactionInstanceId
  let outputs := outputViews network (seen 3) row.transactionInstanceId
  let rawRpc ← storedRawRpc (seen 4) row.transactionInstanceId
  .ok (envelope network
    { summary := TransactionSummary.fromRow network row, inputs, outputs, rawRpc } none chain now)

end Transaction

section Search

/-- The addresses of the networks, as the address library reads and writes them. -/
structure AddressCrate where
  Address : Type
  newMainnet : Except String Unit
  parseWcash : Text → Text → Option Address
  encodeWcash : Text → Address → Option Text

/-- The networks whose addresses are known. -/
def addressNetwork (lib : AddressCrate) (id : Text) : Result Unit :=
  if id = "testnet".toList || id = "regtest".toList then .ok ()
  else if id = "mainnet".toList then
    match lib.newMainnet with
    | .ok _ => .ok ()
    | .error error => .error (.config s!"Wcash Mainnet profile is unavailable: {error}")
  else .error (.config s!"unsupported Wcash address network {id.str}")

/-- `validate_address`: a known network, and the address in its canonical spelling. -/
def validateAddress (lib : AddressCrate) (value : Text) (network : NetworkConfig) : Result Text := do
  addressNetwork lib network.id
  let invalid := s!"address is not a valid Wcash {network.id.str} transparent address"
  match lib.parseWcash network.id value with
  | none => .error (.invalidRequest invalid)
  | some address =>
    match lib.encodeWcash network.id address with
    | none => .error (.invalidRequest "address has an invalid Wcash encoding")
    | some text => .ok text

inductive SearchKind
  | block
  | transaction
  | address
  deriving DecidableEq, Repr

structure SearchResult where
  kind : SearchKind
  id : Text
  route : Text
  deriving DecidableEq

namespace SearchResult

def block (needle : Text) : SearchResult := ⟨.block, needle, "/block/".toList ++ needle⟩

def transaction (needle : Text) : SearchResult := ⟨.transaction, needle, "/tx/".toList ++ needle⟩

def address (address : Text) : SearchResult := ⟨.address, address, "/address/".toList ++ address⟩

end SearchResult

/-- Some canonical transaction pays the address. -/
def paysAddress (db : Db) (networkId address : Text) : Bool :=
  (canonicalRows db networkId).any fun c => (witnessPlacements db c).any fun r =>
    (instanceOutputs db r.transactionInstanceId).any fun o => o.address = some address

/-- What the needle names: first as a height, then as a hash, and last as an address. -/
def named (lib : AddressCrate) (network : NetworkProfile) (needle : Text) (db : Db) :
    Result (Option SearchResult) :=
  match parseU64 needle with
  | some height => do
    let height ← requestToI64 height "height"
    .ok (if (db.canonicalChain.find? (network.id, height)).isSome then
      some (.block needle) else none)
  | none =>
    if isHash needle then
      .ok (if (canonicalRows db network.id).any fun c => c.blockHash = needle then
          some (.block needle)
        else if (placedInstances db network.id).any fun t => t.txid = needle then
          some (.transaction needle)
        else none)
    else do
      let address ← validateAddress lib needle network.toNetworkConfig
      .ok (if paysAddress db network.id address then some (.address address) else none)

/-- `GET /search`, all of it read from one snapshot. -/
def search (lib : AddressCrate) (network : NetworkProfile) (q : Text) (db : Db) (now : Timestamp) :
    Result (ApiEnvelope SearchResult) := do
  let needle := q.trim
  ensure (!needle.isEmpty && needle.len ≤ 256)
    (.invalidRequest "search query must contain between 1 and 256 characters")
  let chain ← chainStateRow db network
  let found ← named lib network needle db
  let result ← orNotFound found
  .ok (envelope network result none chain now)

end Search

end WcashExplorer
