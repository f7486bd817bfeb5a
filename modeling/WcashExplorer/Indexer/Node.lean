import WcashExplorer.Indexer.History

/-! Nodes that serve a chain of blocks, and environments made of them. -/
namespace WcashExplorer

open Effects Relational

/-- A block as a node serves it: decoded, as JSON, and serialized in hexadecimal. -/
structure NodeBlock where
  block : RpcBlock
  raw : Json
  encoded : Text

/-- The answers of a Wcash node with one chain at a time; it has no parent node beside it. -/
def nodeAnswer (chainName : Text) (chain : List NodeBlock) (now : Timestamp) :
    (q : RpcCall) → q.Answer
  | .blockchainInfo => .ok { chain := chainName, blocks := chain.length - 1 }
  | .blockHash height =>
    match chain[height]? with
    | some b => .ok b.block.hash
    | none => .error (.rpc (-8) "block height not in best chain")
  | .blockVerbose hash =>
    match chain.find? fun b => b.block.hash = hash with
    | some b => .ok (b.block, b.raw)
    | none => .error (.rpc (-8) "block not found")
  | .blockRaw hash =>
    match chain.find? fun b => b.block.hash = hash with
    | some b => .ok b.encoded
    | none => .error (.rpc (-8) "block not found")
  | .auxBlockStatus hash proofHex =>
    match chain.find? fun b => b.block.hash = hash && b.block.solution = proofHex with
    | some _ => .ok (.bestChain 1)
    | none => .ok .unknown
  | .parentBlock _ _ => .error .rpcTransport
  | .parentRaw _ _ => .error .rpcTransport
  | .utcNow => now

/-- A node whose chain may be another one at every call. -/
def nodeEnvironment (chainName : Text) (chainAt : Trace → List NodeBlock) (world : World) :
    Environment explorer World where
  answer := fun tr q => nodeAnswer chainName (chainAt tr) world.now q
  clock := fun _ => world

/-- One whole round of a writer against an environment. -/
def Indexer.round {lib : AuxPowCrate} (self : Indexer lib) (env : Environment explorer World)
    (db : Db) : Db := (self.tick.runWith (exec lib) env [] db).2.2

/-- What happens in it. -/
def Indexer.roundTrace {lib : AuxPowCrate} (self : Indexer lib)
    (env : Environment explorer World) (db : Db) : Trace :=
  (self.tick.runWith (exec lib) env [] db).1

theorem History.round {lib : AuxPowCrate} {networkId : Text} {P : PassProperty lib} {start db : Db}
    {indexer : Indexer lib} {env : Environment explorer World}
    (h : History lib networkId P start db) (hn : indexer.network.id = networkId)
    (hP : P indexer db (indexer.roundTrace env db)) :
    History lib networkId P start (indexer.round env db) := by
  obtain ⟨tr, htr, hrun⟩ := Prog.runWith_run (exec lib) env indexer.tick [] db
  have htrace : indexer.roundTrace env db = tr := htr
  exact h.pass hn hrun (htrace ▸ hP)

/-- One pass of the synchronizer by itself against an environment. -/
def Indexer.pass {lib : AuxPowCrate} (self : Indexer lib) (env : Environment explorer World)
    (db : Db) : Trace × Except ExplorerError SyncOutcome × Db :=
  self.syncOnce.runWith (exec lib) env [] db

theorem Indexer.pass_run {lib : AuxPowCrate} (self : Indexer lib)
    (env : Environment explorer World) (db : Db) :
    Run (exec lib) (self.syncOnce, db) (self.pass env db).1
      (Prog.ofExcept (self.pass env db).2.1, (self.pass env db).2.2) := by
  obtain ⟨tr, htr, hrun⟩ := Prog.runWith_run (exec lib) env self.syncOnce [] db
  have htrace : (self.pass env db).1 = tr := htr
  exact htrace ▸ hrun

/-- The event is no answer of another hash for a height. -/
def keepsTo (height : Nat) (hash : Text) : Event explorer World → Bool
  | .asked (.blockHash h) (.ok answer) => h != height || answer = hash
  | .asked (.blockHash h) (.error _) => h != height
  | _ => true

theorem answers_of_keepsTo {tr : Trace} {height : Nat} {hash : Text}
    (h : tr.all (keepsTo height hash) = true) :
    ∀ r, asked (.blockHash height) r ∈ tr → r = .ok hash := by
  intro r hr
  have hkeeps := List.all_eq_true.mp h _ hr
  cases r with
  | ok answer =>
    have hanswer : answer = hash := by simpa [keepsTo] using hkeeps
    rw [hanswer]
  | error e => simp [keepsTo] at hkeeps

/-- A store in which one network is initialized and everything else is empty. -/
def initialDb (networkId : Text) : Db where
  chainState := Table.empty.insertNew { networkId, updatedAt := 0 }

theorem initialDb_empty (networkId : Text) : EmptyNetwork networkId (initialDb networkId) where
  selector := by simp [initialDb]
  state := ⟨0, by simp [initialDb, Table.find?_insertNew]⟩
  events := by simp [initialDb]

theorem Reachable.initial {lib : AuxPowCrate} (networkId : Text) :
    Reachable lib networkId (initialDb networkId) :=
  ⟨_, initialDb_empty networkId, .refl _⟩

theorem Reachable.round {lib : AuxPowCrate} {networkId : Text} {db : Db} {indexer : Indexer lib}
    {env : Environment explorer World} (h : Reachable lib networkId db)
    (hn : indexer.network.id = networkId) : Reachable lib networkId (indexer.round env db) := by
  obtain ⟨start, hempty, hhistory⟩ := h
  exact ⟨start, hempty, hhistory.round hn trivial⟩

section Sample

/-- Proof rules that accept every proof carrying the marker, with a digest that keeps the last
bytes of its input. -/
def sampleCrate : AuxPowCrate where
  Proof := Unit
  Target := Unit
  Rules := Unit
  proofMagic := [0x57, 0x43, 0x41, 0x5a]
  parentHeaderBytes := 4
  sha256 := fun bytes => (bytes.reverse ++ List.replicate 32 0).take 32
  heightTryFrom := some
  rulesForCandidateHeight := fun _ _ => ()
  decode := fun _ => .ok ()
  targetFromLeBytes := fun _ => .ok ()
  isMetByLeHash := fun _ _ => true
  validateWithParentRules := fun _ _ _ _ => .ok (List.replicate 32 0)
  parentHeader := fun _ => [1, 2, 3, 4]
  parentHeaderHash := fun _ => List.replicate 32 0
  advertisedNBits := fun _ => 0x1d00ffff
  parentMerkleDepth := fun _ => 1
  parentCoinbaseIndex := fun _ => 0
  authDataMerkleDepth := fun _ => 1
  authDataCoinbaseIndex := fun _ => 0
  auxiliaryMerkleDepth := fun _ => 1
  auxiliaryIndex := fun _ => 0

/-- A hash of one repeated digit. -/
def sampleHash (digit : Char) : Text := List.replicate 64 digit

def sampleRaw (solution : Bytes) (tag : UInt8) : Bytes :=
  List.replicate 140 0 ++ UInt8.ofNat solution.length :: solution ++ [tag]

/-- A block named by a digit, over the block of another; `tag` tells its witnesses apart. -/
def sampleBlock (height : Nat) (digit : Char) (previous : Option Char) (tag : UInt8) : NodeBlock :=
  let solution : Bytes := if height = 0 then [0] else [0x57, 0x43, 0x41, 0x5a, 1, tag]
  { block :=
      { hash := sampleHash digit
        height
        confirmations := 1
        size := 150
        time := 0
        bits := ['1', 'e', '0', '0', '8', '8', '5', '9']
        difficulty := .number (.posInt 1)
        nonce := sampleHash '0'
        solution := hexEncode solution
        merkleroot := sampleHash '0'
        previousblockhash := previous.map sampleHash }
    raw := .null
    encoded := hexEncode (sampleRaw solution tag) }

/-- Genesis `0`, then the blocks named by the digits. -/
def sampleChain (digits : List Char) : List NodeBlock :=
  sampleBlock 0 '0' none 0 :: (digits.zip ('0' :: digits)).mapIdx fun i d =>
    sampleBlock (i + 1) d.1 (some d.2) (UInt8.ofNat d.1.toNat)

def sampleNetwork : Text := ['t', 'e', 's', 't']

def sampleIndexer (maxReorgDepth : Nat) : Indexer sampleCrate where
  auxpow := { parents := [], nu7ActivationHeight := none }
  network := { id := sampleNetwork, genesisHash := sampleHash '0' }
  maxReorgDepth
  evidenceRefreshDepth := 10

/-- A node that keeps one chain. -/
def steadyNode (digits : List Char) : Environment explorer World :=
  nodeEnvironment sampleNetwork (fun _ => sampleChain digits) { now := 0 }

/-- The store after indexing chains one after the other. -/
def sampleDb (chains : List (List Char)) : Db :=
  chains.foldl (fun db digits => (sampleIndexer 10).round (steadyNode digits) db)
    (initialDb sampleNetwork)

theorem sampleDb_reachable (chains : List (List Char)) :
    Reachable sampleCrate sampleNetwork (sampleDb chains) := by
  unfold sampleDb
  generalize hdb : initialDb sampleNetwork = db
  have hreach : Reachable sampleCrate sampleNetwork db := hdb ▸ .initial _
  clear hdb
  induction chains generalizing db with
  | nil => exact hreach
  | cons digits rest ih => exact ih _ (hreach.round rfl)

/-- A pass against one more chain, when it has the property. -/
theorem History.sample {P : PassProperty sampleCrate} {chains : List (List Char)}
    (h : History sampleCrate sampleNetwork P (initialDb sampleNetwork) (sampleDb chains))
    (digits : List Char) (hP : P (sampleIndexer 10) (sampleDb chains)
      ((sampleIndexer 10).roundTrace (steadyNode digits) (sampleDb chains))) :
    History sampleCrate sampleNetwork P (initialDb sampleNetwork) (sampleDb (chains ++ [digits])) := by
  have hround : sampleDb (chains ++ [digits]) =
      (sampleIndexer 10).round (steadyNode digits) (sampleDb chains) := by
    simp [sampleDb]
  rw [hround]
  exact h.round rfl hP

end Sample

end WcashExplorer
