import Mathlib.Data.List.Dedup
import WcashExplorer.AuxPow
import WcashExplorer.Codec.Integer
import WcashExplorer.Db.Networks

/-! The configuration of a process: which environments are accepted, and what they configure. -/
namespace WcashExplorer

open Codec

/-- The variables of a process that are set to Unicode text. A value cannot hold a zero byte. -/
structure Env where
  var : String → Option Text
  storable : ∀ name, ∀ t ∈ var name, t.storable = true

/-- `Url` and `SocketAddr`. -/
structure AddressFormats where
  SocketAddr : Type
  parseSocketAddr : Text → Except String SocketAddr
  Url : Type
  parseUrl : Text → Except String Url
  asStr : Url → Text
  scheme : Url → Text
  username : Url → Text
  password : Url → Option Text

inductive RpcAuth
  | none
  | basic (username password : Text)
  | cookie (path : Text)

/-- One authenticated JSON-RPC endpoint. -/
structure RpcConfig (formats : AddressFormats) where
  label : Text
  url : formats.Url
  auth : RpcAuth

/-- The settings of a network as they are read, before their checks. -/
structure NetworkVariables where
  id : Text
  displayName : Text
  symbol : Text
  decimals : Nat
  coinbaseMaturity : Nat
  targetSpacingSeconds : Nat
  maxSupplyZat : Int
  initialSubsidyZat : Int
  halvingInterval : Nat
  firstHalvingHeight : Nat
  genesisHash : Text
  parentExplorerBlockUrl : Text
  parentExplorerTxUrl : Text

/-- A configuration that passed its checks. The durations are in milliseconds. -/
structure Config (formats : AddressFormats) where
  bind : formats.SocketAddr
  databaseUrl : Text
  wcashRpc : RpcConfig formats
  zcashRpcs : List (RpcConfig formats)
  network : NetworkSettings
  parentExplorerBlockUrl : Text
  parentExplorerTxUrl : Text
  pollInterval : Nat
  rpcTimeout : Nat
  maxReorgDepth : Nat
  evidenceRefreshDepth : Nat
  migrate : Bool
  runIndexer : Bool
  parentChain : Text
  parentGenesisHash : Text
  requireParentQuorum : Bool

def wcashMainnetGenesisHash : Text :=
  "5bae12c8662a577b04ce1591af1a137c128f0cb51018a5f1622d861d1bb6fc48".toList

def mainnet : Text := "mainnet".toList

def testnet : Text := "testnet".toList

/-- `ExplorerError::Config(format!("{context}: {error}"))`. -/
def asConfig {α : Type} (context : String) : Except String α → Result α
  | .ok a => .ok a
  | .error message => .error (.config s!"{context}: {message}")

/-- `Option::ok_or_else`. -/
def okOr {α : Type} (e : ExplorerError) : Option α → Result α
  | some a => .ok a
  | none => .error e

/-- The `Display` text of a `ParseIntError`. -/
def intErrorText : IntErrorKind → String
  | .empty => "cannot parse integer from empty string"
  | .invalidDigit => "invalid digit found in string"
  | .posOverflow => "number too large to fit in target type"
  | .negOverflow => "number too small to fit in target type"

def parseU8 : Text → Except IntErrorKind Nat := parseUnsigned 255
def parseU32 : Text → Except IntErrorKind Nat := parseUnsigned u32Max
def parseI64 : Text → Except IntErrorKind Int := parseSigned (2 ^ 63) i64Max

section Reading

variable (env : Env)

def Env.required (name : String) : Result Text :=
  match env.var name with
  | some value => .ok value
  | none => .error (.config s!"{name} is required")

def envOr (name default : String) : Text := (env.var name).getD default.toList

/-- `parse_env` of a number type. -/
def parseEnv {α : Type} (parse : Text → Except IntErrorKind α) (name : String) (default : α) :
    Result α :=
  match env.var name with
  | some value =>
    match parse value with
    | .ok a => .ok a
    | .error kind => .error (.config s!"invalid {name}: {intErrorText kind}")
  | none => .ok default

def trueWords : List Text := ["1".toList, "true".toList, "yes".toList, "on".toList]

def falseWords : List Text := ["0".toList, "false".toList, "no".toList, "off".toList]

def parseBool (name : String) (default : Bool) : Result Bool :=
  match env.var name with
  | some value =>
    let lower := value.map Char.toLower
    if lower ∈ trueWords then .ok true
    else if lower ∈ falseWords then .ok false
    else .error (.config s!"{name} must be true or false")
  | none => .ok default

/-- `prefix.to_ascii_lowercase().replace('_', "-")`. -/
def rpcLabel (stem : String) : Text :=
  (stem.toList.map Char.toLower).map fun c => if c = '_' then '-' else c

/-- The credentials of an endpoint: none, a cookie file, or both a name and a password. -/
def rpcAuth (stem : String) : Result RpcAuth :=
  match env.var s!"{stem}_COOKIE_FILE", env.var s!"{stem}_USERNAME",
    env.var s!"{stem}_PASSWORD" with
  | some cookie, none, none => .ok (.cookie cookie)
  | none, some username, some password => .ok (.basic username password)
  | none, none, none => .ok .none
  | _, _, _ => .error (.config (s!"configure either {stem}_COOKIE_FILE or both " ++
      s!"{stem}_USERNAME/{stem}_PASSWORD"))

/-- `rpc_config`. -/
def rpcConfig (formats : AddressFormats) (requiredEndpoint : Bool) (stem : String) :
    Result (Option (RpcConfig formats)) :=
  match env.var s!"{stem}_URL" with
  | none => if requiredEndpoint then .error (.config s!"{stem}_URL is required") else .ok none
  | some rawUrl => do
    let url ← asConfig s!"invalid {stem}_URL" (formats.parseUrl rawUrl)
    ensure (formats.scheme url = "http".toList || formats.scheme url = "https".toList)
      (.config s!"{stem}_URL must use http or https")
    ensure ((formats.username url).isEmpty && (formats.password url).isNone)
      (.config s!"credentials must not be embedded in {stem}_URL")
    let auth ← rpcAuth env stem
    .ok (some { label := rpcLabel stem, url, auth })

def parentStems : List String := ["ZCASH_RPC", "ZCASH_RPC_SECONDARY"]

/-- The configured parents, read one after the other. -/
def parentRpcs (formats : AddressFormats) : Result (List (RpcConfig formats)) :=
  (parentStems.mapM (rpcConfig env formats false)).map fun rpcs => rpcs.filterMap id

/-- The `NetworkConfig` of `from_env`, as it is read. -/
def networkVariables : Result NetworkVariables := do
  let decimals ← parseEnv env parseU8 "WCASH_DECIMALS" 8
  let coinbaseMaturity ← parseEnv env parseU32 "WCASH_COINBASE_MATURITY" 100
  let targetSpacingSeconds ← parseEnv env parseU32 "WCASH_TARGET_SPACING_SECONDS" 75
  let maxSupplyZat ← parseEnv env parseI64 "WCASH_MAX_SUPPLY_ZAT" 2100000000000000
  let initialSubsidyZat ← parseEnv env parseI64 "WCASH_INITIAL_SUBSIDY_ZAT" 625000000
  let halvingInterval ← parseEnv env (parseUnsigned u64Max) "WCASH_HALVING_INTERVAL" 1680000
  let firstHalvingHeight ←
    parseEnv env (parseUnsigned u64Max) "WCASH_FIRST_HALVING_HEIGHT" 1680001
  .ok
    { id := envOr env "WCASH_NETWORK" "testnet"
      displayName := envOr env "WCASH_NETWORK_NAME" "Wcash Testnet"
      symbol := envOr env "WCASH_SYMBOL" "TWC"
      decimals
      coinbaseMaturity
      targetSpacingSeconds
      maxSupplyZat
      initialSubsidyZat
      halvingInterval
      firstHalvingHeight
      genesisHash := envOr env "WCASH_GENESIS_HASH"
        "0271b5b0a10b2838f43cccdec9ca2f72aa72a7c103830082bac8f82f47f0593a"
      parentExplorerBlockUrl := envOr env "PARENT_EXPLORER_BLOCK_URL"
        "https://testnet.cipherscan.app/block/\x7bhash\x7d"
      parentExplorerTxUrl := envOr env "PARENT_EXPLORER_TX_URL"
        "https://testnet.cipherscan.app/tx/\x7btxid\x7d" }

end Reading

section Checks

def validateHexId (name : String) (value : Text) : Result Unit :=
  ensure (isHash value) (.config s!"{name} must be a 32-byte hexadecimal identifier")

def validateMainnetGenesis (network : NetworkVariables) : Result Unit :=
  ensure (network.id ≠ mainnet || network.genesisHash = wcashMainnetGenesisHash)
    (.config s!"Wcash Mainnet requires genesis {wcashMainnetGenesisHash.str}")

def validateParentConfiguration (runIndexer requireParentQuorum : Bool) (parentCount : Nat) :
    Result Unit :=
  ensure (!(runIndexer && requireParentQuorum && parentCount < 2)) (.config
    ("RUN_INDEXER requires two distinct Zcash parent RPC endpoints when " ++
      "REQUIRE_PARENT_QUORUM is enabled"))

/-- `i128::checked_mul`. -/
def i128CheckedMul (a b : Int) : Option Int :=
  if -(2 : Int) ^ 127 ≤ a * b ∧ a * b < (2 : Int) ^ 127 then some (a * b) else none

/-- All that the first subsidy issues until the first halving, twice. -/
def expectedMaxSupply (network : NetworkVariables) : Option Int :=
  (i128CheckedMul network.initialSubsidyZat network.halvingInterval).bind fun value =>
    i128CheckedMul value 2

/-- The settings of a network that passes its checks, in the order of `from_env`. -/
def networkSettings (network : NetworkVariables) : Result NetworkSettings := do
  validateHexId "WCASH_GENESIS_HASH" network.genesisHash
  validateMainnetGenesis network
  ensure (network.decimals ≤ 18) (.config "WCASH_DECIMALS must be at most 18")
  if hpositive : 0 < network.maxSupplyZat ∧ 0 < network.initialSubsidyZat ∧
      0 < network.halvingInterval ∧ 0 < network.firstHalvingHeight then
    match expectedMaxSupply network with
    | none => .error (.config "emission schedule overflow")
    | some expected =>
      ensure (network.decimals = 8 && network.targetSpacingSeconds = 75 &&
          network.initialSubsidyZat = 625000000 && network.maxSupplyZat = 2100000000000000 &&
          network.maxSupplyZat = expected &&
          network.firstHalvingHeight = saturatingAdd network.halvingInterval 1)
        (.config ("Wcash settings must encode 8 decimals, 75-second blocks, a 6.25 WEC initial " ++
          "subsidy, four-year halvings, and a 21 million WEC cap"))
      .ok
        { id := network.id
          genesisHash := network.genesisHash
          symbol := network.symbol
          decimals := network.decimals
          coinbaseMaturity := network.coinbaseMaturity
          displayName := network.displayName
          targetSpacingSeconds := network.targetSpacingSeconds
          maxSupplyZat := network.maxSupplyZat
          initialSubsidyZat := network.initialSubsidyZat
          halvingInterval := network.halvingInterval
          firstHalvingHeight := network.firstHalvingHeight
          halvingInterval_pos := hpositive.2.2.1 }
  else .error (.config "supply and halving settings must be positive")

/-- `Config::from_env`. -/
def fromEnv (formats : AddressFormats) (env : Env) : Result (Config formats) := do
  let bind ← asConfig "invalid bind address"
    (formats.parseSocketAddr (envOr env "WCASH_EXPLORER_BIND" "127.0.0.1:8080"))
  let databaseUrl ← env.required "DATABASE_URL"
  let node ← rpcConfig env formats true "WCASH_RPC"
  let wcashRpc ← okOr (.config "WCASH_RPC_URL is required") node
  let zcashRpcs ← parentRpcs env formats
  let settings ← networkVariables env
  let network ← networkSettings settings
  let runIndexer ← parseBool env "RUN_INDEXER" true
  let requireParentQuorum ← parseBool env "REQUIRE_PARENT_QUORUM" true
  let uniqueParentUrls := (zcashRpcs.map fun rpc => formats.asStr rpc.url).dedup
  ensure (uniqueParentUrls.length = zcashRpcs.length)
    (.config "configured Zcash parent RPC endpoints must be distinct")
  validateParentConfiguration runIndexer requireParentQuorum zcashRpcs.length
  let parentGenesisHash := envOr env "ZCASH_PARENT_GENESIS_HASH"
    "05a60a92d99d85997cce3b87616c089f6124d7342af37106edc76126334a2c38"
  validateHexId "ZCASH_PARENT_GENESIS_HASH" parentGenesisHash
  let pollInterval ← parseEnv env (parseUnsigned u64Max) "INDEXER_POLL_INTERVAL_MS" 2000
  let rpcTimeout ← parseEnv env (parseUnsigned u64Max) "RPC_TIMEOUT_MS" 15000
  let maxReorgDepth ← parseEnv env (parseUnsigned u64Max) "MAX_REORG_DEPTH" 10000
  let evidenceRefreshDepth ← parseEnv env (parseUnsigned u64Max) "EVIDENCE_REFRESH_DEPTH" 100
  let migrate ← parseBool env "RUN_MIGRATIONS" true
  .ok
    { bind
      databaseUrl
      wcashRpc
      zcashRpcs
      network
      parentExplorerBlockUrl := settings.parentExplorerBlockUrl
      parentExplorerTxUrl := settings.parentExplorerTxUrl
      pollInterval
      rpcTimeout
      maxReorgDepth
      evidenceRefreshDepth
      migrate
      runIndexer
      parentChain := envOr env "ZCASH_PARENT_CHAIN" "test"
      parentGenesisHash
      requireParentQuorum }

end Checks

section Acceptance

variable {formats : AddressFormats} {env : Env} {name stem : String}

/-- A variable that is set spells one number. -/
def Fixed (env : Env) (name : String) (n : Nat) : Prop := ∀ t ∈ env.var name, SpellsNumber t n

/-- A variable that is set spells a number up to a bound. -/
def Bounded (env : Env) (name : String) (bound : Nat) : Prop :=
  ∀ t ∈ env.var name, ∃ n ≤ bound, SpellsNumber t n

/-- A variable that is set is a word for true or false. -/
def IsFlag (env : Env) (name : String) : Prop :=
  ∀ t ∈ env.var name, t.map Char.toLower ∈ trueWords ++ falseWords

/-- A flag that is true unless it is set to a word for false. -/
def IsOn (env : Env) (name : String) : Prop :=
  ∀ t ∈ env.var name, t.map Char.toLower ∉ falseWords

theorem parseEnv_eq_ok {α : Type} {parse : Text → Except IntErrorKind α} {default a : α} :
    parseEnv env parse name default = .ok a ↔
      (∃ t, env.var name = some t ∧ parse t = .ok a) ∨ (env.var name = none ∧ default = a) := by
  unfold parseEnv
  cases env.var name with
  | none => simp
  | some t => cases h : parse t <;> simp [h]

/-- A variable reads as its default exactly if it spells it wherever it is set. -/
theorem parseEnv_fixed {α : Type} {parse : Text → Except IntErrorKind α} {default : α} {n : Nat}
    (h : ∀ t, parse t = .ok default ↔ SpellsNumber t n) :
    parseEnv env parse name default = .ok default ↔ Fixed env name n := by
  rw [parseEnv_eq_ok, Fixed]
  cases env.var name with
  | none => simp
  | some t => simp [h]

theorem parseEnv_unsigned_fixed {bound n : Nat} (h : n ≤ bound) :
    parseEnv env (parseUnsigned bound) name n = .ok n ↔ Fixed env name n :=
  parseEnv_fixed fun _ => by rw [parseUnsigned_eq_ok, and_iff_left h]

theorem parseEnv_signed_fixed {n : Nat} (hpositive : 0 < n) (h : n ≤ i64Max) :
    parseEnv env parseI64 name (n : Int) = .ok (n : Int) ↔ Fixed env name n :=
  parseEnv_fixed fun _ => by rw [parseI64, parseSigned_eq_ok hpositive, and_iff_left h]

theorem parseEnv_bounded {bound default : Nat} :
    (∃ n, parseEnv env (parseUnsigned bound) name default = .ok n) ↔ Bounded env name bound := by
  simp only [parseEnv_eq_ok, Bounded]
  cases env.var name with
  | none => simp
  | some t => simp [parseUnsigned_eq_ok, and_comm]

theorem parseBool_eq_ok {b : Bool} : parseBool env name true = .ok b ↔
    IsFlag env name ∧ (b = true ↔ IsOn env name) := by
  have hdisjoint : ∀ t ∈ trueWords, t ∉ falseWords := by decide
  unfold parseBool IsFlag IsOn
  cases env.var name with
  | none => cases b <;> simp
  | some t =>
    by_cases htrue : t.map Char.toLower ∈ trueWords
    · have hfalse := hdisjoint _ htrue
      cases b <;> simp [htrue, hfalse]
    · by_cases hfalse : t.map Char.toLower ∈ falseWords <;> cases b <;> simp [htrue, hfalse]

/-- A user name goes with a password, and neither with a cookie. -/
def Authenticated (env : Env) (stem : String) : Prop :=
  ((env.var s!"{stem}_USERNAME").isSome = (env.var s!"{stem}_PASSWORD").isSome) ∧
    ((env.var s!"{stem}_COOKIE_FILE").isSome → env.var s!"{stem}_USERNAME" = none)

theorem rpcAuth_accepts : (∃ auth, rpcAuth env stem = .ok auth) ↔ Authenticated env stem := by
  unfold rpcAuth Authenticated
  generalize env.var s!"{stem}_COOKIE_FILE" = cookie
  generalize env.var s!"{stem}_USERNAME" = username
  generalize env.var s!"{stem}_PASSWORD" = password
  cases cookie <;> cases username <;> cases password <;> simp

/-- An endpoint is configured at a URL. -/
structure Endpoint (formats : AddressFormats) (env : Env) (stem : String) (url : formats.Url) :
    Prop where
  parsed : ∃ t ∈ env.var s!"{stem}_URL", formats.parseUrl t = .ok url
  web : formats.scheme url = "http".toList ∨ formats.scheme url = "https".toList
  bare : formats.username url = [] ∧ formats.password url = none
  authenticated : Authenticated env stem

theorem asConfig_eq_ok {α : Type} {context : String} {x : Except String α} {a : α} :
    asConfig context x = .ok a ↔ x = .ok a := by
  cases x <;> simp [asConfig]

theorem okOr_eq_ok {α : Type} {e : ExplorerError} {x : Option α} {a : α} :
    okOr e x = .ok a ↔ x = some a := by
  cases x <;> simp [okOr]

/-- An endpoint that is left out is no endpoint, and otherwise it is one under its own label. -/
theorem rpcConfig_eq_ok {requiredEndpoint : Bool} {r : Option (RpcConfig formats)} :
    rpcConfig env formats requiredEndpoint stem = .ok r ↔
      (env.var s!"{stem}_URL" = none ∧ requiredEndpoint = false ∧ r = none) ∨
        ∃ rpc, r = some rpc ∧ rpc.label = rpcLabel stem ∧ rpcAuth env stem = .ok rpc.auth ∧
          Endpoint formats env stem rpc.url := by
  unfold rpcConfig
  cases hvar : env.var s!"{stem}_URL" with
  | none =>
    have hnone : ∀ url, ¬ Endpoint formats env stem url := by
      rintro url ⟨⟨t, ht, -⟩, -⟩
      simp [hvar] at ht
    cases requiredEndpoint <;> simp [hnone, eq_comm]
  | some rawUrl =>
    simp only [Result.bind_eq_ok, asConfig_eq_ok, ensure_eq_ok, Bool.or_eq_true,
      Bool.and_eq_true, decide_eq_true_eq, List.isEmpty_iff, Option.isNone_iff_eq_none,
      reduceCtorEq, false_and, false_or]
    constructor
    · rintro ⟨url, hurl, -, hweb, -, hbare, auth, hauth, h⟩
      cases h
      exact ⟨_, rfl, rfl, hauth, ⟨rawUrl, hvar, hurl⟩, hweb, hbare, rpcAuth_accepts.mp ⟨_, hauth⟩⟩
    · rintro ⟨rpc, rfl, hlabel, hauth, ⟨⟨t, ht, hurl⟩, hweb, hbare, -⟩⟩
      obtain rfl := Option.some.inj (hvar.symm.trans ht)
      refine ⟨rpc.url, hurl, (), hweb, (), hbare, rpc.auth, hauth, ?_⟩
      rw [← hlabel]

/-- The settings that no environment changes. -/
def frozenSettings : List (String × Nat) :=
  [("WCASH_DECIMALS", 8), ("WCASH_TARGET_SPACING_SECONDS", 75),
    ("WCASH_MAX_SUPPLY_ZAT", 2100000000000000), ("WCASH_INITIAL_SUBSIDY_ZAT", 625000000),
    ("WCASH_HALVING_INTERVAL", 1680000), ("WCASH_FIRST_HALVING_HEIGHT", 1680001)]

/-- A row with the settings of Wcash, and on its main network with the frozen genesis. -/
structure NetworkRow.IsWcash (r : NetworkRow) : Prop where
  decimals : r.decimals = 8
  targetSpacingSeconds : r.targetSpacingSeconds = 75
  maxSupplyZat : r.maxSupplyZat = 2100000000000000
  initialSubsidyZat : r.initialSubsidyZat = 625000000
  halvingInterval : r.halvingInterval = 1680000
  firstHalvingHeight : r.firstHalvingHeight = 1680001
  genesis : r.networkId = mainnet → r.genesisHash = wcashMainnetGenesisHash

/-- The settings as they are read have the frozen values. -/
structure NetworkVariables.Frozen (v : NetworkVariables) : Prop where
  decimals : v.decimals = 8
  targetSpacingSeconds : v.targetSpacingSeconds = 75
  maxSupplyZat : v.maxSupplyZat = 2100000000000000
  initialSubsidyZat : v.initialSubsidyZat = 625000000
  halvingInterval : v.halvingInterval = 1680000
  firstHalvingHeight : v.firstHalvingHeight = 1680001

variable {v : NetworkVariables} {network : NetworkSettings}

/-- The supply, the subsidy and the halvings have to fit each other, so the supply and the subsidy
fix the halvings. -/
theorem frozen_of_schedule (hdecimals : v.decimals = 8) (hspacing : v.targetSpacingSeconds = 75)
    (hsubsidy : v.initialSubsidyZat = 625000000) (hsupply : v.maxSupplyZat = 2100000000000000)
    (hexpected : expectedMaxSupply v = some v.maxSupplyZat)
    (hfirst : v.firstHalvingHeight = saturatingAdd v.halvingInterval 1) : v.Frozen := by
  have hproduct : v.initialSubsidyZat * v.halvingInterval * 2 = v.maxSupplyZat := by
    simp only [expectedMaxSupply, i128CheckedMul, Option.bind_eq_some_iff] at hexpected
    obtain ⟨value, hvalue, hexpected⟩ := hexpected
    split at hvalue
    · obtain rfl := Option.some.inj hvalue
      split at hexpected
      · exact Option.some.inj hexpected
      · cases hexpected
    · cases hvalue
  have hinterval : v.halvingInterval = 1680000 := by
    rw [hsubsidy, hsupply] at hproduct
    omega
  refine ⟨hdecimals, hspacing, hsupply, hsubsidy, hinterval, ?_⟩
  rw [hfirst, hinterval]
  exact saturatingAdd_of_le (by decide)

theorem NetworkVariables.Frozen.expected (h : v.Frozen) :
    expectedMaxSupply v = some 2100000000000000 := by
  rw [expectedMaxSupply, h.initialSubsidyZat, h.halvingInterval]
  decide

/-- The row that a configuration asks for. -/
def NetworkVariables.row (v : NetworkVariables) (now : Timestamp) : NetworkRow where
  networkId := v.id
  displayName := v.displayName
  symbol := v.symbol
  decimals := v.decimals
  coinbaseMaturity := v.coinbaseMaturity
  targetSpacingSeconds := v.targetSpacingSeconds
  maxSupplyZat := v.maxSupplyZat
  initialSubsidyZat := v.initialSubsidyZat
  halvingInterval := v.halvingInterval
  firstHalvingHeight := v.firstHalvingHeight
  genesisHash := v.genesisHash
  createdAt := now

theorem networkSettings_ok (h : networkSettings v = .ok network) :
    isHash v.genesisHash = true ∧ (v.id = mainnet → v.genesisHash = wcashMainnetGenesisHash) ∧
      v.Frozen ∧ ∀ now, network.row now = v.row now := by
  simp only [networkSettings, Result.bind_eq_ok, validateHexId, validateMainnetGenesis,
    ensure_eq_ok] at h
  obtain ⟨-, hgenesis, -, hmainnet, -, -, h⟩ := h
  split at h
  · split at h
    · cases h
    · rename_i expected hexpected
      simp only [Result.bind_eq_ok, ensure_eq_ok, Bool.and_eq_true, decide_eq_true_eq] at h
      obtain ⟨-, ⟨⟨⟨⟨⟨hdecimals, hspacing⟩, hsubsidy⟩, hsupply⟩, hmatch⟩, hfirst⟩, h⟩ := h
      cases h
      refine ⟨hgenesis, ?_, ?_, fun _ => rfl⟩
      · intro hid
        simpa [hid] using hmainnet
      · exact frozen_of_schedule hdecimals hspacing hsubsidy hsupply
          (hexpected.trans (congrArg some hmatch.symm)) hfirst
  · cases h

theorem networkSettings_accepts (hgenesis : isHash v.genesisHash = true)
    (hmainnet : v.id = mainnet → v.genesisHash = wcashMainnetGenesisHash) (h : v.Frozen) :
    ∃ network, networkSettings v = .ok network := by
  have hpositive : 0 < v.maxSupplyZat ∧ 0 < v.initialSubsidyZat ∧ 0 < v.halvingInterval ∧
      0 < v.firstHalvingHeight := by
    simp [h.maxSupplyZat, h.initialSubsidyZat, h.halvingInterval, h.firstHalvingHeight]
  have hschedule : (v.firstHalvingHeight = saturatingAdd v.halvingInterval 1) := by
    rw [h.firstHalvingHeight, h.halvingInterval]
    decide
  simp only [networkSettings, Result.bind_eq_ok, validateHexId, validateMainnetGenesis,
    ensure_eq_ok, dif_pos hpositive, h.expected]
  refine ⟨_, (), hgenesis, (), ?_, (), ?_, (), ?_, rfl⟩
  · by_cases hid : v.id = mainnet
    · simp [hmainnet hid]
    · simp [hid]
  · simp [h.decimals]
  · simp [h.decimals, h.targetSpacingSeconds, h.initialSubsidyZat, h.maxSupplyZat, hschedule]

/-- What an environment chooses freely of a network, with the frozen settings. -/
def chosenNetwork (env : Env) (coinbaseMaturity : Nat) : NetworkVariables where
  id := envOr env "WCASH_NETWORK" "testnet"
  displayName := envOr env "WCASH_NETWORK_NAME" "Wcash Testnet"
  symbol := envOr env "WCASH_SYMBOL" "TWC"
  decimals := 8
  coinbaseMaturity
  targetSpacingSeconds := 75
  maxSupplyZat := 2100000000000000
  initialSubsidyZat := 625000000
  halvingInterval := 1680000
  firstHalvingHeight := 1680001
  genesisHash := envOr env "WCASH_GENESIS_HASH"
    "0271b5b0a10b2838f43cccdec9ca2f72aa72a7c103830082bac8f82f47f0593a"
  parentExplorerBlockUrl := envOr env "PARENT_EXPLORER_BLOCK_URL"
    "https://testnet.cipherscan.app/block/\x7bhash\x7d"
  parentExplorerTxUrl := envOr env "PARENT_EXPLORER_TX_URL"
    "https://testnet.cipherscan.app/tx/\x7btxid\x7d"

/-- Settings with the frozen values are read where every variable for one of them spells it. -/
theorem networkVariables_eq_ok : networkVariables env = .ok v ∧ v.Frozen ↔
    (∀ x ∈ frozenSettings, Fixed env x.1 x.2) ∧ ∃ coinbaseMaturity,
      parseEnv env parseU32 "WCASH_COINBASE_MATURITY" 100 = .ok coinbaseMaturity ∧
        v = chosenNetwork env coinbaseMaturity := by
  simp only [networkVariables, Result.bind_eq_ok, frozenSettings, List.forall_mem_cons,
    List.not_mem_nil, false_implies, implies_true, and_true]
  constructor
  · rintro ⟨⟨decimals, h1, maturity, h2, spacing, h3, supply, h4, subsidy, h5, interval, h6, first,
      h7, h⟩, hfrozen⟩
    obtain rfl := Except.ok.inj h
    obtain ⟨rfl, rfl, rfl, rfl, rfl, rfl⟩ := hfrozen
    refine ⟨⟨?_, ?_, ?_, ?_, ?_, ?_⟩, maturity, h2, rfl⟩
    · exact (parseEnv_unsigned_fixed (by decide)).mp h1
    · exact (parseEnv_unsigned_fixed (by decide)).mp h3
    · exact (parseEnv_signed_fixed (by decide) (by decide)).mp h4
    · exact (parseEnv_signed_fixed (by decide) (by decide)).mp h5
    · exact (parseEnv_unsigned_fixed (by decide)).mp h6
    · exact (parseEnv_unsigned_fixed (by decide)).mp h7
  · rintro ⟨⟨h1, h3, h4, h5, h6, h7⟩, maturity, h2, rfl⟩
    refine ⟨⟨8, ?_, maturity, h2, 75, ?_, 2100000000000000, ?_, 625000000, ?_, 1680000, ?_, 1680001,
      ?_, rfl⟩, rfl, rfl, rfl, rfl, rfl, rfl⟩
    · exact (parseEnv_unsigned_fixed (by decide)).mpr h1
    · exact (parseEnv_unsigned_fixed (by decide)).mpr h3
    · exact (parseEnv_signed_fixed (by decide) (by decide)).mpr h4
    · exact (parseEnv_signed_fixed (by decide) (by decide)).mpr h5
    · exact (parseEnv_unsigned_fixed (by decide)).mpr h6
    · exact (parseEnv_unsigned_fixed (by decide)).mpr h7

/-- What is required of an environment. -/
structure AcceptableEnv (formats : AddressFormats) (env : Env) : Prop where
  bind : ∃ address, formats.parseSocketAddr (envOr env "WCASH_EXPLORER_BIND" "127.0.0.1:8080") =
    .ok address
  database : (env.var "DATABASE_URL").isSome
  node : ∃ url, Endpoint formats env "WCASH_RPC" url
  parents : ∀ stem ∈ parentStems, (env.var s!"{stem}_URL").isSome →
    ∃ url, Endpoint formats env stem url
  settings : ∀ x ∈ frozenSettings, Fixed env x.1 x.2
  maturity : Bounded env "WCASH_COINBASE_MATURITY" u32Max
  genesis : isHash (chosenNetwork env 0).genesisHash = true
  mainnet : (chosenNetwork env 0).id = mainnet →
    (chosenNetwork env 0).genesisHash = wcashMainnetGenesisHash
  flags : ∀ name ∈ ["RUN_INDEXER", "REQUIRE_PARENT_QUORUM", "RUN_MIGRATIONS"], IsFlag env name
  distinct : ∀ url url', Endpoint formats env "ZCASH_RPC" url →
    Endpoint formats env "ZCASH_RPC_SECONDARY" url' → formats.asStr url ≠ formats.asStr url'
  quorum : IsOn env "RUN_INDEXER" → IsOn env "REQUIRE_PARENT_QUORUM" →
    ∀ stem ∈ parentStems, (env.var s!"{stem}_URL").isSome
  parentGenesis : isHash (envOr env "ZCASH_PARENT_GENESIS_HASH"
    "05a60a92d99d85997cce3b87616c089f6124d7342af37106edc76126334a2c38") = true
  numbers : ∀ name ∈ ["INDEXER_POLL_INTERVAL_MS", "RPC_TIMEOUT_MS", "MAX_REORG_DEPTH",
    "EVIDENCE_REFRESH_DEPTH"], Bounded env name u64Max

/-- The parents that are read: one for each endpoint that is configured, in their order. -/
inductive ParentsRead (formats : AddressFormats) (env : Env) :
    List String → List (RpcConfig formats) → Prop
  | nil : ParentsRead formats env [] []
  | absent {stem : String} {stems : List String} {rpcs : List (RpcConfig formats)}
      (h : env.var s!"{stem}_URL" = none) (rest : ParentsRead formats env stems rpcs) :
      ParentsRead formats env (stem :: stems) rpcs
  | present {stem : String} {stems : List String} {rpc : RpcConfig formats}
      {rpcs : List (RpcConfig formats)} (hlabel : rpc.label = rpcLabel stem)
      (hauth : rpcAuth env stem = .ok rpc.auth) (h : Endpoint formats env stem rpc.url)
      (rest : ParentsRead formats env stems rpcs) :
      ParentsRead formats env (stem :: stems) (rpc :: rpcs)

variable {stems : List String} {rpcs : List (RpcConfig formats)} {url url' : formats.Url}

theorem Endpoint.set (h : Endpoint formats env stem url) : (env.var s!"{stem}_URL").isSome := by
  obtain ⟨t, ht, -⟩ := h.parsed
  exact Option.isSome_iff_exists.mpr ⟨t, ht⟩

theorem Endpoint.unique (h : Endpoint formats env stem url) (h' : Endpoint formats env stem url') :
    url = url' := by
  obtain ⟨t, ht, hurl⟩ := h.parsed
  obtain ⟨t', ht', hurl'⟩ := h'.parsed
  obtain rfl := Option.mem_unique ht ht'
  exact Except.ok.inj (hurl.symm.trans hurl')

theorem parentsRead_iff :
    (stems.mapM (rpcConfig env formats false)).map (fun rpcs => rpcs.filterMap id) = .ok rpcs ↔
      ParentsRead formats env stems rpcs := by
  have hmap {x : Result (List (Option (RpcConfig formats)))} {ys : List (RpcConfig formats)} :
      x.map (fun rpcs => rpcs.filterMap id) = .ok ys ↔ ∃ xs, x = .ok xs ∧ xs.filterMap id = ys := by
    cases x <;> simp [Except.map]
  simp only [hmap]
  induction stems generalizing rpcs with
  | nil =>
    constructor
    · rintro ⟨xs, hx, rfl⟩
      cases hx
      exact .nil
    · intro h
      cases h
      exact ⟨[], rfl, rfl⟩
  | cons stem stems ih =>
    simp only [List.mapM_cons, Result.bind_eq_ok, rpcConfig_eq_ok]
    constructor
    · rintro ⟨xs, ⟨r, hr, rest, hrest, h⟩, rfl⟩
      cases h
      have hread := ih.mp ⟨rest, hrest, rfl⟩
      rcases hr with ⟨hnone, -, rfl⟩ | ⟨rpc, rfl, hlabel, hauth, hendpoint⟩
      · exact .absent hnone hread
      · exact .present hlabel hauth hendpoint hread
    · intro h
      cases h with
      | absent hnone hread =>
        obtain ⟨rest, hrest, rfl⟩ := ih.mpr hread
        exact ⟨none :: rest, ⟨none, .inl ⟨hnone, trivial, rfl⟩, rest, hrest, rfl⟩, rfl⟩
      | present hlabel hauth hendpoint hread =>
        obtain ⟨rest, hrest, rfl⟩ := ih.mpr hread
        exact ⟨some _ :: rest, ⟨some _, .inr ⟨_, rfl, hlabel, hauth, hendpoint⟩, rest, hrest, rfl⟩,
          rfl⟩

theorem parentRpcs_eq_ok : parentRpcs env formats = .ok rpcs ↔
    ParentsRead formats env parentStems rpcs := parentsRead_iff

/-- The parents can be read where each one that is configured is an endpoint. -/
theorem exists_parentsRead : (∃ rpcs, ParentsRead formats env stems rpcs) ↔
    ∀ stem ∈ stems, (env.var s!"{stem}_URL").isSome → ∃ url, Endpoint formats env stem url := by
  induction stems with
  | nil => exact ⟨by simp, fun _ => ⟨[], .nil⟩⟩
  | cons stem stems ih =>
    rw [List.forall_mem_cons, ← ih]
    constructor
    · rintro ⟨rpcs, h⟩
      cases h with
      | absent hnone rest => exact ⟨by simp [hnone], _, rest⟩
      | present _ _ hendpoint rest => exact ⟨fun _ => ⟨_, hendpoint⟩, _, rest⟩
    · rintro ⟨hstem, rpcs, rest⟩
      cases hvar : env.var s!"{stem}_URL" with
      | none => exact ⟨rpcs, .absent hvar rest⟩
      | some t =>
        obtain ⟨url, hendpoint⟩ := hstem (by simp [hvar])
        obtain ⟨auth, hauth⟩ := rpcAuth_accepts.mpr hendpoint.authenticated
        exact ⟨{ label := rpcLabel stem, url, auth } :: rpcs, .present rfl hauth hendpoint rest⟩

theorem ParentsRead.labels (h : ParentsRead formats env stems rpcs) :
    List.Sublist (rpcs.map RpcConfig.label) (stems.map rpcLabel) := by
  induction h with
  | nil => exact .slnil
  | absent _ _ ih => exact ih.cons _
  | present hlabel _ _ _ ih =>
    rw [List.map_cons, List.map_cons, hlabel]
    exact ih.cons_cons _

/-- Both parents are read exactly if both are configured. -/
theorem ParentsRead.both_iff (h : ParentsRead formats env stems rpcs) :
    rpcs.length = stems.length ↔ ∀ stem ∈ stems, (env.var s!"{stem}_URL").isSome := by
  have hle : ∀ {stems : List String} {rpcs : List (RpcConfig formats)},
      ParentsRead formats env stems rpcs → rpcs.length ≤ stems.length := by
    intro stems rpcs h
    simpa using h.labels.length_le
  induction h with
  | nil => simp
  | absent hnone rest ih =>
    have hrest := hle rest
    simp only [List.length_cons, List.forall_mem_cons, hnone]
    simp
    omega
  | present _ _ hendpoint rest ih =>
    simp only [List.length_cons, List.forall_mem_cons, hendpoint.set, true_and, ← ih]
    omega

theorem dedup_length_iff {α : Type} [DecidableEq α] {xs : List α} :
    xs.dedup.length = xs.length ↔ xs.Nodup := by
  constructor
  · intro h
    rw [← (List.dedup_sublist xs).eq_of_length h]
    exact List.nodup_dedup xs
  · intro h
    rw [h.dedup]

/-- Parents at different URLs are told apart by them. -/
theorem ParentsRead.distinct_iff (h : ParentsRead formats env parentStems rpcs) :
    (rpcs.map fun rpc => formats.asStr rpc.url).Nodup ↔
      ∀ url url', Endpoint formats env "ZCASH_RPC" url →
        Endpoint formats env "ZCASH_RPC_SECONDARY" url' → formats.asStr url ≠ formats.asStr url' := by
  have hnone {stem : String} {url : formats.Url} (hvar : env.var s!"{stem}_URL" = none)
      (hendpoint : Endpoint formats env stem url) : False := by
    simpa [hvar] using hendpoint.set
  cases h with
  | absent hvar rest =>
    refine iff_of_true ?_ fun url _ hurl => (hnone hvar hurl).elim
    cases rest with
    | absent _ rest =>
      cases rest
      exact List.nodup_nil
    | present _ _ _ rest =>
      cases rest
      exact List.nodup_singleton _
  | present _ _ hfirst rest =>
    cases rest with
    | absent hvar rest =>
      cases rest
      exact iff_of_true (List.nodup_singleton _) fun _ url' _ hurl' => (hnone hvar hurl').elim
    | present _ _ hsecond rest =>
      cases rest
      constructor
      · intro hnodup url url' hurl hurl'
        rw [hurl.unique hfirst, hurl'.unique hsecond]
        simpa using hnodup
      · intro hdistinct
        simpa using hdistinct _ _ hfirst hsecond

/-- What an accepted configuration has of its environment: the network, the parents and the flags. -/
structure ConfiguredBy (formats : AddressFormats) (env : Env) (config : Config formats) : Prop where
  network : ∃ coinbaseMaturity,
    parseEnv env parseU32 "WCASH_COINBASE_MATURITY" 100 = .ok coinbaseMaturity ∧
      ∀ now, config.network.row now = (chosenNetwork env coinbaseMaturity).row now
  runIndexer : config.runIndexer = true ↔ IsOn env "RUN_INDEXER"
  requireParentQuorum : config.requireParentQuorum = true ↔ IsOn env "REQUIRE_PARENT_QUORUM"
  migrate : config.migrate = true ↔ IsOn env "RUN_MIGRATIONS"
  parents : ParentsRead formats env parentStems config.zcashRpcs

theorem fromEnv_ok {config : Config formats} (h : fromEnv formats env = .ok config) :
    AcceptableEnv formats env ∧ ConfiguredBy formats env config := by
  simp only [fromEnv, Result.bind_eq_ok, asConfig_eq_ok, okOr_eq_ok, ensure_eq_ok, validateHexId,
    validateParentConfiguration, parentRpcs_eq_ok, decide_eq_true_eq] at h
  obtain ⟨address, haddress, databaseUrl, hdatabase, node, hnode, wcashRpc, hwcash, zcashRpcs,
    hparents, settings, hsettings, network, hnetwork, runIndexer, hrun, requireParentQuorum, hquorum,
    -, hdistinct, -, hcount, -, hparentGenesis, pollInterval, hpoll, rpcTimeout, htimeout,
    maxReorgDepth, hreorg, evidenceRefreshDepth, hrefresh, migrate, hmigrate, h⟩ := h
  obtain rfl := Except.ok.inj h
  obtain ⟨hgenesis, hmainnet, hfrozen, hrow⟩ := networkSettings_ok hnetwork
  obtain ⟨hfixed, maturity, hmaturity, rfl⟩ := networkVariables_eq_ok.mp ⟨hsettings, hfrozen⟩
  obtain ⟨hrunFlag, hrunOn⟩ := parseBool_eq_ok.mp hrun
  obtain ⟨hquorumFlag, hquorumOn⟩ := parseBool_eq_ok.mp hquorum
  obtain ⟨hmigrateFlag, hmigrateOn⟩ := parseBool_eq_ok.mp hmigrate
  refine ⟨⟨⟨_, haddress⟩, ?_, ?_, exists_parentsRead.mp ⟨_, hparents⟩, hfixed,
    parseEnv_bounded.mp ⟨_, hmaturity⟩, hgenesis, hmainnet, ?_, ?_, ?_, hparentGenesis, ?_⟩,
    ⟨⟨maturity, hmaturity, hrow⟩, hrunOn, hquorumOn, hmigrateOn, hparents⟩⟩
  · unfold Env.required at hdatabase
    split at hdatabase
    · simp [*]
    · cases hdatabase
  · rcases rpcConfig_eq_ok.mp hnode with ⟨-, htrue, -⟩ | ⟨rpc, -, -, -, hendpoint⟩
    · cases htrue
    · exact ⟨_, hendpoint⟩
  · simp only [List.forall_mem_cons, List.not_mem_nil, false_implies, implies_true, and_true]
    exact ⟨hrunFlag, hquorumFlag, hmigrateFlag⟩
  · refine hparents.distinct_iff.mp (dedup_length_iff.mp ?_)
    rw [hdistinct, List.length_map]
  · intro hrunSet hquorumSet
    refine hparents.both_iff.mp ?_
    have hle : zcashRpcs.length ≤ parentStems.length := by simpa using hparents.labels.length_le
    have htwo : parentStems.length = 2 := rfl
    simp [hrunOn.mpr hrunSet, hquorumOn.mpr hquorumSet] at hcount
    omega
  · simp only [List.forall_mem_cons, List.not_mem_nil, false_implies, implies_true, and_true]
    exact ⟨parseEnv_bounded.mp ⟨_, hpoll⟩, parseEnv_bounded.mp ⟨_, htimeout⟩,
      parseEnv_bounded.mp ⟨_, hreorg⟩, parseEnv_bounded.mp ⟨_, hrefresh⟩⟩

theorem exists_parseBool (h : IsFlag env name) :
    ∃ b, parseBool env name true = .ok b ∧ (b = true ↔ IsOn env name) := by
  by_cases hon : IsOn env name
  · exact ⟨true, parseBool_eq_ok.mpr ⟨h, by simp [hon]⟩, by simp [hon]⟩
  · exact ⟨false, parseBool_eq_ok.mpr ⟨h, by simp [hon]⟩, by simp [hon]⟩

theorem fromEnv_accepts (h : AcceptableEnv formats env) :
    ∃ config, fromEnv formats env = .ok config := by
  obtain ⟨address, haddress⟩ := h.bind
  obtain ⟨databaseUrl, hdatabase⟩ := Option.isSome_iff_exists.mp h.database
  obtain ⟨url, hnode⟩ := h.node
  obtain ⟨auth, hauth⟩ := rpcAuth_accepts.mpr hnode.authenticated
  have hwcash : rpcConfig env formats true "WCASH_RPC" =
      .ok (some { label := rpcLabel "WCASH_RPC", url, auth }) :=
    rpcConfig_eq_ok.mpr (.inr ⟨_, rfl, rfl, hauth, hnode⟩)
  obtain ⟨rpcs, hparents⟩ := exists_parentsRead.mpr h.parents
  obtain ⟨maturity, hmaturity⟩ := parseEnv_bounded.mpr h.maturity
  obtain ⟨hsettings, hfrozen⟩ := networkVariables_eq_ok.mpr ⟨h.settings, maturity, hmaturity, rfl⟩
  obtain ⟨network, hnetwork⟩ := networkSettings_accepts (v := chosenNetwork env maturity)
    h.genesis h.mainnet hfrozen
  obtain ⟨hrunFlag, hquorumFlag, hmigrateFlag, -⟩ := by
    simpa only [List.forall_mem_cons] using h.flags
  obtain ⟨hpoll, htimeout, hreorg, hrefresh, -⟩ := by
    simpa only [List.forall_mem_cons] using h.numbers
  obtain ⟨runIndexer, hrun, hrunOn⟩ := exists_parseBool hrunFlag
  obtain ⟨requireParentQuorum, hquorum, hquorumOn⟩ := exists_parseBool hquorumFlag
  obtain ⟨migrate, hmigrate, -⟩ := exists_parseBool hmigrateFlag
  obtain ⟨pollInterval, hpoll⟩ := parseEnv_bounded.mpr hpoll
  obtain ⟨rpcTimeout, htimeout⟩ := parseEnv_bounded.mpr htimeout
  obtain ⟨maxReorgDepth, hreorg⟩ := parseEnv_bounded.mpr hreorg
  obtain ⟨evidenceRefreshDepth, hrefresh⟩ := parseEnv_bounded.mpr hrefresh
  have hdistinct : (rpcs.map fun rpc => formats.asStr rpc.url).dedup.length = rpcs.length := by
    rw [dedup_length_iff.mpr (hparents.distinct_iff.mpr h.distinct), List.length_map]
  have hcount : (!(runIndexer && requireParentQuorum && decide (rpcs.length < 2))) = true := by
    by_cases hboth : runIndexer = true ∧ requireParentQuorum = true
    · have hset := h.quorum (hrunOn.mp hboth.1) (hquorumOn.mp hboth.2)
      have htwo : rpcs.length = 2 := hparents.both_iff.mpr hset
      simp [htwo]
    · cases runIndexer <;> cases requireParentQuorum <;> simp at hboth ⊢
  simp only [fromEnv, Result.bind_eq_ok, asConfig_eq_ok, okOr_eq_ok, ensure_eq_ok, validateHexId,
    validateParentConfiguration, parentRpcs_eq_ok, decide_eq_true_eq]
  refine ⟨_, address, haddress, databaseUrl, ?_, _, hwcash, _, rfl, rpcs, hparents, _, hsettings,
    network, hnetwork, runIndexer, hrun, requireParentQuorum, hquorum, (), hdistinct, (), hcount,
    (), h.parentGenesis, pollInterval, hpoll, rpcTimeout, htimeout, maxReorgDepth, hreorg,
    evidenceRefreshDepth, hrefresh, migrate, hmigrate, rfl⟩
  simp [Env.required, hdatabase]

/-- Exactly the acceptable environments configure a process, each of the frozen settings spelled as
it is or left out. What is configured is what the environment chooses otherwise. -/
theorem accepted_configurations :
    ((∃ config, fromEnv formats env = .ok config) ↔ AcceptableEnv formats env) ∧
      ∀ config, fromEnv formats env = .ok config → ConfiguredBy formats env config :=
  ⟨⟨fun ⟨_, h⟩ => (fromEnv_ok h).1, fromEnv_accepts⟩, fun _ h => (fromEnv_ok h).2⟩

end Acceptance

section Sample

/-- URLs without a path, a query or credentials. -/
def sampleFormats : AddressFormats where
  SocketAddr := Text
  parseSocketAddr := .ok
  Url := Text
  parseUrl t := .ok (t ++ ['/'])
  asStr := id
  scheme t := t.takeWhile fun c => c ≠ ':'
  username _ := []
  password _ := none

/-- An environment from a list of its variables. -/
def Env.ofList (values : List (String × Text)) (h : ∀ x ∈ values, x.2.storable = true) : Env where
  var name := values.lookup name
  storable name t ht := by
    obtain ⟨before, after, hvalues, -⟩ := List.lookup_eq_some_iff.mp ht
    exact h (name, t) (by simp [hvalues])

/-- Two parents, and a network under a name of its own. -/
def sampleEnv (displayName : String) (h : Text.storable displayName.toList = true) : Env :=
  .ofList
    [("DATABASE_URL", "postgres://localhost/explorer".toList),
      ("WCASH_RPC_URL", "http://127.0.0.1:18232".toList),
      ("ZCASH_RPC_URL", "http://127.0.0.1:18242".toList),
      ("ZCASH_RPC_SECONDARY_URL", "http://127.0.0.1:18252".toList),
      ("WCASH_DECIMALS", "+08".toList), ("RUN_MIGRATIONS", "No".toList),
      ("WCASH_NETWORK_NAME", displayName.toList)] (by
    simp only [List.forall_mem_cons, List.not_mem_nil, false_implies, implies_true, and_true]
    exact ⟨by decide, by decide, by decide, by decide, by decide, by decide, h⟩)

end Sample

end WcashExplorer
