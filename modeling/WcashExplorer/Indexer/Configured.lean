import WcashExplorer.Config
import WcashExplorer.Indexer.Leased

/-! Processes under accepted configurations: which starts a store refuses them, and what those that
index were configured with. -/
namespace WcashExplorer

open Effects Relational

/-- The consensus profiles of `zebra-chain`. -/
structure NetworkProfiles where
  Network : Type
  tryNewWcashMainnet : Except String Network
  newWcashTestnet : Network
  /-- The genesis of a configurable profile. -/
  genesisHash : Network → Option Text
  isWcashMainnet : Network → Bool
  wcashNu7ParentActivationHeight : Network → Option Nat

variable {formats : AddressFormats} {profiles : NetworkProfiles} {lib : AuxPowCrate} {env : Env}
  {config : Config formats}

/-- The built-in profile of a network. -/
def builtInNetwork (profiles : NetworkProfiles) (networkId : Text) : Result profiles.Network :=
  if networkId = mainnet then
    match profiles.tryNewWcashMainnet with
    | .ok network => .ok network
    | .error message => .error (.config message)
  else if networkId = testnet then .ok profiles.newWcashTestnet
  else .error (.config s!"unsupported Wcash verifier network: {networkId.str}")

/-- `consensus_network`. -/
def consensusNetwork (profiles : NetworkProfiles) (networkId genesisHash : Text) :
    Result profiles.Network := do
  let network ← builtInNetwork profiles networkId
  let genesis ← okOr (.config "Wcash verifier requires a built-in Wcash consensus profile")
    (profiles.genesisHash network)
  ensure (!profiles.isWcashMainnet network || genesis = genesisHash) (.config
    s!"Wcash verifier genesis does not match the built-in {networkId.str} profile")
  .ok network

/-- `AuxPowVerifier::new`. -/
def newVerifier (profiles : NetworkProfiles) (lib : AuxPowCrate) (parents : List Text)
    (networkId genesisHash : Text) : Result (AuxPowVerifier lib) := do
  let network ← consensusNetwork profiles networkId genesisHash
  .ok { parents, nu7ActivationHeight := profiles.wcashNu7ParentActivationHeight network }

/-- What `main` indexes with, once it is past the start on the network. -/
def Config.deployment (profiles : NetworkProfiles) (lib : AuxPowCrate) (self : Config formats) :
    Result (Deployment lib) := do
  let auxpow ← newVerifier profiles lib (self.zcashRpcs.map RpcConfig.label) self.network.id
    self.network.genesisHash
  .ok
    { network := self.network
      auxpow
      maxReorgDepth := self.maxReorgDepth
      evidenceRefreshDepth := self.evidenceRefreshDepth }

/-- The network of a process is the one of an accepted configuration. -/
def Configured (formats : AddressFormats) (network : NetworkSettings) : Prop :=
  ∃ env config, fromEnv formats env = .ok config ∧ config.network = network

/-- A process indexes under an accepted configuration that has it index. -/
def IndexesUnder (formats : AddressFormats) (profiles : NetworkProfiles) (d : Deployment lib) :
    Prop :=
  ∃ env config, fromEnv formats env = .ok config ∧ config.runIndexer = true ∧
    config.deployment profiles lib = .ok d

section Networks

variable {network : NetworkSettings} {r s : NetworkRow} {now : Timestamp} {store store' : Store}

theorem storable_envOr {name default : String} (h : Text.storable default.toList = true) :
    (envOr env name default).storable = true := by
  unfold envOr
  cases hvar : env.var name with
  | none => exact h
  | some t => exact env.storable name t hvar

theorem Configured.isWcash (h : Configured formats network) (now : Timestamp) :
    (network.row now).IsWcash := by
  obtain ⟨env, config, hconfig, rfl⟩ := h
  obtain ⟨hacceptable, hby⟩ := fromEnv_ok hconfig
  obtain ⟨maturity, -, hrow⟩ := hby.network
  rw [hrow]
  exact ⟨rfl, rfl, rfl, rfl, rfl, rfl, hacceptable.mainnet⟩

/-- Of what is configured, only the spelling of the genesis can keep it from being stored. -/
theorem Configured.valid_iff (h : Configured formats network) (now : Timestamp) :
    (network.row now).valid = true ↔ isLowerHex 64 network.genesisHash = true := by
  obtain ⟨env, config, hconfig, rfl⟩ := h
  obtain ⟨maturity, -, hrow⟩ := (fromEnv_ok hconfig).2.network
  have hid : (chosenNetwork env maturity).id.storable = true := storable_envOr (by decide)
  have hname : (chosenNetwork env maturity).displayName.storable = true := storable_envOr (by decide)
  have hsymbol : (chosenNetwork env maturity).symbol.storable = true := storable_envOr (by decide)
  have hgenesis : config.network.genesisHash = (chosenNetwork env maturity).genesisHash :=
    congrArg NetworkRow.genesisHash (hrow now)
  rw [hrow, hgenesis]
  simp only [NetworkRow.valid, NetworkVariables.row, hid, hname, hsymbol, Bool.true_and,
    Bool.and_eq_true]
  simp [chosenNetwork]

/-- Two rows of one network with the settings of Wcash are the same chain where they agree in what
a configuration chooses. -/
theorem NetworkRow.IsWcash.identity_iff (hr : r.IsWcash) (hs : s.IsWcash)
    (hid : r.networkId = s.networkId) : r.identity = s.identity ↔
      r.displayName = s.displayName ∧ r.coinbaseMaturity = s.coinbaseMaturity ∧
        (s.networkId ≠ mainnet → r.genesisHash = s.genesisHash) := by
  have hgenesis : (s.networkId ≠ mainnet → r.genesisHash = s.genesisHash) ↔
      r.genesisHash = s.genesisHash := by
    refine ⟨fun h => ?_, fun h _ => h⟩
    by_cases hmain : s.networkId = mainnet
    · rw [hr.genesis (hid.trans hmain), hs.genesis hmain]
    · exact h hmain
  rw [hgenesis, ← identityMatches_iff hid]
  simp only [identityMatches, Bool.and_eq_true, decide_eq_true_eq, hr.decimals, hs.decimals,
    hr.targetSpacingSeconds, hs.targetSpacingSeconds, hr.maxSupplyZat, hs.maxSupplyZat,
    hr.initialSubsidyZat, hs.initialSubsidyZat, hr.halvingInterval, hs.halvingInterval,
    hr.firstHalvingHeight, hs.firstHalvingHeight]
  tauto

/-- The rows of a store have the settings of Wcash. -/
def Store.AllWcash (store : Store) : Prop :=
  ∀ n, ∀ r ∈ store.networks.find? n, r.IsWcash

/-- A store of such rows refuses a configured network for its own choices only. -/
theorem Configured.starts_iff (h : Configured formats network) (hstore : store.AllWcash)
    (now : Timestamp) : (∃ store', initializeNetwork network now store = .ok store') ↔
      isLowerHex 64 network.genesisHash = true ∧
        ∀ r ∈ store.networks.find? network.id, r.displayName = network.displayName ∧
          r.coinbaseMaturity = network.coinbaseMaturity ∧
          (network.id ≠ mainnet → r.genesisHash = network.genesisHash) := by
  have hwcash := h.isWcash now
  have hinterval : network.halvingInterval = 1680000 := hwcash.halvingInterval
  have hfirst : network.firstHalvingHeight = 1680001 := hwcash.firstHalvingHeight
  have hfits : network.halvingInterval ≤ i64Max ∧ network.firstHalvingHeight ≤ i64Max := by
    rw [hinterval, hfirst]
    decide
  have hrow : ∀ r, store.networks.find? network.id = some r → (r.identity = network.identity ↔
      r.displayName = network.displayName ∧ r.coinbaseMaturity = network.coinbaseMaturity ∧
        (network.id ≠ mainnet → r.genesisHash = network.genesisHash)) := by
    intro r hr
    exact (hstore _ r hr).identity_iff (h.isWcash 0) (Table.key_of_find? hr)
  simp only [initializeNetwork_ok, h.valid_iff]
  constructor
  · rintro ⟨store', ⟨-, -, hvalid⟩, hsame, -⟩
    exact ⟨hvalid, fun r hr => (hrow r hr).mp (hsame r hr)⟩
  · rintro ⟨hvalid, hsame⟩
    exact ⟨_, ⟨hfits.1, hfits.2, hvalid⟩, fun r hr => (hrow r hr).mpr (hsame r hr), rfl⟩

theorem NetworkRow.IsWcash.withSymbol (h : r.IsWcash) (symbol : Text) :
    (r.withSymbol symbol).IsWcash :=
  ⟨h.decimals, h.targetSpacingSeconds, h.maxSupplyZat, h.initialSubsidyZat, h.halvingInterval,
    h.firstHalvingHeight, h.genesis⟩

theorem Store.AllWcash.start (hstore : store.AllWcash) (h : Configured formats network)
    (hx : initializeNetwork network now store = .ok store') : store'.AllWcash := by
  intro n r hr
  rw [initializeNetwork_find? hx] at hr
  split at hr
  · obtain rfl := Option.some.inj hr
    refine NetworkRow.IsWcash.withSymbol ?_ _
    cases hfound : store.networks.find? n with
    | none => exact h.isWcash now
    | some r => exact hstore n r hfound
  · exact hstore n r hr

end Networks

section Verifier

variable {d : Deployment lib}

theorem consensusNetwork_ok {networkId genesisHash : Text} {network : profiles.Network}
    (h : consensusNetwork profiles networkId genesisHash = .ok network) :
    networkId = mainnet ∨ networkId = testnet := by
  obtain ⟨_, hnetwork, -⟩ := Result.bind_eq_ok.mp h
  unfold builtInNetwork at hnetwork
  split at hnetwork
  · rename_i hmain
    exact .inl hmain
  · split at hnetwork
    · rename_i htest
      exact .inr htest
    · cases hnetwork

theorem rpcLabels_nodup : (parentStems.map rpcLabel).Nodup := by decide

/-- A process that indexes does so for a built-in network, with parents that have labels of their
own. -/
theorem IndexesUnder.deployed (h : IndexesUnder formats profiles d) :
    (d.network.id = mainnet ∨ d.network.id = testnet) ∧ d.auxpow.parents.Nodup := by
  obtain ⟨env, config, hconfig, -, hd⟩ := h
  obtain ⟨auxpow, hauxpow, hd⟩ := Result.bind_eq_ok.mp hd
  obtain rfl := Except.ok.inj hd
  obtain ⟨profile, hprofile, hauxpow⟩ := Result.bind_eq_ok.mp hauxpow
  obtain rfl := Except.ok.inj hauxpow
  exact ⟨consensusNetwork_ok hprofile, (fromEnv_ok hconfig).2.parents.labels.nodup rpcLabels_nodup⟩

/-- A configuration that has a process index and asks for a quorum deploys both parents. -/
theorem deployment_quorum (hconfig : fromEnv formats env = .ok config)
    (hrun : config.runIndexer = true) (hquorum : config.requireParentQuorum = true)
    (hd : config.deployment profiles lib = .ok d) :
    d.auxpow.parents = parentStems.map rpcLabel ∧
      (config.zcashRpcs.map fun rpc => formats.asStr rpc.url).Nodup := by
  obtain ⟨hacceptable, hby⟩ := fromEnv_ok hconfig
  obtain ⟨auxpow, hauxpow, hd⟩ := Result.bind_eq_ok.mp hd
  obtain rfl := Except.ok.inj hd
  obtain ⟨_, -, hauxpow⟩ := Result.bind_eq_ok.mp hauxpow
  obtain rfl := Except.ok.inj hauxpow
  refine ⟨?_, hby.parents.distinct_iff.mpr hacceptable.distinct⟩
  have hboth := hby.parents.both_iff.mpr
    (hacceptable.quorum (hby.runIndexer.mp hrun) (hby.requireParentQuorum.mp hquorum))
  exact hby.parents.labels.eq_of_length (by simpa using hboth)

end Verifier

section Runs

variable {ι : Type} [DecidableEq ι] {sv sv' : Service lib ι} {ev : ServiceEvent lib ι}
  {trace : List (ServiceEvent lib ι)} {i j : ι} {d : Deployment lib} {phase : Phase lib}

/-- Processes are launched under accepted configurations, and one gets to the lease only if its
configuration has it index and a verifier could be made for it. -/
def underMain (formats : AddressFormats) (profiles : NetworkProfiles) (sv : Service lib ι) :
    ServiceEvent lib ι → Prop
  | .launched _ d => Configured formats d.network
  | .leased i _ => ∀ d, sv.phase i = .serving d → IndexesUnder formats profiles d
  | _ => True

namespace Phase

/-- The configuration of a process that runs. -/
def deployment : Phase lib → Option (Deployment lib)
  | .stopped _ => none
  | .starting d => some d
  | .serving d => some d
  | .indexing d _ _ _ => some d

/-- The configuration of a process that indexes. -/
def indexed : Phase lib → Option (Deployment lib)
  | .indexing d _ _ _ => some d
  | _ => none

end Phase

theorem mem_enter {f : Phase lib → Option (Deployment lib)}
    (h : d ∈ f ((sv.enter i phase).phase j)) : (j = i ∧ d ∈ f phase) ∨ d ∈ f (sv.phase j) := by
  by_cases hj : j = i
  · subst hj
    exact .inl ⟨rfl, by simpa [Service.enter] using h⟩
  · exact .inr (by simpa [Service.enter, hj] using h)

/-- A process runs under the configuration it was launched with. -/
theorem ServiceStep.deployment (hs : ServiceStep sv ev sv')
    (hd : d ∈ (sv'.phase j).deployment) : d ∈ (sv.phase j).deployment ∨ ev = .launched j d := by
  have hkept {i : ι} {phase : Phase lib}
      (hp : ∀ d ∈ phase.deployment, d ∈ (sv.phase i).deployment)
      (hd : d ∈ ((sv.enter i phase).phase j).deployment) :
      d ∈ (sv.phase j).deployment ∨ ev = .launched j d := by
    rcases mem_enter hd with ⟨rfl, hnew⟩ | hold
    · exact .inl (hp d hnew)
    · exact .inl hold
  cases hs with
  | launch d' h =>
    rcases mem_enter hd with ⟨rfl, hnew⟩ | hold
    · obtain rfl := Option.some.inj hnew
      exact .inr rfl
    · exact .inl hold
  | bind h hx => exact hkept (by simp [Phase.deployment, h]) hd
  | mismatch h hx => exact hkept (by simp [Phase.deployment]) hd
  | lease h hx => exact hkept (by simp [Phase.deployment, h]) hd
  | refuse h hx => exact hkept (by simp [Phase.deployment]) hd
  | tick h => exact hkept (by simp [Phase.deployment, h]) hd
  | work h hs => exact hkept (by simp [Phase.deployment, h]) hd
  | poll answered h => exact hkept (by simp [Phase.deployment, h]) hd
  | quit h => exact hkept (by simp [Phase.deployment]) hd
  | kill i => exact hkept (by simp [Phase.deployment]) hd
  | endSession session => exact .inl hd

/-- A process comes to index by getting the lease. -/
theorem ServiceStep.indexed (hs : ServiceStep sv ev sv') (hd : d ∈ (sv'.phase j).indexed) :
    d ∈ (sv.phase j).indexed ∨ ∃ session, ev = .leased j session ∧ sv.phase j = .serving d := by
  have hkept {i : ι} {phase : Phase lib} (hp : ∀ d ∈ phase.indexed, d ∈ (sv.phase i).indexed)
      (hd : d ∈ ((sv.enter i phase).phase j).indexed) :
      d ∈ (sv.phase j).indexed ∨ ∃ session, ev = .leased j session ∧ sv.phase j = .serving d := by
    rcases mem_enter hd with ⟨rfl, hnew⟩ | hold
    · exact .inl (hp d hnew)
    · exact .inl hold
  cases hs with
  | lease h hx =>
    rcases mem_enter hd with ⟨rfl, hnew⟩ | hold
    · obtain rfl := Option.some.inj hnew
      exact .inr ⟨_, rfl, h⟩
    · exact .inl hold
  | launch d' h => exact hkept (by simp [Phase.indexed]) hd
  | bind h hx => exact hkept (by simp [Phase.indexed]) hd
  | mismatch h hx => exact hkept (by simp [Phase.indexed]) hd
  | refuse h hx => exact hkept (by simp [Phase.indexed]) hd
  | tick h => exact hkept (by simp [Phase.indexed, h]) hd
  | work h hs => exact hkept (by simp [Phase.indexed, h]) hd
  | poll answered h => exact hkept (by simp [Phase.indexed, h]) hd
  | quit h => exact hkept (by simp [Phase.indexed]) hd
  | kill i => exact hkept (by simp [Phase.indexed]) hd
  | endSession session => exact .inl hd

/-- What the configurations leave in a service. -/
structure ServesWcash (formats : AddressFormats) (profiles : NetworkProfiles)
    (sv : Service lib ι) : Prop where
  store : sv.store.AllWcash
  configured : ∀ i, ∀ d ∈ (sv.phase i).deployment, Configured formats d.network
  indexes : ∀ i, ∀ d ∈ (sv.phase i).indexed, IndexesUnder formats profiles d

theorem ServesWcash.step (h : ServesWcash formats profiles sv) (hs : ServiceStep sv ev sv')
    (hpass : underMain formats profiles sv ev) : ServesWcash formats profiles sv' where
  store := by
    rcases hs.networks with ⟨i, d, now, rfl, hphase, hx, -⟩ | ⟨-, hnetworks, -⟩
    · exact h.store.start (h.configured i d (by simp [hphase, Phase.deployment])) hx
    · intro n r hr
      exact h.store n r (hnetworks ▸ hr)
  configured := by
    intro j d hd
    rcases hs.deployment hd with hold | rfl
    · exact h.configured j d hold
    · exact hpass
  indexes := by
    intro j d hd
    rcases hs.indexed hd with hold | ⟨session, rfl, hphase⟩
    · exact h.indexes j d hold
    · exact hpass d hphase

theorem ServiceRun.servesWcash
    (run : ServiceRun (underMain formats profiles) ({} : Service lib ι) trace sv) :
    ServesWcash formats profiles sv :=
  run.invariant (I := ServesWcash formats profiles) (fun _ _ _ hs hpass h => h.step hs hpass)
    ⟨by simp [Store.AllWcash], by simp [Phase.deployment], by simp [Phase.indexed]⟩

/-- In every run of processes under accepted configurations, a store holds networks with the
settings of Wcash only; it refuses a start for the spelling of the genesis, or because the network
is bound under another name, maturity or, off the main network, genesis; and a process that indexes
does so for a built-in network, deployed from an accepted configuration, and under both parents if
any configuration it can be deployed from requires a quorum. -/
theorem configured_starts
    (run : ServiceRun (underMain formats profiles) ({} : Service lib ι) trace sv) :
    sv.store.AllWcash ∧
    (∀ i d now, sv.phase i = .starting d →
      ((∃ store, initializeNetwork d.network now sv.store = .ok store) ↔
        isLowerHex 64 d.network.genesisHash = true ∧
          ∀ r ∈ sv.store.networks.find? d.network.id, r.displayName = d.network.displayName ∧
            r.coinbaseMaturity = d.network.coinbaseMaturity ∧
            (d.network.id ≠ mainnet → r.genesisHash = d.network.genesisHash))) ∧
    ∀ i, ∀ d ∈ (sv.phase i).indexed,
      (d.network.id = mainnet ∨ d.network.id = testnet) ∧ d.auxpow.parents.Nodup ∧
        IndexesUnder formats profiles d ∧
        ∀ env config, fromEnv formats env = .ok config → config.runIndexer = true →
          config.deployment profiles lib = .ok d → config.requireParentQuorum = true →
            d.auxpow.parents = parentStems.map rpcLabel ∧
              (config.zcashRpcs.map fun rpc => formats.asStr rpc.url).Nodup := by
  have h := run.servesWcash
  refine ⟨h.store, fun i d now hphase => ?_, fun i d hd => ?_⟩
  · have hconfigured : Configured formats d.network :=
      h.configured i d (by simp [hphase, Phase.deployment])
    exact hconfigured.starts_iff h.store now
  · have hunder := h.indexes i d hd
    obtain ⟨hnetwork, hnodup⟩ := hunder.deployed
    exact ⟨hnetwork, hnodup, hunder, fun env config hconfig hrun hdeploy hquorum =>
      deployment_quorum hconfig hrun hquorum hdeploy⟩

/-- The two built-in profiles. -/
def sampleProfiles : NetworkProfiles where
  Network := Bool
  tryNewWcashMainnet := .ok true
  newWcashTestnet := false
  genesisHash main := some (if main then wcashMainnetGenesisHash else
    "0271b5b0a10b2838f43cccdec9ca2f72aa72a7c103830082bac8f82f47f0593a".toList)
  isWcashMainnet := id
  wcashNu7ParentActivationHeight _ := none

def deployed (network : NetworkSettings) : Deployment sampleCrate where
  network
  auxpow := { parents := [], nu7ActivationHeight := none }
  maxReorgDepth := 10000
  evidenceRefreshDepth := 100

/-- A configuration is read, and it is on the test network under its name. -/
theorem sampleEnv_configured (displayName : String) (h : Text.storable displayName.toList = true)
    (hok : (fromEnv sampleFormats (sampleEnv displayName h)).isOk = true) :
    ∃ config, fromEnv sampleFormats (sampleEnv displayName h) = .ok config ∧
      config.network.id = testnet ∧ config.network.displayName = displayName.toList ∧
      isLowerHex 64 config.network.genesisHash = true := by
  cases hconfig : fromEnv sampleFormats (sampleEnv displayName h) with
  | error e =>
    rw [hconfig] at hok
    cases hok
  | ok config =>
    obtain ⟨maturity, -, hrow⟩ := (fromEnv_ok hconfig).2.network
    refine ⟨config, rfl, ?_, ?_, ?_⟩
    · exact congrArg NetworkRow.networkId (hrow 0)
    · exact congrArg NetworkRow.displayName (hrow 0)
    · rw [show config.network.genesisHash = _ from congrArg NetworkRow.genesisHash (hrow 0)]
      exact (by decide +kernel : isLowerHex 64
        "0271b5b0a10b2838f43cccdec9ca2f72aa72a7c103830082bac8f82f47f0593a".toList = true)

/-- It leaves the flags on, and a verifier can be made for it. -/
theorem sampleEnv_deployed {displayName : String} {h : Text.storable displayName.toList = true}
    {config : Config sampleFormats}
    (hconfig : fromEnv sampleFormats (sampleEnv displayName h) = .ok config)
    (hid : config.network.id = testnet) :
    config.runIndexer = true ∧ config.requireParentQuorum = true ∧
      ∃ d, config.deployment sampleProfiles sampleCrate = .ok d ∧ d.network = config.network := by
  have hby := (fromEnv_ok hconfig).2
  have hunset : ∀ name ∈ ["RUN_INDEXER", "REQUIRE_PARENT_QUORUM"],
      (sampleEnv displayName h).var name = none := by
    simp only [List.forall_mem_cons, List.not_mem_nil, false_implies, implies_true, and_true]
    exact ⟨rfl, rfl⟩
  have hon : ∀ name ∈ ["RUN_INDEXER", "REQUIRE_PARENT_QUORUM"],
      IsOn (sampleEnv displayName h) name := by
    intro name hname t ht
    rw [hunset name hname] at ht
    cases ht
  have hprofile : consensusNetwork sampleProfiles testnet config.network.genesisHash =
      .ok false := rfl
  refine ⟨hby.runIndexer.mpr (hon _ (by simp)), hby.requireParentQuorum.mpr (hon _ (by simp)), ?_⟩
  simp only [Config.deployment, newVerifier, hid, hprofile]
  exact ⟨_, rfl, rfl⟩

/-- The first process gets through its start and indexes under both parents, and one with another
name for its network does not get through. -/
theorem configured_starts_renamed :
    ∃ (sv : Service sampleCrate Bool) (first second : Deployment sampleCrate),
      first ∈ (sv.phase false).indexed ∧ first.auxpow.parents = parentStems.map rpcLabel ∧
        sv.phase true = .starting second ∧
        ¬ ∃ store, initializeNetwork second.network 1 sv.store = .ok store := by
  obtain ⟨config, hconfig, hid, hname, hgenesis⟩ :=
    sampleEnv_configured "Wcash Testnet" (by decide) (by decide +kernel)
  obtain ⟨renamed, hrenamed, hid', hname', -⟩ :=
    sampleEnv_configured "Renamed" (by decide) (by decide +kernel)
  obtain ⟨hrun, hquorum, d, hd, hnetwork⟩ := sampleEnv_deployed hconfig hid
  have launched : ServiceRun (underMain sampleFormats sampleProfiles) ({} : Service sampleCrate Bool)
      [.launched false d] (({} : Service sampleCrate Bool).enter false (.starting d)) :=
    .single (.launch _ rfl) ⟨_, config, hconfig, hnetwork.symm⟩
  obtain ⟨-, hstarts, -⟩ := configured_starts launched
  obtain ⟨store, hstore⟩ :=
    (hstarts false d 0 rfl).mpr ⟨hnetwork ▸ hgenesis, by simp [Service.enter]⟩
  have bound := launched.trans (.single (.bind (i := false) (d := d) rfl hstore) trivial)
  have leased := bound.trans (.single (.lease (i := false) (d := d) rfl rfl) (by
    rintro d' hserving
    obtain rfl : d = d' := by simpa [Service.enter] using hserving
    exact ⟨_, config, hconfig, hrun, hd⟩))
  obtain ⟨trace, sv, run, hphase, hindexed, rfl⟩ : ∃ trace sv,
      ServiceRun (underMain sampleFormats sampleProfiles) ({} : Service sampleCrate Bool) trace sv ∧
        sv.phase true = .starting (deployed renamed.network) ∧
        d ∈ (sv.phase false).indexed ∧ sv.store = store :=
    ⟨_, _, leased.trans (.single (.launch (i := true) (deployed renamed.network) rfl)
      ⟨_, renamed, hrenamed, rfl⟩), rfl, rfl, rfl⟩
  obtain ⟨-, hstarts', hindexes⟩ := configured_starts run
  obtain ⟨-, -, -, hparents⟩ := hindexes false d hindexed
  refine ⟨sv, d, deployed renamed.network, hindexed, (hparents _ config hconfig hrun hd hquorum).1,
    hphase, fun hstart => ?_⟩
  obtain ⟨-, hsame⟩ := (hstarts' true _ 1 hphase).mp hstart
  have hsameId : (deployed renamed.network).network.id = d.network.id := by
    rw [hnetwork, hid]
    exact hid'
  obtain ⟨hdisplay, -⟩ := hsame _ ((initializeNetwork_find? hstore _).trans (if_pos hsameId))
  have hdisplay : d.network.displayName = renamed.network.displayName := hdisplay
  rw [hnetwork, hname, hname'] at hdisplay
  exact absurd hdisplay (by decide)

end Runs

end WcashExplorer
