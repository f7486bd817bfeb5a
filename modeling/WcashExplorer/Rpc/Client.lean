import Mathlib.Logic.Function.Basic
import WcashExplorer.Rpc
import WcashExplorer.Serde

/-! The calls of one JSON-RPC client in progress: each is answered by its own response or fails. -/
namespace WcashExplorer

open Json

/-- `serde_json`: the value a text spells, members in their order and repeated ones too, and the
texts of its errors. -/
structure SerdeCrate where
  parse : Bytes → Except String Json
  mismatch : Json → String

structure RpcError where
  code : Int
  message : Text

structure RpcResponse (α : Type) where
  jsonrpc : Text
  id : Nat
  result : Option α
  error : Option RpcError

/-- The one member of a name, if there is one; a repeated member is an error. -/
def uniqueMember (members : List (Text × Json)) (key : Text) : Option (Option Json) :=
  match members.filter fun m => m.1 = key with
  | [] => some none
  | [m] => some (some m.2)
  | _ => none

/-- A member of a record of the protocol. An optional one may be missing. -/
def requiredMember {β : Type} (decode : Json → Option β) (members : List (Text × Json))
    (key : Text) : Option β :=
  (uniqueMember members key).bind fun value => value.bind decode

def optionalMember {β : Type} (decode : Json → Option β) (members : List (Text × Json))
    (key : Text) : Option (Option β) :=
  (uniqueMember members key).bind fun value => decodeOption decode (value.getD .null)

namespace RpcError

def fromJson : Json → Option RpcError
  | .object members => do
    let code ← requiredMember decodeI64 members "code".toList
    let message ← requiredMember decodeString members "message".toList
    return { code, message }
  | .array [code, message] => do
    let code ← decodeI64 code
    let message ← decodeString message
    return { code, message }
  | _ => none

end RpcError

namespace RpcResponse

variable {α : Type}

/-- A record is read from an object or from its members in order. -/
def fromJson (decode : Json → Option α) : Json → Option (RpcResponse α)
  | .object members => do
    let jsonrpc ← requiredMember decodeString members "jsonrpc".toList
    let id ← requiredMember (decodeUnsigned u64Max) members "id".toList
    let result ← optionalMember decode members "result".toList
    let error ← optionalMember RpcError.fromJson members "error".toList
    return { jsonrpc, id, result, error }
  | .array [jsonrpc, id, result, error] => do
    let jsonrpc ← decodeString jsonrpc
    let id ← decodeUnsigned u64Max id
    let result ← decodeOption decode result
    let error ← decodeOption RpcError.fromJson error
    return { jsonrpc, id, result, error }
  | _ => none

/-- The id is read without regard to what the result is read as. -/
theorem fromJson_id {β : Type} {decode : Json → Option α} {decode' : Json → Option β} {j : Json}
    {r : RpcResponse α} {r' : RpcResponse β} (h : fromJson decode j = some r)
    (h' : fromJson decode' j = some r') : r.id = r'.id := by
  unfold fromJson at h h'
  split at h
  · simp only [Option.bind_eq_bind, Option.bind_eq_some_iff, Option.pure_def,
      Option.some.injEq] at h h'
    obtain ⟨_, -, id, hid, _, -, _, -, rfl⟩ := h
    obtain ⟨_, -, id', hid', _, -, _, -, rfl⟩ := h'
    exact Option.some.inj (hid.symm.trans hid')
  · simp only [Option.bind_eq_bind, Option.bind_eq_some_iff, Option.pure_def,
      Option.some.injEq] at h h'
    obtain ⟨_, -, id, hid, _, -, _, -, rfl⟩ := h
    obtain ⟨_, -, id', hid', _, -, _, -, rfl⟩ := h'
    exact Option.some.inj (hid.symm.trans hid')
  · cases h

end RpcResponse

/-- What the client reads of the head of an HTTP response. -/
structure ResponseHead where
  status : Text
  success : Bool
  contentLength : Option Nat

/-- Where a call is. The bytes of a finished one are kept for reference. -/
inductive CallPhase (α : Type)
  | idle
  | sent (id : Nat)
  | receiving (id : Nat) (bytes : Bytes)
  | finished (id : Nat) (bytes : Bytes) (outcome : Result α)

namespace CallPhase

variable {α : Type}

/-- The id a call was sent under. -/
def id? : CallPhase α → Option Nat
  | idle => none
  | sent id => some id
  | receiving id _ => some id
  | finished id _ _ => some id

/-- What a call has buffered or been answered from. -/
def bytes : CallPhase α → Bytes
  | receiving _ bytes => bytes
  | finished _ bytes _ => bytes
  | _ => []

end CallPhase

/-- What can happen to a call: it takes an id, its request is not sent or not answered, the head of
a response arrives, then pieces of its body, and the connection breaks or the body ends. -/
inductive CallEvent
  | start
  | unsent (error : ExplorerError)
  | head (h : ResponseHead)
  | chunk (bytes : Bytes)
  | broken
  | close

def sizeLimitError : ExplorerError :=
  .invalidNodeResponse "node response exceeded the configured size limit"

section Call

variable {α : Type} (serde : SerdeCrate) (decode : Json → Option α)

/-- `serde_json::from_slice`. -/
def fromSlice (bytes : Bytes) : Except String (RpcResponse α) :=
  match serde.parse bytes with
  | .error error => .error error
  | .ok j =>
    match RpcResponse.fromJson decode j with
    | some response => .ok response
    | none => .error (serde.mismatch j)

/-- The end of `call`, once the body is complete. -/
def settle (id : Nat) (bytes : Bytes) : Result α :=
  match fromSlice serde decode bytes with
  | .error error => .error (.invalidNodeResponse s!"invalid JSON-RPC response: {error}")
  | .ok envelope =>
    if envelope.jsonrpc ≠ "2.0".toList then
      .error (.invalidNodeResponse "node response is not JSON-RPC 2.0")
    else if envelope.id ≠ id then
      .error (.invalidNodeResponse "JSON-RPC response ID did not match the request")
    else
      match envelope.error with
      | some error => .error (.rpc error.code error.message.str)
      | none =>
        match envelope.result with
        | some result => .ok result
        | none => .error (.invalidNodeResponse "JSON-RPC response omitted result")

/-- `call` from one event to the next, under the id that the counter stands at. -/
def CallPhase.next (nextId : Nat) : CallPhase α → CallEvent → Option (CallPhase α)
  | .idle, .start => some (.sent nextId)
  | .sent id, .unsent error => some (.finished id [] (.error error))
  | .sent id, .head h =>
    if !h.success then
      some (.finished id [] (.error (.invalidNodeResponse s!"node returned HTTP {h.status.str}")))
    else if h.contentLength.any fun length => maxRpcResponseBytes < length then
      some (.finished id [] (.error sizeLimitError))
    else some (.receiving id [])
  | .receiving id bytes, .chunk more =>
    if maxRpcResponseBytes < bytes.length + more.length then
      some (.finished id bytes (.error sizeLimitError))
    else some (.receiving id (bytes ++ more))
  | .receiving id bytes, .broken => some (.finished id bytes (.error .rpcTransport))
  | .receiving id bytes, .close => some (.finished id bytes (settle serde decode id bytes))
  | _, _ => none

end Call

/-- A client and its clones: one counter of 64 bits, and the calls in progress. -/
structure ZebraRpc (ι : Type) (Answer : ι → Type) where
  nextId : Nat := 1
  phase : ∀ i, CallPhase (Answer i) := fun _ => .idle

variable {ι : Type} [DecidableEq ι] {Answer : ι → Type} {serde : SerdeCrate}
  {decode : ∀ i, Json → Option (Answer i)} {s t : ZebraRpc ι Answer} {i j : ι} {e : CallEvent}
  {tr : List (ι × CallEvent)}

/-- `fetch_add`, wrapping around: only a start takes an id. -/
def CallEvent.counted (nextId : Nat) : CallEvent → Nat
  | start => (nextId + 1) % 2 ^ 64
  | _ => nextId

/-- One event of one call. -/
def ZebraRpc.step (serde : SerdeCrate) (decode : ∀ i, Json → Option (Answer i))
    (s : ZebraRpc ι Answer) (i : ι) (e : CallEvent) : Option (ZebraRpc ι Answer) :=
  ((s.phase i).next serde (decode i) s.nextId e).map fun p =>
    { nextId := e.counted s.nextId
      phase := Function.update s.phase i p }

/-- The events of any calls in any order, from a new client on. -/
inductive ZebraRpc.Reaches (serde : SerdeCrate) (decode : ∀ i, Json → Option (Answer i)) :
    List (ι × CallEvent) → ZebraRpc ι Answer → Prop
  | new : Reaches serde decode [] {}
  | step {tr : List (ι × CallEvent)} {s t : ZebraRpc ι Answer} {i : ι} {e : CallEvent}
      (h : Reaches serde decode tr s) (hs : s.step serde decode i e = some t) :
      Reaches serde decode (tr ++ [(i, e)]) t

/-- How many calls were started. -/
def started (tr : List (ι × CallEvent)) : Nat :=
  tr.countP fun x => match x.2 with
    | .start => true
    | _ => false

/-- The pieces of a call's body that arrived, joined. -/
def received (tr : List (ι × CallEvent)) (i : ι) : Bytes :=
  tr.flatMap fun x => match x.2 with
    | .chunk bytes => if x.1 = i then bytes else []
    | _ => []

section Call

variable {α : Type} {decode : Json → Option α} {id nextId : Nat} {bytes : Bytes} {a : α}
  {p q : CallPhase α}

/-- A body is accepted exactly if it is a response of the protocol to this id, with a result and
no error. -/
theorem settle_eq_ok : settle serde decode id bytes = .ok a ↔
    ∃ j, serde.parse bytes = .ok j ∧ RpcResponse.fromJson decode j =
      some { jsonrpc := "2.0".toList, id, result := some a, error := none } := by
  unfold settle fromSlice
  generalize "2.0".toList = marker
  cases hparse : serde.parse bytes with
  | error e => simp
  | ok j =>
    cases hresponse : RpcResponse.fromJson decode j with
    | none => simp [hresponse]
    | some response =>
      obtain ⟨version, id', result, error⟩ := response
      by_cases hversion : version = marker
      · by_cases hid : id' = id
        · cases error <;> cases result <;> simp [hresponse, hversion, hid]
        · simp [hresponse, hversion, hid]
      · simp [hresponse, hversion]

/-- A start takes the counter's id, and everything else keeps the id the call has. -/
theorem CallPhase.next_id (h : p.next serde decode nextId e = some q) :
    (e = .start ∧ p = .idle ∧ q.id? = some nextId) ∨
      (e ≠ .start ∧ p.id?.isSome ∧ q.id? = p.id?) := by
  unfold next at h
  split at h
  · cases h
    exact .inl ⟨rfl, rfl, rfl⟩
  · cases h
    exact .inr ⟨nofun, rfl, rfl⟩
  · split at h
    · cases h
      exact .inr ⟨nofun, rfl, rfl⟩
    · split at h <;> cases h <;> exact .inr ⟨nofun, rfl, rfl⟩
  · split at h <;> cases h <;> exact .inr ⟨nofun, rfl, rfl⟩
  · cases h
    exact .inr ⟨nofun, rfl, rfl⟩
  · cases h
    exact .inr ⟨nofun, rfl, rfl⟩
  · cases h

/-- No piece is kept that would exceed the limit. -/
theorem CallPhase.next_bytes (h : p.next serde decode nextId e = some q)
    (hp : p.bytes.length ≤ maxRpcResponseBytes) : q.bytes.length ≤ maxRpcResponseBytes := by
  unfold next at h
  split at h
  · cases h
    exact hp
  · cases h
    exact Nat.zero_le _
  · split at h
    · cases h
      exact Nat.zero_le _
    · split at h <;> cases h <;> exact Nat.zero_le _
  · split at h
    · cases h
      exact hp
    · rename_i hfits
      cases h
      rw [bytes, List.length_append]
      exact not_lt.mp hfits
  · cases h
    exact hp
  · cases h
    exact hp
  · cases h

/-- Whether a call's body is complete, and what has arrived of it: the call ends with what the
whole body says once that is complete, and otherwise in an error. -/
def CallPhase.Holds (serde : SerdeCrate) (decode : Json → Option α) (closed : Prop)
    (arrived : Bytes) : CallPhase α → Prop
  | .idle => ¬ closed ∧ arrived = []
  | .sent _ => ¬ closed ∧ arrived = []
  | .receiving _ bytes => ¬ closed ∧ arrived = bytes
  | .finished id bytes outcome =>
    (closed ∧ arrived = bytes ∧ outcome = settle serde decode id bytes) ∨
      (¬ closed ∧ ∃ error, outcome = .error error)

/-- What an event adds to the body of its call. -/
def CallEvent.piece : CallEvent → Bytes
  | chunk bytes => bytes
  | _ => []

theorem CallPhase.next_holds {closed : Prop} {arrived : Bytes}
    (h : p.next serde decode nextId e = some q) (hp : p.Holds serde decode closed arrived) :
    q.Holds serde decode (closed ∨ e = .close) (arrived ++ e.piece) := by
  unfold next at h
  split at h
  · cases h
    obtain ⟨hopen, rfl⟩ := hp
    exact ⟨by simpa using hopen, rfl⟩
  · cases h
    exact .inr ⟨by simpa using hp.1, _, rfl⟩
  · obtain ⟨hopen, rfl⟩ := hp
    split at h
    · cases h
      exact .inr ⟨by simpa using hopen, _, rfl⟩
    · split at h <;> cases h
      · exact .inr ⟨by simpa using hopen, _, rfl⟩
      · exact ⟨by simpa using hopen, rfl⟩
  · obtain ⟨hopen, rfl⟩ := hp
    split at h <;> cases h
    · exact .inr ⟨by simpa using hopen, _, rfl⟩
    · exact ⟨by simpa using hopen, rfl⟩
  · cases h
    exact .inr ⟨by simpa using hp.1, _, rfl⟩
  · cases h
    exact .inl ⟨.inr rfl, by rw [hp.2]; exact List.append_nil _, rfl⟩
  · cases h

end Call

section Client

theorem received_append : received (tr ++ [(j, e)]) i =
    received tr i ++ if j = i then e.piece else [] := by
  rw [received, List.flatMap_append, List.flatMap_singleton]
  cases e <;> by_cases hi : j = i <;> simp [CallEvent.piece, received, hi]

omit [DecidableEq ι] in
theorem started_append : started (tr ++ [(j, e)]) =
    started tr + match e with
      | .start => 1
      | _ => 0 := by
  rw [started, List.countP_append]
  cases e <;> rfl

/-- What holds of a client and its calls after any events: the counter counts the starts, the calls
hold different numbers below that count, and each of them has kept to its own body. -/
structure ClientInvariant (serde : SerdeCrate) (decode : ∀ i, Json → Option (Answer i))
    (tr : List (ι × CallEvent)) (s : ZebraRpc ι Answer) : Prop where
  counter : s.nextId = (1 + started tr) % 2 ^ 64
  ranks : ∃ rank : ι → Nat,
    (∀ i id, (s.phase i).id? = some id → rank i < started tr ∧ id = (1 + rank i) % 2 ^ 64) ∧
    ∀ i j, (s.phase i).id?.isSome → (s.phase j).id?.isSome → rank i = rank j → i = j
  bounded : ∀ i, (s.phase i).bytes.length ≤ maxRpcResponseBytes
  own : ∀ i, (s.phase i).Holds serde (decode i) ((i, .close) ∈ tr) (received tr i)

theorem ClientInvariant.new : ClientInvariant serde decode [] ({} : ZebraRpc ι Answer) where
  counter := rfl
  ranks := ⟨fun _ => 0, nofun, nofun⟩
  bounded := fun _ => Nat.zero_le _
  own := fun _ => ⟨by simp, rfl⟩

theorem ClientInvariant.step (h : ClientInvariant serde decode tr s)
    (hs : s.step serde decode j e = some t) :
    ClientInvariant serde decode (tr ++ [(j, e)]) t := by
  obtain ⟨q, hnext, ht⟩ := Option.map_eq_some_iff.mp hs
  have hcounter : t.nextId = e.counted s.nextId := by rw [← ht]
  have hself : t.phase j = q := by
    rw [← ht]
    exact Function.update_self _ _ _
  have hother : ∀ i, i ≠ j → t.phase i = s.phase i := by
    intro i hi
    rw [← ht]
    exact Function.update_of_ne hi _ _
  refine ⟨?_, ?_, fun i => ?_, fun i => ?_⟩
  · rw [started_append, hcounter, h.counter]
    cases e with
    | start =>
      rw [CallEvent.counted, Nat.mod_add_mod, Nat.add_assoc]
    | _ => rfl
  · obtain ⟨rank, hrank, hinj⟩ := h.ranks
    rcases CallPhase.next_id hnext with ⟨rfl, hidle, hid⟩ | ⟨hstart, hsome, hid⟩
    · have hstarted : started (tr ++ [(j, CallEvent.start)]) = started tr + 1 := started_append
      have hbelow : ∀ i, (s.phase i).id?.isSome → rank i < started tr := fun i hi =>
        (hrank i _ (Option.eq_some_of_isSome hi)).1
      refine ⟨Function.update rank j (started tr), fun i id hi => ?_, fun i i' hi hi' heq => ?_⟩
      · by_cases hij : i = j
        · subst hij
          rw [hself, hid] at hi
          rw [Function.update_self, hstarted, ← Option.some.inj hi, h.counter]
          exact ⟨Nat.lt_succ_self _, rfl⟩
        · rw [hother i hij] at hi
          rw [Function.update_of_ne hij, hstarted]
          exact ⟨Nat.lt_succ_of_lt (hrank i id hi).1, (hrank i id hi).2⟩
      · by_cases hij : i = j <;> by_cases hij' : i' = j
        · exact hij.trans hij'.symm
        · rw [hother i' hij'] at hi'
          rw [hij, Function.update_self, Function.update_of_ne hij'] at heq
          exact absurd heq (hbelow i' hi').ne'
        · rw [hother i hij] at hi
          rw [hij', Function.update_self, Function.update_of_ne hij] at heq
          exact absurd heq (hbelow i hi).ne
        · rw [hother i hij] at hi
          rw [hother i' hij'] at hi'
          rw [Function.update_of_ne hij, Function.update_of_ne hij'] at heq
          exact hinj i i' hi hi' heq
    · have hstarted : started (tr ++ [(j, e)]) = started tr := by
        rw [started_append]
        cases e with
        | start => exact absurd rfl hstart
        | _ => rfl
      have hids : ∀ i, (t.phase i).id? = (s.phase i).id? := by
        intro i
        by_cases hij : i = j
        · rw [hij, hself, hid]
        · rw [hother i hij]
      refine ⟨rank, fun i id hi => ?_, fun i i' hi hi' heq => ?_⟩
      · rw [hids] at hi
        rw [hstarted]
        exact hrank i id hi
      · rw [hids] at hi hi'
        exact hinj i i' hi hi' heq
  · by_cases hi : i = j
    · subst hi
      rw [hself]
      exact CallPhase.next_bytes hnext (h.bounded i)
    · rw [hother i hi]
      exact h.bounded i
  · by_cases hi : i = j
    · subst hi
      have hclosed : ((i, CallEvent.close) ∈ tr ++ [(i, e)]) ↔ ((i, .close) ∈ tr ∨ e = .close) := by
        simp [eq_comm]
      rw [hself, received_append, if_pos rfl, hclosed]
      exact CallPhase.next_holds hnext (h.own i)
    · have hclosed : ((i, CallEvent.close) ∈ tr ++ [(j, e)]) ↔ (i, .close) ∈ tr := by simp [hi]
      rw [hother i hi, received_append, if_neg (Ne.symm hi), List.append_nil, hclosed]
      exact h.own i

theorem ZebraRpc.Reaches.invariant (h : ZebraRpc.Reaches serde decode tr s) :
    ClientInvariant serde decode tr s := by
  induction h with
  | new => exact .new
  | step _ hs ih => exact ih.step hs

/-- Calls of a client that shares its counter, in any order of any events: none ever buffers more
than the limit; one whose body was complete ends with what the joined pieces say under its own id,
whatever the pieces were and whatever other calls did, and no other one ends well. While the counter
has not come round, two calls have different ids, and no body is taken for the answer to both. -/
theorem answers_are_own (h : ZebraRpc.Reaches serde decode tr s) :
    (∀ i, (s.phase i).bytes.length ≤ maxRpcResponseBytes) ∧
    (∀ i, (i, .close) ∈ tr → ∃ id, s.phase i =
      .finished id (received tr i) (settle serde (decode i) id (received tr i))) ∧
    (∀ i id bytes a, s.phase i = .finished id bytes (.ok a) → (i, .close) ∈ tr ∧
      ∃ j, serde.parse (received tr i) = .ok j ∧ RpcResponse.fromJson (decode i) j =
        some { jsonrpc := "2.0".toList, id, result := some a, error := none }) ∧
    (started tr ≤ 2 ^ 64 → ∀ i i', i ≠ i' →
      (∀ id id', (s.phase i).id? = some id → (s.phase i').id? = some id' → id ≠ id') ∧
      ∀ id id' bytes bytes' a a', s.phase i = .finished id bytes (.ok a) →
        s.phase i' = .finished id' bytes' (.ok a') → received tr i ≠ received tr i') := by
  have hinv := h.invariant
  have haccepted : ∀ i id bytes a, s.phase i = .finished id bytes (.ok a) → (i, .close) ∈ tr ∧
      ∃ j, serde.parse (received tr i) = .ok j ∧ RpcResponse.fromJson (decode i) j =
        some { jsonrpc := "2.0".toList, id, result := some a, error := none } := by
    intro i id bytes a hi
    have hown := hinv.own i
    rw [hi] at hown
    rcases hown with ⟨hclosed, harrived, houtcome⟩ | ⟨-, error, herror⟩
    · rw [harrived]
      exact ⟨hclosed, settle_eq_ok.mp houtcome.symm⟩
    · cases herror
  refine ⟨hinv.bounded, fun i hclosed => ?_, haccepted, fun hcount i i' hne => ?_⟩
  · have hown := hinv.own i
    cases hi : s.phase i with
    | finished id bytes outcome =>
      rw [hi] at hown
      rcases hown with ⟨-, harrived, houtcome⟩ | ⟨hopen, -⟩
      · exact ⟨id, by rw [harrived, houtcome]⟩
      · exact absurd hclosed hopen
    | _ =>
      rw [hi] at hown
      exact absurd hclosed hown.1
  · have hids : ∀ id id', (s.phase i).id? = some id → (s.phase i').id? = some id' → id ≠ id' := by
      obtain ⟨rank, hrank, hinj⟩ := hinv.ranks
      rintro id id' hi hi' rfl
      obtain ⟨hlt, hid⟩ := hrank i id hi
      obtain ⟨hlt', hid'⟩ := hrank i' id hi'
      have hsame : rank i = rank i' := by omega
      exact hne (hinj i i' (Option.isSome_of_mem hi) (Option.isSome_of_mem hi') hsame)
    refine ⟨hids, fun id id' bytes bytes' a a' hi hi' hbody => ?_⟩
    obtain ⟨-, j, hparse, hresponse⟩ := haccepted i id bytes a hi
    obtain ⟨-, j', hparse', hresponse'⟩ := haccepted i' id' bytes' a' hi'
    rw [hbody, hparse'] at hparse
    cases hparse
    exact hids id id' (by rw [hi]; rfl) (by rw [hi']; rfl) (RpcResponse.fromJson_id hresponse hresponse')

end Client

section Sample

def sampleEnvelope (id answer : Nat) : Json :=
  .object [("jsonrpc".toList, .string "2.0".toList), ("result".toList, .nat answer),
    ("id".toList, .nat id)]

def sampleBody (id answer : Nat) : Bytes :=
  (sampleEnvelope id answer).toText.map fun c => UInt8.ofNat c.toNat

/-- Reads the responses to the first two calls. -/
def sampleSerde : SerdeCrate where
  parse := fun bytes =>
    if bytes = sampleBody 1 7 then .ok (sampleEnvelope 1 7)
    else if bytes = sampleBody 2 8 then .ok (sampleEnvelope 2 8)
    else .error "expected value"
  mismatch := fun _ => "invalid type"

/-- Two calls under way at once; the response to the second one comes in two pieces. -/
def sampleCalls : List (Bool × CallEvent) :=
  let accepted : ResponseHead := { status := "200 OK".toList, success := true, contentLength := none }
  [(false, .start), (true, .start), (true, .head accepted), (true, .chunk ((sampleBody 2 8).take 9)),
    (false, .head accepted), (false, .chunk (sampleBody 1 7)), (true, .chunk ((sampleBody 2 8).drop 9)),
    (true, .close), (false, .close)]

/-- Runs the events of some calls. -/
def ZebraRpc.run (serde : SerdeCrate) (decode : ∀ i, Json → Option (Answer i)) :
    List (ι × CallEvent) → ZebraRpc ι Answer → Option (ZebraRpc ι Answer)
  | [], s => some s
  | (i, e) :: rest, s => (s.step serde decode i e).bind (run serde decode rest)

theorem ZebraRpc.Reaches.run {rest : List (ι × CallEvent)} (h : ZebraRpc.Reaches serde decode tr s)
    (hrun : ZebraRpc.run serde decode rest s = some t) :
    ZebraRpc.Reaches serde decode (tr ++ rest) t := by
  induction rest generalizing tr s with
  | nil =>
    cases hrun
    rwa [List.append_nil]
  | cons x rest ih =>
    obtain ⟨u, hu, hrest⟩ := Option.bind_eq_some_iff.mp hrun
    have hreach := ih (.step h hu) hrest
    rwa [List.append_assoc] at hreach

/-- Both calls are answered, from different bodies. -/
theorem answers_are_own_interleaved : ∃ s : ZebraRpc Bool fun _ => Nat,
    ZebraRpc.Reaches sampleSerde (fun _ => decodeUnsigned u64Max) sampleCalls s ∧
      s.phase false = .finished 1 (sampleBody 1 7) (.ok 7) ∧
      s.phase true = .finished 2 (sampleBody 2 8) (.ok 8) ∧
      received sampleCalls false ≠ received sampleCalls true := by
  have hnew : ZebraRpc.Reaches sampleSerde (fun _ : Bool => decodeUnsigned u64Max) [] {} := .new
  have hrun : ZebraRpc.run sampleSerde (fun _ => decodeUnsigned u64Max) sampleCalls
      ({} : ZebraRpc Bool fun _ => Nat) = some _ := rfl
  have hreach := hnew.run hrun
  obtain ⟨-, -, -, hapart⟩ := answers_are_own hreach
  have hbodies := (hapart (by decide) false true (by decide)).2 1 2 (sampleBody 1 7)
    (sampleBody 2 8) 7 8 rfl rfl
  exact ⟨_, hreach, rfl, rfl, hbodies⟩

end Sample

end WcashExplorer
