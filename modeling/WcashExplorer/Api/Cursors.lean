import WcashExplorer.Api.Paging

/-! The two kinds of page cursors: each has one spelling, and no spelling is of both kinds. -/
namespace WcashExplorer

variable {value : Text} {bytes : Bytes} {height : Nat} {position : Int}

/-- A slice of some bytes; out of their range it panics. -/
def slice (bytes : Bytes) (start stop : Nat) : Option Bytes :=
  if start ≤ stop ∧ stop ≤ bytes.length then some ((bytes.take stop).drop start) else none

/-- `try_into` an array of a fixed length. -/
def tryIntoArray (n : Nat) (bytes : Bytes) : Option Bytes :=
  if bytes.length = n then some bytes else none

/-- `i32::to_be_bytes`. -/
def i32ToBeBytes (n : Int) : Bytes := toBeBytes 4 (n % 2 ^ 32).toNat

/-- `i32::from_be_bytes`. -/
def i32FromBeBytes (bytes : Bytes) : Int :=
  if fromBeBytes bytes ≤ i32Max then fromBeBytes bytes else fromBeBytes bytes - 2 ^ 32

/-- `encode_tx_cursor` of a signed position. -/
def encodeSignedTxCursor (height : Nat) (position : Int) : Text :=
  Codec.encode (toBeBytes 8 height ++ i32ToBeBytes position)

/-- `decode_tx_cursor` with its signed position. It yields nothing where a slice or an `expect`
panics. -/
def decodeSignedTxCursor (value : Text) : Option (Result (Nat × Int)) :=
  match Codec.decode value with
  | none => some invalidCursor
  | some bytes =>
    if bytes.length ≠ 12 then some invalidCursor
    else do
      let heightBytes ← tryIntoArray 8 (← slice bytes 0 8)
      let positionBytes ← tryIntoArray 4 (← slice bytes 8 bytes.length)
      let height := fromBeBytes heightBytes
      let position := i32FromBeBytes positionBytes
      if position < 0 then some invalidCursor else some (.ok (height, position))

theorem fromBeBytes_lt (bytes : Bytes) : fromBeBytes bytes < 256 ^ bytes.length := by
  have h := fromLeBytes_lt bytes.reverse
  rwa [List.length_reverse] at h

/-- Bytes are the big-endian expansion of the number they spell. -/
theorem toBeBytes_fromBeBytes {n : Nat} (h : bytes.length = n) :
    toBeBytes n (fromBeBytes bytes) = bytes := by
  have hlen : bytes.reverse.length = n := by rw [List.length_reverse, h]
  rw [toBeBytes, fromBeBytes, ← hlen, toLeBytes_fromLeBytes, List.reverse_reverse]

theorem length_toBeBytes (width n : Nat) : (toBeBytes width n).length = width := by
  rw [toBeBytes, List.length_reverse, length_toLeBytes]

/-- A position is spelled by its bytes alone, and bytes below the sign bit spell a position. -/
theorem i32FromBeBytes_nonneg (h : bytes.length = 4) (hp : 0 ≤ i32FromBeBytes bytes) :
    i32FromBeBytes bytes ≤ i32Max ∧ i32ToBeBytes (i32FromBeBytes bytes) = bytes := by
  have hlt := fromBeBytes_lt bytes
  rw [h] at hlt
  by_cases hle : fromBeBytes bytes ≤ i32Max
  · rw [i32FromBeBytes, if_pos hle]
    refine ⟨by omega, ?_⟩
    have hmod : ((fromBeBytes bytes : Int) % 2 ^ 32).toNat = fromBeBytes bytes := by omega
    rw [i32ToBeBytes, hmod, toBeBytes_fromBeBytes h]
  · rw [i32FromBeBytes, if_neg hle] at hp
    omega

theorem i32FromBeBytes_i32ToBeBytes (hp : 0 ≤ position) (hle : position ≤ i32Max) :
    i32FromBeBytes (i32ToBeBytes position) = position := by
  simp only [i32Max] at hle
  have hmod : (position % 2 ^ 32).toNat = position.toNat := by omega
  have hbytes : fromBeBytes (toBeBytes 4 position.toNat) = position.toNat :=
    fromBeBytes_toBeBytes (by omega)
  rw [i32ToBeBytes, hmod, i32FromBeBytes, hbytes, if_pos (by rw [i32Max]; omega)]
  omega

/-- The parts of twelve bytes are there to be taken. -/
theorem slice_parts (h : bytes.length = 12) : slice bytes 0 8 = some (bytes.take 8) ∧
    slice bytes 8 bytes.length = some (bytes.drop 8) ∧
    (bytes.take 8).length = 8 ∧ (bytes.drop 8).length = 4 := by
  refine ⟨?_, ?_, ?_, ?_⟩
  · rw [slice, if_pos (by omega), List.drop_zero]
  · rw [slice, if_pos (by omega), List.take_length]
  · rw [List.length_take, h]
    rfl
  · rw [List.length_drop, h]

/-- What twelve bytes decode to. -/
theorem decodeSignedTxCursor_of_bytes (hdecode : Codec.decode value = some bytes)
    (h : bytes.length = 12) : decodeSignedTxCursor value =
      some (if i32FromBeBytes (bytes.drop 8) < 0 then invalidCursor
        else .ok (fromBeBytes (bytes.take 8), i32FromBeBytes (bytes.drop 8))) := by
  obtain ⟨hheight, hposition, hlen, hlen'⟩ := slice_parts h
  simp only [decodeSignedTxCursor, hdecode, ne_eq, h, not_true_eq_false, if_false]
  rw [h] at hposition
  simp only [hheight, hposition, Option.bind_eq_bind, Option.bind_some, tryIntoArray, hlen, hlen',
    if_true]
  by_cases hneg : i32FromBeBytes (bytes.drop 8) < 0
  · rw [if_pos hneg, if_pos hneg]
  · rw [if_neg hneg, if_neg hneg]

/-- A height cursor is the encoding of a height that a column can hold, or refused. -/
theorem decodeCursor_cases (value : Text) :
    (∃ height ≤ i64Max, value = encodeCursor height ∧ decodeCursor value = .ok height) ∨
      (∀ height ≤ i64Max, value ≠ encodeCursor height) ∧
        ∃ message, decodeCursor value = .error (.invalidRequest message) := by
  by_cases hex : ∃ height ≤ i64Max, value = encodeCursor height
  · obtain ⟨height, hle, rfl⟩ := hex
    exact .inl ⟨height, hle, rfl, decodeCursor_encodeCursor hle⟩
  · have hne : ∀ height ≤ i64Max, value ≠ encodeCursor height := by
      intro height hle he
      exact hex ⟨height, hle, he⟩
    refine .inr ⟨hne, ?_⟩
    unfold decodeCursor
    cases hdecode : Codec.decode value with
    | none => exact ⟨_, rfl⟩
    | some bytes =>
      dsimp only
      by_cases hlen : bytes.length = 8
      · have hspelled : value = encodeCursor (fromBeBytes bytes) := by
          rw [encodeCursor, toBeBytes_fromBeBytes hlen]
          exact Codec.decode_eq_some.mp hdecode
        have hlarge : ¬ fromBeBytes bytes ≤ i64Max := fun hle => hne _ hle hspelled
        rw [if_pos hlen, requestToI64, if_neg hlarge]
        exact ⟨_, rfl⟩
      · rw [if_neg hlen]
        exact ⟨_, rfl⟩

theorem decodeSignedTxCursor_encode (hh : height ≤ u64Max) (hp : 0 ≤ position)
    (hle : position ≤ i32Max) :
    decodeSignedTxCursor (encodeSignedTxCursor height position) = some (.ok (height, position)) := by
  have hlt : height < 256 ^ 8 := by
    simp only [u64Max] at hh
    omega
  have hlen : (toBeBytes 8 height).length = 8 := length_toBeBytes 8 height
  have htotal : (toBeBytes 8 height ++ i32ToBeBytes position).length = 12 := by
    rw [List.length_append, hlen, i32ToBeBytes, length_toBeBytes]
  rw [encodeSignedTxCursor, decodeSignedTxCursor_of_bytes (Codec.decode_encode _) htotal,
    List.take_left' hlen, List.drop_left' hlen, fromBeBytes_toBeBytes hlt, i32FromBeBytes_i32ToBeBytes hp hle,
    if_neg (by omega)]

/-- A transaction cursor is the encoding of a height and a position, or refused; the decoder
panics on nothing. -/
theorem decodeSignedTxCursor_cases (value : Text) :
    (∃ height ≤ u64Max, ∃ position, 0 ≤ position ∧ position ≤ (i32Max : Int) ∧
      value = encodeSignedTxCursor height position ∧
        decodeSignedTxCursor value = some (.ok (height, position))) ∨
      (∀ height ≤ u64Max, ∀ position, 0 ≤ position → position ≤ (i32Max : Int) →
        value ≠ encodeSignedTxCursor height position) ∧
        ∃ message, decodeSignedTxCursor value = some (.error (.invalidRequest message)) := by
  by_cases hex : ∃ height ≤ u64Max, ∃ position, 0 ≤ position ∧ position ≤ (i32Max : Int) ∧
      value = encodeSignedTxCursor height position
  · obtain ⟨height, hh, position, hp, hle, rfl⟩ := hex
    exact .inl ⟨height, hh, position, hp, hle, rfl, decodeSignedTxCursor_encode hh hp hle⟩
  · have hne : ∀ height ≤ u64Max, ∀ position, 0 ≤ position → position ≤ (i32Max : Int) →
        value ≠ encodeSignedTxCursor height position := by
      intro height hh position hp hle he
      exact hex ⟨height, hh, position, hp, hle, he⟩
    refine .inr ⟨hne, ?_⟩
    cases hdecode : Codec.decode value with
    | none =>
      rw [decodeSignedTxCursor, hdecode]
      exact ⟨_, rfl⟩
    | some bytes =>
      by_cases hlen : bytes.length = 12
      · rw [decodeSignedTxCursor_of_bytes hdecode hlen]
        obtain ⟨-, -, hlen₈, hlen₄⟩ := slice_parts hlen
        by_cases hneg : i32FromBeBytes (bytes.drop 8) < 0
        · rw [if_pos hneg]
          exact ⟨_, rfl⟩
        · obtain ⟨hle, hposition⟩ := i32FromBeBytes_nonneg hlen₄ (by omega)
          have hheight := fromBeBytes_lt (bytes.take 8)
          rw [hlen₈] at hheight
          have hspelled : value = encodeSignedTxCursor (fromBeBytes (bytes.take 8))
              (i32FromBeBytes (bytes.drop 8)) := by
            rw [encodeSignedTxCursor, toBeBytes_fromBeBytes hlen₈, hposition,
              List.take_append_drop]
            exact Codec.decode_eq_some.mp hdecode
          exact (hne _ (by rw [u64Max]; omega) _ (by omega) hle hspelled).elim
      · rw [decodeSignedTxCursor, hdecode]
        dsimp only
        rw [if_pos hlen]
        exact ⟨_, rfl⟩

/-- An encoding has as many bytes as it decodes to, so the kinds do not meet. -/
theorem encodeCursor_ne_encodeSignedTxCursor (h height : Nat) (position : Int) :
    encodeCursor h ≠ encodeSignedTxCursor height position := by
  intro he
  have hbytes := Option.some.inj ((Codec.decode_encode _).symm.trans
    ((congrArg Codec.decode he).trans (Codec.decode_encode _)))
  have hlen := congrArg List.length hbytes
  rw [List.length_append, i32ToBeBytes, length_toBeBytes, length_toBeBytes, length_toBeBytes] at hlen
  omega

theorem encodeSignedTxCursor_natCast {p : Nat} (h : p ≤ i32Max) :
    encodeSignedTxCursor height p = encodeTxCursor height p := by
  simp only [i32Max] at h
  have hmod : ((p : Int) % 2 ^ 32).toNat = p := by omega
  rw [encodeSignedTxCursor, i32ToBeBytes, hmod, encodeTxCursor]

/-- The decoder the paged lists use is the signed one, which never panics. -/
theorem decodeSignedTxCursor_eq (value : Text) : decodeSignedTxCursor value =
    some ((decodeTxCursor value).map fun c => (c.1, (c.2 : Int))) := by
  cases hdecode : Codec.decode value with
  | none =>
    rw [decodeSignedTxCursor, decodeTxCursor, hdecode]
    rfl
  | some bytes =>
    by_cases hlen : bytes.length = 12
    · rw [decodeSignedTxCursor_of_bytes hdecode hlen]
      have hlt := fromBeBytes_lt (bytes.drop 8)
      obtain ⟨-, -, -, hlen₄⟩ := slice_parts hlen
      rw [hlen₄] at hlt
      simp only [decodeTxCursor, hdecode, ne_eq, hlen, not_true_eq_false, if_false]
      by_cases hle : fromBeBytes (bytes.drop 8) ≤ i32Max
      · rw [i32FromBeBytes, if_pos hle, if_neg (by omega), if_neg (by omega)]
        rfl
      · rw [i32FromBeBytes, if_neg hle, if_pos (by omega), if_pos (by omega)]
        rfl
    · rw [decodeSignedTxCursor, decodeTxCursor, hdecode]
      dsimp only
      rw [if_pos hlen, if_pos hlen]
      rfl

/-- Cursors and their decoders are inverse to one another, what is not a cursor is refused as an
invalid request, and no text is a cursor of both kinds. -/
theorem cursor_codecs_inverse_and_disjoint :
    (∀ height ≤ i64Max, decodeCursor (encodeCursor height) = .ok height) ∧
    (∀ height ≤ u64Max, ∀ position : Int, 0 ≤ position → position ≤ i32Max →
      decodeSignedTxCursor (encodeSignedTxCursor height position) =
        some (.ok (height, position))) ∧
    (∀ value, (∃ height ≤ i64Max, value = encodeCursor height ∧
        decodeCursor value = .ok height) ∨
      ∃ message, decodeCursor value = .error (.invalidRequest message)) ∧
    (∀ value, (∃ height ≤ u64Max, ∃ position : Int, 0 ≤ position ∧ position ≤ i32Max ∧
        value = encodeSignedTxCursor height position ∧
        decodeSignedTxCursor value = some (.ok (height, position))) ∨
      ∃ message, decodeSignedTxCursor value = some (.error (.invalidRequest message))) ∧
    ∀ value height cursor, ¬ (decodeCursor value = .ok height ∧
      decodeSignedTxCursor value = some (.ok cursor)) := by
  refine ⟨fun height => decodeCursor_encodeCursor, fun height hh position hp hle =>
    decodeSignedTxCursor_encode hh hp hle, ?_, ?_, ?_⟩
  · intro value
    rcases decodeCursor_cases value with h | ⟨-, h⟩
    · exact .inl h
    · exact .inr h
  · intro value
    rcases decodeSignedTxCursor_cases value with h | ⟨-, h⟩
    · exact .inl h
    · exact .inr h
  · rintro value height cursor ⟨hheight, hcursor⟩
    rcases decodeCursor_cases value with ⟨h, -, hvalue, -⟩ | ⟨-, message, herror⟩
    · rcases decodeSignedTxCursor_cases value with ⟨h', -, p, -, -, hvalue', -⟩ |
        ⟨-, message, herror⟩
      · exact encodeCursor_ne_encodeSignedTxCursor h h' p (hvalue.symm.trans hvalue')
      · rw [hcursor] at herror
        cases herror
    · rw [hheight] at herror
      cases herror

end WcashExplorer
