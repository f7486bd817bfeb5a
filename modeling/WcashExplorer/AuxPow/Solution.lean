import WcashExplorer.AuxPow.LittleEndian

/-! The solution of a raw block: what is read behind its header, and from which bytes. -/
namespace WcashExplorer

/-- The markers of a compact size with the number of bytes that follow each. -/
def compactMarkers : List (UInt8 × Nat) := [(0xfd, 2), (0xfe, 4), (0xff, 8)]

/-- Some compact size of a number: the number in a byte, or a marker and a number of its width. -/
inductive CompactSizeForm (n : Nat) : Bytes → Prop
  | byte : n ≤ 0xfc → CompactSizeForm n [UInt8.ofNat n]
  | wide {marker : UInt8} {width : Nat} : (marker, width) ∈ compactMarkers → n < 256 ^ width →
      CompactSizeForm n (marker :: toLeBytes width n)

/-- A compact size that no other one of the same number is shorter than. -/
def MinimalCompactSize (n : Nat) (size : Bytes) : Prop :=
  CompactSizeForm n size ∧ ∀ other, CompactSizeForm n other → size.length ≤ other.length

/-- The shortest compact size. -/
def encodeCompactSize (n : Nat) : Bytes :=
  if n ≤ 0xfc then [UInt8.ofNat n]
  else if n < 0x10000 then 0xfd :: toLeBytes 2 n
  else if n < 0x100000000 then 0xfe :: toLeBytes 4 n
  else 0xff :: toLeBytes 8 n

section Compact

variable {n : Nat} {size : Bytes}

theorem mem_compactMarkers {marker : UInt8} {width : Nat} :
    (marker, width) ∈ compactMarkers ↔
      (marker = 0xfd ∧ width = 2) ∨ (marker = 0xfe ∧ width = 4) ∨ (marker = 0xff ∧ width = 8) := by
  simp [compactMarkers]

theorem encodeCompactSize_form (hn : n ≤ u64Max) : CompactSizeForm n (encodeCompactSize n) := by
  simp only [u64Max] at hn
  unfold encodeCompactSize
  split_ifs with hbyte hshort hword
  · exact .byte hbyte
  · exact .wide (by simp [compactMarkers]) (by omega)
  · exact .wide (by simp [compactMarkers]) (by omega)
  · exact .wide (by simp [compactMarkers]) (by omega)

/-- Any other form of the number is longer. -/
theorem CompactSizeForm.shortest (h : CompactSizeForm n size) :
    size = encodeCompactSize n ∨ (encodeCompactSize n).length < size.length := by
  cases h with
  | byte hbyte => exact Or.inl (if_pos hbyte).symm
  | wide hmarker hwidth =>
    rcases mem_compactMarkers.mp hmarker with ⟨rfl, rfl⟩ | ⟨rfl, rfl⟩ | ⟨rfl, rfl⟩ <;>
      unfold encodeCompactSize <;> split_ifs with hbyte hshort hword <;>
      simp [length_toLeBytes] <;> omega

theorem minimalCompactSize_iff (hn : n ≤ u64Max) :
    MinimalCompactSize n size ↔ size = encodeCompactSize n := by
  constructor
  · intro ⟨hform, hleast⟩
    have hle := hleast _ (encodeCompactSize_form hn)
    rcases hform.shortest with hsize | hlt
    · exact hsize
    · omega
  · rintro rfl
    refine ⟨encodeCompactSize_form hn, fun other hother => ?_⟩
    rcases hother.shortest with rfl | hlt
    · exact Nat.le_refl _
    · omega

theorem encodeCompactSize_length (n : Nat) :
    1 ≤ (encodeCompactSize n).length ∧ (encodeCompactSize n).length ≤ 9 := by
  unfold encodeCompactSize
  split_ifs <;> simp [length_toLeBytes]

end Compact

section Decode

variable {marker : UInt8} {rest : Bytes} {width least n k : Nat}

/-- A wide compact size is read back from the bytes of its number. -/
theorem decodeWideCompactSize_eq_ok :
    decodeWideCompactSize (marker :: rest) width least = .ok (n, k) ↔
      least ≤ n ∧ n < 256 ^ width ∧ k = width + 1 ∧ ∃ tail, rest = toLeBytes width n ++ tail := by
  unfold decodeWideCompactSize
  simp only [List.drop_succ_cons, List.drop_zero]
  constructor
  · intro h
    split_ifs at h with hshort hleast
    · cases h
    · cases h
    · have hlen : (rest.take width).length = width := by
        have hle := List.length_take_le width rest
        omega
      obtain ⟨rfl, rfl⟩ := Prod.mk.inj (Except.ok.inj h)
      have hlt := fromLeBytes_lt (rest.take width)
      have hbytes := toLeBytes_fromLeBytes (rest.take width)
      rw [hlen] at hlt hbytes
      refine ⟨by omega, hlt, rfl, rest.drop width, ?_⟩
      rw [hbytes, List.take_append_drop]
  · rintro ⟨hleast, hlt, rfl, tail, rfl⟩
    have htake : (toLeBytes width n ++ tail).take width = toLeBytes width n :=
      List.take_left' (length_toLeBytes width n)
    have hread : fromLeBytes (toLeBytes width n) = n := by
      rw [fromLeBytes_toLeBytes, Nat.mod_eq_of_lt hlt]
    have hlong : ¬ (toLeBytes width n).length < width := by
      rw [length_toLeBytes]
      omega
    rw [htake, if_neg hlong, hread, if_neg (by omega)]

theorem decodeCompactSize_cons :
    decodeCompactSize (marker :: rest) =
      if marker.toNat ≤ 0xfc then .ok (marker.toNat, 1)
      else if marker.toNat = 0xfd then decodeWideCompactSize (marker :: rest) 2 0xfd
      else if marker.toNat = 0xfe then decodeWideCompactSize (marker :: rest) 4 0x10000
      else decodeWideCompactSize (marker :: rest) 8 0x100000000 := rfl

/-- What decoding accepts is the shortest compact size of a 64-bit number. -/
theorem encodeCompactSize_of_decode (h : decodeCompactSize (marker :: rest) = .ok (n, k)) :
    n ≤ u64Max ∧ k = (encodeCompactSize n).length ∧
      ∃ tail, marker :: rest = encodeCompactSize n ++ tail := by
  have hmarker := marker.toNat_lt
  rw [decodeCompactSize_cons] at h
  unfold encodeCompactSize
  simp only [u64Max]
  split_ifs at h with hbyte hfd hfe
  · obtain ⟨rfl, rfl⟩ := Prod.mk.inj (Except.ok.inj h)
    rw [if_pos hbyte, UInt8.ofNat_toNat]
    exact ⟨by omega, rfl, rest, rfl⟩
  · obtain ⟨hleast, hlt, rfl, tail, rfl⟩ := decodeWideCompactSize_eq_ok.mp h
    obtain rfl : marker = 0xfd := UInt8.toNat_inj.mp hfd
    rw [if_neg (by omega), if_pos (by omega), List.length_cons, length_toLeBytes]
    exact ⟨by omega, rfl, tail, rfl⟩
  · obtain ⟨hleast, hlt, rfl, tail, rfl⟩ := decodeWideCompactSize_eq_ok.mp h
    obtain rfl : marker = 0xfe := UInt8.toNat_inj.mp hfe
    rw [if_neg (by omega), if_neg (by omega), if_pos (by omega), List.length_cons, length_toLeBytes]
    exact ⟨by omega, rfl, tail, rfl⟩
  · obtain ⟨hleast, hlt, rfl, tail, rfl⟩ := decodeWideCompactSize_eq_ok.mp h
    obtain rfl : marker = 0xff := UInt8.toNat_inj.mp (by simp; omega)
    rw [if_neg (by omega), if_neg (by omega), if_neg (by omega), List.length_cons, length_toLeBytes]
    exact ⟨by omega, rfl, tail, rfl⟩

/-- The shortest compact size is decoded before any bytes. -/
theorem decodeCompactSize_encode (hn : n ≤ u64Max) (tail : Bytes) :
    decodeCompactSize (encodeCompactSize n ++ tail) = .ok (n, (encodeCompactSize n).length) := by
  simp only [u64Max] at hn
  unfold encodeCompactSize
  split_ifs with hbyte hshort hword
  · have hread : (UInt8.ofNat n).toNat = n :=
      UInt8.toNat_ofNat_of_lt (Nat.lt_of_le_of_lt hbyte (by decide))
    rw [List.singleton_append, decodeCompactSize_cons, hread, if_pos hbyte]
    rfl
  · rw [List.cons_append, decodeCompactSize_cons, if_neg (by decide), if_pos (by decide),
      decodeWideCompactSize_eq_ok, List.length_cons, length_toLeBytes]
    exact ⟨by omega, by omega, rfl, tail, rfl⟩
  · rw [List.cons_append, decodeCompactSize_cons, if_neg (by decide), if_neg (by decide),
      if_pos (by decide), decodeWideCompactSize_eq_ok, List.length_cons, length_toLeBytes]
    exact ⟨by omega, by omega, rfl, tail, rfl⟩
  · rw [List.cons_append, decodeCompactSize_cons, if_neg (by decide), if_neg (by decide),
      if_neg (by decide), decodeWideCompactSize_eq_ok, List.length_cons, length_toLeBytes]
    exact ⟨by omega, by omega, rfl, tail, rfl⟩

/-- Decoding accepts the shortest compact size of a 64-bit number before any bytes, and nothing
else. -/
theorem decodeCompactSize_eq_ok {bytes : Bytes} :
    decodeCompactSize bytes = .ok (n, k) ↔
      n ≤ u64Max ∧ k = (encodeCompactSize n).length ∧
        ∃ tail, bytes = encodeCompactSize n ++ tail := by
  constructor
  · intro h
    cases bytes with
    | nil => cases h
    | cons marker rest => exact encodeCompactSize_of_decode h
  · rintro ⟨hn, rfl, tail, rfl⟩
    exact decodeCompactSize_encode hn tail

end Decode

section Extract

variable {rawBlock s : Bytes}

/-- A raw block that carries a solution: the fixed header, the length in its minimal form, the
solution, and any bytes. -/
def CarriesSolution (rawBlock s : Bytes) : Prop :=
  ∃ header size rest, rawBlock = header ++ size ++ s ++ rest ∧ header.length = 140 ∧
    MinimalCompactSize s.length size ∧ s.length ≤ 262144

/-- Where a solution ends in the raw block that carries it. -/
def solutionEnd (s : Bytes) : Nat :=
  solutionOffset + (encodeCompactSize s.length).length + s.length

theorem carriesSolution_iff :
    CarriesSolution rawBlock s ↔ s.length ≤ 262144 ∧ ∃ header rest,
      rawBlock = header ++ encodeCompactSize s.length ++ s ++ rest ∧
        header.length = solutionOffset := by
  constructor
  · rintro ⟨header, size, rest, hraw, hheader, hsize, hlen⟩
    rw [minimalCompactSize_iff (by simp only [u64Max]; omega)] at hsize
    subst hsize
    exact ⟨hlen, header, rest, hraw, hheader⟩
  · rintro ⟨hlen, header, rest, hraw, hheader⟩
    have hsize : MinimalCompactSize s.length (encodeCompactSize s.length) :=
      (minimalCompactSize_iff (by simp only [u64Max]; omega)).mpr rfl
    exact ⟨header, _, rest, hraw, hheader, hsize, hlen⟩

theorem solutionFromRawBlock_of_carries (h : CarriesSolution rawBlock s) :
    solutionFromRawBlock rawBlock = .ok s := by
  obtain ⟨hlen, header, rest, rfl, hheader⟩ := carriesSolution_iff.mp h
  have hdrop : (header ++ encodeCompactSize s.length ++ s ++ rest).drop solutionOffset =
      encodeCompactSize s.length ++ (s ++ rest) := by
    rw [← hheader, List.append_assoc, List.append_assoc, List.drop_left]
  have hfound : (header ++ encodeCompactSize s.length ++ s ++ rest).drop
      (solutionOffset + (encodeCompactSize s.length).length) = s ++ rest := by
    rw [← List.drop_drop, hdrop, List.drop_left]
  have htotal : (header ++ encodeCompactSize s.length ++ s ++ rest).length =
      solutionOffset + (encodeCompactSize s.length).length + s.length + rest.length := by
    simp only [List.length_append, hheader]
  rw [solutionFromRawBlock, if_neg (by omega), hdrop,
    decodeCompactSize_encode (by simp only [u64Max]; omega)]
  change (if s.length > 256 * 1024 then _ else _) = _
  rw [if_neg (by omega), if_pos (by omega), hfound, List.take_left]

theorem carries_of_solutionFromRawBlock (h : solutionFromRawBlock rawBlock = .ok s) :
    CarriesSolution rawBlock s := by
  unfold solutionFromRawBlock at h
  split_ifs at h with hshort
  · cases h
  rw [Result.bind_eq_ok] at h
  obtain ⟨⟨length, k⟩, hdecode, h⟩ := h
  obtain ⟨-, rfl, tail, htail⟩ := decodeCompactSize_eq_ok.mp hdecode
  dsimp only at h
  split_ifs at h with hbound hfits
  · cases h
  · have hfound : rawBlock.drop (solutionOffset + (encodeCompactSize length).length) = tail := by
      rw [← List.drop_drop, htail, List.drop_left]
    have htotal := congrArg List.length hfound
    rw [hfound] at h
    obtain rfl := Except.ok.inj h
    rw [List.length_drop] at htotal
    have hlen : (tail.take length).length = length := by
      rw [List.length_take]
      omega
    refine carriesSolution_iff.mpr ⟨by omega, rawBlock.take solutionOffset, tail.drop length, ?_, ?_⟩
    · rw [hlen, List.append_assoc, List.take_append_drop, List.append_assoc, ← htail,
        List.take_append_drop]
    · rw [List.length_take]
      omega
  · cases h

/-- Extraction accepts exactly the raw blocks that carry a solution, computes within the machine's
range, and reads nothing behind the solution. -/
theorem solution_extracted_exactly (rawBlock : Bytes) :
    (∀ s, solutionFromRawBlock rawBlock = .ok s ↔ CarriesSolution rawBlock s) ∧
    ((¬ ∃ s, CarriesSolution rawBlock s) → ∃ error, solutionFromRawBlock rawBlock = .error error) ∧
    (∀ n, n ≤ u64Max → ∃! size, MinimalCompactSize n size) ∧
    (∀ length encodedLength,
      decodeCompactSize (rawBlock.drop solutionOffset) = .ok (length, encodedLength) →
        length ≤ u64Max ∧
          (length ≤ 256 * 1024 → solutionOffset + encodedLength + length ≤ u32Max)) ∧
    ∀ s other, solutionFromRawBlock rawBlock = .ok s →
      other.take (solutionEnd s) = rawBlock.take (solutionEnd s) →
        solutionFromRawBlock other = .ok s := by
  have hexact : ∀ s, solutionFromRawBlock rawBlock = .ok s ↔ CarriesSolution rawBlock s :=
    fun s => ⟨carries_of_solutionFromRawBlock, solutionFromRawBlock_of_carries⟩
  refine ⟨hexact, ?_, ?_, ?_, ?_⟩
  · intro hnone
    cases hread : solutionFromRawBlock rawBlock with
    | ok s => exact absurd ⟨s, (hexact s).mp hread⟩ hnone
    | error error => exact ⟨error, rfl⟩
  · intro n hn
    exact ⟨_, (minimalCompactSize_iff hn).mpr rfl, fun size => (minimalCompactSize_iff hn).mp⟩
  · intro length encodedLength hdecode
    obtain ⟨hlength, rfl, -⟩ := decodeCompactSize_eq_ok.mp hdecode
    have hsize := (encodeCompactSize_length length).2
    refine ⟨hlength, fun hbound => ?_⟩
    simp only [solutionOffset, u32Max]
    omega
  · intro s other hread hsame
    obtain ⟨hlen, header, rest, rfl, hheader⟩ := carriesSolution_iff.mp ((hexact s).mp hread)
    refine solutionFromRawBlock_of_carries (carriesSolution_iff.mpr ⟨hlen, header,
      other.drop (solutionEnd s), ?_, hheader⟩)
    have hbegins : (header ++ encodeCompactSize s.length ++ s).length = solutionEnd s := by
      simp only [List.length_append, hheader, solutionEnd]
    have hheld : (header ++ encodeCompactSize s.length ++ s ++ rest).take (solutionEnd s) =
        header ++ encodeCompactSize s.length ++ s := List.take_left' hbegins
    rw [hheld] at hsame
    rw [← hsame, List.take_append_drop]

end Extract

end WcashExplorer
