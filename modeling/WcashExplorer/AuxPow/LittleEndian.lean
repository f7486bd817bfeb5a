import WcashExplorer.AuxPow

/-! Little-endian numbers: their widths, and the bytes they are read back from. -/
namespace WcashExplorer

theorem length_toLeBytes (width n : Nat) : (toLeBytes width n).length = width := by
  induction width generalizing n with
  | zero => rfl
  | succ width ih => rw [toLeBytes, List.length_cons, ih]

theorem fromLeBytes_toLeBytes (width n : Nat) :
    fromLeBytes (toLeBytes width n) = n % 256 ^ width := by
  induction width generalizing n with
  | zero => rw [Nat.pow_zero, Nat.mod_one]; rfl
  | succ width ih =>
    have hbyte : (UInt8.ofNat (n % 256)).toNat = n % 256 := by simp
    rw [toLeBytes, fromLeBytes, ih, hbyte, Nat.pow_succ', Nat.mod_mul]

theorem fromLeBytes_lt (bytes : Bytes) : fromLeBytes bytes < 256 ^ bytes.length := by
  induction bytes with
  | nil => simp [fromLeBytes]
  | cons b rest ih =>
    have hb := b.toNat_lt
    rw [fromLeBytes, List.length_cons, Nat.pow_succ]
    omega

/-- Bytes are the expansion of the number they spell. -/
theorem toLeBytes_fromLeBytes (bytes : Bytes) :
    toLeBytes bytes.length (fromLeBytes bytes) = bytes := by
  induction bytes with
  | nil => rfl
  | cons b rest ih =>
    have hb := b.toNat_lt
    have hlow : (b.toNat + 256 * fromLeBytes rest) % 256 = b.toNat := by omega
    have hhigh : (b.toNat + 256 * fromLeBytes rest) / 256 = fromLeBytes rest := by omega
    rw [fromLeBytes, List.length_cons, toLeBytes, hlow, hhigh, ih, UInt8.ofNat_toNat]

theorem fromLeBytes_append (xs ys : Bytes) :
    fromLeBytes (xs ++ ys) = fromLeBytes xs + 256 ^ xs.length * fromLeBytes ys := by
  induction xs with
  | nil => simp [fromLeBytes]
  | cons x xs ih =>
    rw [List.cons_append, fromLeBytes, fromLeBytes, ih, List.length_cons, Nat.pow_succ', Nat.mul_add,
      Nat.mul_assoc, Nat.add_assoc]

theorem fromLeBytes_replicate_zero (n : Nat) : fromLeBytes (List.replicate n 0) = 0 := by
  induction n with
  | zero => rfl
  | succ n ih => simp [List.replicate_succ, fromLeBytes, ih]

end WcashExplorer
