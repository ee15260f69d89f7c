namespace MidIR.LittleEndian

def bytes : (width : Nat) → (n : Nat) → List UInt8
  | 0, _ => []
  | width + 1, n => n.toUInt8 :: bytes width (n / 256)

def ofBytes : List UInt8 → Nat
  | [] => 0
  | b :: bs => b.toNat + 256 * ofBytes bs

def capacity : (width : Nat) → Nat
  | 0 => 1
  | width + 1 => 256 * capacity width

@[simp]
theorem length_bytes (width n : Nat) : (bytes width n).length = width := by
  induction width generalizing n with
  | zero => rfl
  | succ width ih => simp [bytes, ih]

theorem ofBytes_bytes (width n : Nat) : ofBytes (bytes width n) = n % capacity width := by
  induction width generalizing n with
  | zero => simp [bytes, ofBytes, capacity, Nat.mod_one]
  | succ width ih =>
    rw [bytes, ofBytes, ih, capacity, Nat.mod_mul]
    simp

theorem bytes_ofBytes (bs : List UInt8) : bytes bs.length (ofBytes bs) = bs := by
  induction bs with
  | nil => rfl
  | cons b bs ih =>
    have low : (b.toNat + 256 * ofBytes bs).toUInt8 = b := by
      apply UInt8.toNat_inj.1
      have := b.toNat_lt
      simp [Nat.toUInt8]
    have high : (b.toNat + 256 * ofBytes bs) / 256 = ofBytes bs := by
      have := b.toNat_lt
      omega
    rw [List.length_cons, bytes, ofBytes, low, high, ih]

theorem ofBytes_lt (bs : List UInt8) : ofBytes bs < capacity bs.length := by
  induction bs with
  | nil => simp [ofBytes, capacity]
  | cons b bs ih =>
    have := b.toNat_lt
    rw [ofBytes, List.length_cons, capacity]
    omega

end MidIR.LittleEndian
