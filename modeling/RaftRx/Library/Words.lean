import Mathlib.Data.List.Basic
import Mathlib.Tactic

/-!
Numbers in memory: a number of a fixed count of bytes, least significant byte first.

* `encode`, `decode`: natural numbers below `256 ^ k`;
* `decode_encode`, `encode_decode`: both round trips;
* `encodeInt`, `decodeInt`: two's complement, with `decodeInt_encodeInt`.
-/

namespace RaftRx.Words

/-- The `k` bytes of a number; what does not fit is cut off. -/
def encode : ℕ → ℕ → List UInt8
  | 0, _ => []
  | k + 1, n => UInt8.ofNat (n % 256) :: encode k (n / 256)

/-- The number some bytes stand for. -/
def decode : List UInt8 → ℕ
  | [] => 0
  | b :: bs => b.toNat + 256 * decode bs

@[simp] lemma length_encode (k n : ℕ) : (encode k n).length = k := by
  induction k generalizing n with
  | zero => rfl
  | succ k ih => rw [encode, List.length_cons, ih]

lemma toNat_ofNat_mod (n : ℕ) : (UInt8.ofNat (n % 256)).toNat = n % 256 := by
  rw [UInt8.toNat_ofNat']
  exact Nat.mod_eq_of_lt (Nat.mod_lt n (by norm_num))

/-- **Reading back what was written.** -/
theorem decode_encode (k n : ℕ) (h : n < 256 ^ k) : decode (encode k n) = n := by
  induction k generalizing n with
  | zero =>
      rw [pow_zero, Nat.lt_one_iff] at h
      rw [h]
      rfl
  | succ k ih =>
      have hdiv : n / 256 < 256 ^ k := by
        rw [Nat.div_lt_iff_lt_mul (by norm_num), ← pow_succ]
        exact h
      calc decode (encode (k + 1) n) = n % 256 + 256 * decode (encode k (n / 256)) := by
            rw [encode, decode, toNat_ofNat_mod]
        _ = n % 256 + 256 * (n / 256) := by rw [ih _ hdiv]
        _ = n := Nat.mod_add_div n 256

/-- **Writing back what was read.** -/
theorem encode_decode (bs : List UInt8) : encode bs.length (decode bs) = bs := by
  induction bs with
  | nil => rfl
  | cons b bs ih =>
      have hb : b.toNat < 256 := b.toNat_lt
      have hmod : (b.toNat + 256 * decode bs) % 256 = b.toNat := by omega
      have hdiv : (b.toNat + 256 * decode bs) / 256 = decode bs := by omega
      rw [List.length_cons, decode, encode, hmod, hdiv, ih, UInt8.ofNat_toNat]

/-! ### Two's complement -/

/-- The `k` bytes of an integer. -/
def encodeInt (k : ℕ) (z : ℤ) : List UInt8 := encode k (z % 256 ^ k).toNat

/-- The integer some bytes stand for. -/
def decodeInt (bs : List UInt8) : ℤ := (decode bs : ℤ).bmod (256 ^ bs.length)

@[simp] lemma length_encodeInt (k : ℕ) (z : ℤ) : (encodeInt k z).length = k := length_encode k _

/-- **Reading back an integer** that fits. -/
theorem decodeInt_encodeInt (k : ℕ) (z : ℤ) (hlow : -(256 ^ k : ℕ) ≤ 2 * z)
    (hhigh : 2 * z < (256 ^ k : ℕ)) : decodeInt (encodeInt k z) = z := by
  have hpos : (0 : ℤ) < 256 ^ k := by positivity
  have hcast : ((256 ^ k : ℕ) : ℤ) = 256 ^ k := by norm_cast
  have hlt : (z % 256 ^ k).toNat < 256 ^ k := by
    have := Int.emod_lt_of_pos z hpos
    have := Int.emod_nonneg z hpos.ne'
    omega
  calc decodeInt (encodeInt k z) = ((z % 256 ^ k).toNat : ℤ).bmod (256 ^ k) := by
        rw [decodeInt, encodeInt, length_encode, decode_encode k _ hlt]
    _ = (z % (256 ^ k : ℕ)).bmod (256 ^ k) := by
        rw [Int.toNat_of_nonneg (Int.emod_nonneg z hpos.ne'), hcast]
    _ = z.bmod (256 ^ k) := Int.emod_bmod z (256 ^ k)
    _ = z := Int.bmod_eq_of_le_mul_two (by omega) (by omega)

end RaftRx.Words
