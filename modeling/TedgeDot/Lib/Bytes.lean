import Mathlib.Data.List.Induction
import Mathlib.Tactic.Ring

/-!
# Bytes of numbers

The number that bytes write, and the bytes of a number: most significant first, and the other way
around. Each is the inverse of the other, at a given count of bytes (`fromBeBytes_toBeBytes`,
`toBeBytes_fromBeBytes`).
-/

namespace TedgeDot

/-- The number that big-endian bytes write. -/
def fromBeBytes (bytes : List UInt8) : Nat := bytes.foldl (fun v b => v * 256 + b.toNat) 0

/-- The `count` low bytes of a number, big-endian. -/
def toBeBytes : Nat → Nat → List UInt8
  | 0, _ => []
  | count + 1, n => toBeBytes count (n / 256) ++ [UInt8.ofNat n]

@[simp] theorem fromBeBytes_nil : fromBeBytes [] = 0 := rfl

theorem fromBeBytes_concat (bytes : List UInt8) (b : UInt8) :
    fromBeBytes (bytes ++ [b]) = fromBeBytes bytes * 256 + b.toNat := by
  simp [fromBeBytes]

@[simp] theorem length_toBeBytes (count n : Nat) : (toBeBytes count n).length = count := by
  induction count generalizing n with
  | zero => rfl
  | succ count ih => rw [toBeBytes, List.length_append, ih, List.length_singleton]

theorem fromBeBytes_lt (bytes : List UInt8) : fromBeBytes bytes < 256 ^ bytes.length := by
  induction bytes using List.reverseRecOn with
  | nil => simp
  | append_singleton bytes b ih =>
    have hb : b.toNat < 256 := b.toNat_lt
    rw [fromBeBytes_concat, List.length_append, List.length_singleton, Nat.pow_succ]
    omega

theorem fromBeBytes_toBeBytes (count n : Nat) :
    fromBeBytes (toBeBytes count n) = n % 256 ^ count := by
  induction count generalizing n with
  | zero => rw [Nat.pow_zero, Nat.mod_one]; rfl
  | succ count ih =>
    have hlow : (UInt8.ofNat n).toNat = n % 256 := UInt8.toNat_ofNat'
    have hsplit : n % (256 * 256 ^ count) = n % 256 + 256 * (n / 256 % 256 ^ count) := Nat.mod_mul
    rw [toBeBytes, fromBeBytes_concat, ih, hlow, Nat.pow_succ, Nat.mul_comm (256 ^ count), hsplit]
    omega

theorem toBeBytes_fromBeBytes (bytes : List UInt8) :
    toBeBytes bytes.length (fromBeBytes bytes) = bytes := by
  induction bytes using List.reverseRecOn with
  | nil => rfl
  | append_singleton bytes b ih =>
    have hb : b.toNat < 256 := b.toNat_lt
    have hdiv : (fromBeBytes bytes * 256 + b.toNat) / 256 = fromBeBytes bytes := by omega
    have hlow : UInt8.ofNat (fromBeBytes bytes * 256 + b.toNat) = b := by
      apply UInt8.toNat_inj.mp
      rw [UInt8.toNat_ofNat']
      omega
    rw [fromBeBytes_concat, List.length_append, List.length_singleton, toBeBytes, hdiv, ih, hlow]

theorem toBeBytes_mod (count n : Nat) : toBeBytes count (n % 256 ^ count) = toBeBytes count n := by
  have h := toBeBytes_fromBeBytes (toBeBytes count n)
  rw [length_toBeBytes, fromBeBytes_toBeBytes] at h
  exact h

/-! ## Little-endian bytes -/

/-- The number that little-endian bytes write. -/
def fromLeBytes (bytes : List UInt8) : Nat := fromBeBytes bytes.reverse

/-- The `count` low bytes of a number, little-endian. -/
def toLeBytes (count n : Nat) : List UInt8 := (toBeBytes count n).reverse

@[simp] theorem length_toLeBytes (count n : Nat) : (toLeBytes count n).length = count := by
  rw [toLeBytes, List.length_reverse, length_toBeBytes]

theorem fromLeBytes_lt (bytes : List UInt8) : fromLeBytes bytes < 256 ^ bytes.length := by
  have h := fromBeBytes_lt bytes.reverse
  rwa [List.length_reverse] at h

theorem fromLeBytes_toLeBytes (count n : Nat) :
    fromLeBytes (toLeBytes count n) = n % 256 ^ count := by
  rw [fromLeBytes, toLeBytes, List.reverse_reverse, fromBeBytes_toBeBytes]

theorem toLeBytes_fromLeBytes (bytes : List UInt8) :
    toLeBytes bytes.length (fromLeBytes bytes) = bytes := by
  have h := toBeBytes_fromBeBytes bytes.reverse
  rw [List.length_reverse] at h
  rw [toLeBytes, fromLeBytes, h, List.reverse_reverse]

end TedgeDot
