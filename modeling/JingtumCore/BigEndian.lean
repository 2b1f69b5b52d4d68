import Mathlib.Data.Nat.Digits.Lemmas
import Mathlib.Data.UInt

/-!
# Big-endian byte strings

Byte strings read as base 256 numbers, most significant byte first, and the
shortest byte string of a number. `derInteger` adds the zero byte that keeps
the top bit clear, which is how a nonnegative ASN.1 integer is written.
-/
namespace BigEndian

/-- Value of a byte string, leading zero bytes allowed. -/
def bin2bn (bytes : List UInt8) : Nat :=
  bytes.foldl (fun acc b => 256 * acc + b.toNat) 0

/-- The shortest byte string of a number; zero has none. -/
def bn2bin (n : Nat) : List UInt8 :=
  (Nat.digits 256 n).reverse.map UInt8.ofNat

def topBitSet (bytes : List UInt8) : Bool :=
  bytes.headD 0 &&& 0x80 != 0

def derInteger (n : Nat) : List UInt8 :=
  if topBitSet (bn2bin n) then 0 :: bn2bin n else bn2bin n

theorem bin2bn_eq_ofDigits (bytes : List UInt8) :
    bin2bn bytes = Nat.ofDigits 256 (bytes.reverse.map UInt8.toNat) := by
  induction bytes using List.reverseRecOn with
  | nil => rfl
  | append_singleton bytes b ih =>
    rw [bin2bn, List.foldl_append, List.reverse_append]
    simp only [List.foldl_cons, List.foldl_nil, List.reverse_singleton,
      List.singleton_append, List.map_cons, Nat.ofDigits_cons]
    rw [← ih, bin2bn]
    omega

@[simp] theorem bin2bn_zero_cons (bytes : List UInt8) :
    bin2bn (0 :: bytes) = bin2bn bytes := by
  simp [bin2bn]

theorem bin2bn_lt (bytes : List UInt8) : bin2bn bytes < 256 ^ bytes.length := by
  have h := Nat.ofDigits_lt_base_pow_length (b := 256)
    (l := bytes.reverse.map UInt8.toNat) (by decide) (by
      intro x hx
      obtain ⟨b, _, rfl⟩ := List.mem_map.mp hx
      exact b.toNat_lt)
  simpa [bin2bn_eq_ofDigits] using h

@[simp] theorem bin2bn_bn2bin (n : Nat) : bin2bn (bn2bin n) = n := by
  have digit : ∀ d ∈ Nat.digits 256 n, (UInt8.toNat ∘ UInt8.ofNat) d = d := by
    intro d hd
    have := Nat.digits_lt_base (b := 256) (by decide) hd
    simp only [Function.comp, UInt8.toNat_ofNat']
    omega
  rw [bin2bn_eq_ofDigits, bn2bin, ← List.map_reverse, List.reverse_reverse, List.map_map,
    List.map_congr_left digit, List.map_id', Nat.ofDigits_digits]

theorem bn2bin_bin2bn (b : UInt8) (bytes : List UInt8) (hb : b ≠ 0) :
    bn2bin (bin2bn (b :: bytes)) = b :: bytes := by
  have hlast : ∀ h : ((b :: bytes).reverse.map UInt8.toNat) ≠ [],
      ((b :: bytes).reverse.map UInt8.toNat).getLast h ≠ 0 := by
    intro h hz
    exact hb (UInt8.toNat_inj.mp (by simpa using hz))
  rw [bn2bin, bin2bn_eq_ofDigits, Nat.digits_ofDigits 256 (by decide) _ _ hlast]
  · rw [← List.map_reverse, List.reverse_reverse, List.map_map]
    have : (UInt8.ofNat ∘ UInt8.toNat) = id := by
      funext x
      simp
    rw [this, List.map_id]
  · intro x hx
    obtain ⟨c, _, rfl⟩ := List.mem_map.mp hx
    exact c.toNat_lt

theorem bn2bin_length_le (n k : Nat) (h : n < 256 ^ k) : (bn2bin n).length ≤ k := by
  rw [bn2bin, List.length_map, List.length_reverse]
  exact (Nat.digits_length_le_iff (by decide) n).mpr h

theorem bn2bin_cons (n : Nat) (hn : n ≠ 0) :
    ∃ b bytes, bn2bin n = b :: bytes ∧ b ≠ 0 := by
  cases hd : bn2bin n with
  | nil =>
    have hv := bin2bn_bn2bin n
    rw [hd] at hv
    exact absurd hv.symm hn
  | cons b bytes =>
    refine ⟨b, bytes, rfl, ?_⟩
    intro hb
    subst hb
    -- dropping the zero byte would give a shorter byte string of the same value
    have hv : bin2bn bytes = n := by
      rw [← bin2bn_zero_cons, ← hd, bin2bn_bn2bin]
    have hlen := bn2bin_length_le n bytes.length (hv ▸ bin2bn_lt bytes)
    rw [hd] at hlen
    simp at hlen

@[simp] theorem bin2bn_derInteger (n : Nat) : bin2bn (derInteger n) = n := by
  unfold derInteger
  split <;> simp

theorem derInteger_length_le (n k : Nat) (h : n < 256 ^ k) :
    (derInteger n).length ≤ k + 1 := by
  have := bn2bin_length_le n k h
  unfold derInteger
  split
  · simpa using this
  · omega

end BigEndian
