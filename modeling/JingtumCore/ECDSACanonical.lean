import JingtumCore.BigEndian
import Mathlib.Data.Nat.Bitwise

/-!
# Canonical ECDSA signatures

The DER form checked by `isCanonicalECDSASig` and the in-place conversion to
the smaller of S and N - S. A signature is a byte string; the buffer given to
`makeCanonicalECDSASig` may be longer than the signature. BIGNUM arithmetic is
exact.
-/
namespace ECDSACanonical
open BigEndian

inductive ECDSA where
  | notStrict
  | strict
  deriving DecidableEq

/-- The SECp256k1 modulus. -/
def modulus : Nat :=
  0xFFFFFFFFFFFFFFFFFFFFFFFFFFFFFFFEBAAEDCE6AF48A03BBFD25E8CD0364141

structure SignaturePart where
  skip : Nat
  bn : Nat

def SignaturePart.valid (part : SignaturePart) : Bool := part.skip != 0

/-- One integer: <02> <length> <bytes>. A read past the end yields a byte whose
value no accepted part depends on. -/
def signaturePart (sig : List UInt8) (size : Nat) : SignaturePart :=
  if sig.getD 0 0 != 0x02 || size < 3 then ⟨0, 0⟩ else
  let len := (sig.getD 1 0).toNat
  if len > size - 2 then ⟨0, 0⟩ else
  if len < 1 || len > 33 then ⟨0, 0⟩ else
  if sig.getD 2 0 &&& 0x80 != 0 then ⟨0, 0⟩ else
  if sig.getD 2 0 == 0 && len == 1 then ⟨0, 0⟩ else
  if sig.getD 2 0 == 0 && sig.getD 3 0 &&& 0x80 == 0 then ⟨0, 0⟩ else
  ⟨len + 2, bin2bn ((sig.drop 2).take len)⟩

/-- <30> <len> followed by R and S and nothing else. -/
def isCanonicalECDSASig (sig : List UInt8) (strictParam : ECDSA) : Bool :=
  if sig.length < 8 || sig.length > 72 then false else
  if sig.getD 0 0 != 0x30 || (sig.getD 1 0).toNat != sig.length - 2 then false else
  let sig := sig.drop 2
  let sigR := signaturePart sig sig.length
  if !sigR.valid then false else
  let sig := sig.drop sigR.skip
  let sigS := signaturePart sig sig.length
  if !sigS.valid then false else
  let sig := sig.drop sigS.skip
  if sig.length != 0 then false else
  if !(sigR.bn < modulus) then false else
  if !(sigS.bn < modulus) then false else
  if strictParam = .strict ∧ (sigS.bn : Int) > (modulus : Int) - sigS.bn then false else
  true

def memcpy (buf : List UInt8) (pos : Nat) (src : List UInt8) : List UInt8 :=
  buf.take pos ++ src ++ buf.drop (pos + src.length)

structure MadeCanonical where
  ret : Bool
  sig : List UInt8
  sigLen : Nat

/-- Writes through the buffer in the order of the source: the outer length,
the length of S, then S itself. -/
def makeCanonicalECDSASig (sig : List UInt8) (sigLen : Nat) : MadeCanonical :=
  let rLen := (sig.getD 3 0).toNat
  let sPos := rLen + 6
  let sLen := sig.getD (rLen + 5) 0
  let origS := bin2bn ((sig.drop sPos).take sLen.toNat)
  let newS : Int := (modulus : Int) - origS
  if (origS : Int) > newS then
    let newSbuf := bn2bin newS.natAbs
    let newSlen := UInt8.ofNat newSbuf.length
    let sig :=
      if topBitSet newSbuf = false then
        let sig := sig.set 1 (sig.getD 1 0 - sLen + newSlen)
        let sig := sig.set (sPos - 1) newSlen
        memcpy sig sPos newSbuf
      else
        let sig := sig.set 1 (sig.getD 1 0 - sLen + newSlen + 1)
        let sig := sig.set (sPos - 1) (newSlen + 1)
        let sig := sig.set sPos 0
        memcpy sig (sPos + 1) newSbuf
    ⟨false, sig, (sig.getD 1 0).toNat + 2⟩
  else ⟨true, sig, sigLen⟩

/-- The two integers at the places where the lengths of the parts put them. -/
def Encodes (sig : List UInt8) (R S : Nat) : Prop :=
  R = bin2bn ((sig.drop 4).take (sig.getD 3 0).toNat) ∧
  S = bin2bn ((sig.drop ((sig.getD 3 0).toNat + 6)).take
    (sig.getD ((sig.getD 3 0).toNat + 5) 0).toNat)

def encodePart (n : Nat) : List UInt8 :=
  0x02 :: UInt8.ofNat (derInteger n).length :: derInteger n

def encodeSig (R S : Nat) : List UInt8 :=
  0x30 :: UInt8.ofNat ((derInteger R).length + (derInteger S).length + 4) ::
    (encodePart R ++ encodePart S)

/-- The rules on sign and padding leave one byte string for each positive value. -/
theorem body_eq_derInteger (b : UInt8) {bytes : List UInt8}
    (nonneg : b &&& 0x80 = 0) (nonzero : ¬ (b = 0 ∧ bytes = []))
    (unpadded : ¬ (b = 0 ∧ bytes.headD 0 &&& 0x80 = 0)) :
    b :: bytes = derInteger (bin2bn (b :: bytes)) ∧ bin2bn (b :: bytes) ≠ 0 := by
  by_cases hb : b = 0
  · subst hb
    cases bytes with
    | nil => exact absurd ⟨rfl, rfl⟩ nonzero
    | cons c rest =>
      have top : c &&& 0x80 ≠ 0 := fun h => unpadded ⟨rfl, h⟩
      have hc : c ≠ 0 := by
        rintro rfl
        exact top (by decide)
      have shortest := bn2bin_bin2bn c rest hc
      constructor
      · simp [derInteger, shortest, topBitSet, top]
      · intro hz
        rw [bin2bn_zero_cons] at hz
        rw [hz] at shortest
        simp [bn2bin] at shortest
  · have shortest := bn2bin_bin2bn b bytes hb
    constructor
    · simp [derInteger, shortest, topBitSet, nonneg]
    · intro hz
      rw [hz] at shortest
      simp [bn2bin] at shortest

theorem derInteger_form (n : Nat) (hn : n ≠ 0) :
    ∃ b bytes, derInteger n = b :: bytes ∧ b &&& 0x80 = 0 ∧
      ¬ (b = 0 ∧ bytes = []) ∧ ¬ (b = 0 ∧ bytes.headD 0 &&& 0x80 = 0) := by
  obtain ⟨b, bytes, hd, hb⟩ := bn2bin_cons n hn
  by_cases top : b &&& 0x80 = 0
  · refine ⟨b, bytes, by simp [derInteger, hd, topBitSet, top], top, ?_, ?_⟩
    · exact fun h => hb h.1
    · exact fun h => hb h.1
  · refine ⟨0, b :: bytes, by simp [derInteger, hd, topBitSet, top], by decide, ?_, ?_⟩
    · simp
    · simpa using top

theorem signaturePart_encodePart (n : Nat) (rest : List UInt8) (hn : n ≠ 0)
    (short : (derInteger n).length ≤ 33) :
    signaturePart (encodePart n ++ rest) (encodePart n ++ rest).length =
      ⟨(derInteger n).length + 2, n⟩ := by
  obtain ⟨b, bytes, hd, nonneg, nonzero, unpadded⟩ := derInteger_form n hn
  have hlen : bytes.length + 1 ≤ 33 := by simpa [hd] using short
  have hmod : (bytes.length + 1) % 256 = bytes.length + 1 := Nat.mod_eq_of_lt (by omega)
  have hval : bin2bn (b :: bytes) = n := by rw [← hd, bin2bn_derInteger]
  have hone : ¬ (b = 0 ∧ bytes.length = 0) := by
    intro h
    exact nonzero ⟨h.1, List.length_eq_zero_iff.mp h.2⟩
  have hpad : ¬ (b = 0 ∧ ((bytes ++ rest).headD 0) &&& 0x80 = 0) := by
    rintro ⟨h0, h1⟩
    cases bytes with
    | nil => exact nonzero ⟨h0, rfl⟩
    | cons c cs => exact unpadded ⟨h0, by simpa using h1⟩
  have hget : (bytes ++ rest).getD 0 0 = (bytes ++ rest).headD 0 := by
    cases bytes ++ rest <;> rfl
  simp only [signaturePart, encodePart, hd, List.cons_append, List.getD_cons_zero,
    List.getD_cons_succ, List.length_cons, List.length_append, UInt8.toNat_ofNat',
    List.drop_succ_cons, List.drop_zero, hmod, hget]
  rw [if_neg (by simp), if_neg (by omega), if_neg (by simp; omega),
    if_neg (by simp [nonneg]), if_neg (by simpa using hone), if_neg (by simpa using hpad)]
  simp [hval]

theorem valid_of_guard {c : Prop} [Decidable c] {part : SignaturePart}
    (valid : (if c then ⟨0, 0⟩ else part).valid = true) : ¬ c ∧ part.valid = true := by
  split at valid
  · cases valid
  · exact ⟨‹_›, valid⟩

theorem signaturePart_valid (sig : List UInt8)
    (valid : (signaturePart sig sig.length).valid = true) :
    ∃ n rest, n ≠ 0 ∧ (derInteger n).length ≤ 33 ∧ sig = encodePart n ++ rest := by
  obtain ⟨h1, valid⟩ := valid_of_guard valid
  obtain ⟨h2, valid⟩ := valid_of_guard valid
  obtain ⟨h3, valid⟩ := valid_of_guard valid
  obtain ⟨h4, valid⟩ := valid_of_guard valid
  obtain ⟨h5, valid⟩ := valid_of_guard valid
  obtain ⟨h6, -⟩ := valid_of_guard valid
  obtain _ | ⟨a, _ | ⟨l, _ | ⟨b, tail⟩⟩⟩ := sig
  · simp at h1
  · simp at h1
  · simp at h1
  simp only [List.getD_cons_zero, List.getD_cons_succ, List.length_cons] at h1 h2 h3 h4 h5 h6
  have ha : a = 0x02 := by
    by_contra h
    simp [h] at h1
  have hl : 1 ≤ l.toNat ∧ l.toNat ≤ 33 := by
    simp only [Bool.or_eq_true, decide_eq_true_eq] at h3
    omega
  have hroom : l.toNat - 1 ≤ tail.length := by omega
  have hbody : (b :: tail).take l.toNat = b :: tail.take (l.toNat - 1) := by
    obtain ⟨m, hm⟩ : ∃ m, l.toNat = m + 1 := ⟨l.toNat - 1, by omega⟩
    simp [hm]
  have nonneg : b &&& 0x80 = 0 := by simpa using h4
  have nonzero : ¬ (b = 0 ∧ tail.take (l.toNat - 1) = []) := by
    rintro ⟨h0, hnil⟩
    have hlen := congrArg List.length hnil
    simp only [List.length_take, List.length_nil] at hlen
    exact h5 (by simp [h0]; omega)
  have unpadded : ¬ (b = 0 ∧ (tail.take (l.toNat - 1)).headD 0 &&& 0x80 = 0) := by
    rintro ⟨h0, hpad⟩
    have hlong : l.toNat - 1 ≠ 0 := by
      intro hz
      exact nonzero ⟨h0, by simp [hz]⟩
    obtain ⟨m, hm⟩ : ∃ m, l.toNat - 1 = m + 1 := ⟨l.toNat - 2, by omega⟩
    cases tail with
    | nil => simp only [List.length_nil] at hroom; omega
    | cons c rest =>
      rw [hm] at hpad
      exact h6 (by simpa [h0] using hpad)
  obtain ⟨hform, hne⟩ := body_eq_derInteger b nonneg nonzero unpadded
  have hlen : (derInteger (bin2bn (b :: tail.take (l.toNat - 1)))).length = l.toNat := by
    rw [← hform, List.length_cons, List.length_take]
    omega
  refine ⟨_, tail.drop (l.toNat - 1), hne, by omega, ?_⟩
  rw [encodePart, hlen, ← hform, ha]
  simp

theorem derInteger_length (n : Nat) (hn : n ≠ 0) (h : n < modulus) :
    1 ≤ (derInteger n).length ∧ (derInteger n).length ≤ 33 := by
  have hb : modulus < 256 ^ 32 := by decide
  refine ⟨?_, derInteger_length_le n 32 (by omega)⟩
  obtain ⟨b, bytes, hd, _⟩ := derInteger_form n hn
  simp [hd]

theorem drop_encodePart (n : Nat) (rest : List UInt8) :
    (encodePart n ++ rest).drop ((derInteger n).length + 2) = rest := by
  simp [encodePart]

theorem encodeSig_length (R S : Nat) :
    (encodeSig R S).length = (derInteger R).length + (derInteger S).length + 6 := by
  simp [encodeSig, encodePart]
  omega

/-- Acceptance fixes the whole byte string in terms of R and S. -/
theorem isCanonical_iff (sig : List UInt8) (strictParam : ECDSA) :
    isCanonicalECDSASig sig strictParam = true ↔
      ∃ R S, R ≠ 0 ∧ R < modulus ∧ S ≠ 0 ∧ S < modulus ∧
        (strictParam = .strict → 2 * S ≤ modulus) ∧ sig = encodeSig R S := by
  constructor
  · intro h
    unfold isCanonicalECDSASig at h
    split at h
    · cases h
    split at h
    · cases h
    rename_i hlen hhead
    obtain _ | ⟨a, _ | ⟨l, tail⟩⟩ := sig
    · simp at hlen
    · simp at hlen
    simp only [List.drop_succ_cons, List.drop_zero] at h
    split at h
    · cases h
    rename_i validR
    obtain ⟨R, rest, hR, shortR, rfl⟩ := signaturePart_valid tail (by simpa using validR)
    simp only [signaturePart_encodePart R rest hR shortR, drop_encodePart] at h
    split at h
    · cases h
    rename_i validS
    obtain ⟨S, rest, hS, shortS, rfl⟩ := signaturePart_valid rest (by simpa using validS)
    simp only [signaturePart_encodePart S rest hS shortS, drop_encodePart] at h
    split at h
    · cases h
    rename_i hrest
    have hnil : rest = [] := by simpa using hrest
    subst hnil
    split at h
    · cases h
    rename_i ltR
    split at h
    · cases h
    rename_i ltS
    split at h
    · cases h
    rename_i low
    refine ⟨R, S, hR, by simpa using ltR, hS, by simpa using ltS, ?_, ?_⟩
    · intro hst
      have : ¬ ((S : Int) > (modulus : Int) - S) := fun hgt => low ⟨hst, hgt⟩
      omega
    · simp only [List.getD_cons_zero, List.getD_cons_succ, Bool.or_eq_true,
        bne_iff_ne, not_or, not_not] at hhead
      have hl : l = UInt8.ofNat ((derInteger R).length + (derInteger S).length + 4) := by
        apply UInt8.toNat_inj.mp
        rw [hhead.2, UInt8.toNat_ofNat']
        simp [encodePart]
        omega
      simp [encodeSig, hhead.1, hl]
  · rintro ⟨R, S, hR, ltR, hS, ltS, low, rfl⟩
    obtain ⟨oneR, shortR⟩ := derInteger_length R hR ltR
    obtain ⟨oneS, shortS⟩ := derInteger_length S hS ltS
    have partS := signaturePart_encodePart S [] hS shortS
    rw [List.append_nil] at partS
    have dropS := drop_encodePart S []
    rw [List.append_nil] at dropS
    have hlen := encodeSig_length R S
    have hl : (UInt8.ofNat ((derInteger R).length + (derInteger S).length + 4)).toNat =
        (encodeSig R S).length - 2 := by
      rw [UInt8.toNat_ofNat']
      omega
    have h0 : (encodeSig R S).getD 0 0 = 0x30 := rfl
    have h1 : ((encodeSig R S).getD 1 0).toNat = (encodeSig R S).length - 2 := hl
    unfold isCanonicalECDSASig
    rw [if_neg (by simp; omega), if_neg (by rw [h0, h1]; simp)]
    simp only [encodeSig, List.drop_succ_cons, List.drop_zero,
      signaturePart_encodePart R (encodePart S) hR shortR, drop_encodePart, partS, dropS]
    rw [if_neg (by simp [SignaturePart.valid]), if_neg (by simp [SignaturePart.valid]),
      if_neg (by simp), if_neg (by simpa using ltR), if_neg (by simpa using ltS), if_neg]
    rintro ⟨hst, hgt⟩
    have := low hst
    omega

theorem toNat_length {n : Nat} (short : (derInteger n).length ≤ 33) :
    (UInt8.ofNat (derInteger n).length).toNat = (derInteger n).length :=
  UInt8.toNat_ofNat_of_lt' (short.trans_lt (by decide))

theorem encodes_encodeSig_iff (R S R' S' : Nat) (shortR : (derInteger R).length ≤ 33)
    (shortS : (derInteger S).length ≤ 33) :
    Encodes (encodeSig R S) R' S' ↔ R' = R ∧ S' = S := by
  have hr := toNat_length shortR
  have hs := toNat_length shortS
  have hget : (derInteger R ++ encodePart S).getD ((derInteger R).length + 1) 0 =
      UInt8.ofNat (derInteger S).length := by
    simp [encodePart]
  have hdrop : (derInteger R ++ encodePart S).drop ((derInteger R).length + 2) =
      derInteger S := by
    simp [encodePart]
  simp only [Encodes, encodeSig, encodePart, List.cons_append, List.getD_cons_succ,
    List.getD_cons_zero, List.drop_succ_cons, hr]
  simp only [encodePart] at hget hdrop
  rw [hget, hs]
  simp

theorem memcpy_append (before src after : List UInt8) :
    memcpy (before ++ after) before.length src = before ++ src ++ after.drop src.length := by
  simp [memcpy]

theorem set_append_length (before after : List UInt8) (x y : UInt8) :
    (before ++ x :: after).set before.length y = before ++ y :: after := by
  simp

theorem topBit_le (b : UInt8) (top : b &&& 0x80 ≠ 0) : 128 ≤ b.toNat := by
  by_contra low
  have bit : b.toNat.testBit 7 = false := Nat.testBit_lt_two_pow (by omega)
  refine top (UInt8.toNat_inj.mp ?_)
  change b.toNat &&& 2 ^ 7 = 0
  rw [Nat.and_two_pow, bit, Bool.toNat_false, Nat.zero_mul]

theorem derInteger_negated_length (S : Nat) (high : modulus < 2 * S) (lt : S < modulus) :
    (derInteger (modulus - S)).length ≤ 32 ∧ 32 ≤ (derInteger S).length := by
  have hN : modulus < 2 ^ 256 := by decide
  have hlow : modulus - S < 2 ^ 255 := by omega
  constructor
  · unfold derInteger
    split
    · rename_i top
      -- a set top bit leaves room for the padding byte
      have hlen := bn2bin_length_le (modulus - S) 32 (by omega)
      by_contra hlong
      have hfull : (bn2bin (modulus - S)).length = 32 := by
        simp only [List.length_cons] at hlong
        omega
      obtain ⟨b, bytes, hd, _⟩ := bn2bin_cons (modulus - S) (by omega)
      have hval := bin2bn_bn2bin (modulus - S)
      rw [hd] at top hfull hval
      have hb : 128 ≤ b.toNat := topBit_le b (by simpa [topBitSet] using top)
      rw [bin2bn_eq_ofDigits, List.reverse_cons, List.map_append, Nat.ofDigits_append] at hval
      have hbytes : bytes.length = 31 := by simpa using hfull
      simp only [List.length_map, List.length_reverse, hbytes, List.map_cons, List.map_nil,
        Nat.ofDigits_singleton] at hval
      have : 256 ^ 31 * 128 ≤ 256 ^ 31 * b.toNat := Nat.mul_le_mul_left _ hb
      omega
    · exact bn2bin_length_le (modulus - S) 32 (by omega)
  · by_contra hshort
    have hval := bin2bn_lt (derInteger S)
    rw [bin2bn_derInteger] at hval
    have hpow : 256 ^ (derInteger S).length ≤ 256 ^ 31 :=
      Nat.pow_le_pow_right (by decide) (by omega)
    have hNlow : 2 * 256 ^ 31 < modulus := by decide
    omega

/-- Everything up to the length byte of S, with the outer length byte l. -/
def beforeS (l : UInt8) (R : Nat) : List UInt8 :=
  0x30 :: l :: (encodePart R ++ [0x02])

theorem beforeS_length (l : UInt8) (R : Nat) :
    (beforeS l R).length = (derInteger R).length + 5 := by
  simp [beforeS, encodePart]

theorem encodeSig_append (R S : Nat) (rest : List UInt8) :
    encodeSig R S ++ rest =
      beforeS (UInt8.ofNat ((derInteger R).length + (derInteger S).length + 4)) R ++
        UInt8.ofNat (derInteger S).length :: (derInteger S ++ rest) := by
  simp [beforeS, encodeSig, encodePart]

/-- The two branches write the integer N - S over S, with or without padding. -/
theorem write_derInteger (before tail : List UInt8) (n : Nat) (c : UInt8)
    (lenByte : UInt8) :
    (if topBitSet (bn2bin n) = false then
      memcpy (before ++ lenByte :: c :: tail) (before.length + 1) (bn2bin n)
    else memcpy ((before ++ lenByte :: c :: tail).set (before.length + 1) 0)
      (before.length + 2) (bn2bin n)) =
    before ++ lenByte :: (derInteger n ++ (c :: tail).drop (derInteger n).length) := by
  by_cases top : topBitSet (bn2bin n) = false
  · have hcat : before ++ lenByte :: c :: tail = (before ++ [lenByte]) ++ c :: tail := by simp
    rw [hcat, show before.length + 1 = (before ++ [lenByte]).length by simp,
      memcpy_append]
    simp [derInteger, top]
  · have hset : (before ++ lenByte :: c :: tail).set (before.length + 1) 0 =
        (before ++ [lenByte, 0]) ++ tail := by
      simp
    rw [hset, show before.length + 2 = (before ++ [lenByte, 0]).length by simp,
      memcpy_append]
    simp [derInteger, top]

theorem makeCanonical_encodeSig (R S : Nat) (rest : List UInt8) (sigLen : Nat)
    (shortR : (derInteger R).length ≤ 33) (hS : S ≠ 0) (ltS : S < modulus) :
    makeCanonicalECDSASig (encodeSig R S ++ rest) sigLen =
      if modulus < 2 * S then
        ⟨false, encodeSig R (modulus - S) ++
          (derInteger S ++ rest).drop (derInteger (modulus - S)).length,
          (encodeSig R (modulus - S)).length⟩
      else ⟨true, encodeSig R S ++ rest, sigLen⟩ := by
  obtain ⟨_, shortS⟩ := derInteger_length S hS ltS
  have hr := toNat_length shortR
  have hs := toNat_length shortS
  have hrLen : (encodeSig R S ++ rest).getD 3 0 = UInt8.ofNat (derInteger R).length := rfl
  have hsLen : (encodeSig R S ++ rest).getD ((derInteger R).length + 5) 0 =
      UInt8.ofNat (derInteger S).length := by
    rw [encodeSig_append, List.getD_append_right _ _ _ _ (by rw [beforeS_length]), beforeS_length]
    simp
  have hdrop : (encodeSig R S ++ rest).drop ((derInteger R).length + 6) =
      derInteger S ++ rest := by
    rw [encodeSig_append, List.drop_append, beforeS_length,
      List.drop_eq_nil_of_le (by rw [beforeS_length]; omega)]
    simp
  unfold makeCanonicalECDSASig
  simp only [hrLen, hr, hsLen, hdrop, hs, List.take_left, bin2bn_derInteger]
  by_cases high : modulus < 2 * S
  · obtain ⟨hshort, hlong⟩ := derInteger_negated_length S high ltS
    obtain ⟨c, cs, hder, _⟩ := derInteger_form S hS
    have hnew : ((modulus : Int) - S).natAbs = modulus - S := by omega
    generalize modulus - S = T at *
    have hset : ∀ l x, ((encodeSig R S ++ rest).set 1 l).set ((derInteger R).length + 5) x =
        beforeS l R ++ x :: c :: (cs ++ rest) := by
      intro l x
      have h1 : (encodeSig R S ++ rest).set 1 l =
          beforeS l R ++ UInt8.ofNat (derInteger S).length :: (derInteger S ++ rest) := by
        simp [beforeS, encodeSig, encodePart]
      rw [h1, ← beforeS_length l R, set_append_length, hder]
      rfl
    -- the new outer length, computed modulo 256, is that of the encoding of N - S
    have outer : (encodeSig R S ++ rest).getD 1 0 - UInt8.ofNat (derInteger S).length +
        UInt8.ofNat (derInteger T).length =
        UInt8.ofNat ((derInteger R).length + (derInteger T).length + 4) := by
      change UInt8.ofNat ((derInteger R).length + (derInteger S).length + 4) - _ + _ = _
      apply UInt8.toNat_inj.mp
      simp only [UInt8.toNat_add, UInt8.toNat_sub, UInt8.toNat_ofNat']
      omega
    have done (sig' tail : List UInt8) (written : sig' = encodeSig R T ++ tail) :
        (⟨false, sig', (sig'.getD 1 0).toNat + 2⟩ : MadeCanonical) =
          ⟨false, encodeSig R T ++ tail, (encodeSig R T).length⟩ := by
      rw [written, encodeSig_length]
      congr 1
      change (UInt8.ofNat _).toNat + 2 = _
      rw [UInt8.toNat_ofNat', Nat.mod_eq_of_lt (by omega)]
    rw [if_pos (by omega), if_pos high]
    simp only [hnew, show (derInteger R).length + 6 - 1 = (derInteger R).length + 5 by omega]
    refine done _ _ ?_
    have write := write_derInteger (beforeS
      (UInt8.ofNat ((derInteger R).length + (derInteger T).length + 4)) R) (cs ++ rest) T c
      (UInt8.ofNat (derInteger T).length)
    rw [beforeS_length] at write
    by_cases top : topBitSet (bn2bin T) = false
    · have length : (bn2bin T).length = (derInteger T).length := by simp [derInteger, top]
      rw [if_pos top] at write ⊢
      rw [length, outer, hset, encodeSig_append, hder]
      exact write
    · have length : UInt8.ofNat (bn2bin T).length + 1 = UInt8.ofNat (derInteger T).length := by
        simp [derInteger, top]
      rw [if_neg top] at write ⊢
      rw [UInt8.add_assoc, length, outer, hset, encodeSig_append, hder]
      exact write
  · rw [if_neg (by omega), if_neg high]

theorem strict_unique {a b : List UInt8} {R Sa Sb : Nat}
    (ha : isCanonicalECDSASig a .strict = true) (hb : isCanonicalECDSASig b .strict = true)
    (ea : Encodes a R Sa) (eb : Encodes b R Sb) (same : Sa = Sb ∨ Sa = modulus - Sb) : a = b := by
  obtain ⟨Ra, Ta, hRa, ltRa, hTa, ltTa, lowa, rfl⟩ := (isCanonical_iff a .strict).mp ha
  obtain ⟨Rb, Tb, hRb, ltRb, hTb, ltTb, lowb, rfl⟩ := (isCanonical_iff b .strict).mp hb
  obtain ⟨rfl, rfl⟩ := (encodes_encodeSig_iff Ra Ta R Sa (derInteger_length Ra hRa ltRa).2
    (derInteger_length Ta hTa ltTa).2).mp ea
  obtain ⟨rfl, rfl⟩ := (encodes_encodeSig_iff Rb Tb R Sb (derInteger_length Rb hRb ltRb).2
    (derInteger_length Tb hTb ltTb).2).mp eb
  have hodd : modulus % 2 = 1 := by decide
  have hsame : Sa = Sb := by
    have := lowa rfl
    have := lowb rfl
    omega
  rw [hsame]

/-- Strictly accepted signatures with one R and the same S up to sign are one
byte string, and the conversion of an accepted signature lands in that form. -/
theorem one_accepted_encoding :
    (∀ (a b : List UInt8) (R Sa Sb : Nat),
      isCanonicalECDSASig a .strict = true → isCanonicalECDSASig b .strict = true →
      Encodes a R Sa → Encodes b R Sb → (Sa = Sb ∨ Sa = modulus - Sb) → a = b) ∧
    (∀ (buf : List UInt8) (sigLen R S : Nat), 72 ≤ buf.length → sigLen ≤ buf.length →
      isCanonicalECDSASig (buf.take sigLen) .notStrict = true →
      Encodes (buf.take sigLen) R S →
      isCanonicalECDSASig ((makeCanonicalECDSASig buf sigLen).sig.take
        (makeCanonicalECDSASig buf sigLen).sigLen) .strict = true ∧
      (∃ T, (T = S ∨ T = modulus - S) ∧ Encodes ((makeCanonicalECDSASig buf sigLen).sig.take
        (makeCanonicalECDSASig buf sigLen).sigLen) R T) ∧
      ((makeCanonicalECDSASig buf sigLen).ret = true ↔
        (makeCanonicalECDSASig buf sigLen).sig = buf ∧
        (makeCanonicalECDSASig buf sigLen).sigLen = sigLen)) := by
  refine ⟨fun _ _ _ _ _ ha hb ea eb same => strict_unique ha hb ea eb same, ?_⟩
  intro buf sigLen R S _ fits accepted encodes
  obtain ⟨R', S', hR, ltR, hS, ltS, -, hsig⟩ := (isCanonical_iff _ .notStrict).mp accepted
  obtain ⟨_, shortR⟩ := derInteger_length R' hR ltR
  obtain ⟨_, shortS⟩ := derInteger_length S' hS ltS
  rw [hsig] at encodes
  obtain ⟨rfl, rfl⟩ := (encodes_encodeSig_iff R' S' R S shortR shortS).mp encodes
  have hbuf : buf = encodeSig R S ++ buf.drop sigLen := by
    rw [← hsig, List.take_append_drop]
  have made := makeCanonical_encodeSig R S (buf.drop sigLen) sigLen shortR hS ltS
  rw [← hbuf] at made
  rw [made]
  by_cases high : modulus < 2 * S
  · obtain ⟨_, shortT⟩ := derInteger_length (modulus - S) (by omega) (by omega)
    rw [if_pos high]
    simp only [List.take_left]
    refine ⟨?_, ⟨modulus - S, Or.inr rfl, ?_⟩, ?_⟩
    · exact (isCanonical_iff _ .strict).mpr
        ⟨R, modulus - S, hR, ltR, by omega, by omega, fun _ => by omega, rfl⟩
    · exact (encodes_encodeSig_iff R (modulus - S) R (modulus - S) shortR shortT).mpr ⟨rfl, rfl⟩
    · -- a changed S is a changed byte string
      refine ⟨fun h => absurd h Bool.false_ne_true, fun h => ?_⟩
      have htake := congrArg (List.take sigLen) h.1
      rw [← h.2, List.take_left, h.2, hsig] at htake
      have hS' := (encodes_encodeSig_iff R S R (modulus - S) shortR shortS).mp
        (htake ▸ (encodes_encodeSig_iff R (modulus - S) R (modulus - S) shortR shortT).mpr
          ⟨rfl, rfl⟩)
      omega
  · rw [if_neg high]
    simp only [hsig]
    refine ⟨?_, ⟨S, Or.inl rfl, encodes⟩, by simp⟩
    exact (isCanonical_iff _ .strict).mpr ⟨R, S, hR, ltR, hS, ltS, fun _ => by omega, rfl⟩

theorem one_accepted_encoding_high :
    (makeCanonicalECDSASig (encodeSig 1 (modulus - 1) ++ List.replicate 32 0) 40).ret = false := by
  have taken : (encodeSig 1 (modulus - 1) ++ List.replicate 32 0).take 40 =
      encodeSig 1 (modulus - 1) := by decide +kernel
  have h := one_accepted_encoding.2 (encodeSig 1 (modulus - 1) ++ List.replicate 32 0) 40 1
    (modulus - 1) (by decide +kernel) (by decide +kernel) (by decide +kernel) (by
      exact (encodes_encodeSig_iff 1 (modulus - 1) 1 (modulus - 1) (by decide +kernel)
        (by decide +kernel)).mpr ⟨rfl, rfl⟩)
  have changed : (makeCanonicalECDSASig (encodeSig 1 (modulus - 1) ++ List.replicate 32 0) 40).sig ≠
      encodeSig 1 (modulus - 1) ++ List.replicate 32 0 := by decide +kernel
  exact Bool.eq_false_iff.mpr fun made => changed (h.2.2.mp made).1

end ECDSACanonical
