import JingtumCore.AmountJson
import Mathlib.Data.List.TakeWhile

/-!
# The text of a currency

`to_string` of a currency prints a code of three characters, and otherwise forty hexadecimal
digits. `to_currency` reads both, but reads a code in upper case.
-/

namespace Skywell
open BigEndian

def charHex (digit : Nat) : Char := "0123456789ABCDEF".toList.getD digit '0'

def strHex (bytes : List UInt8) : List Char :=
  bytes.flatMap fun c => [charHex (c.toNat / 16), charHex (c.toNat % 16)]

namespace Currency

def allowedCharacters : List Char :=
  ("abcdefghijklmnopqrstuvwxyz" ++ "ABCDEFGHIJKLMNOPQRSTUVWXYZ" ++ "0123456789" ++
    "<>()\x7b\x7d[]|?!@#$%^&*").toList

/-- The three characters from the offset twelve. -/
def iso (currency : Currency) : List Char :=
  (((toBytes 20 currency).drop 12).take 3).map fun b => Char.ofNat b.toNat

/-- `(currency & sIsoBits).isZero ()`: only the three bytes of the code may be set. -/
def isIso (currency : Currency) : Bool :=
  (toBytes 20 currency).take 12 == List.replicate 12 0 &&
    (toBytes 20 currency).drop 15 == List.replicate 5 0

/-- `to_string`. -/
def toString (currency : Currency) : List Char :=
  if currency = 0 then systemCurrencyCode
  else if currency = noCurrency then ['1']
  else if isIso currency && iso currency != systemCurrencyCode &&
      (iso currency).all (allowedCharacters.contains ·) then iso currency
  else strHex (toBytes 20 currency)

end Currency

theorem charUnHex_charHex {digit : Nat} (h : digit < 16) :
    charUnHex (charHex digit) = some digit ∧ isSpace (charHex digit) = false ∧
      charHex digit ≠ 'x' ∧ charHex digit ≠ 'X' := by
  have all : (List.range 16).all (fun n => charUnHex (charHex n) = some n ∧
      isSpace (charHex n) = false ∧ charHex n ≠ 'x' ∧ charHex n ≠ 'X') = true := by decide
  simpa using List.all_eq_true.1 all digit (List.mem_range.2 h)

theorem foldl_strHex (bytes : List UInt8) (n : Nat) :
    (strHex bytes).foldl (fun n c => 16 * n + (charUnHex c).getD 0) n =
      bytes.foldl (fun n b => 256 * n + b.toNat) n := by
  induction bytes generalizing n with
  | nil => rfl
  | cons b bytes ih =>
    have limit := b.toNat_lt
    have high := charUnHex_charHex (by omega : b.toNat / 16 < 16)
    have low := charUnHex_charHex (by omega : b.toNat % 16 < 16)
    have both : 16 * (16 * n + b.toNat / 16) + b.toNat % 16 = 256 * n + b.toNat := by omega
    simp only [strHex, List.flatMap_cons, List.cons_append, List.foldl_cons,
      high.1, low.1, Option.getD_some, both]
    exact ih _

theorem setHex_strHex (b : UInt8) (bytes : List UInt8) :
    setHex (strHex (b :: bytes)) = (bin2bn (b :: bytes), true) := by
  have digits : ∀ c ∈ strHex (b :: bytes), (charUnHex c).isSome = true := by
    intro c member
    obtain ⟨b, -, member⟩ := List.mem_flatMap.1 member
    have limit := b.toNat_lt
    simp only [List.mem_cons, List.not_mem_nil, or_false] at member
    rcases member with rfl | rfl
    · rw [(charUnHex_charHex (by omega)).1]
      rfl
    · rw [(charUnHex_charHex (by omega)).1]
      rfl
  have limit := b.toNat_lt
  have high := charUnHex_charHex (by omega : b.toNat / 16 < 16)
  have low := charUnHex_charHex (by omega : b.toNat % 16 < 16)
  have trimmed : (strHex (b :: bytes)).dropWhile isSpace = strHex (b :: bytes) :=
    List.dropWhile_cons_of_neg (by simp [high.2.1])
  have whole : (strHex (b :: bytes)).takeWhile (fun c => (charUnHex c).isSome) =
      strHex (b :: bytes) := List.takeWhile_eq_self_iff.2 digits
  unfold setHex
  rw [trimmed]
  dsimp only
  split
  · next c rest shape =>
    obtain ⟨-, shape⟩ := List.cons.inj shape
    obtain ⟨rfl, -⟩ := List.cons.inj shape
    rw [if_neg (not_or.2 low.2.2), whole, foldl_strHex]
    simp [bin2bn]
  · rw [whole, foldl_strHex]
    simp [bin2bn]

theorem length_strHex (bytes : List UInt8) : (strHex bytes).length = 2 * bytes.length := by
  simp [strHex, Nat.mul_comm]

namespace Currency

theorem toUpper_allowed {c : Char} (h : c ∈ allowedCharacters) :
    c.toNat < 256 ∧ c.toUpper.toNat < 256 ∧ (c.toUpper.toNat = c.toNat ↔ c.isLower = false) := by
  have all : allowedCharacters.all (fun c => c.toNat < 256 ∧ c.toUpper.toNat < 256 ∧
      (c.toUpper.toNat = c.toNat ↔ c.isLower = false)) = true := by decide
  exact of_decide_eq_true (List.all_eq_true.1 all c h)

/-- A currency with a code only is the number of the code, five bytes up. -/
theorem eq_of_isIso {currency : Currency} (fits : currency < 2 ^ 160) (h : isIso currency = true) :
    ∃ a b c : Char, iso currency = [a, b, c] ∧
      currency = (65536 * a.toNat + 256 * b.toNat + c.toNat) * 256 ^ 5 := by
  obtain ⟨a, b, c, code⟩ := List.length_eq_three.1
    (show (((toBytes 20 currency).drop 12).take 3).length = 3 by simp)
  have rest : (toBytes 20 currency).drop 15 = ((toBytes 20 currency).drop 12).drop 3 := by
    rw [List.drop_drop]
  rw [isIso, Bool.and_eq_true, beq_iff_eq, beq_iff_eq] at h
  have parts : toBytes 20 currency = List.replicate 12 0 ++ ([a, b, c] ++ List.replicate 5 0) := by
    rw [← code, ← h.2, ← h.1, rest, List.take_append_drop, List.take_append_drop]
  have value : bin2bn (List.replicate 12 0 ++ ([a, b, c] ++ List.replicate 5 0)) =
      (65536 * a.toNat + 256 * b.toNat + c.toNat) * 256 ^ 5 := by
    simp [bin2bn]
    omega
  have byte (b : UInt8) : (Char.ofNat b.toNat).toNat = b.toNat := by
    have limit := b.toNat_lt
    rw [Char.ofNat, dif_pos (.inl (by omega))]
    rfl
  refine ⟨_, _, _, by rw [iso, code]; rfl, ?_⟩
  rw [byte, byte, byte, ← value, ← parts, bin2bn_toBytes (by simpa using fits)]

/-- Where a text is read back: unless it is a code with a small letter. -/
theorem toCurrency_toString_iff (currency : Currency) (fits : currency < 2 ^ 160)
    (other : currency ≠ noCurrency) :
    toCurrency (toString currency) = some currency ↔
      ¬ (isIso currency = true ∧ (iso currency).all (allowedCharacters.contains ·) = true ∧
        (iso currency).any Char.isLower = true) := by
  unfold toString
  by_cases zero : currency = 0
  · subst zero
    decide
  rw [if_neg zero, if_neg other]
  by_cases code : (isIso currency && iso currency != systemCurrencyCode &&
      (iso currency).all (allowedCharacters.contains ·)) = true
  · rw [if_pos code]
    simp only [Bool.and_eq_true, bne_iff_ne] at code
    obtain ⟨⟨isoOnly, notSystem⟩, allowed⟩ := code
    obtain ⟨a, b, c, text, number⟩ := eq_of_isIso fits isoOnly
    simp only [isoOnly, allowed]
    rw [text] at notSystem allowed ⊢
    simp only [List.all_cons, List.all_nil, Bool.and_true, Bool.and_eq_true,
      List.contains_iff_mem] at allowed
    obtain ⟨la, la', upperA⟩ := toUpper_allowed allowed.1
    obtain ⟨lb, lb', upperB⟩ := toUpper_allowed allowed.2.1
    obtain ⟨lc, lc', upperC⟩ := toUpper_allowed allowed.2.2
    have read : toCurrency [a, b, c] = some
        ((65536 * a.toUpper.toNat + 256 * b.toUpper.toNat + c.toUpper.toNat) * 256 ^ 5) := by
      rw [toCurrency, if_neg (not_or.2 ⟨nofun, notSystem⟩)]
      simp [Nat.mod_eq_of_lt lc']
      omega
    have digits : (65536 * a.toUpper.toNat + 256 * b.toUpper.toNat + c.toUpper.toNat) * 256 ^ 5 =
        (65536 * a.toNat + 256 * b.toNat + c.toNat) * 256 ^ 5 ↔ a.toUpper.toNat = a.toNat ∧
          b.toUpper.toNat = b.toNat ∧ c.toUpper.toNat = c.toNat := by omega
    rw [read, number, Option.some.injEq, digits, upperA, upperB, upperC]
    simp
  · rw [if_neg code]
    have read : toCurrency (strHex (toBytes 20 currency)) = some currency := by
      have length : (strHex (toBytes 20 currency)).length = 40 := by simp [length_strHex]
      have notSystem : strHex (toBytes 20 currency) ≠ systemCurrencyCode := by
        intro same
        rw [same] at length
        cases length
      obtain ⟨b, bytes, whole⟩ := List.exists_cons_of_length_eq_add_one (toBytes_length 20 currency)
      have empty : ¬ (strHex (toBytes 20 currency)).isEmpty = true := by
        rw [whole]
        exact Bool.false_ne_true
      rw [toCurrency, if_neg (not_or.2 ⟨empty, notSystem⟩), if_neg (by omega), if_pos length, whole,
        setHex_strHex, ← whole, bin2bn_toBytes (by simpa using fits)]
      rfl
    refine ⟨fun _ ⟨isoOnly, allowed, lower⟩ => code ?_, fun _ => read⟩
    have notSystem : iso currency ≠ systemCurrencyCode := by
      intro same
      rw [same] at lower
      cases lower
    simpa only [isoOnly, allowed, Bool.and_true, Bool.true_and, bne_iff_ne] using notSystem

/-- A code in small letters comes back in capital letters, those of the system currency too. -/
theorem toCurrency_toString_swt :
    toString 0x7377740000000000 = "swt".toList ∧
      toCurrency "swt".toList = some 0x5357540000000000 ∧
      toString 0x5357540000000000 = "0000000000000000000000005357540000000000".toList := by
  decide

theorem toCurrency_toString_usd :
    toCurrency (toString 0x5553440000000000) = some 0x5553440000000000 :=
  (toCurrency_toString_iff 0x5553440000000000 (by decide) (by decide)).2 (by decide)

end Currency

end Skywell
