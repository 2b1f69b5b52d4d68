import JingtumCore.SkipLists

/-!
# Hashes of past ledgers

How `LedgerMasterImp` finds the hash of a ledger by its number: in the skip lists of a later
ledger, or in those of a ledger between the two. Assertions are left out.
-/
namespace Skywell.LedgerMaster
open LedgerRecord
variable [Sha512Half] [LedgerHashes]

/-- `getLedgerHash`. -/
def getLedgerHash (getLedgerByHash : LedgerHash → Option LedgerRecord) (desiredSeq : UInt32)
    (knownGoodLedger : LedgerRecord) : LedgerHash :=
  let hash := knownGoodLedger.getLedgerHash desiredSeq
  if hash ≠ 0 then hash
  else
    let i := knownGoodLedger.getLedgerHash ((desiredSeq + 255) % 256)
    if i = 0 then hash
    else match getLedgerByHash i with
      | some l => l.getLedgerHash desiredSeq
      | none => hash

def walkHashBySeq (acquire : LedgerHash → UInt32 → Option LedgerRecord) (index : UInt32)
    (referenceLedger : Option LedgerRecord) : LedgerHash :=
  match referenceLedger with
  | none => 0
  | some referenceLedger =>
    if referenceLedger.mLedgerSeq < index then 0
    else
      let ledgerHash := referenceLedger.getLedgerHash index
      if ledgerHash ≠ 0 then ledgerHash
      else
        let refIndex := (index + 255) &&& ~~~255
        let refHash := referenceLedger.getLedgerHash refIndex
        if refHash = 0 then ledgerHash
        else match acquire refHash refIndex with
          | some ledger => ledger.getLedgerHash index
          | none => ledgerHash

/-- A chain of ledgers from a first one, with hashes, every one of which can be obtained. -/
structure History where
  chain : Nat → LedgerRecord
  n : Nat
  getLedgerByHash : LedgerHash → Option LedgerRecord
  acquire : LedgerHash → UInt32 → Option LedgerRecord
  first : (chain 1).First
  follows : ∀ i, 1 ≤ i → i < n → Follows (chain i) (chain (i + 1))
  room : n < 2 ^ 32
  nonzero : ∀ i, 1 ≤ i → i ≤ n → (chain i).getHash ≠ 0
  byHash : ∀ i, 1 ≤ i → i ≤ n → getLedgerByHash (chain i).getHash = some (chain i)
  acquired : ∀ i : UInt32, 1 ≤ i.toNat → i.toNat ≤ n →
    acquire (chain i.toNat).getHash i = some (chain i.toNat)

namespace History
variable (H : History) {k : UInt32} {i : Nat}

theorem skips (some_ : 1 ≤ i) (inside : i ≤ H.n) :
    (H.chain i).Skips (fun k => (H.chain k).getHash) i :=
  skips_of_chain H.first H.follows H.room some_ inside

theorem finds (inside : i ≤ H.n) (some_ : 1 ≤ k.toNat) (before : k.toNat ≤ i)
    (listed : i - k.toNat ≤ 256 ∨ k.toNat % 256 = 0) :
    (H.chain i).getLedgerHash k = (H.chain k.toNat).getHash := by
  have first := some_.trans before
  rw [getLedgerHash_eq (H.skips first inside) first (inside.trans_lt H.room) rfl,
    if_pos ⟨some_, before, listed⟩]

theorem misses (more : 1 < H.n) (far : k.toNat = 0 ∨ 256 < H.n - k.toNat ∧ k.toNat % 256 ≠ 0) :
    (H.chain H.n).getLedgerHash k = 0 := by
  rw [getLedgerHash_eq (H.skips more.le le_rfl) more.le H.room rfl, if_neg (by omega),
    if_neg (by omega)]

omit [Sha512Half] [LedgerHashes] in
theorem toNat_and_not_255 (x : UInt32) : (x &&& ~~~255).toNat = x.toNat / 256 * 256 := by
  have mask : (~~~255 : UInt32).toNat = 2 ^ 32 - (255 + 1) := by decide
  have blocks : x.toNat / 256 * 256 = x.toNat >>> 8 <<< 8 := by
    rw [Nat.shiftRight_eq_div_pow, Nat.shiftLeft_eq]
  rw [UInt32.toNat_and, mask, blocks]
  refine Nat.eq_of_testBit_eq fun i => ?_
  have low : Nat.testBit 255 i = decide (i < 8) := Nat.testBit_two_pow_sub_one 8 i
  rw [Nat.testBit_and, Nat.testBit_two_pow_sub_succ (by decide), Nat.testBit_shiftLeft,
    Nat.testBit_shiftRight, low]
  by_cases small : i < 8
  · simp [small]
  · rw [Nat.add_sub_cancel' (Nat.not_lt.1 small)]
    by_cases large : i < 32
    · simp [small, large]
      omega
    · have high : x.toNat < 2 ^ i := x.toNat_lt.trans_le (Nat.pow_le_pow_right (by decide) (by omega))
      simp [Nat.testBit_lt_two_pow high]

theorem walkHashBySeq_eq (some_ : 1 ≤ k.toNat) (before : k.toNat < H.n) :
    walkHashBySeq H.acquire k (some (H.chain H.n)) = (H.chain k.toNat).getHash := by
  have early : ¬ (H.chain H.n).mLedgerSeq < k := by
    rw [UInt32.lt_iff_toNat_lt, (H.skips (by omega) le_rfl).seq]
    omega
  unfold walkHashBySeq
  dsimp only
  rw [if_neg early]
  by_cases listed : H.n - k.toNat ≤ 256 ∨ k.toNat % 256 = 0
  · rw [H.finds le_rfl some_ before.le listed, if_pos (H.nonzero _ some_ before.le)]
  have sum : (k + 255).toNat = k.toNat + 255 := by
    have room := H.room
    exact Nat.mod_eq_of_lt (by change k.toNat + 255 < 2 ^ 32; omega)
  have reference := toNat_and_not_255 (k + 255)
  generalize (k + 255) &&& ~~~255 = r at reference ⊢
  have some' : 1 ≤ r.toNat := by omega
  have inside : r.toNat ≤ H.n := by omega
  rw [H.misses (by omega) (by omega), H.finds le_rfl some' inside (.inr (by omega)),
    if_neg (H.nonzero _ some' inside),
    H.acquired _ some' inside]
  exact H.finds inside some_ (by omega) (.inl (by omega))

/-- The other reference of `getLedgerHash` is one of the first 256 ledgers. -/
theorem getLedgerHash_eq_iff (some_ : 1 ≤ k.toNat) (before : k.toNat < H.n) :
    getLedgerHash H.getLedgerByHash k (H.chain H.n) = (H.chain k.toNat).getHash ↔
      H.n - k.toNat ≤ 256 ∨ k.toNat % 256 = 0 := by
  have hash := H.nonzero k.toNat some_ before.le
  unfold getLedgerHash
  by_cases listed : H.n - k.toNat ≤ 256 ∨ k.toNat % 256 = 0
  · rw [H.finds le_rfl some_ before.le listed, if_pos hash]
    exact ⟨fun _ => listed, fun _ => rfl⟩
  · have reference : ((k + 255) % 256).toNat = (k.toNat + 255) % 256 := by
      exact Nat.mod_mod_of_dvd _ (by decide)
    rw [H.misses (by omega) (by omega), if_neg (not_not.2 rfl), H.misses (by omega) (by omega)]
    exact ⟨fun found => absurd found.symm hash, fun near => absurd near listed⟩

/-- `walkHashBySeq` finds the hash of every ledger before `n`, and `getLedgerHash` exactly those in
the lists of the ledger `n`. -/
theorem historical_hash_iff (k : UInt32) (some_ : 1 ≤ k.toNat) (before : k.toNat < H.n) :
    (getLedgerHash H.getLedgerByHash k (H.chain H.n) = (H.chain k.toNat).getHash ∧
      walkHashBySeq H.acquire k (some (H.chain H.n)) = (H.chain k.toNat).getHash ↔
        H.n - k.toNat ≤ 256 ∨ k.toNat % 256 = 0) ∧
      walkHashBySeq H.acquire k (some (H.chain H.n)) = (H.chain k.toNat).getHash := by
  have walk := H.walkHashBySeq_eq some_ before
  have found := H.getLedgerHash_eq_iff some_ before
  exact ⟨⟨fun both => found.1 both.1, fun listed => ⟨found.2 listed, walk⟩⟩, walk⟩

section
omit [Sha512Half] [LedgerHashes]

theorem exists_history (n : Nat) (room : n < 2 ^ 32) :
    ∃ (_ : Sha512Half) (_ : LedgerHashes) (H : History), H.n = n := by
  obtain ⟨_, hashes, chain, first, follows, hash⟩ := exists_chain
  have follows (i : Nat) (some_ : 1 ≤ i) (_ : i < n) := follows i some_
  have number (i : Nat) (some_ : 1 ≤ i) (inside : i ≤ n) : (chain i).getHash = i :=
    (hash _).trans (skips_of_chain first follows room some_ inside).seq
  refine ⟨_, hashes, ⟨chain, n, fun h => some (chain h), fun h _ => some (chain h), first, follows,
    room, fun i some_ inside => ?_, fun i some_ inside => ?_, fun i some_ inside => ?_⟩, rfl⟩
  all_goals rw [number _ some_ inside]
  exact Nat.ne_of_gt some_

/-- Of 300 ledgers, the hash of the first is not found. -/
theorem getLedgerHash_misses_first : ∃ (_ : Sha512Half) (_ : LedgerHashes) (H : History), H.n = 300 ∧
    getLedgerHash H.getLedgerByHash 1 (H.chain H.n) ≠ (H.chain 1).getHash := by
  obtain ⟨_, _, H, long⟩ := exists_history 300 (by decide)
  refine ⟨_, _, H, long, fun found => ?_⟩
  have listed := (H.getLedgerHash_eq_iff (k := 1) (by decide) (by rw [long]; decide)).1 found
  rw [long] at listed
  exact absurd listed (by decide)

theorem historical_hash_of_256 : ∃ (_ : Sha512Half) (_ : LedgerHashes) (H : History), H.n = 600 ∧
    getLedgerHash H.getLedgerByHash 256 (H.chain H.n) = (H.chain 256).getHash := by
  obtain ⟨_, _, H, long⟩ := exists_history 600 (by decide)
  exact ⟨_, _, H, long,
    ((H.historical_hash_iff 256 (by decide) (by rw [long]; decide)).1.2 (.inr (by decide))).1⟩

end

end History
end Skywell.LedgerMaster
