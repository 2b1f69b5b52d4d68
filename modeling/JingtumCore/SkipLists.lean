import JingtumCore.LedgerAccept

/-!
# Skip lists

Each ledger keeps the hashes of the last 256 ledgers and, in one list for each block of
65536 ledgers, those of every 256th. The lists are followed along a chain of ledgers,
and with them what `getLedgerHash` finds.
-/
namespace Skywell
open U32Field

section
variable (h : Nat → LedgerHash)

/-- The terms before `i`, at most `width`, from the first on. -/
def recentTerms (width i : Nat) : List LedgerHash :=
  (List.range' (max 1 (i - width)) (i - max 1 (i - width))).map h

/-- Every 256th term before `i` that belongs to a block of 65536 terms. -/
def blockTerms (block i : Nat) : List LedgerHash :=
  (List.range' (max 1 (256 * block))
    (min ((i - 1) / 256) (256 * block + 255) + 1 - max 1 (256 * block))).map fun m => h (256 * m)

variable {h} {width i k block : Nat}

theorem length_recentTerms : (recentTerms h width i).length = i - max 1 (i - width) := by
  rw [recentTerms, List.length_map, List.length_range']

theorem length_blockTerms : (blockTerms h block i).length =
    min ((i - 1) / 256) (256 * block + 255) + 1 - max 1 (256 * block) := by
  rw [blockTerms, List.length_map, List.length_range']

/-- The window moves on by one term. -/
theorem recentTerms_succ (some_ : 1 ≤ i) (wide : 1 ≤ width) : recentTerms h width (i + 1) =
    (if (recentTerms h width i).length = width then (recentTerms h width i).tail
      else recentTerms h width i) ++ [h i] := by
  rw [length_recentTerms]
  split_ifs with full
  · have start : max 1 (i - width) = i - width := by omega
    have size : i - (i - width) = width - 1 + 1 := by omega
    have next : max 1 (i + 1 - width) = i - width + 1 := by omega
    have size' : i + 1 - (i - width + 1) = width - 1 + 1 := by omega
    have last : i - width + 1 + 1 * (width - 1) = i := by omega
    have before : (recentTerms h width i).tail =
        (List.range' (i - width + 1) (width - 1)).map h := by
      rw [recentTerms, start, size, List.range'_succ, List.map_cons, List.tail_cons]
    rw [before, recentTerms, next, size', List.range'_concat, last, List.map_append]
    rfl
  · have start : max 1 (i - width) = 1 := by omega
    have next : max 1 (i + 1 - width) = 1 := by omega
    have size : i + 1 - 1 = i - 1 + 1 := by omega
    have last : 1 + 1 * (i - 1) = i := by omega
    rw [recentTerms, recentTerms, start, next, size, List.range'_concat, last, List.map_append]
    rfl

theorem blockTerms_succ (some_ : 1 ≤ i) (multiple : i % 256 = 0) (here : block = i / 65536) :
    blockTerms h block (i + 1) = blockTerms h block i ++ [h i] := by
  have size : min ((i + 1 - 1) / 256) (256 * block + 255) + 1 - max 1 (256 * block) =
      (min ((i - 1) / 256) (256 * block + 255) + 1 - max 1 (256 * block)) + 1 := by omega
  have last : max 1 (256 * block) +
      1 * (min ((i - 1) / 256) (256 * block + 255) + 1 - max 1 (256 * block)) = i / 256 := by omega
  have back : 256 * (i / 256) = i := by omega
  rw [blockTerms, blockTerms, size, List.range'_concat, last]
  simp [back]

theorem blockTerms_succ_other (some_ : 1 ≤ i) (other : ¬(i % 256 = 0 ∧ block = i / 65536)) :
    blockTerms h block (i + 1) = blockTerms h block i := by
  have size : min ((i + 1 - 1) / 256) (256 * block + 255) + 1 - max 1 (256 * block) =
      min ((i - 1) / 256) (256 * block + 255) + 1 - max 1 (256 * block) := by omega
  rw [blockTerms, blockTerms, size]

theorem recentTerms_get (some_ : 1 ≤ k) (before : k < i) (near : i - k ≤ width) :
    (recentTerms h width i)[(recentTerms h width i).length - (i - k)]? = some (h k) := by
  have inside : i - max 1 (i - width) - (i - k) < i - max 1 (i - width) := by omega
  have place : max 1 (i - width) + 1 * (i - max 1 (i - width) - (i - k)) = k := by omega
  rw [length_recentTerms, recentTerms, List.getElem?_map, List.getElem?_range' inside, place]
  rfl

theorem blockTerms_get (some_ : 1 ≤ k) (before : 256 * k < i) :
    (blockTerms h (k / 256) i)[(blockTerms h (k / 256) i).length -
      (min ((i - 1) / 256) (256 * (k / 256) + 255) - k) - 1]? = some (h (256 * k)) := by
  have inside : min ((i - 1) / 256) (256 * (k / 256) + 255) + 1 - max 1 (256 * (k / 256)) -
      (min ((i - 1) / 256) (256 * (k / 256) + 255) - k) - 1 <
        min ((i - 1) / 256) (256 * (k / 256) + 255) + 1 - max 1 (256 * (k / 256)) := by omega
  have place : max 1 (256 * (k / 256)) + 1 * (min ((i - 1) / 256) (256 * (k / 256) + 255) + 1 -
      max 1 (256 * (k / 256)) - (min ((i - 1) / 256) (256 * (k / 256) + 255) - k) - 1) = k := by omega
  rw [length_blockTerms, blockTerms, List.getElem?_map, List.getElem?_range' inside, place]
  rfl

end

variable [Sha512Half]

namespace LedgerRecord

/-- `getLedgerHash`: zero stands for a hash that is not there. The differences are taken in 32
bits; a negative `diff` exceeds every size. -/
def getLedgerHash [LedgerHashes] (l : LedgerRecord) (ledgerIndex : UInt32) : LedgerHash :=
  if ledgerIndex > l.mLedgerSeq then 0
  else if ledgerIndex = l.mLedgerSeq then l.getHash
  else if ledgerIndex = l.mLedgerSeq - 1 then l.mParentHash
  else
    let diff := (l.mLedgerSeq - ledgerIndex).toInt32.toInt
    let recent := match l.getSLE .skipList with
      | some hashIndex =>
        let vec : List LedgerHash := hashIndex.get (.v256 .sfHashes)
        if diff ≤ 256 ∧ 0 ≤ diff ∧ diff ≤ vec.length then vec[vec.length - diff.toNat]? else none
      | none => none
    match recent with
    | some hash => hash
    | none =>
      if ledgerIndex &&& 0xff ≠ 0 then 0
      else match l.getSLE (.skipListOf (ledgerIndex >>> 16)) with
        | some hashIndex =>
          let lastSeq := hashIndex.getFieldU32 sfLastLedgerSequence
          let sDiff := ((lastSeq - ledgerIndex) >>> 8).toNat
          let vec : List LedgerHash := hashIndex.get (.v256 .sfHashes)
          if vec.length > sDiff then vec.getD (vec.length - sDiff - 1) 0 else 0
        | none => 0

variable {l l' prev : LedgerRecord} {h : Nat → LedgerHash} {i n : Nat}

/-- A change of the ledger that touches neither its number, nor its parent, nor skip lists. -/
structure Untouched (l l' : LedgerRecord) : Prop where
  seq : l'.mLedgerSeq = l.mLedgerSeq
  parent : l'.mParentHash = l.mParentHash
  lists : ∀ k : Key, k.type = .ledgerHashes → l'.getSLE k = l.getSLE k

/-- The ledger is built after `prev`: as its successor, with changes of the state before and after
the skip lists are updated, and accepted. -/
def Follows [LedgerHashes] (prev l : LedgerRecord) : Prop :=
  ∃ config closeTimeNC opened changed updated closeTime closeResolution correctCloseTime,
    prev.next config closeTimeNC = some opened ∧ Untouched opened changed ∧
    Untouched changed.updateSkipList updated ∧
    l = updated.setAccepted closeTime closeResolution correctCloseTime

/-- The skip lists hold the terms of a sequence before `i`. -/
structure Lists (l : Ledger) (h : Nat → LedgerHash) (i : Nat) : Prop where
  recent : l.hashesAt .skipList = recentTerms h 256 i
  block : ∀ g : UInt32, l.hashesAt (.skipListOf g) = blockTerms h g.toNat i
  last : ∀ (g : UInt32) (sle : SLE), l.getSLE (.skipListOf g) = some sle →
    max 1 (256 * g.toNat) ≤ (i - 1) / 256 ∧
      (sle.getFieldU32 sfLastLedgerSequence).toNat =
        256 * min ((i - 1) / 256) (256 * g.toNat + 255)

variable {config : FeeConfig} {ledger : Ledger}

theorem hashesAt_congr {l l' : Ledger} {k : Key} (same : l'.getSLE k = l.getSLE k) :
    l'.hashesAt k = l.hashesAt k := by
  rw [Ledger.hashesAt, Ledger.hashesAt, same]

theorem getSLE_addHash (l : Ledger) (k k' : Key) (hashes : List LedgerHash) (prevIndex : UInt32) :
    (l.addHash k hashes prevIndex).getSLE k' = if k = k' then
      some ((((l.getSLE k).getD (SLE.new k.type)).set (.v256 .sfHashes) hashes).setFieldU32
        sfLastLedgerSequence prevIndex) else l.getSLE k' := by
  rw [Ledger.addHash, Ledger.writeBack]
  simp [Ledger.getSLE,
    Std.ExtTreeMap.getElem?_insert]

theorem hashesAt_addHash (l : Ledger) (k k' : Key) (hashes : List LedgerHash) (prevIndex : UInt32) :
    (l.addHash k hashes prevIndex).hashesAt k' = if k = k' then hashes else l.hashesAt k' := by
  rw [Ledger.hashesAt, getSLE_addHash]
  split_ifs
  · simp [SLE.setFieldU32, SLE.get]
  · rfl

theorem Lists.congr {l l' : Ledger} (lists : Lists l h i)
    (same : ∀ k : Key, k.type = .ledgerHashes → l'.getSLE k = l.getSLE k) : Lists l' h i := by
  refine ⟨?_, fun g => ?_, fun g sle found => ?_⟩
  · rw [hashesAt_congr (same .skipList rfl), lists.recent]
  · rw [hashesAt_congr (same (.skipListOf g) rfl), lists.block]
  · rw [same (.skipListOf g) rfl] at found
    exact lists.last g sle found

section
omit [Sha512Half]

theorem toNat_and_255 (x : UInt32) : x &&& 0xff = 0 ↔ x.toNat % 256 = 0 := by
  rw [← UInt32.toNat_inj]
  change x.toNat &&& 2 ^ 8 - 1 = 0 ↔ _
  rw [Nat.and_two_pow_sub_one_eq_mod]

theorem toNat_sub_of_toNat {x y : UInt32} (same : x.toNat = n) (le : y.toNat ≤ n) :
    (x - y).toNat = n - y.toNat := by
  rw [UInt32.toNat_sub_of_le _ _ (by rwa [UInt32.le_iff_toNat_le, same]), same]

theorem toNat_shiftRight_16 (x : UInt32) : (x >>> 16).toNat = x.toNat / 65536 := by
  exact Nat.shiftRight_eq_div_pow _ 16

end

theorem Lists.addBlock {prevIndex : UInt32} {hash : LedgerHash} (lists : Lists ledger h i)
    (some_ : 1 ≤ i) (index : prevIndex.toNat = i) (parent : hash = h i) :
    let group := Key.skipListOf (prevIndex >>> 16)
    let ledger' := if prevIndex &&& 0xff = 0 then
        ledger.addHash group (ledger.hashesAt group ++ [hash]) prevIndex
      else ledger
    ledger'.hashesAt .skipList = recentTerms h 256 i ∧
      (∀ g : UInt32, ledger'.hashesAt (.skipListOf g) = blockTerms h g.toNat (i + 1)) ∧
      ∀ (g : UInt32) sle, ledger'.getSLE (.skipListOf g) = some sle →
        max 1 (256 * g.toNat) ≤ (i + 1 - 1) / 256 ∧
          (sle.getFieldU32 sfLastLedgerSequence).toNat =
            256 * min ((i + 1 - 1) / 256) (256 * g.toNat + 255) := by
  intro group ledger'
  have number : (prevIndex >>> 16).toNat = i / 65536 := by rw [toNat_shiftRight_16, index]
  have own (g : UInt32) : group = .skipListOf g ↔ g.toNat = i / 65536 := by
    rw [Key.skipListOf.injEq, ← UInt32.toNat_inj, number, eq_comm]
  have multiple := toNat_and_255 prevIndex
  rw [index] at multiple
  by_cases here : i % 256 = 0
  · have added : ledger' = ledger.addHash group (ledger.hashesAt group ++ [hash]) prevIndex :=
      if_pos (multiple.2 here)
    refine ⟨?_, fun g => ?_, fun g sle found => ?_⟩
    · rw [added, hashesAt_addHash, if_neg nofun, lists.recent]
    · rw [added, hashesAt_addHash]
      by_cases same : group = .skipListOf g
      · rw [if_pos same, same, lists.block, parent]
        rw [blockTerms_succ some_ here ((own g).1 same)]
      · rw [if_neg same, lists.block]
        exact (blockTerms_succ_other some_ fun both => same ((own g).2 both.2)).symm
    · rw [added, getSLE_addHash] at found
      obtain ⟨same, ⟨⟩⟩ | ⟨same, found⟩ := ite_eq_iff.1 found
      · have block := (own g).1 same
        have last : (SLE.getFieldU32 (SLE.setFieldU32 (((ledger.getSLE group).getD
            (SLE.new group.type)).set (.v256 .sfHashes) (ledger.hashesAt group ++ [hash]))
              sfLastLedgerSequence prevIndex) sfLastLedgerSequence) = prevIndex := by
          simp [SLE.getFieldU32, SLE.setFieldU32, SLE.get]
        rw [last]
        omega
      · obtain ⟨nonempty, last⟩ := lists.last g sle found
        have other : g.toNat ≠ i / 65536 := fun block => same ((own g).2 block)
        omega
  · have kept : ledger' = ledger := if_neg fun zero => here (multiple.1 zero)
    rw [kept]
    refine ⟨lists.recent, fun g => ?_, fun g sle found => ?_⟩
    · rw [lists.block]
      exact (blockTerms_succ_other some_ fun both => here both.1).symm
    · obtain ⟨nonempty, last⟩ := lists.last g sle found
      omega

/-- `updateSkipList` adds the parent's hash to the lists. -/
theorem updateSkipList_lists (lists : Lists l.toLedger h i) (some_ : 1 ≤ i)
    (seq : l.mLedgerSeq.toNat = i + 1) (parent : l.mParentHash = h i) :
    Lists l.updateSkipList.toLedger h (i + 1) := by
  have nonzero : l.mLedgerSeq ≠ 0 := by
    intro zero
    rw [zero] at seq
    cases seq
  have index : (l.mLedgerSeq - 1).toNat = i := toNat_sub_of_toNat seq (Nat.le_add_left 1 i)
  obtain ⟨recent, block, last⟩ := lists.addBlock some_ index parent
  rw [updateSkipList, if_neg nonzero]
  refine ⟨?_, fun g => ?_, fun g sle found => ?_⟩
  · rw [hashesAt_addHash, if_pos rfl, recent, parent, recentTerms_succ some_ (by decide)]
  · rw [hashesAt_addHash, if_neg nofun, block]
  · rw [getSLE_addHash] at found
    exact last g sle found

theorem addHash_seq (l : Ledger) (k : Key) (hashes : List LedgerHash) (prevIndex : UInt32) :
    (l.addHash k hashes prevIndex).mLedgerSeq = l.mLedgerSeq := by
  rw [Ledger.addHash, Ledger.writeBack]
  split_ifs <;> rfl

theorem updateSkipList_seq : l.updateSkipList.mLedgerSeq = l.mLedgerSeq := by
  rw [updateSkipList]
  split_ifs
  · rfl
  · rw [addHash_seq]
    split_ifs
    · rw [addHash_seq]
    · rfl

theorem updateSkipList_parent :
    l.updateSkipList.mParentHash = l.mParentHash := by
  rw [updateSkipList]
  split_ifs <;> rfl

theorem updateFees_kept {l : Ledger} : (l.updateFees config).mLedgerSeq = l.mLedgerSeq ∧
      (l.updateFees config).mAccountStateMap = l.mAccountStateMap := by
  rw [Ledger.updateFees]
  split_ifs <;> exact ⟨rfl, rfl⟩

theorem next_opened [LedgerHashes] {closeTimeNC : UInt32}
    (ran : prev.next config closeTimeNC = some l) :
    l.mLedgerSeq = prev.mLedgerSeq + 1 ∧ l.mParentHash = prev.getHash ∧
      l.mAccountStateMap = prev.mAccountStateMap := by
  obtain ⟨resolution, -, built⟩ := Option.bind_eq_some_iff.1 ran
  cases built
  exact ⟨updateFees_kept.1, rfl, updateFees_kept.2⟩

/-- The number of a ledger, its parent and its skip lists. -/
structure Skips (l : LedgerRecord) (h : Nat → LedgerHash) (i : Nat) : Prop where
  seq : l.mLedgerSeq.toNat = i
  parent : 2 ≤ i → l.mParentHash = h (i - 1)
  lists : Lists l.toLedger h i

theorem Skips.follows [LedgerHashes] (skips : prev.Skips h i) (some_ : 1 ≤ i) (room : i + 1 < 2 ^ 32)
    (hash : h i = prev.getHash) (follows : Follows prev l) : l.Skips h (i + 1) := by
  obtain ⟨config, closeTimeNC, opened, changed, updated, closeTime, resolution, correct, ran,
    before, after, rfl⟩ := follows
  obtain ⟨seq, parent, states⟩ := next_opened ran
  have same (k : Key) : opened.getSLE k = prev.getSLE k := by
    rw [Ledger.getSLE, Ledger.getSLE, states]
  have number : changed.mLedgerSeq.toNat = i + 1 := by
    rw [before.seq, seq, UInt32.toNat_add, skips.seq]
    change (i + 1) % 2 ^ 32 = i + 1
    exact Nat.mod_eq_of_lt (by omega)
  have parent' : changed.mParentHash = h i := by rw [before.parent, parent, hash]
  have opened' : Lists opened.toLedger h i := skips.lists.congr fun k _ => same k
  have lists := updateSkipList_lists (opened'.congr before.lists) some_ number parent'
  refine ⟨?_, fun _ => ?_, ?_⟩
  · change updated.mLedgerSeq.toNat = i + 1
    rw [after.seq, updateSkipList_seq, number]
  · change updated.mParentHash = h (i + 1 - 1)
    rw [after.parent, updateSkipList_parent, parent', Nat.add_sub_cancel]
  · exact lists.congr after.lists

/-- The first ledger of a chain: it has number one and no skip lists. -/
def First (l : LedgerRecord) : Prop :=
  l.mLedgerSeq = 1 ∧ ∀ k : Key, k.type = .ledgerHashes → l.getSLE k = none

theorem First.skips (first : l.First) : l.Skips h 1 := by
  have none (k : Key) (type : k.type = .ledgerHashes) : l.hashesAt k = [] := by
    rw [Ledger.hashesAt, first.2 k type]
  refine ⟨?_, fun two => ?_, ?_, fun g => ?_, fun g sle found => ?_⟩
  · rw [first.1]
    rfl
  · omega
  · rw [none .skipList rfl]
    rfl
  · rw [none (.skipListOf g) rfl, eq_comm, ← List.length_eq_zero_iff, length_blockTerms]
    omega
  · rw [first.2 _ rfl] at found
    cases found

/-- The skip lists are exact along the whole chain. -/
theorem skips_of_chain [LedgerHashes] {chain : Nat → LedgerRecord} (first : (chain 1).First)
    (follows : ∀ i, 1 ≤ i → i < n → Follows (chain i) (chain (i + 1))) (room : n < 2 ^ 32)
    (some_ : 1 ≤ i) (inside : i ≤ n) : (chain i).Skips (fun k => (chain k).getHash) i := by
  induction i, some_ using Nat.le_induction with
  | base => exact first.skips
  | succ i some_ ih =>
    exact (ih (by omega)).follows some_ (by omega) rfl (follows i some_ (by omega))

/-- The lookup in the list of recent hashes. -/
theorem Lists.recent_get {k : Nat} {diff : Int} (lists : Lists ledger h n) (before : k + 2 ≤ n)
    (difference : diff = (n - k : Nat) ∨ diff < 0 ∧ 256 < n - k) :
    (match ledger.getSLE .skipList with
      | some hashIndex =>
        let vec : List LedgerHash := hashIndex.get (.v256 .sfHashes)
        if diff ≤ 256 ∧ 0 ≤ diff ∧ diff ≤ vec.length then vec[vec.length - diff.toNat]? else none
      | none => none) = if 1 ≤ k ∧ n - k ≤ 256 then some (h k) else none := by
  have recent := lists.recent
  have length := @length_recentTerms h 256 n
  rw [Ledger.hashesAt] at recent
  cases found : ledger.getSLE .skipList with
  | none =>
    rw [found] at recent
    rw [← recent, List.length_nil] at length
    rw [if_neg (by omega)]
  | some sle =>
    rw [found] at recent
    dsimp only at recent ⊢
    rw [recent, length]
    by_cases near : 1 ≤ k ∧ n - k ≤ 256
    · obtain rfl : diff = (n - k : Nat) := by omega
      rw [if_pos (by omega), if_pos near, ← length]
      exact recentTerms_get near.1 (by omega) near.2
    · rw [if_neg (by omega), if_neg near]

/-- The lookup in the list of a block. -/
theorem Lists.block_get {k : UInt32} (lists : Lists ledger h n) (before : k.toNat + 2 ≤ n)
    (multiple : k.toNat % 256 = 0) : (match ledger.getSLE (.skipListOf (k >>> 16)) with
      | some hashIndex =>
        let lastSeq := hashIndex.getFieldU32 sfLastLedgerSequence
        let sDiff := ((lastSeq - k) >>> 8).toNat
        let vec : List LedgerHash := hashIndex.get (.v256 .sfHashes)
        if vec.length > sDiff then vec.getD (vec.length - sDiff - 1) 0 else 0
      | none => 0) = if 1 ≤ k.toNat then h k.toNat else 0 := by
  have block := lists.block (k >>> 16)
  have last := lists.last (k >>> 16)
  have number : (k >>> 16).toNat = k.toNat / 256 / 256 := by
    rw [toNat_shiftRight_16, Nat.div_div_eq_div_mul]
  have length := @length_blockTerms h n (k.toNat / 256 / 256)
  rw [number] at block last
  rw [Ledger.hashesAt] at block
  cases found : ledger.getSLE (.skipListOf (k >>> 16)) with
  | none =>
    rw [found] at block
    rw [← block, List.length_nil] at length
    rw [if_neg (by omega)]
  | some sle =>
    obtain ⟨nonempty, lastSeq⟩ := last sle found
    rw [found] at block
    dsimp only at block ⊢
    have distance : ((sle.getFieldU32 sfLastLedgerSequence - k) >>> 8).toNat =
        min ((n - 1) / 256) (256 * (k.toNat / 256 / 256) + 255) - k.toNat / 256 := by
      rw [UInt32.toNat_shiftRight, toNat_sub_of_toNat lastSeq (by omega)]
      apply (Nat.shiftRight_eq_div_pow _ 8).trans
      omega
    rw [distance, block]
    by_cases some_ : 1 ≤ k.toNat
    · have place := @blockTerms_get h n (k.toNat / 256) (by omega) (by omega)
      have back : 256 * (k.toNat / 256) = k.toNat := by omega
      rw [if_pos (by omega), if_pos some_, List.getD_eq_getElem?_getD, place, back]
      rfl
    · rw [if_neg (by omega), if_neg some_]

theorem getLedgerHash_eq [LedgerHashes] (skips : l.Skips h n) (some_ : 1 ≤ n) (room : n < 2 ^ 32)
    (hash : h n = l.getHash) (k : UInt32) :
    l.getLedgerHash k =
      if 1 ≤ k.toNat ∧ k.toNat ≤ n ∧ (n - k.toNat ≤ 256 ∨ k.toNat % 256 = 0) then h k.toNat
      else if n = 1 ∧ k = 0 then l.mParentHash else 0 := by
  have seq := skips.seq
  have zero : k = 0 ↔ k.toNat = 0 := UInt32.toNat_inj.symm
  rw [getLedgerHash]
  by_cases future : k > l.mLedgerSeq
  · rw [if_pos future]
    rw [gt_iff_lt, UInt32.lt_iff_toNat_lt] at future
    rw [if_neg (by omega), if_neg (by rw [zero]; omega)]
  rw [if_neg future]
  rw [gt_iff_lt, UInt32.lt_iff_toNat_lt] at future
  by_cases own : k = l.mLedgerSeq
  · have same : k.toNat = n := by rw [own, seq]
    rw [if_pos own, same, if_pos (by omega), hash]
  rw [if_neg own]
  rw [← UInt32.toNat_inj] at own
  have previous : k = l.mLedgerSeq - 1 ↔ k.toNat = n - 1 := by
    rw [← UInt32.toNat_inj, toNat_sub_of_toNat (y := 1) seq some_]
    rfl
  by_cases parent : k = l.mLedgerSeq - 1
  · rw [if_pos parent]
    rw [previous] at parent
    by_cases first : n = 1
    · rw [if_neg (by omega), if_pos (by rw [zero]; omega)]
    · rw [if_pos (by omega), parent, skips.parent (by omega)]
  rw [if_neg parent]
  rw [previous] at parent
  have difference := toNat_sub_of_toNat seq (y := k) (by omega)
  have diff : (l.mLedgerSeq - k).toInt32.toInt = _ := BitVec.toInt_eq_toNat_cond _
  change _ = if 2 * (l.mLedgerSeq - k).toNat < 2 ^ 32 then ((l.mLedgerSeq - k).toNat : Int)
    else (l.mLedgerSeq - k).toNat - (2 ^ 32 : Nat) at diff
  dsimp only
  rw [skips.lists.recent_get (k := k.toNat) (by omega) (by split_ifs at diff <;> omega)]
  by_cases near : 1 ≤ k.toNat ∧ n - k.toNat ≤ 256
  · rw [if_pos near]
    dsimp only
    rw [if_pos (by omega)]
  rw [if_neg near]
  dsimp only
  by_cases multiple : k.toNat % 256 = 0
  · rw [if_neg (not_not.2 ((toNat_and_255 k).2 multiple)),
      skips.lists.block_get (by omega) multiple]
    by_cases some' : 1 ≤ k.toNat
    · rw [if_pos some', if_pos (by omega)]
    · rw [if_neg some', if_neg (by omega), if_neg (by omega)]
  · rw [if_pos fun zero' => multiple ((toNat_and_255 k).1 zero'), if_neg (by omega),
      if_neg (by omega)]

/-- Along a chain from a first ledger, a ledger finds the hashes of the last 256 ledgers and of
every 256th ledger, and no other hash, except that the first one gives its recorded parent's hash
for number zero. No list has more than 256 hashes. -/
theorem getLedgerHash_chain [LedgerHashes] {chain : Nat → LedgerRecord} (first : (chain 1).First)
    (follows : ∀ i, 1 ≤ i → i < n → Follows (chain i) (chain (i + 1))) (some_ : 1 ≤ n)
    (room : n < 2 ^ 31) :
    (∀ k : UInt32, 1 ≤ k.toNat → k.toNat ≤ n → n - k.toNat ≤ 256 ∨ k.toNat % 256 = 0 →
        (chain n).getLedgerHash k = (chain k.toNat).getHash) ∧
      (∀ k : UInt32, ¬(1 ≤ k.toNat ∧ k.toNat ≤ n ∧ (n - k.toNat ≤ 256 ∨ k.toNat % 256 = 0)) →
        (chain n).getLedgerHash k = if n = 1 ∧ k = 0 then (chain 1).mParentHash else 0) ∧
      ((chain n).hashesAt .skipList).length ≤ 256 ∧
      ∀ g : UInt32, ((chain n).hashesAt (.skipListOf g)).length ≤ 256 := by
  have skips := skips_of_chain first follows (room.trans (by decide)) some_ le_rfl
  have lookup := getLedgerHash_eq skips some_ (by omega) rfl
  refine ⟨fun k positive inside there => ?_, fun k other => ?_, ?_, fun g => ?_⟩
  · rw [lookup, if_pos ⟨positive, inside, there⟩]
  · rw [lookup, if_neg other]
    by_cases start : n = 1 ∧ k = 0
    · rw [if_pos start, if_pos start, start.1]
    · rw [if_neg start, if_neg start]
  · rw [skips.lists.recent, length_recentTerms]
    omega
  · rw [skips.lists.block, length_blockTerms]
    omega

section
omit [Sha512Half]

/-- A ledger with number one and nothing in it. -/
def firstLedger (parentHash : LedgerHash) : @LedgerRecord Key.coded :=
  let _ := Key.coded
  { mAccountStateMap := ∅
    mTransactionMap := ∅
    mLedgerSeq := 1
    mBaseFee := 10
    mReferenceFeeUnits := 10
    mReserveBase := 20
    mReserveIncrement := 5
    mParentHash := parentHash
    mTotCoins := 0
    mCloseTime := 0
    mParentCloseTime := 0
    mCloseResolution := 30
    mCloseFlags := 0 }

theorem first_firstLedger (parentHash : LedgerHash) :
    @First Key.coded (firstLedger parentHash) := by
  let _ := Key.coded
  refine ⟨rfl, fun k _ => ?_⟩
  simp [firstLedger, Ledger.getSLE]

/-- The first ledger gives its parent's hash for number zero. -/
theorem getLedgerHash_first_parent : ∃ (_ : Sha512Half) (_ : LedgerHashes) (l : LedgerRecord),
    l.First ∧ l.getLedgerHash 0 ≠ 0 := by
  let _ := Key.coded
  let hashes : LedgerHashes := ⟨fun _ => 0, fun _ => 0, fun raw => raw.mLedgerSeq.toNat⟩
  exact ⟨Key.coded, hashes, firstLedger 7, first_firstLedger 7, by decide +kernel⟩

theorem exists_next {_ : Sha512Half} {_ : LedgerHashes} {l : LedgerRecord}
    (resolution : l.mCloseResolution = 30) (config : FeeConfig) :
    ∃ opened, l.next config 0 = some opened := by
  have found : ∃ r, ContinuousLedgerTiming.getNextLedgerTimeResolution 30 l.getCloseAgree
      (l.mLedgerSeq + 1) = some r := by
    unfold ContinuousLedgerTiming.getNextLedgerTimeResolution
    split_ifs
    all_goals exact ⟨_, rfl⟩
  obtain ⟨r, found⟩ := found
  unfold next
  rw [resolution]
  dsimp only
  rw [found]
  exact ⟨_, rfl⟩

/-- A chain without end, in which the hash of a ledger is its number. -/
theorem exists_chain : ∃ (_ : Sha512Half) (_ : LedgerHashes) (chain : Nat → LedgerRecord),
    (chain 1).First ∧ (∀ i, 1 ≤ i → Follows (chain i) (chain (i + 1))) ∧
      ∀ l : LedgerRecord, l.getHash = l.mLedgerSeq.toNat := by
  let _ := Key.coded
  let hashes : LedgerHashes := ⟨fun _ => 0, fun _ => 0, fun raw => raw.mLedgerSeq.toNat⟩
  have grows (l : {l : LedgerRecord // l.mCloseResolution = 30}) :
      ∃ l' : {l : LedgerRecord // l.mCloseResolution = 30}, Follows l.1 l'.1 := by
    obtain ⟨opened, ran⟩ := exists_next l.2 ⟨⟨1, 2, 3, 10⟩, 10, 20, 5⟩
    exact ⟨⟨opened.updateSkipList.setAccepted 0 30 true, rfl⟩, _, 0, opened, opened,
      opened.updateSkipList, 0, 30, true, ran, ⟨rfl, rfl, fun _ _ => rfl⟩, ⟨rfl, rfl, fun _ _ => rfl⟩,
      rfl⟩
  choose step follows using grows
  refine ⟨_, hashes, fun i => (step^[i - 1] ⟨firstLedger 0, rfl⟩).1, first_firstLedger 0,
    fun i some_ => ?_, fun _ => rfl⟩
  obtain ⟨i, rfl⟩ := Nat.exists_eq_add_of_le' some_
  change Follows _ (step^[i + 1] ⟨firstLedger 0, rfl⟩).1
  rw [Function.iterate_succ_apply']
  exact follows _

theorem getLedgerHash_chain_thousand : ∃ (_ : Sha512Half) (_ : LedgerHashes)
    (chain : Nat → LedgerRecord), (∀ i, 1 ≤ i → Follows (chain i) (chain (i + 1))) ∧
      (chain 1000).getLedgerHash 900 = (chain 900).getHash ∧
      (chain 1000).getLedgerHash 512 = (chain 512).getHash ∧
      (chain 1000).getLedgerHash 500 = 0 := by
  obtain ⟨_, _, chain, first, follows, -⟩ := exists_chain
  obtain ⟨found, other, -⟩ := getLedgerHash_chain first (fun i some_ _ => follows i some_)
    (by decide : 1 ≤ 1000) (by decide)
  exact ⟨_, _, chain, follows, found 900 (by decide) (by decide) (.inl (by decide)),
    found 512 (by decide) (by decide) (.inr (by decide)), other 500 (by decide)⟩

end

end LedgerRecord
end Skywell
