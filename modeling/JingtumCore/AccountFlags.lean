import JingtumCore.Applied

/-!
# Keys and freezes of accounts

An account whose master key is disabled keeps a regular key, and one that has given up
freezing neither takes that back nor ends a global freeze, whatever settings are changed by
transactions of their own or in batches. Most of a transaction leaves the flags and the
regular key of every account alone; what `SetAccount` and `SetRegularKey` write to them is
looked at by itself.
-/
namespace Skywell
open U32Field AmountField AccountField H256Field LedgerEntrySet StateExcept ExceptFold Caps Relation

/-- Whether a flag is one bit. -/
def IsBit (flag : UInt32) (i : Nat) : Prop := flag.toBitVec = BitVec.twoPow 32 i ∧ i < 32

variable {base x y z : Option SLE} {α : Type}

theorem isBit_disableMaster : IsBit lsfDisableMaster 20 := ⟨rfl, by decide⟩

theorem isBit_noFreeze : IsBit lsfNoFreeze 21 := ⟨rfl, by decide⟩

theorem isBit_globalFreeze : IsBit lsfGlobalFreeze 22 := ⟨rfl, by decide⟩

section Bits

variable {flag a b flagsIn : UInt32} {i : Nat}

def bit (flags : UInt32) (i : Nat) : Bool := flags.toBitVec.getLsbD i

theorem and_flag (h : IsBit flag i) : a &&& flag = if bit a i then flag else 0 := by
  rw [← UInt32.toBitVec_inj]
  have two : a.toBitVec &&& BitVec.twoPow 32 i = if bit a i then BitVec.twoPow 32 i else 0 :=
    BitVec.and_twoPow ..
  rw [UInt32.toBitVec_and, h.1, two]
  split
  · exact h.1.symm
  · rfl

theorem flag_ne_zero (h : IsBit flag i) : flag ≠ 0 := by
  rintro rfl
  have zero : BitVec.getLsbD (BitVec.twoPow 32 i) i = false := by
    rw [← h.1]
    exact BitVec.getLsbD_zero
  simp [h.2] at zero

theorem hasFlag_eq (h : IsBit flag i) : hasFlag a flag = bit a i := by
  unfold hasFlag
  rw [and_flag h]
  cases bit a i with
  | true => simpa using flag_ne_zero h
  | false => rfl

theorem isFlag_eq (h : IsBit flag i) (s : SLE) : s.isFlag flag = bit s.getFlags i := by
  unfold SLE.isFlag
  rw [and_flag h]
  cases bit s.getFlags i with
  | true => simp
  | false => simpa using (flag_ne_zero h).symm

theorem bit_or : bit (a ||| b) i = (bit a i || bit b i) := BitVec.getLsbD_or ..

theorem bit_and_not (other : bit b i = false) (h : i < 32) : bit (a &&& ~~~b) i = bit a i := by
  unfold bit at *
  rw [UInt32.toBitVec_and, UInt32.toBitVec_not, BitVec.getLsbD_and, BitVec.getLsbD_not, other]
  simp [h]

theorem bit_set_other {p : Prop} [Decidable p] (other : bit b i = false) :
    bit (if p then a ||| b else a) i = bit a i := by
  split
  · rw [bit_or, other, Bool.or_false]
  · rfl

theorem bit_set_of_bit {p : Prop} [Decidable p] (on : bit a i = true) :
    bit (if p then a ||| b else a) i = true := by
  split
  · rw [bit_or, on, Bool.true_or]
  · exact on

theorem bit_toggle (other : bit b i = false) (h : i < 32) (set clear : Bool) :
    bit (SetAccount.toggle set clear b flagsIn a) i = bit a i := by
  unfold SetAccount.toggle
  dsimp only
  split_ifs
  · rw [bit_and_not other h, bit_or, other, Bool.or_false]
  · rw [bit_and_not other h]
  · rw [bit_or, other, Bool.or_false]
  · rfl

theorem bit_toggle_self {set clear : Bool} (h : IsBit b i)
    (on : bit (SetAccount.toggle set clear b flagsIn a) i = true) :
    set = true ∧ bit flagsIn i = false ∨ bit a i = true := by
  have cleared (x : UInt32) : bit (x &&& ~~~b) i = false := by
    unfold bit
    rw [UInt32.toBitVec_and, UInt32.toBitVec_not, BitVec.getLsbD_and, BitVec.getLsbD_not, h.1]
    simp
  unfold SetAccount.toggle at on
  rw [hasFlag_eq h] at on
  dsimp only at on
  split_ifs at on with taken asked asked
  · rw [cleared] at on
    cases on
  · rw [cleared] at on
    cases on
  · left
    simpa using asked
  · exact .inr on

end Bits

namespace SetAccount

variable {sigMaster hasKey dirEmpty retry : Bool} {uTxFlags uFlagsIn uSetFlag uClearFlag out : UInt32}

/-- The flags of `newFlags` where it does not fail. -/
def flagsOut (uTxFlags uFlagsIn uSetFlag uClearFlag : UInt32) : UInt32 :=
  let asked (tf asf flag : UInt32) : Bool := hasFlag uTxFlags tf || flag == asf
  let out := toggle (asked tfRequireAuth asfRequireAuth uSetFlag)
    (asked tfOptionalAuth asfRequireAuth uClearFlag) lsfRequireAuth uFlagsIn uFlagsIn
  let out := toggle (asked requireDestTag asfRequireDest uSetFlag)
    (asked tfOptionalDestTag asfRequireDest uClearFlag) lsfRequireDestTag uFlagsIn out
  let out := toggle (asked tfDisallowSWT asfDisallowSWT uSetFlag)
    (asked tfAllowSWT asfDisallowSWT uClearFlag) lsfDisallowSWT uFlagsIn out
  let out := toggle (uSetFlag == asfDisableMaster) (uClearFlag == asfDisableMaster)
    lsfDisableMaster uFlagsIn out
  let out := if uSetFlag = asfDefaultSkywell then out ||| lsfDefaultSkywell
    else if uClearFlag = asfDefaultSkywell then out &&& ~~~lsfDefaultSkywell
    else out
  let out := if uSetFlag = asfNoFreeze then out ||| lsfNoFreeze else out
  let out := if uSetFlag = asfGlobalFreeze then out ||| lsfGlobalFreeze else out
  if uSetFlag ≠ asfGlobalFreeze && uClearFlag = asfGlobalFreeze &&
      out &&& lsfNoFreeze = 0 then out &&& ~~~lsfGlobalFreeze
    else out

/-- The master key is disabled only with a regular key. -/
theorem newFlags_returns :
    ExceptFold.Returns (fun out => out = flagsOut uTxFlags uFlagsIn uSetFlag uClearFlag ∧
      (uSetFlag = asfDisableMaster → bit uFlagsIn 20 = false → hasKey = true))
      (newFlags sigMaster hasKey dirEmpty retry uTxFlags uFlagsIn uSetFlag uClearFlag) := by
  have spared (h : ¬ (uSetFlag = asfDisableMaster && !hasFlag uFlagsIn lsfDisableMaster) = true) :
      uSetFlag = asfDisableMaster → bit uFlagsIn 20 = false → hasKey = true := by
    intro set unset
    rw [hasFlag_eq isBit_disableMaster] at h
    exact absurd (by simp [set, unset]) h
  refine returns_if (fun _ => returns_guard fun _ => ?_) fun _ => ?_
  all_goals
    refine returns_if (fun _ => returns_guard fun _ => returns_guard fun key => ?_) fun h => ?_
    · exact returns_guard fun _ => returns_pure ⟨rfl, fun _ _ => by simpa using key⟩
    · exact returns_guard fun _ => returns_pure ⟨rfl, spared h⟩

theorem flagsOut_bits (uTxFlags uFlagsIn uSetFlag uClearFlag : UInt32) :
    let out := flagsOut uTxFlags uFlagsIn uSetFlag uClearFlag
    (bit out 20 = true → bit uFlagsIn 20 = true ∨
      uSetFlag = asfDisableMaster ∧ bit uFlagsIn 20 = false) ∧
    (bit uFlagsIn 21 = true → bit out 21 = true) ∧
    (bit uFlagsIn 21 = true → bit uFlagsIn 22 = true → bit out 22 = true) := by
  unfold flagsOut
  dsimp only
  generalize hauth : toggle _ _ lsfRequireAuth uFlagsIn uFlagsIn = auth
  generalize hdest : toggle _ _ lsfRequireDestTag uFlagsIn auth = dest
  generalize hswt : toggle _ _ lsfDisallowSWT uFlagsIn dest = swt
  generalize hmaster : toggle _ _ lsfDisableMaster uFlagsIn swt = master
  have others {i : Nat} (h : i < 32) (a : bit lsfRequireAuth i = false)
      (b : bit lsfRequireDestTag i = false) (c : bit lsfDisallowSWT i = false) :
      bit swt i = bit uFlagsIn i := by
    rw [← hswt, bit_toggle c h, ← hdest, bit_toggle b h, ← hauth, bit_toggle a h]
  have first : bit master 20 = true → bit uFlagsIn 20 = true ∨
      uSetFlag = asfDisableMaster ∧ bit uFlagsIn 20 = false := by
    intro on
    rw [← hmaster] at on
    rcases bit_toggle_self isBit_disableMaster on with ⟨set, unset⟩ | kept
    · exact .inr ⟨by simpa using set, unset⟩
    · rw [others (by decide) rfl rfl rfl] at kept
      exact .inl kept
  have second : bit master 21 = bit uFlagsIn 21 := by
    rw [← hmaster, bit_toggle rfl (by decide), others (by decide) rfl rfl rfl]
  have third : bit master 22 = bit uFlagsIn 22 := by
    rw [← hmaster, bit_toggle rfl (by decide), others (by decide) rfl rfl rfl]
  generalize hskywell : (if uSetFlag = asfDefaultSkywell then master ||| lsfDefaultSkywell
    else if uClearFlag = asfDefaultSkywell then master &&& ~~~lsfDefaultSkywell
    else master) = skywell
  have kept {i : Nat} (h : i < 32) (other : bit lsfDefaultSkywell i = false) :
      bit skywell i = bit master i := by
    rw [← hskywell]
    split_ifs
    · rw [bit_or, other, Bool.or_false]
    · rw [bit_and_not other h]
    · rfl
  generalize hno : (if uSetFlag = asfNoFreeze then skywell ||| lsfNoFreeze else skywell) = no
  generalize hglobal : (if uSetFlag = asfGlobalFreeze then no ||| lsfGlobalFreeze else no) = global
  have last : bit global 20 = bit master 20 := by
    rw [← hglobal, bit_set_other rfl, ← hno, bit_set_other rfl, kept (by decide) rfl]
  have frozen (on : bit uFlagsIn 21 = true) : bit global 21 = true := by
    rw [← hglobal, bit_set_other rfl, ← hno]
    exact bit_set_of_bit ((kept (by decide) rfl).trans (second.trans on))
  have still (on : bit uFlagsIn 22 = true) : bit global 22 = true := by
    rw [← hglobal]
    refine bit_set_of_bit ?_
    rw [← hno, bit_set_other rfl, kept (by decide) rfl, third, on]
  rw [← last] at first
  split_ifs with ends
  · -- a global freeze ends only where freezing has not been given up
    have free : bit global 21 = false := by
      simp only [Bool.and_eq_true, decide_eq_true_eq] at ends
      have none := ends.2
      rw [and_flag isBit_noFreeze] at none
      by_contra on
      rw [if_pos (by simpa using on)] at none
      exact flag_ne_zero isBit_noFreeze none
    have thawed (on : bit uFlagsIn 21 = true) : False := by
      rw [frozen on] at free
      cases free
    rw [bit_and_not rfl (by decide)]
    exact ⟨first, fun on => (thawed on).elim, fun on => (thawed on).elim⟩
  · exact ⟨first, frozen, fun _ => still⟩

end SetAccount

namespace SLE

/-- The master key is enabled, or there is a regular key. -/
def HasKey (s : SLE) : Prop :=
  s.isFlag lsfDisableMaster = true → s.isFieldPresent (.account sfRegularKey) = true

/-- A key is left if there was one, and neither freezing nor a global freeze of an account that
has given up freezing comes back. -/
structure Guards (s s' : SLE) : Prop where
  hasKey : s.HasKey → s'.HasKey
  noFreeze : s.isFlag lsfNoFreeze = true → s'.isFlag lsfNoFreeze = true
  globalFreeze : s.isFlag lsfNoFreeze = true → s.isFlag lsfGlobalFreeze = true →
    s'.isFlag lsfGlobalFreeze = true

variable {s s' s'' : SLE}

theorem Guards.refl (s : SLE) : s.Guards s := ⟨id, id, fun _ => id⟩

theorem Guards.trans (h : s.Guards s') (h' : s'.Guards s'') : s.Guards s'' where
  hasKey key := h'.hasKey (h.hasKey key)
  noFreeze no := h'.noFreeze (h.noFreeze no)
  globalFreeze no global := h'.globalFreeze (h.noFreeze no) (h.globalFreeze no global)

theorem isFlag_congr (flags : s'.field (.u32 sfFlags) = s.field (.u32 sfFlags)) (f : UInt32) :
    s'.isFlag f = s.isFlag f := by
  unfold isFlag getFlags getFieldU32 get
  rw [flags]

theorem isFieldPresent_congr {f : SField} (same : s'.field f = s.field f) :
    s'.isFieldPresent f = s.isFieldPresent f := by
  unfold isFieldPresent
  rw [same]

/-- The flags and the regular key are all that counts. -/
theorem Guards.of_fields (flags : s'.field (.u32 sfFlags) = s.field (.u32 sfFlags))
    (key : s'.field (.account sfRegularKey) = s.field (.account sfRegularKey)) : s.Guards s' where
  hasKey h := by
    unfold HasKey
    rw [isFlag_congr flags, isFieldPresent_congr key]
    exact h
  noFreeze h := by rwa [isFlag_congr flags]
  globalFreeze _ h := by rwa [isFlag_congr flags]

end SLE

/-- From one state of an account root to another. -/
inductive RootGuards : Option SLE → Option SLE → Prop
  | absent : RootGuards none none
  | created {s' : SLE} : s'.HasKey → RootGuards none (some s')
  | kept {s s' : SLE} : s.Guards s' → RootGuards (some s) (some s')

theorem RootGuards.refl : (x : Option SLE) → RootGuards x x
  | none => .absent
  | some s => .kept (.refl s)

theorem RootGuards.trans (h : RootGuards x y) (h' : RootGuards y z) : RootGuards x z := by
  cases h with
  | absent => exact h'
  | created key =>
    cases h' with
    | kept guards => exact .created (guards.hasKey key)
  | kept guards =>
    cases h' with
    | kept guards' => exact .kept (guards.trans guards')

theorem RootGuards.congr_right (h : RootGuards x y) (same : Option.Rel SLE.SameButThread y z) :
    RootGuards x z := by
  refine h.trans ?_
  cases same with
  | none => exact .absent
  | some same => exact .kept (.of_fields (same _ (by decide) (by decide)) (same _ (by decide) (by decide)))

variable [Sha512Half]

/-- Every account root of a set is guarded in another. -/
def Guarded (v v' : LedgerEntrySet) : Prop :=
  ∀ a, RootGuards (v.read (getAccountRootIndex a)) (v'.read (getAccountRootIndex a))

instance : IsPreorder LedgerEntrySet Guarded where
  refl _ _ := .refl _
  trans _ _ _ h h' a := (h a).trans (h' a)

/-- What may be done to settings that are not guarded. -/
def Caps.settings : Caps where
  dirty _ := True
  fresh _ := False
  drops _ := False
  roots _ := False
  writes _ f := f ≠ .u32 sfFlags ∧ f ≠ .account sfRegularKey
  bump _ _ := False
  delivers := False

/-- What is done before `doApply`: fees are charged, a fee account may be opened. -/
def Caps.fees : Caps := { Caps.settings with
  drops := fun k => k.type ≠ .accountRoot
  roots := fun _ => True
  bump := fun _ _ => True }

variable {c : Caps} {k : Key} {v v' : LedgerEntrySet}

omit [Sha512Half] in
/-- An entry that does not show is left so, or is made anew. -/
theorem EntrySteps.hidden {x y : Option LedgerEntrySetEntry} (hd : ¬ c.drops k)
    (hx : x.elim base (·.shown) = none) (h : EntrySteps c k base x y) :
    y.elim base (·.shown) = none ∨ ∃ s', y.elim base (·.shown) = some s' ∧
      ReflTransGen (c.Write k) (SLE.new k.type) s' := by
  induction h with
  | refl => exact .inl hx
  | tail _ step ih =>
    cases step with
    | cache hb =>
      rcases ih with none | ⟨s', shown, writes⟩
      · exact absurd (hb.symm.trans none) nofun
      · exact .inr ⟨_, rfl, by rw [Option.some.inj (hb.symm.trans shown)]; exact writes⟩
    | create => exact .inr ⟨_, rfl, .refl⟩
    | @write s a s' hw =>
      by_cases deleted : a = .taaDELETE
      · left
        simp [LedgerEntrySetEntry.shown, deleted]
      · rcases ih with none | ⟨s1, shown, writes⟩
        · simp [LedgerEntrySetEntry.shown, deleted] at none
        · simp only [LedgerEntrySetEntry.shown, Option.elim, deleted, if_false,
            Option.some.injEq] at shown ⊢
          subst shown
          exact .inr ⟨_, rfl, writes.tail hw⟩
    | touch => exact ih
    | delete h | drop h => exact absurd h hd
    | recreate => exact .inr ⟨_, rfl, .refl⟩

theorem Frame.guarded (h : Frame Caps.fees v v') : Guarded v v' := by
  intro a
  have drops : ¬ Caps.fees.drops (getAccountRootIndex a) := fun other => other rfl
  have flags : ¬ Caps.fees.writes (getAccountRootIndex a) (.u32 sfFlags) := fun other => other.1 rfl
  have key : ¬ Caps.fees.writes (getAccountRootIndex a) (.account sfRegularKey) :=
    fun other => other.2 rfl
  have kept {s s' : SLE} (writes : ReflTransGen (Caps.fees.Write (getAccountRootIndex a)) s s') :
      s.Guards s' :=
    .of_fields (Write.field_eq rfl (by decide) flags writes) (Write.field_eq rfl (by decide) key writes)
  cases before : v.read (getAccountRootIndex a) with
  | some s =>
    obtain ⟨s', after, writes⟩ := h.read drops id nofun before
    rw [after]
    exact .kept (kept writes)
  | none =>
    rw [read_eq_elim] at before
    rw [read_eq_elim, h.ledger]
    rcases EntrySteps.hidden drops before (h.entries (getAccountRootIndex a)) with
      none | ⟨s', after, writes⟩
    · rw [none]
      exact .absent
    · rw [after]
      have new : (SLE.new .accountRoot).HasKey := by
        intro disabled
        exact absurd disabled (by decide)
      exact .created ((kept writes).hasKey new)

omit [Sha512Half] in
theorem Caps.settings_le : Caps.settings.LeAt Caps.fees k :=
  ⟨id, id, False.elim, False.elim, fun _ => id, fun _ => False.elim, id⟩

variable {e : LedgerEntrySetEntry}

omit [Sha512Half] in
/-- An entry of an account root that is there stays with its flags and its key. -/
theorem EntrySteps.settings {y : Option LedgerEntrySetEntry} (hk : k.type = .accountRoot)
    (h : EntrySteps Caps.settings k base (some e) y) : ∃ e', y = some e' ∧
      e'.mEntry.field (.u32 sfFlags) = e.mEntry.field (.u32 sfFlags) ∧
      e'.mEntry.field (.account sfRegularKey) = e.mEntry.field (.account sfRegularKey) := by
  induction h with
  | refl => exact ⟨e, rfl, rfl, rfl⟩
  | tail _ step ih =>
    obtain ⟨e', same, flags, key⟩ := ih
    cases step with
    | cache | create => cases same
    | write hw =>
      cases same
      exact ⟨_, rfl, (hw.others hk _ (by decide) fun other => other.1 rfl).trans flags,
        (hw.others hk _ (by decide) fun other => other.2 rfl).trans key⟩
    | touch =>
      cases same
      exact ⟨_, rfl, flags, key⟩
    | delete h | drop h => exact h.elim
    | recreate h => exact (h hk).elim

theorem guarded_setEntry {s' : SLE} (he : v.mEntries[k]? = some e)
    (guards : e.mEntry.Guards s') : Guarded v (v.setEntry k { e with mEntry := s' }) := by
  intro a
  rw [read_setEntry]
  by_cases same : k = getAccountRootIndex a
  · rw [if_pos same, ← same, read_eq_of_getElem? he]
    unfold LedgerEntrySetEntry.shown
    by_cases deleted : e.mAction = .taaDELETE
    · rw [if_pos deleted, if_pos deleted]
      exact .absent
    · rw [if_neg deleted, if_neg deleted]
      exact .kept guards
  · rw [if_neg same]
    exact .refl _

theorem assign_guarded {g : SLE → SLE} (guards : ∀ s : SLE, s.Guards (g s)) :
    Keeps Guarded (assign k g) :=
  fun _ => spec_assign.2 fun _ he => guarded_setEntry he (guards _)

omit [Sha512Half] in
/-- Flags in the place of others. -/
theorem guards_setFlags {s : SLE} {flags : UInt32}
    (master : bit flags 20 = true → bit s.getFlags 20 = true ∨
      s.isFieldPresent (.account sfRegularKey) = true)
    (noFreeze : bit s.getFlags 21 = true → bit flags 21 = true)
    (globalFreeze : bit s.getFlags 21 = true → bit s.getFlags 22 = true → bit flags 22 = true) :
    s.Guards (s.setFieldU32 sfFlags flags) := by
  have set : (s.setFieldU32 sfFlags flags).getFlags = flags := by
    simp [SLE.getFlags, SLE.getFieldU32, SLE.get, SLE.setFieldU32]
  have key : (s.setFieldU32 sfFlags flags).isFieldPresent (.account sfRegularKey) =
      s.isFieldPresent (.account sfRegularKey) :=
    SLE.isFieldPresent_congr (SLE.field_set_of_ne _ (by decide) _)
  refine ⟨fun has disabled => ?_, fun no => ?_, fun no global => ?_⟩
  · rw [isFlag_eq isBit_disableMaster] at disabled
    rcases master disabled with before | present
    · exact has (by rw [isFlag_eq isBit_disableMaster, before])
    · exact present
  · rw [isFlag_eq isBit_noFreeze] at no ⊢
    exact noFreeze no
  · rw [isFlag_eq isBit_noFreeze] at no
    rw [isFlag_eq isBit_globalFreeze] at global ⊢
    exact globalFreeze no global

variable {t : Transactor}

/-- A regular key is taken away only while the master key is enabled. -/
theorem SetRegularKey.doApply_guarded (key : Option Account) : Keeps Guarded (doApply key t) := by
  refine keeps_pointer fun root _ => keeps_when (assign_guarded fun s => ?_) fun _ => ?_
  · have kept {i : Nat} (on : bit s.getFlags i = true) :
        bit (s.getFlags ||| lsfPasswordSpent) i = true := by rw [bit_or, on, Bool.true_or]
    refine guards_setFlags (fun on => .inl ?_) kept fun _ => kept
    rwa [bit_or, show bit lsfPasswordSpent 20 = false from rfl, Bool.or_false] at on
  split
  · rename_i account
    refine .bind (assign_guarded fun s => ?_) fun _ => keeps_pure _
    have flags : (s.setFieldAccount sfRegularKey account).field (.u32 sfFlags) =
        s.field (.u32 sfFlags) := SLE.field_set_of_ne _ (by decide) _
    refine ⟨fun _ _ => ?_, fun no => ?_, fun _ global => ?_⟩
    · simp [SLE.isFieldPresent, SLE.setFieldAccount]
    · rwa [SLE.isFlag_congr flags]
    · rwa [SLE.isFlag_congr flags]
  · intro v
    refine spec_bind.2 (spec_deref.2 fun e he => spec_ite.2 ⟨fun _ => spec_pure.2 (refl v), ?_⟩)
    intro enabled
    refine spec_bind.2 (spec_assign.2 fun e' he' => spec_pure.2 ?_)
    cases he.symm.trans he'
    have flags : (e.mEntry.makeFieldAbsent (.account sfRegularKey)).field (.u32 sfFlags) =
        e.mEntry.field (.u32 sfFlags) := SLE.field_makeFieldAbsent_of_ne _ (by decide)
    refine guarded_setEntry he ⟨fun _ disabled => ?_, fun no => ?_, fun _ global => ?_⟩
    · exact absurd disabled enabled
    · rwa [SLE.isFlag_congr flags]
    · rwa [SLE.isFlag_congr flags]

/-- What is left of a setting once other fields have been written: it guards the accounts as
they were before. -/
def Past (v : LedgerEntrySet) (m : LES TER) : Prop :=
  ∀ v1, Frame Caps.settings v v1 → Spec m v1 fun _ v' => Guarded v v'

theorem past_pure {ter : TER} : Past v (pure ter) :=
  fun _ h => spec_pure.2 (Frame.guarded (h.mono fun _ => Caps.settings_le))

theorem Past.bind {m : LES α} {f : α → LES TER} (hm : Keeps (Frame Caps.settings) m)
    (hf : ∀ a, Past v (f a)) : Past v (m >>= f) :=
  fun v1 h => spec_bind.2 <| (hm v1).mono fun a v2 h' => hf a v2 (IsTrans.trans _ _ _ h h')

variable {p : Prop} [Decidable p]

theorem Past.ite {m n : LES TER} (hm : Past v m) (hn : Past v n) :
    Past v (if p then m else n) := by
  split
  · exact hm
  · exact hn

theorem Past.when {m : LES Unit} {f : Unit → LES TER}
    (hm : Keeps (Frame Caps.settings) m) (hf : ∀ a, Past v (f a)) :
    Past v (if p then m >>= f else f ()) :=
  .ite (.bind hm hf) (hf ())

theorem Past.either {m n : LES α} {f : α → LES TER} (hm : Keeps (Frame Caps.settings) m)
    (hn : Keeps (Frame Caps.settings) n) (hf : ∀ a, Past v (f a)) :
    Past v (if p then m >>= f else n >>= f) :=
  .ite (.bind hm hf) (.bind hn hf)

/-- The flags are written last, from what the account root was at first. -/
theorem past_flags {root : Key} {out : UInt32}
    (hroot : root.type = .accountRoot) (he : v.mEntries[root]? = some e)
    (guards : ∀ s : SLE, s.field (.u32 sfFlags) = e.mEntry.field (.u32 sfFlags) →
      s.field (.account sfRegularKey) = e.mEntry.field (.account sfRegularKey) →
        s.Guards (s.setFieldU32 sfFlags out)) :
    Past v (do
      if p then assign root fun sle => sle.setFieldU32 sfFlags out
      return .tesSUCCESS) := by
  refine .ite (fun v1 h => ?_) past_pure
  have steps := h.entries root
  rw [he] at steps
  obtain ⟨e1, he1, flags, key⟩ := EntrySteps.settings hroot steps
  refine spec_bind.2 (spec_assign.2 fun e' he' => spec_pure.2 ?_)
  cases he1.symm.trans he'
  exact IsTrans.trans _ _ _ (Frame.guarded (h.mono fun _ => Caps.settings_le))
    (guarded_setEntry he1 (guards _ flags key))

theorem SetAccount.doApply_guarded (ht : ∀ k, t.Held k → k.type = .accountRoot)
    (emailHash walletLocator : Option Nat) (messageKey domain : Option Blob) (rate : Option UInt32)
    (setFlag clearFlag : UInt32) : Keeps Guarded
      (doApply emailHash walletLocator messageKey domain rate setFlag clearFlag t) := by
  refine keeps_pointer fun root hroot => fun v => spec_bind.2 (spec_deref.2 fun e he => ?_)
  have settable {f : SField} (h : f ∉ [SField.h256 sfPreviousTxnID, .u32 sfPreviousTxnLgrSeq,
      .u32 sfSequence, .u32 sfFlags, .account sfRegularKey]) :
      Settable Caps.settings.writes root f := by
    simp only [List.mem_cons, List.not_mem_nil, or_false, not_or] at h
    exact ⟨h.1, h.2.1, fun _ => h.2.2⟩
  have set {g : SLE → SLE} (hg : Sets Caps.settings.writes root g) :
      Keeps (Frame Caps.settings) (assign root g) := assign_frame hg trivial
  refine (?_ : Past v _) v (refl v)
  refine .either dirIsEmpty_frame (keeps_pure _) fun empty => ?_
  dsimp only
  split
  · exact past_pure
  rename_i out made
  obtain ⟨written, disables⟩ := newFlags_returns out made
  obtain ⟨master, noFreeze, globalFreeze⟩ :=
    flagsOut_bits t.mTxn.getFlags e.mEntry.getFlags setFlag clearFlag
  have guards : ∀ s : SLE, s.field (.u32 sfFlags) = e.mEntry.field (.u32 sfFlags) →
      s.field (.account sfRegularKey) = e.mEntry.field (.account sfRegularKey) →
        s.Guards (s.setFieldU32 sfFlags out) := by
    intro s same key
    have flags : s.getFlags = e.mEntry.getFlags := by
      unfold SLE.getFlags SLE.getFieldU32 SLE.get
      rw [same]
    rw [written]
    refine guards_setFlags (fun on => ?_) (by rw [flags]; exact noFreeze)
      (by rw [flags]; exact globalFreeze)
    rw [flags, SLE.isFieldPresent_congr key]
    exact (master on).imp_right fun ⟨asked, unset⟩ => disables asked unset
  have flags : Past v (do
      if e.mEntry.getFieldU32 sfFlags ≠ out then assign root fun sle => sle.setFieldU32 sfFlags out
      return TER.tesSUCCESS) := past_flags (ht root hroot) he guards
  refine .when (set ?_) fun _ => .when (set ?_) fun _ => ?_
  · exact sets_makeFieldPresent (settable (by decide))
  · exact sets_makeFieldAbsent (settable (by decide))
  refine .bind (set (sets_setOrUnset (settable (by decide)))) fun _ => ?_
  refine .bind (set (sets_setOrUnset (settable (by decide)))) fun _ => .ite past_pure ?_
  refine .bind (set (sets_setOrUnset (settable (by decide)))) fun _ => .ite past_pure ?_
  refine .bind (set (sets_setOrUnset (settable (by decide)))) fun _ => ?_
  split
  · refine .ite (.bind (set ?_) fun _ => flags) (.when (set ?_) fun _ => flags)
    · exact sets_makeFieldAbsent (settable (by decide))
    · exact sets_set (settable (by decide)) _
  · exact flags

/-- `SetAccount` and `SetRegularKey`. -/
def isSetting : TxFields → Bool
  | .accountSet .. | .regularKeySet .. => true
  | _ => false

/-- A transaction that changes settings, or a batch of such. -/
inductive SettingsOnly : STTx → Prop
  | single {common : TxCommon} {fields : TxFields} {operations : List STTx} :
      isSetting fields = true → SettingsOnly (.mk common fields operations)
  | batch {common : TxCommon} {legal : Bool} {signs : Option (List Blob)} {operations : List STTx} :
      (∀ op ∈ operations, SettingsOnly op) →
        SettingsOnly (.mk common (.operation legal signs) operations)

section
omit [Sha512Half]

theorem paying_fees : Paying Caps.fees where
  drops _ other := other
  ownerCount _ := ⟨by decide, by decide⟩
  balance _ := ⟨by decide, by decide⟩

theorem charging_fees {source : Account} {sequence : UInt32} :
    Charging Caps.fees source sequence where
  roots _ := trivial
  balance _ := ⟨by decide, by decide⟩
  account _ := ⟨by decide, by decide⟩
  accountTxnID _ := ⟨by decide, by decide⟩
  bump := trivial

end

theorem keeps_guarded {m : LES α} (h : Keeps (Frame Caps.fees) m) : Keeps Guarded m :=
  fun v => (h v).mono fun _ _ => Frame.guarded

mutual

theorem transact_guarded (env : Env) : (txn : STTx) → (params : TransactionEngineParams) →
    SettingsOnly txn → Keeps Guarded (transact env txn params)
  | .mk common fields operations, params, only => by
    refine keeps_ite (keeps_pure _) fun v => spec_bind.2 fun r v1 hr => ?_
    obtain ⟨loose, ready, -⟩ := prepare_spec (known_transactorOf ..)
      (fun _ => charging_fees) (preCheck_frame_transactorOf rfl paying_fees)
      (preCheck_sources_transactorOf rfl) r v1 hr
    have before : Guarded v v1 := Frame.guarded loose
    cases r with
    | error ter => exact spec_pure.2 before
    | ok t' =>
      obtain ⟨-, ready⟩ := ready t' rfl
      refine Spec.mono ?_ fun _ _ after => IsTrans.trans _ _ _ before after
      cases only with
      | single setting =>
        cases fields with
        | accountSet =>
          refine SetAccount.doApply_guarded (fun k held => ?_) _ _ _ _ _ _ _ v1
          rw [(ready.txnAccount k held).1]
          rfl
        | regularKeySet => exact SetRegularKey.doApply_guarded _ v1
        | _ => cases setting
      | batch all => exact keeps_ite (keeps_pure _) (applyAll_guarded env operations _ _ all) v1

theorem applyAll_guarded (env : Env) : (ops : List STTx) → (signers : List Account) →
    (params : TransactionEngineParams) → (∀ op ∈ ops, SettingsOnly op) →
    Keeps Guarded (Operations.applyAll env ops signers params)
  | [], signers, params, _ => by
    exact keeps_pure _
  | sttx :: rest, signers, params, all => by
    refine .bind (keeps_guarded precheckSig_frame) fun ⟨ter, params'⟩ => ?_
    refine keeps_ite (keeps_pure _) (.bind ?_ fun _ => keeps_ite (keeps_pure _) ?_)
    · exact transact_guarded env sttx _ (all sttx List.mem_cons_self)
    · exact applyAll_guarded env rest _ _ fun op mem => all op (List.mem_cons_of_mem _ mem)

end

namespace TransactionEngine
variable {env : Env} {engine engine' : TransactionEngine} {txn : STTx}
  {params : TransactionEngineParams} {ter : TER} {l l' : Ledger} {v1 v2 : LedgerEntrySet}
  {metaData : TransactionMetaSet}

theorem Committed.guarded (h : Committed env engine txn params ter l v1 v2 metaData)
    (only : SettingsOnly txn) (a : Account) :
    RootGuards (engine.mLedger.getSLE (getAccountRootIndex a)) (l.getSLE (getAccountRootIndex a)) := by
  refine RootGuards.congr_right ?_ (h.shows (getAccountRootIndex a))
  obtain ⟨ran, -⟩ | ⟨_, v0, s, s', -, -, before, claimed, ledger, rfl⟩ :=
    h.run_cases (fun _ _ => True) fun _ => trivial
  · have guarded := transact_guarded env txn params only _ _ _ ran a
    simpa [LedgerEntrySet.read, start, LedgerEntrySet.init] using guarded
  · rw [read_setEntry]
    by_cases same : getAccountRootIndex txn.getSourceAccount = getAccountRootIndex a
    · rw [if_pos same, ← same, before]
      obtain ⟨paid, left, -, -, rfl⟩ := claimed.root
      refine .kept (.of_fields ?_ ?_)
      · rw [SLE.setFieldU32, SLE.field_set_of_ne _ (by decide), SLE.setFieldAmount,
          SLE.field_set_of_ne _ (by decide)]
      · rw [SLE.setFieldU32, SLE.field_set_of_ne _ (by decide), SLE.setFieldAmount,
          SLE.field_set_of_ne _ (by decide)]
    · rw [if_neg same, read_clear, ledger]
      exact .refl _

/-- Ledgers that are reached by settings, applied or not. -/
inductive SettingsRun : Ledger → Ledger → Prop
  | refl (l : Ledger) : SettingsRun l l
  | step {l : Ledger} {env : Env} {engine engine' : TransactionEngine} {txn : STTx}
      {params : TransactionEngineParams} {result : TER × Bool} :
      SettingsRun l engine.mLedger → SettingsOnly txn →
      applyTransaction env engine txn params = .ok (result, engine') →
        SettingsRun l engine'.mLedger

theorem SettingsRun.guarded (run : SettingsRun l l') (a : Account) :
    RootGuards (l.getSLE (getAccountRootIndex a)) (l'.getSLE (getAccountRootIndex a)) := by
  induction run with
  | refl => exact .refl _
  | step _ only call ih =>
    refine ih.trans ?_
    rcases (applyTransaction_cases call).2 with ⟨-, same⟩ | ⟨-, v1, v2, metaData, committed⟩
    · rw [same]
      exact .refl _
    · exact committed.guarded only a

/-- No sequence of settings locks an account out, takes back that it has given up freezing, or
then ends a global freeze. -/
theorem no_lock_out (run : SettingsRun l l') :
    ((∀ a s, l.getSLE (getAccountRootIndex a) = some s → s.HasKey) →
      ∀ a s', l'.getSLE (getAccountRootIndex a) = some s' → s'.HasKey) ∧
    (∀ a s, l.getSLE (getAccountRootIndex a) = some s → s.isFlag lsfNoFreeze = true →
      ∃ s', l'.getSLE (getAccountRootIndex a) = some s' ∧ s'.isFlag lsfNoFreeze = true ∧
        (s.isFlag lsfGlobalFreeze = true → s'.isFlag lsfGlobalFreeze = true)) := by
  constructor
  · intro keys a s' after
    have guarded := run.guarded a
    rw [after] at guarded
    generalize before : l.getSLE (getAccountRootIndex a) = x at guarded
    cases guarded with
    | created key => exact key
    | kept guards => exact guards.hasKey (keys a _ before)
  · intro a s before no
    have guarded := run.guarded a
    rw [before] at guarded
    generalize l'.getSLE (getAccountRootIndex a) = y at guarded
    cases guarded with
    | kept guards => exact ⟨_, rfl, guards.noFreeze no, guards.globalFreeze no⟩

/-- Account 5 has frozen its issues for good. -/
def frozenLedger : @Ledger Key.coded :=
  let root (a : Account) (flags : UInt32) := ((((SLE.new .accountRoot).setFieldAccount sfAccount
    a).setFieldAmount sfBalance { mValue := 1000 }).setFieldU32 sfSequence 3).setFieldU32 sfFlags flags
  letI := Key.coded
  { mAccountStateMap := ((∅ : StateMap).insert (.account 2) (root 2 0)).insert (.account 5)
      (root 5 (lsfNoFreeze ||| lsfGlobalFreeze))
    mTransactionMap := ∅
    mLedgerSeq := 1
    mBaseFee := 10
    mReferenceFeeUnits := 10
    mReserveBase := 20
    mReserveIncrement := 5 }

def frozenEnv : @Env Key.coded :=
  letI := Key.coded
  { config := ⟨2, 3, 4, 10⟩
    closedLedger := frozenLedger
    scaleFeeLoad := fun fee _ _ _ => fee
    accountID := fun _ => 5
    skywellCalculate := fun _ _ => .error .nullPointer }

/-- Account 5 asks for the end of its global freeze. -/
def thaw : STTx :=
  .mk { txID := 1, account := 5, sequence := 3, fee := { mValue := 10 }, sigState := .good }
    (.accountSet none none none none none 0 asfGlobalFreeze) []

omit [Sha512Half] in
/-- The request to end the freeze succeeds, and the freeze stays. -/
theorem no_lock_out_thaw : ∃ (_ : Sha512Half) (l l' : Ledger), SettingsRun l l' ∧
    (∃ env engine, engine.mLedger = l ∧ (applyTransaction env engine thaw {}).map (·.1) =
      .ok (.tesSUCCESS, true)) ∧
    ∃ s', l'.getSLE (getAccountRootIndex 5) = some s' ∧ s'.isFlag lsfNoFreeze = true ∧
      s'.isFlag lsfGlobalFreeze = true := by
  let _ := Key.coded
  have applied : (applyTransaction frozenEnv ⟨frozenLedger, { mLedger := frozenLedger }, 0⟩ thaw
      {}).map (·.1) = .ok (.tesSUCCESS, true) := by decide +kernel
  cases call : applyTransaction frozenEnv ⟨frozenLedger, { mLedger := frozenLedger }, 0⟩ thaw {} with
  | error fault =>
    rw [call] at applied
    cases applied
  | ok r =>
    have run : SettingsRun frozenLedger r.2.mLedger := .step (.refl _) (.single rfl) call
    have frozen : (frozenLedger.getSLE (getAccountRootIndex 5)).map (fun s =>
        (s.isFlag lsfNoFreeze, s.isFlag lsfGlobalFreeze)) = some (true, true) := by decide +kernel
    obtain ⟨s, before, flags⟩ := Option.map_eq_some_iff.1 frozen
    obtain ⟨no, global⟩ := Prod.mk.inj flags
    obtain ⟨s', after, no', global'⟩ := (no_lock_out run).2 5 s before no
    exact ⟨Key.coded, frozenLedger, r.2.mLedger, run, ⟨frozenEnv, _, rfl, applied⟩, s', after, no',
      global' global⟩

end TransactionEngine

end Skywell
