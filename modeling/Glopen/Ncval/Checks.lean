import Glopen.Ncval.Sweep

/-! What the check of one instruction establishes when it does not report a failure. -/
namespace Glopen.Ncval

open Memory Nacl

def NCDecoderState.IsDirect (m : NCDecoderState) : Prop :=
  m.opinfo.insttype = .jmp8 ∨ m.opinfo.insttype = .jmpz

instance (m : NCDecoderState) : Decidable m.IsDirect := inferInstanceAs (Decidable (_ ∨ _))

/-- The target of a direct jump or call, read off its opcode: an 8-bit displacement for
7x, e0..e3 and eb, a 32-bit one for e8, e9 and 0f 8x. -/
def directTarget (code : Mem) (m : NCDecoderState) : Option Nat :=
  let pb := m.inst.prefixbytes
  let opcode := instByte code m pb
  if isJmp8Opcode opcode then
    some (relativeTarget m ((instByte code m (pb + 1)).signExtend 32))
  else if opcode = 0xe8 ∨ opcode = 0xe9 then
    some (relativeTarget m (loadWord code (m.inst.maddr + pb + 1)))
  else if opcode = 0x0f ∧ instByte code m (pb + 1) &&& 0xf0 = 0x80 then
    some (relativeTarget m (loadWord code (m.inst.maddr + pb + 2)))
  else none

def rejectedType : NaClInstType → Bool
  | .ret | .emmx | .invalid | .illegal | .system | .rdmsr | .rdtscp | .syscall | .sysenter
  | .longmode | .svm | .opinmrm | .threeByte | .cmpxchg16b | .undefined => true
  | _ => false

/-- `and $mask, %reg` in `prev`, then `call *%reg` or `jmp *%reg` in `m`, without prefixes. -/
structure MaskedPair (code : Mem) (alignment : BundleSize) (prev m : NCDecoderState) : Prop where
  no_prefixes : m.inst.prefixbytes = 0 ∧ prev.inst.prefixbytes = 0
  opcode : instByte code m 0 = 0xff
  group5 : modrmReg (instByte code m 1) = 2 ∨ modrmReg (instByte code m 1) = 4
  register : modrmMod (instByte code m 1) = 3
  not_esp : modrmRm (instByte code m 1) ≠ kRegESP
  and_opcode : instByte code prev 0 = 0x83
  and_register : (instByte code prev 1).toNat = 0xe0 ||| modrmRm (instByte code m 1)
  and_mask : instByte code prev 2 = maskByte alignment

section Reports

variable {mem : Mem} {m prev : NCDecoderState} {v : NCValidatorState} {ip target : Nat}

theorem rememberIP_ok (ok : (rememberIP ip v).sawfailure = false) :
    v.sawfailure = false ∧ v.iadrbase ≤ ip ∧ ip < v.iadrlimit ∧
      BitTable.get v.vttable (ip - v.iadrbase) = false ∧
      rememberIP ip v = { v with vttable := BitTable.set v.vttable (ip - v.iadrbase) } := by
  unfold rememberIP at ok ⊢
  split at ok
  · contradiction
  rename_i range
  split at ok
  · contradiction
  rename_i fresh
  rw [if_neg range, if_neg fresh]
  exact ⟨ok, by omega, by omega, by simpa using fresh, rfl⟩

theorem rememberTP_ok (ok : (rememberTP target v).sawfailure = false) : v.sawfailure = false ∧
      ((v.iadrbase ≤ target ∧ target < v.iadrlimit ∧ rememberTP target v =
          { v with kttable := BitTable.set v.kttable (target - v.iadrbase) }) ∨
      (¬ (v.iadrbase ≤ target ∧ target < v.iadrlimit) ∧ target % v.alignment.toNat = 0 ∧
        rememberTP target v = v)) := by
  unfold rememberTP at ok ⊢
  split at ok
  · rename_i range
    rw [if_pos range]
    exact ⟨ok, .inl ⟨range.1, range.2, rfl⟩⟩
  · rename_i range
    rw [if_neg range]
    split at ok
    · rename_i aligned
      rw [if_pos aligned]
      rw [NCValidatorState.alignmask, BundleSize.and_mask] at aligned
      exact ⟨ok, .inr ⟨range, aligned, rfl⟩⟩
    · contradiction

theorem forgetIP_ok (ok : (forgetIP ip v).sawfailure = false) : v.sawfailure = false ∧
      forgetIP ip v = { v with vttable := BitTable.clear v.vttable (ip - v.iadrbase) } := by
  unfold forgetIP at ok ⊢
  split at ok
  · contradiction
  · rename_i range
    rw [if_neg range]
    exact ⟨ok, rfl⟩

theorem validateCallAlignment_ok (ok : (validateCallAlignment m v).sawfailure = false) :
    v.sawfailure = false ∧ validateCallAlignment m v = v := by
  unfold validateCallAlignment at ok ⊢
  simp only at ok ⊢
  split at ok
  · contradiction
  · rename_i aligned
    rw [if_neg aligned]
    exact ⟨ok, rfl⟩

structure TypeChecked (mem : Mem) (m prev : NCDecoderState) (v v' : NCValidatorState) : Prop where
  entry : v.sawfailure = false
  range : v'.iadrbase = v.iadrbase ∧ v'.iadrlimit = v.iadrlimit ∧ v'.alignment = v.alignment
  admitted : rejectedType m.opinfo.insttype = false
  data16 : m.opinfo.insttype = .sse2x → m.inst.prefixmask.has kPrefixDATA16 = true
  known : m.IsDirect → directTarget mem m = none → m.opinfo.insttype = .jmpz ∧
    instByte mem m m.inst.prefixbytes = 0x0f ∧
    instByte mem m (m.inst.prefixbytes + 1) &&& 0xf0 ≠ 0x80
  direct : m.IsDirect → ∀ t, directTarget mem m = some t →
    (v.iadrbase ≤ t ∧ t < v.iadrlimit ∧ BitTable.get v'.kttable (t - v.iadrbase) = true) ∨
    (¬ (v.iadrbase ≤ t ∧ t < v.iadrlimit) ∧ t % v.alignment.toNat = 0)
  targets : ∀ o, BitTable.get v.kttable o = true → BitTable.get v'.kttable o = true
  starts : ∀ o, BitTable.get v'.vttable o = true ↔ BitTable.get v.vttable o = true ∧
    ¬ (m.opinfo.insttype = .indirect ∧ m.inst.vaddr - v.iadrbase = o)
  indirect : m.opinfo.insttype = .indirect → prev.inst.length ≠ 0 ∧ MaskedPair mem v.alignment prev m

theorem typeChecked_plain (entry : v.sawfailure = false) (plain : ¬ m.IsDirect)
    (no_jump : m.opinfo.insttype ≠ .indirect) (admitted : rejectedType m.opinfo.insttype = false)
    (data16 : m.opinfo.insttype = .sse2x → m.inst.prefixmask.has kPrefixDATA16 = true) :
    TypeChecked mem m prev v v where
  entry := entry
  range := ⟨rfl, rfl, rfl⟩
  admitted := admitted
  data16 := data16
  known := fun direct => absurd direct plain
  direct := fun direct => absurd direct plain
  targets := fun _ set => set
  starts := fun _ => ⟨fun set => ⟨set, fun jump => no_jump jump.1⟩, fun set => set.1⟩
  indirect := fun jump => absurd jump no_jump

theorem typeChecked_remembered (kind : m.IsDirect) (found : directTarget mem m = some target)
    (ok : (rememberTP target v).sawfailure = false) : TypeChecked mem m prev v (rememberTP target v) := by
  obtain ⟨entry, cases⟩ := rememberTP_ok ok
  have no_jump : m.opinfo.insttype ≠ .indirect := by
    rcases kind with h | h <;> rw [h] <;> decide
  have admitted : rejectedType m.opinfo.insttype = false := by
    rcases kind with h | h <;> rw [h] <;> rfl
  have no_sse2x : m.opinfo.insttype ≠ .sse2x := by
    rcases kind with h | h <;> rw [h] <;> decide
  have same_starts : (rememberTP target v).vttable = v.vttable := by
    rcases cases with ⟨-, -, same⟩ | ⟨-, -, same⟩ <;> rw [same]
  refine ⟨entry, ?_, admitted, fun h => absurd h no_sse2x, ?_, ?_, ?_, ?_, ?_⟩
  · rcases cases with ⟨-, -, same⟩ | ⟨-, -, same⟩ <;> rw [same] <;> exact ⟨rfl, rfl, rfl⟩
  · intro _ none
    rw [found] at none
    contradiction
  · intro _ t some
    cases (found.symm.trans some)
    rcases cases with ⟨lower, upper, same⟩ | ⟨outside, aligned, -⟩
    · exact .inl ⟨lower, upper, by rw [same]; simp [BitTable.get_set]⟩
    · exact .inr ⟨outside, aligned⟩
  · intro o set
    rcases cases with ⟨-, -, same⟩ | ⟨-, -, same⟩ <;> rw [same]
    · simp [BitTable.get_set, set]
    · exact set
  · intro o
    rw [same_starts]
    exact ⟨fun set => ⟨set, fun jump => no_jump jump.1⟩, fun set => set.1⟩
  · exact fun jump => absurd jump no_jump

theorem validateJmp8_ok (kind : m.opinfo.insttype = .jmp8) (ok : (validateJmp8 mem m v).sawfailure = false) :
    TypeChecked mem m prev v (validateJmp8 mem m v) := by
  unfold validateJmp8 at ok ⊢
  simp only at ok ⊢
  split at ok
  · rename_i opcode
    rw [if_pos opcode]
    refine typeChecked_remembered (.inl kind) ?_ ok
    simp only [directTarget]
    rw [if_pos opcode]
  · contradiction

theorem validateJmpz_ok (kind : m.opinfo.insttype = .jmpz) (ok : (validateJmpz mem m v).sawfailure = false) :
    TypeChecked mem m prev v (validateJmpz mem m v) := by
  have long : ∀ opcode : Byte, opcode = 0xe8 ∨ opcode = 0xe9 ∨ opcode = 0x0f → isJmp8Opcode opcode = false := by
    rintro opcode (rfl | rfl | rfl) <;> decide
  unfold validateJmpz at ok ⊢
  simp only at ok ⊢
  split at ok
  · rename_i opcode
    have found : directTarget mem m = some (relativeTarget m
        (loadWord mem (m.inst.maddr + m.inst.prefixbytes + 1))) := by
      simp only [directTarget]
      rw [if_neg (by simp [long _ (opcode.imp id .inl)]), if_pos opcode]
    rw [if_pos opcode]
    split at ok
    · rename_i call
      obtain ⟨ok, same⟩ := validateCallAlignment_ok ok
      rw [if_pos call, same]
      exact typeChecked_remembered (.inr kind) found ok
    · rename_i call
      rw [if_neg call]
      exact typeChecked_remembered (.inr kind) found ok
  · rename_i near
    rw [if_neg near]
    split at ok
    · rename_i opcode
      have short := long _ (.inr (.inr opcode))
      rw [if_pos opcode]
      split at ok
      · rename_i cond
        rw [if_pos cond]
        refine typeChecked_remembered (.inr kind) ?_ ok
        simp only [directTarget]
        rw [if_neg (by simp [short]), if_neg near, if_pos ⟨opcode, cond⟩]
      · rename_i cond
        have none : directTarget mem m = none := by
          simp only [directTarget]
          rw [if_neg (by simp [short]), if_neg near, if_neg (fun both => cond both.2)]
        rw [if_neg cond]
        refine ⟨ok, ⟨rfl, rfl, rfl⟩, by rw [kind]; rfl, by rw [kind]; nofun,
          fun _ _ => ⟨kind, opcode, cond⟩, ?_, fun _ set => set, ?_, by rw [kind]; nofun⟩
        · intro _ t some
          rw [none] at some
          contradiction
        · intro o
          exact ⟨fun set => ⟨set, by rw [kind]; rintro ⟨⟨⟩, -⟩⟩, fun set => set.1⟩
    · contradiction

theorem validateIndirect5_ok (kind : m.opinfo.insttype = .indirect)
    (ok : (validateIndirect5 mem m prev v).sawfailure = false) :
    TypeChecked mem m prev v (validateIndirect5 mem m prev v) := by
  unfold validateIndirect5 at ok ⊢
  simp only at ok ⊢
  split at ok
  · contradiction
  rename_i present
  split at ok
  · contradiction
  rename_i no_prefixes
  split at ok
  · contradiction
  rename_i opcode
  split at ok
  · contradiction
  rename_i group5
  split at ok
  · contradiction
  rename_i register
  split at ok
  · contradiction
  rename_i not_esp
  split at ok
  · contradiction
  rename_i and_opcode
  split at ok
  · contradiction
  rename_i and_register
  split at ok
  · contradiction
  rename_i and_mask
  rw [if_neg present, if_neg no_prefixes, if_neg opcode, if_neg group5, if_neg register,
    if_neg not_esp, if_neg and_opcode, if_neg and_register, if_neg and_mask]
  have forgotten : (forgetIP m.inst.vaddr v).sawfailure = false ∧
      (if modrmReg (instByte mem m 1) = 2 then validateCallAlignment m (forgetIP m.inst.vaddr v)
        else forgetIP m.inst.vaddr v) = forgetIP m.inst.vaddr v := by
    split at ok
    · rename_i call
      rw [if_pos call]
      exact validateCallAlignment_ok ok
    · rename_i call
      rw [if_neg call]
      exact ⟨ok, rfl⟩
  obtain ⟨entry, same⟩ := forgetIP_ok forgotten.1
  rw [forgotten.2, same]
  have plain : ¬ m.IsDirect := by
    rintro (h | h) <;> rw [kind] at h <;> contradiction
  refine ⟨entry, ⟨rfl, rfl, rfl⟩, by rw [kind]; rfl, by rw [kind]; nofun,
    fun direct => absurd direct plain, fun direct => absurd direct plain, fun _ set => set, ?_, ?_⟩
  · intro o
    simp [BitTable.get_clear, kind]
  · intro _
    exact ⟨present, by omega, Decidable.not_not.mp opcode, by omega, by omega, not_esp,
      Decidable.not_not.mp and_opcode, Decidable.not_not.mp and_register,
      Decidable.not_not.mp and_mask⟩

theorem validateInstType_ok {cpu : CPUFeatures} (ok : (validateInstType mem m cpu prev v).1.sawfailure = false) :
    TypeChecked mem m prev v (validateInstType mem m cpu prev v).1 := by
  cases kind : m.opinfo.insttype
  case jmp8 =>
    simp only [validateInstType, kind] at ok ⊢
    exact validateJmp8_ok kind ok
  case jmpz =>
    simp only [validateInstType, kind] at ok ⊢
    exact validateJmpz_ok kind ok
  case indirect =>
    simp only [validateInstType, kind] at ok ⊢
    exact validateIndirect5_ok kind ok
  case sse2x =>
    simp only [validateInstType, kind] at ok ⊢
    split at ok
    · rename_i data16
      rw [if_pos data16]
      exact typeChecked_plain ok (by simp [NCDecoderState.IsDirect, kind]) (by simp [kind])
        (by simp [kind, rejectedType]) (fun _ => data16)
    · contradiction
  all_goals
    simp only [validateInstType, kind] at ok ⊢
    first
    | contradiction
    | exact typeChecked_plain ok (by simp [NCDecoderState.IsDirect, kind]) (by simp [kind])
        (by simp [kind, rejectedType]) (by simp [kind])

/-- Everything `ValidateInst` has checked when it reports no failure. -/
structure InstChecked (mem : Mem) (m prev : NCDecoderState) (v v' : NCValidatorState) : Prop where
  entry : v.sawfailure = false
  inside : v.iadrbase ≤ m.inst.vaddr ∧ m.inst.vaddr < v.iadrlimit
  fresh : BitTable.get v.vttable (m.inst.vaddr - v.iadrbase) = false
  prefixes : prefixAllowed m = true
  short : m.inst.length - m.inst.prefixbytes ≤ kMaxValidInstLength
  typed : TypeChecked mem m prev
    { v with vttable := BitTable.set v.vttable (m.inst.vaddr - v.iadrbase) } v'

theorem validateInst_ok {cpu : CPUFeatures} (ok : (validateInst mem m cpu prev v).1.sawfailure = false) :
    InstChecked mem m prev v (validateInst mem m cpu prev v).1 := by
  unfold validateInst at ok ⊢
  simp only at ok ⊢
  have typed := validateInstType_ok ok
  have entry := typed.entry
  split at entry
  · contradiction
  rename_i short
  split at entry
  · rename_i prefixes
    obtain ⟨entry, lower, upper, fresh, same⟩ := rememberIP_ok entry
    rw [if_neg short, if_pos prefixes, same] at typed ⊢
    exact ⟨entry, ⟨lower, upper⟩, fresh, prefixes, by omega, typed⟩
  · contradiction

/-- A recorded start is an earlier one or that of an instruction that is not the second half
of a pair. -/
theorem InstChecked.starts {v' : NCValidatorState} (checked : InstChecked mem m prev v v')
    (o : Nat) : BitTable.get v'.vttable o = true ↔ BitTable.get v.vttable o = true ∨
      (m.inst.vaddr - v.iadrbase = o ∧ m.opinfo.insttype ≠ .indirect) := by
  rw [checked.typed.starts]
  simp only [BitTable.get_set (w := 8) (by decide), Bool.or_eq_true, decide_eq_true_eq]
  have fresh := checked.fresh
  constructor
  · rintro ⟨earlier | here, apart⟩
    · exact .inl earlier
    · exact .inr ⟨here, fun jump => apart ⟨jump, here⟩⟩
  · rintro (earlier | ⟨here, other⟩)
    · refine ⟨.inl earlier, ?_⟩
      rintro ⟨-, here⟩
      rw [here, earlier] at fresh
      contradiction
    · exact ⟨.inr here, fun jump => other jump.1⟩

theorem validateInst_mem (mem : Mem) (m : NCDecoderState) (cpu : CPUFeatures)
    (prev : NCDecoderState) (v : NCValidatorState) (x : Nat) :
    ((validateInst mem m cpu prev v).2 x = mem x ∨ (validateInst mem m cpu prev v).2 x = kNaClFullStop) ∧
    (m.inst.maddr + m.inst.length ≤ x → (validateInst mem m cpu prev v).2 x = mem x) := by
  unfold validateInst
  simp only
  generalize (validateInstType mem m cpu prev _).2 = squashme
  cases squashme with
  | false => exact ⟨.inl rfl, fun _ => rfl⟩
  | true =>
    simp only [if_true, squash]
    split
    · exact ⟨.inr rfl, by omega⟩
    · exact ⟨.inl rfl, fun _ => rfl⟩

end Reports

end Glopen.Ncval
