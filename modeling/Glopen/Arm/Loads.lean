import Glopen.Arm.Guarantees

/-! The load classes of inst_classes.cc, and loads into the data-address registers. -/
namespace Glopen.Arm

open Memory BitVec

def RegisterList.none : Word → RegisterList := fun _ => kRegisterNone.bitmask

/-- `AbstractLoad::writeback`. -/
def loadWriteback (i : Word) : Bool := !i.getLsbD 24 || i.getLsbD 21

/-- `AbstractLoad`, for what its subclasses define. -/
def abstractLoad (defs immediateAddressingDefs : Word → RegisterList) : ClassDecoder :=
  { dataProc with
    safety := fun i =>
      if RegisterList.has (defs i) kRegisterPc then .forbiddenOperands else .mayBeSafe
    defs := defs
    immediateAddressingDefs := immediateAddressingDefs }

/-- `AbstractLoad::defs`. -/
def abstractLoadDefs (immediateAddressingDefs : Word → RegisterList) (i : Word) : RegisterList :=
  (regField i 12).bitmask ||| immediateAddressingDefs i

def loadRegisterDefs (i : Word) : RegisterList :=
  if loadWriteback i then abstractLoadDefs RegisterList.none i ||| (regField i 16).bitmask
  else abstractLoadDefs RegisterList.none i

def loadImmediateAddressingDefs (i : Word) : RegisterList :=
  if loadWriteback i then (regField i 16).bitmask else kRegisterNone.bitmask

theorem second_bits (n : Nat) : n % 16 + 1 < 32 := by omega

/-- `Register(i.bits(15,12) + 1)`. -/
def secondRegister (i : Word) : Register := ⟨(i >>> 12).toNat % 16 + 1, second_bits _⟩

def loadMultipleAddressingDefs (i : Word) : RegisterList :=
  (if i.getLsbD 21 then regField i 16 else kRegisterNone).bitmask

def loadMultipleDefs (i : Word) : RegisterList := i &&& 0xffff ||| loadMultipleAddressingDefs i

def loadRegister : ClassDecoder := abstractLoad loadRegisterDefs RegisterList.none

def loadImmediate : ClassDecoder :=
  abstractLoad (abstractLoadDefs loadImmediateAddressingDefs) loadImmediateAddressingDefs

def loadDoubleI : ClassDecoder :=
  abstractLoad
    (fun i => abstractLoadDefs loadImmediateAddressingDefs i ||| (secondRegister i).bitmask)
    loadImmediateAddressingDefs

def loadDoubleR : ClassDecoder :=
  abstractLoad (fun i => loadRegisterDefs i ||| (secondRegister i).bitmask) RegisterList.none

def loadExclusive : ClassDecoder :=
  abstractLoad (abstractLoadDefs RegisterList.none) RegisterList.none

def loadDoubleExclusive : ClassDecoder :=
  abstractLoad (fun i => abstractLoadDefs RegisterList.none i ||| (secondRegister i).bitmask)
    RegisterList.none

def loadMultiple : ClassDecoder :=
  { abstractLoad loadMultipleDefs loadMultipleAddressingDefs with
    safety := fun i =>
      if i.getLsbD 21 && i.getLsbD (regField i 16).val then .unpredictable
      else if RegisterList.has (loadMultipleDefs i) kRegisterPc then .forbiddenOperands
      else .mayBeSafe }

inductive LoadClass where
  | register | immediate | doubleI | doubleR | exclusive | doubleExclusive | multiple
deriving DecidableEq

def LoadClass.decoder : LoadClass → ClassDecoder
  | .register => loadRegister
  | .immediate => loadImmediate
  | .doubleI => loadDoubleI
  | .doubleR => loadDoubleR
  | .exclusive => loadExclusive
  | .doubleExclusive => loadDoubleExclusive
  | .multiple => loadMultiple

def LoadClass.destinations (i : Word) : LoadClass → RegisterList
  | .register | .immediate | .exclusive => (regField i 12).bitmask
  | .doubleI | .doubleR | .doubleExclusive =>
    (regField i 12).bitmask ||| (secondRegister i).bitmask
  | .multiple => i &&& 0xffff

structure LoadsData (sfi : SfiValidator) (c : LoadClass) (i : DecodedInstruction) (r : Register) :
    Prop where
  data : sfi.isDataAddressRegister r = true
  decoded : i.decoder = c.decoder
  loaded : (c.destinations i.inst).has r = true

/-- The test with which `check_data_register_update` exempts updates due to writeback. -/
def Exempted (sfi : SfiValidator) (i : DecodedInstruction) : Prop :=
  i.immediateAddressingDefs &&& sfi.dataAddressRegisters = i.defs &&& sfi.dataAddressRegisters

def LoadsMasked (sfi : SfiValidator) (segments : List CodeSegment) : Prop :=
  ∀ segment ∈ segments, ∀ insts, Sweep sfi segment segment.startAddr insts →
    ∀ before i after, insts = before ++ i :: after → ∀ c r, LoadsData sfi c i r →
      ¬ Exempted sfi i ∧ ∃ next, after.head? = some next ∧ MaskedBy sfi i next r

/-- A load with immediate writeback whose base is its only destination that is a data-address
register. -/
structure LoadsBase (sfi : SfiValidator) (c : LoadClass) (i : DecodedInstruction) : Prop where
  writesBack : c = .immediate ∨ c = .doubleI
  writeback : loadWriteback i.inst = true
  base : LoadsData sfi c i (regField i.inst 16)
  only : ∀ r, LoadsData sfi c i r → r = regField i.inst 16

/-- No load loads its written-back base, and the last instructions load no data-address register. -/
structure BasesKept (sfi : SfiValidator) (segments : List CodeSegment) : Prop where
  base : ∀ segment ∈ segments, ∀ insts, Sweep sfi segment segment.startAddr insts →
    ∀ i ∈ insts, ∀ c, ¬ LoadsBase sfi c i
  last : ∀ segment ∈ segments, ∀ insts, Sweep sfi segment segment.startAddr insts →
    ∀ i, insts.getLast? = some i → ∀ c r, ¬ LoadsData sfi c i r

theorem has_or (l other : RegisterList) (r : Register) :
    RegisterList.has (l ||| other) r = true ↔ l.has r = true ∨ other.has r = true := by
  rw [has_iff, has_iff, has_iff, getLsbD_or, Bool.or_eq_true]
  tauto

theorem has_bitmask (r other : Register) : r.bitmask.has other = true ↔ r = other ∧ r ≠ kRegisterNone := by
  revert r other
  decide +kernel

theorem regField_present (i : Word) (low : Nat) : regField i low ≠ kRegisterNone := by
  intro same
  have value := congrArg Fin.val same
  have small : (i >>> low).toNat % 16 = 31 := value
  omega

theorem has_none (i : Word) (r : Register) : ¬ (RegisterList.none i).has r = true :=
  fun has => ((has_bitmask kRegisterNone r).mp has).2 rfl

theorem bitmask_top (r : Register) : r.bitmask.getLsbD 31 = false := by
  revert r
  decide +kernel

theorem list_ext {l other : RegisterList} (top : l.getLsbD 31 = other.getLsbD 31)
    (same : ∀ r, l.has r = true ↔ other.has r = true) : l = other := by
  apply eq_of_getLsbD_eq
  intro j inner
  by_cases none : j = 31
  · rw [none, top]
  · have here := same ⟨j, inner⟩
    have present : (⟨j, inner⟩ : Register) ≠ kRegisterNone := fun is => none (congrArg Fin.val is)
    rw [has_iff, has_iff] at here
    exact Bool.eq_iff_iff.mpr ⟨fun set => (here.mp ⟨present, set⟩).2, fun set => (here.mpr ⟨present, set⟩).2⟩

variable {sfi : SfiValidator}

section Loads

variable {i : DecodedInstruction} {c : LoadClass} {r : Register}
variable {inst : Word}

theorem single_defined {immediate : Word → RegisterList} (loaded : (regField inst 12).bitmask.has r = true) :
    (abstractLoadDefs immediate inst).has r = true :=
  (has_or _ _ r).mpr (Or.inl loaded)

theorem register_defined (loaded : (regField inst 12).bitmask.has r = true) :
    (loadRegisterDefs inst).has r = true := by
  unfold loadRegisterDefs
  split
  · exact (has_or _ _ r).mpr (Or.inl (single_defined loaded))
  · exact single_defined loaded

theorem destinations_defined (inst : Word) (loaded : (c.destinations inst).has r = true) :
    (c.decoder.defs inst).has r = true := by
  cases c with
  | register => exact register_defined loaded
  | immediate => exact single_defined loaded
  | exclusive => exact single_defined loaded
  | multiple => exact (has_or _ _ r).mpr (Or.inl loaded)
  | doubleI =>
    exact (has_or _ _ r).mpr (((has_or _ _ r).mp loaded).imp_left single_defined)
  | doubleExclusive =>
    exact (has_or _ _ r).mpr (((has_or _ _ r).mp loaded).imp_left single_defined)
  | doubleR =>
    exact (has_or _ _ r).mpr (((has_or _ _ r).mp loaded).imp_left register_defined)

theorem LoadsData.defined (loads : LoadsData sfi c i r) : i.defs.has r = true := by
  unfold DecodedInstruction.defs
  rw [loads.decoded]
  exact destinations_defined i.inst loads.loaded

theorem LoadsData.clears_nothing (loads : LoadsData sfi c i r) (mask : BitVec 32) :
    i.clearsBits mask = false := by
  unfold DecodedInstruction.clearsBits
  rw [loads.decoded]
  cases c <;> rfl

theorem LoadsData.written_back (loads : LoadsData sfi c i r) (exempted : Exempted sfi i) :
    i.immediateAddressingDefs.has r = true := by
  have both := (has_and i.defs sfi.dataAddressRegisters r).mpr ⟨loads.defined, loads.data⟩
  rw [← exempted, has_and] at both
  exact both.1

theorem base_written (written : (loadImmediateAddressingDefs inst).has r = true) :
    loadWriteback inst = true ∧ r = regField inst 16 := by
  unfold loadImmediateAddressingDefs at written
  split at written
  · exact ⟨‹_›, ((has_bitmask _ r).mp written).1.symm⟩
  · exact absurd written (has_none inst r)

theorem written_multiple (written : (loadMultipleAddressingDefs inst).has r = true) :
    inst.getLsbD 21 = true ∧ r = regField inst 16 := by
  obtain ⟨base, present⟩ := (has_bitmask _ r).mp written
  split at base
  · exact ⟨‹_›, base.symm⟩
  · rename_i fixed
    exact absurd (if_neg fixed) present

theorem multiple_unsafe (loaded : RegisterList.has (inst &&& 0xffff) r = true)
    (written : (loadMultipleAddressingDefs inst).has r = true) : loadMultiple.safety inst = .unpredictable := by
  rw [has_iff, getLsbD_and, Bool.and_eq_true] at loaded
  rcases written_multiple written with ⟨indexed, rfl⟩
  apply if_pos
  rw [indexed, loaded.2.1]
  rfl

theorem LoadsData.exempted_base (loads : LoadsData sfi c i r) (safe : i.safety = .mayBeSafe)
    (exempted : Exempted sfi i) : LoadsBase sfi c i := by
  have written := fun {r} (loads : LoadsData sfi c i r) => loads.written_back exempted
  unfold DecodedInstruction.immediateAddressingDefs at written
  rw [loads.decoded] at written
  have immediate : (c = .immediate ∨ c = .doubleI) := by
    cases c with
    | immediate => exact Or.inl rfl
    | doubleI => exact Or.inr rfl
    | register => exact absurd (written loads) (has_none i.inst r)
    | doubleR => exact absurd (written loads) (has_none i.inst r)
    | exclusive => exact absurd (written loads) (has_none i.inst r)
    | doubleExclusive => exact absurd (written loads) (has_none i.inst r)
    | multiple =>
      have unpredictable := multiple_unsafe loads.loaded (written loads)
      unfold DecodedInstruction.safety at safe
      rw [loads.decoded] at safe
      cases unpredictable.symm.trans safe
  have defs : c.decoder.immediateAddressingDefs = loadImmediateAddressingDefs := by
    rcases immediate with rfl | rfl <;> rfl
  rw [defs] at written
  have base : ∀ other, LoadsData sfi c i other → other = regField i.inst 16 :=
    fun other loads => (base_written (written loads)).2
  exact ⟨immediate, (base_written (written loads)).1, base r loads ▸ loads, base⟩

theorem immediate_defs (inst : Word) (immediate : c = .immediate ∨ c = .doubleI) :
    c.decoder.immediateAddressingDefs inst = loadImmediateAddressingDefs inst ∧
      c.decoder.defs inst = c.destinations inst ||| loadImmediateAddressingDefs inst ∧
      (c.destinations inst).getLsbD 31 = false := by
  rcases immediate with rfl | rfl
  · exact ⟨rfl, rfl, bitmask_top _⟩
  · refine ⟨rfl, ?_, ?_⟩
    · change _ ||| _ ||| _ = _ ||| _ ||| _
      rw [BitVec.or_assoc, BitVec.or_assoc]
      exact congrArg _ (BitVec.or_comm _ _)
    · change BitVec.getLsbD (_ ||| _) 31 = false
      rw [getLsbD_or, bitmask_top, bitmask_top]
      rfl

theorem LoadsBase.exempted (loads : LoadsBase sfi c i) : Exempted sfi i := by
  obtain ⟨immediate, writeback, base, only⟩ := loads
  obtain ⟨addressing, defs, top⟩ := immediate_defs i.inst immediate
  have written : loadImmediateAddressingDefs i.inst = (regField i.inst 16).bitmask :=
    if_pos writeback
  unfold Exempted DecodedInstruction.immediateAddressingDefs DecodedInstruction.defs
  rw [base.decoded, addressing, defs]
  apply list_ext
  · rw [getLsbD_and, getLsbD_and, getLsbD_or, top, Bool.false_or]
  · intro r
    rw [has_and, has_and, has_or]
    constructor
    · rintro ⟨wrote, data⟩
      exact ⟨Or.inr wrote, data⟩
    · rintro ⟨loaded | wrote, data⟩
      · have same := only r ⟨data, base.decoded, loaded⟩
        subst same
        refine ⟨?_, data⟩
        rw [written]
        exact (has_bitmask _ _).mpr ⟨rfl, regField_present _ _⟩
      · exact ⟨wrote, data⟩

end Loads

section Accepted

variable {σ : Type} {sink : ProblemSink σ} {segments : List CodeSegment}

/-- In accepted code the loads of data-address registers are masked exactly when none of them
overwrites its written-back base and none ends a segment. -/
theorem loads_masked_iff (code : CodeSegments sfi segments) {fuel : Nat} {out out' : σ}
    (accepted : validate sink sfi fuel segments out = some (true, out')) :
    LoadsMasked sfi segments ↔ BasesKept sfi segments := by
  obtain ⟨branches, critical, valid⟩ := validate_ok code accepted
  constructor
  · intro masked
    refine ⟨fun segment member insts sweep i inside c loads => ?_,
      fun segment member insts sweep i at_end c r loads => ?_⟩
    · obtain ⟨before, after, split⟩ := List.append_of_mem inside
      exact (masked segment member insts sweep before i after split c _ loads.base).1 loads.exempted
    · obtain ⟨before, split⟩ := List.getLast?_eq_some_iff.mp at_end
      obtain ⟨-, next, none, -⟩ := masked segment member insts sweep before i [] split c r loads
      cases none
  · intro kept segment member insts sweep before i after split c r loads
    have inside : i ∈ insts := by
      rw [split]
      exact List.mem_append_right _ List.mem_cons_self
    have passed := valid.sweep member sweep
    have update : ¬ Exempted sfi i := fun exempted =>
      kept.base segment member insts sweep i inside c (loads.exempted_base (passed.safe i inside).1 exempted)
    refine ⟨update, ?_⟩
    cases after with
    | nil => exact absurd loads (kept.last segment member insts sweep i (by rw [split]; simp) c r)
    | cons next rest =>
      have whole := code.whole segment member
      obtain ⟨⟨defines, clears, follows⟩, together, -⟩ := (passed.pair split).update
        ⟨containsAny_of_has loads.defined loads.data, loads.clears_nothing _, update⟩
      refine ⟨next, rfl, ?_, together, ?_, clears, follows⟩
      · exact sweep.adjacent whole (Nat.le_add_right _ _) whole.word split together
      · exact has_of_containsAll defines ((has_and _ _ r).mpr ⟨loads.defined, loads.data⟩)

end Accepted

/-- The sample decoder, with `ldr` that writes its base back. -/
def loadDecode (inst : Word) : ClassDecoder :=
  if inst >>> 20 = 0xe49 then loadImmediate else sampleDecode inst

def loadSfi : SfiValidator := { sampleSfi with decode := loadDecode }

/-- `ldr sp, [sp], #4; nop; nop; b` to the first instruction. -/
def loadsStack : CodeSegment where
  base := bundleOf [0xe49dd004, 0xe1a00000, 0xe1a00000, 0xeafffffb]
  startAddr := 0x20000
  size := 16
  fits := sample_fits

/-- The stack pointer is loaded from memory, and the code is accepted. -/
theorem loaded_stack_accepted : CodeSegments loadSfi [loadsStack] ∧
      validate earlyExit loadSfi 10 [loadsStack] false = some (true, false) ∧
      ¬ LoadsMasked loadSfi [loadsStack] := by
  refine ⟨single_code ⟨by decide, by decide⟩, by decide +kernel, fun masked => ?_⟩
  have sweep := sweep_words loadSfi loadsStack (n := 4) rfl (by decide +kernel) 4 0 rfl
  have loads : LoadsData loadSfi .immediate (loadSfi.decodeAt loadsStack 0x20000) kRegisterStack :=
    ⟨by decide, rfl, by decide⟩
  refine (masked loadsStack (by simp) _ sweep [] (loadSfi.decodeAt loadsStack 0x20000)
    ((List.range' 1 3).map fun k => loadSfi.decodeAt loadsStack (0x20000 + 4 * k))
    rfl _ _ loads).1 ?_
  unfold Exempted
  decide +kernel

/-- `nop; ldr sp, [r1], #4; bic sp, sp, #0xc0000000; b` to the first instruction. -/
def masksLoad : CodeSegment where
  base := bundleOf [0xe1a00000, 0xe491d004, 0xe3cdd103, 0xeafffffb]
  startAddr := 0x20000
  size := 16
  fits := sample_fits

theorem masksLoad_loads_masked : LoadsMasked loadSfi [masksLoad] := by
  refine (loads_masked_iff (single_code ⟨by decide, by decide⟩)
    (show validate earlyExit loadSfi 10 [masksLoad] false = some (true, false) by
      decide +kernel)).mpr ?_
  have sweep := sweep_words loadSfi masksLoad (n := 4) rfl (by decide +kernel) 4 0 rfl
  constructor
  · intro segment member insts swept i inside c loads
    obtain rfl := List.mem_singleton.mp member
    rw [swept.deterministic sweep] at inside
    -- The stack pointer is only the operand of the mask.
    have masks : ∀ i ∈ (List.range' 0 4).map fun k =>
        loadSfi.decodeAt masksLoad (masksLoad.startAddr + 4 * k),
        loadSfi.isDataAddressRegister (regField i.inst 16) = true →
          i.clearsBits loadSfi.dataAddressMask = true := by
      decide +kernel
    have clears := masks i inside loads.base.data
    rw [loads.base.clears_nothing] at clears
    contradiction
  · intro segment member insts swept i at_end c r loads
    obtain rfl := List.mem_singleton.mp member
    rw [swept.deterministic sweep] at at_end
    have branch : i = loadSfi.decodeAt masksLoad 0x2000c := (Option.some.inj at_end).symm
    have free : ∀ r, loadSfi.isDataAddressRegister r = true →
        (loadSfi.decodeAt masksLoad 0x2000c).defs.has r = false := by
      decide +kernel
    have defined := loads.defined
    rw [branch, free r loads.data] at defined
    contradiction

end Glopen.Arm
