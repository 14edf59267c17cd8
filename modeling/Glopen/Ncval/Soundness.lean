import Glopen.Ncval.Checks

/-! Control-flow soundness of the 32-bit validator: the loop of `NCDecodeSegment` keeps the two
tables in step with the linear sweep, and `NCValidateFinish` compares them. -/
namespace Glopen.Ncval

open Memory Nacl List

structure InstOk (code : Mem) (alignment : BundleSize) (prev : Option NCDecoderState)
    (m : NCDecoderState) : Prop where
  decoded : m.internalError = false
  prefixes : prefixAllowed m = true
  short : m.inst.length - m.inst.prefixbytes ≤ kMaxValidInstLength
  admitted : rejectedType m.opinfo.insttype = false
  data16 : m.opinfo.insttype = .sse2x → m.inst.prefixmask.has kPrefixDATA16 = true
  known : m.IsDirect → directTarget code m = none → m.opinfo.insttype = .jmpz ∧
    instByte code m m.inst.prefixbytes = 0x0f ∧
    instByte code m (m.inst.prefixbytes + 1) &&& 0xf0 ≠ 0x80
  indirect : m.opinfo.insttype = .indirect →
    ∃ p, prev = some p ∧ MaskedPair code alignment p m ∧ 3 ≤ p.inst.length

section Agreement

variable {mem code : Mem} {alignment : BundleSize} {m p : NCDecoderState}

theorem instByte_congr (ahead : ∀ x, m.inst.maddr ≤ x → mem x = code x) (i : Nat) :
    instByte mem m i = instByte code m i :=
  ahead _ (Nat.le_add_right _ _)

theorem directTarget_congr (ahead : ∀ x, m.inst.maddr ≤ x → mem x = code x) :
    directTarget mem m = directTarget code m := by
  have words : ∀ i, loadWord mem (m.inst.maddr + m.inst.prefixbytes + i) =
      loadWord code (m.inst.maddr + m.inst.prefixbytes + i) :=
    fun i => loadWord_congr fun k _ => ahead _ (by omega)
  unfold directTarget
  simp only [instByte_congr ahead, words]

theorem MaskedPair.original (pair : MaskedPair mem alignment p m)
    (ahead : ∀ x, m.inst.maddr ≤ x → mem x = code x)
    (behind : ∀ x, mem x = code x ∨ mem x = kNaClFullStop) : MaskedPair code alignment p m := by
  have kept : ∀ i, instByte mem p i ≠ kNaClFullStop → instByte code p i = instByte mem p i := by
    intro i other
    rcases behind (p.inst.maddr + i) with same | halt
    · exact same.symm
    · exact absurd halt other
  have register : modrmRm (instByte mem m 1) < 8 := Nat.mod_lt _ (by decide)
  have opcode := kept 0 (by rw [pair.and_opcode]; decide)
  have modrm := kept 1 (by
    intro halt
    have found := pair.and_register
    rw [halt] at found
    generalize modrmRm (instByte mem m 1) = reg at *
    revert reg
    decide)
  have mask := kept 2 (by
    rw [pair.and_mask, maskByte]
    rcases alignment.known with h | h <;> rw [h] <;> decide)
  refine ⟨pair.no_prefixes, ?_, ?_, ?_, ?_, ?_, ?_, ?_⟩
  · rw [← instByte_congr ahead, pair.opcode]
  · rw [← instByte_congr ahead]
    exact pair.group5
  · rw [← instByte_congr ahead]
    exact pair.register
  · rw [← instByte_congr ahead]
    exact pair.not_esp
  · rw [opcode, pair.and_opcode]
  · rw [modrm, pair.and_register, instByte_congr ahead]
  · rw [mask, pair.and_mask]

/-- The `and` reaches up to the jump, so it cannot be shorter than its three bytes: they
differ from the first byte of the jump. -/
theorem MaskedPair.length (pair : MaskedPair code alignment p m)
    (next : p.inst.maddr + p.inst.length = m.inst.maddr) (positive : 0 < p.inst.length) : 3 ≤ p.inst.length := by
  refine Nat.le_of_not_lt fun short => ?_
  have jump := pair.opcode
  have register : modrmRm (instByte code m 1) < 8 := Nat.mod_lt _ (by decide)
  rw [instByte, Nat.add_zero, ← next] at jump
  rcases (show p.inst.length = 1 ∨ p.inst.length = 2 by omega) with h | h
  · have found := pair.and_register
    rw [instByte, show p.inst.maddr + 1 = p.inst.maddr + p.inst.length by omega, jump] at found
    generalize modrmRm (instByte code m 1) = reg at *
    revert reg
    decide
  · have found := pair.and_mask
    rw [instByte, show p.inst.maddr + 2 = p.inst.maddr + p.inst.length by omega, jump, maskByte] at found
    rcases alignment.known with a | a <;> rw [a] at found <;> revert found <;> decide

theorem decodeInst_congr (tables : DecodeTables) (bytes : Nat → Byte) (mpc : m.mpc = p.mpc)
    (vpc : m.vpc = p.vpc) (nextbyte : m.nextbyte = p.nextbyte) :
    decodeInst tables bytes m = decodeInst tables bytes p := by
  have same : initDecoder m = initDecoder p := by
    simp only [initDecoder, mpc, vpc, nextbyte]
  unfold decodeInst
  rw [same]

end Agreement

def TargetNoted (vbase size : Nat) (alignment : BundleSize) (kttable : BitTable.Table 8) (t : Nat) : Prop :=
  (vbase ≤ t ∧ t < vbase + size ∧ BitTable.get kttable (t - vbase) = true) ∨
    (¬ (vbase ≤ t ∧ t < vbase + size) ∧ t % alignment.toNat = 0)

/-- The state of the loop after the instructions `insts` up to the offset `off`. -/
structure SweepInv (tables : DecodeTables) (code : Mem) (vbase size : Nat)
    (alignment : BundleSize) (insts : List NCDecoderState) (off : Nat) (st : DecodeLoop) :
    Prop where
  sweep : Sweep tables code vbase 0 insts off
  inside : off ≤ size
  ahead : ∀ x, off ≤ x → st.mem x = code x
  behind : ∀ x, st.mem x = code x ∨ st.mem x = kNaClFullStop
  slot : st.slot < 4 ∧ st.slot = st.dbindex % 4
  vpc : (st.decodebuffer st.slot).vpc = vbase + off
  mpc : (st.decodebuffer st.slot).mpc = off
  nextbyte : (st.decodebuffer st.slot).nextbyte = 0
  prev : (previousInst st).inst.length ≠ 0 → insts.getLast? = some (previousInst st)
  range : st.vstate.iadrbase = vbase ∧ st.vstate.iadrlimit = vbase + size ∧
    st.vstate.alignment = alignment
  starts : ∀ o, BitTable.get st.vstate.vttable o = true ↔
    ∃ m ∈ insts, m.inst.maddr = o ∧ m.opinfo.insttype ≠ .indirect
  targets : ∀ m ∈ insts, m.IsDirect → ∀ t, directTarget code m = some t →
    TargetNoted vbase size alignment st.vstate.kttable t
  checked : ∀ before m after, insts = before ++ m :: after → InstOk code alignment before.getLast? m

section Loop

variable {tables : DecodeTables} {cpu : CPUFeatures} {code : Mem} {vbase size off : Nat}
  {alignment : BundleSize} {insts : List NCDecoderState} {st final : DecodeLoop}
  {m : NCDecoderState}

def settled (m : NCDecoderState) (st : DecodeLoop) : DecodeLoop :=
  { st with
    decodebuffer := putSlot st.decodebuffer st.slot m
    vstate := reportInternal m st.vstate }

theorem reportInternal_ok {v : NCValidatorState} (ok : (reportInternal m v).sawfailure = false) :
    m.internalError = false ∧ reportInternal m v = v := by
  unfold reportInternal at ok ⊢
  split at ok
  · contradiction
  · rename_i quiet
    exact ⟨by simpa using quiet, if_neg quiet⟩

theorem previousInst_settled (slot : st.slot < 4) : previousInst (settled m st) = previousInst st := by
  simp only [previousInst, settled, putSlot, kDecodeBufferSize]
  rw [if_neg (by omega)]

theorem previousInst_advance {newpc : Nat} (slot : st.slot < 4 ∧ st.slot = st.dbindex % 4) :
    previousInst (advance cpu m newpc (settled m st)) = m := by
  simp only [previousInst, advance, settled, putSlot, kDecodeBufferSize]
  rw [if_neg (by omega), if_pos (by omega)]

theorem SweepInv.instAt (inv : SweepInv tables code vbase size alignment insts off st)
    (decoded : decodeInst tables
      (fun i => st.mem ((st.decodebuffer st.slot).mpc + i)) (st.decodebuffer st.slot) = some m) :
    instAt tables code vbase off = some m := by
  have bytes : (fun i => st.mem ((st.decodebuffer st.slot).mpc + i)) = fun i => code (off + i) := by
    funext i
    rw [inv.mpc]
    exact inv.ahead _ (Nat.le_add_right _ _)
  rw [bytes] at decoded
  rw [Ncval.instAt, ← decoded]
  exact decodeInst_congr tables _ inv.mpc.symm inv.vpc.symm inv.nextbyte.symm

theorem getLast_of_split {before after : List NCDecoderState} {n : NCDecoderState}
    (split : insts ++ [m] = before ++ n :: after) :
    (before = insts ∧ n = m) ∨ ∃ rest, insts = before ++ n :: rest := by
  rcases eq_nil_or_concat after with rfl | ⟨rest, last, rfl⟩
  · obtain ⟨same, one⟩ := append_inj' split rfl
    exact .inl ⟨same.symm, (singleton_inj.mp one).symm⟩
  · right
    refine ⟨rest, ?_⟩
    rw [concat_eq_append, ← cons_append, ← append_assoc] at split
    exact (append_inj' split rfl).1

theorem SweepInv.step (inv : SweepInv tables code vbase size alignment insts off st)
    (here : Ncval.instAt tables code vbase off = some m) (fits : off + m.inst.length ≤ size)
    (ok : (advance cpu m (vbase + off + m.inst.length) (settled m st)).vstate.sawfailure = false) :
    SweepInv tables code vbase size alignment (insts ++ [m]) (off + m.inst.length)
      (advance cpu m (vbase + off + m.inst.length) (settled m st)) := by
  have placed := instAt_placed here
  have decoded := decodeInst_spec tables _ rfl here
  have result : InstChecked st.mem m (previousInst (settled m st)) (settled m st).vstate
      (advance cpu m (vbase + off + m.inst.length) (settled m st)).vstate := validateInst_ok ok
  have squashed := validateInst_mem st.mem m cpu (previousInst (settled m st)) (settled m st).vstate
  obtain ⟨quiet, same⟩ := reportInternal_ok result.entry
  rw [previousInst_settled inv.slot.1] at result
  have unchanged : (settled m st).vstate = st.vstate := same
  rw [unchanged] at result
  generalize passed : advance cpu m (vbase + off + m.inst.length) (settled m st) = st' at *
  have typed := result.typed
  have ahead : ∀ x, m.inst.maddr ≤ x → st.mem x = code x := by
    intro x above
    exact inv.ahead x (by rw [← placed.maddr]; exact above)
  have offset : m.inst.vaddr - st.vstate.iadrbase = off := by
    rw [inv.range.1, placed.vaddr]
    omega
  have memory : st'.mem = (validateInst st.mem m cpu (previousInst (settled m st))
      (settled m st).vstate).2 := by rw [← passed]; rfl
  have buffer : st'.slot = (st.dbindex + 1) % 4 ∧ st'.dbindex = st'.slot ∧
      (st'.decodebuffer st'.slot).vpc = vbase + off + m.inst.length ∧
      (st'.decodebuffer st'.slot).mpc = m.mpc + m.inst.length ∧
      (st'.decodebuffer st'.slot).nextbyte = m.nextbyte - m.inst.length := by
    rw [← passed]
    simp [advance, settled, putSlot, kDecodeBufferSize]
  refine ⟨inv.sweep.snoc here, fits, ?_, ?_, ?_, ?_, ?_, ?_, ?_, ?_, ?_, ?_, ?_⟩
  · intro x above
    rw [memory, (squashed x).2 (by rw [placed.maddr]; exact above)]
    exact inv.ahead x (by omega)
  · intro x
    rw [memory]
    rcases (squashed x).1 with kept | halt
    · rw [kept]
      exact inv.behind x
    · exact .inr halt
  · omega
  · rw [buffer.2.2.1, Nat.add_assoc]
  · rw [buffer.2.2.2.1, decoded.mpc]
    rfl
  · rw [buffer.2.2.2.2, decoded.length, Nat.sub_self]
  · intro _
    rw [← passed, previousInst_advance inv.slot]
    simp
  · rw [typed.range.1, typed.range.2.1, typed.range.2.2]
    exact inv.range
  · intro o
    rw [result.starts, inv.starts, offset]
    simp only [mem_append, mem_singleton]
    constructor
    · rintro (⟨n, member, start⟩ | ⟨rfl, other⟩)
      · exact ⟨n, .inl member, start⟩
      · exact ⟨m, .inr rfl, placed.maddr, other⟩
    · rintro ⟨n, member | rfl, start⟩
      · exact .inl ⟨n, member, start⟩
      · exact .inr ⟨placed.maddr.symm.trans start.1, start.2⟩
  · intro n member direct t found
    rcases mem_append.mp member with member | member
    · rcases inv.targets n member direct t found with ⟨lower, upper, noted⟩ | outside
      · exact .inl ⟨lower, upper, typed.targets _ noted⟩
      · exact .inr outside
    · rcases mem_singleton.mp member with rfl
      rw [← directTarget_congr ahead] at found
      have := typed.direct direct t found
      rwa [inv.range.1, inv.range.2.1, inv.range.2.2] at this
  · intro before n after split
    rcases getLast_of_split split with ⟨rfl, rfl⟩ | ⟨rest, earlier⟩
    · refine ⟨quiet, result.prefixes, result.short, typed.admitted, typed.data16, ?_, ?_⟩
      · intro direct none
        rw [← directTarget_congr ahead] at none
        rw [← instByte_congr ahead, ← instByte_congr ahead]
        exact typed.known direct none
      · intro jump
        obtain ⟨present, pair⟩ := typed.indirect jump
        rw [inv.range.2.2] at pair
        have last := inv.prev present
        have original := pair.original ahead inv.behind
        exact ⟨previousInst st, last, original,
          original.length ((inv.sweep.last last).trans placed.maddr.symm) (by omega)⟩
    · exact inv.checked before n rest earlier

variable {vlimit fuel : Nat}

theorem decodeLoop_cases (ran : decodeLoop tables cpu vlimit (fuel + 1) st = some final) :
    (vlimit ≤ (st.decodebuffer st.slot).vpc ∧ final = st) ∨ ((st.decodebuffer st.slot).vpc < vlimit ∧ ∃ m,
      decodeInst tables (fun i => st.mem ((st.decodebuffer st.slot).mpc + i))
        (st.decodebuffer st.slot) = some m ∧
      ((vlimit < (m.vpc + m.inst.length) % 2 ^ 32 ∧ final.vstate.sawfailure = true) ∨
      ((m.vpc + m.inst.length) % 2 ^ 32 ≤ vlimit ∧ decodeLoop tables cpu vlimit fuel
          (advance cpu m ((m.vpc + m.inst.length) % 2 ^ 32) (settled m st)) = some final))) := by
  rw [decodeLoop] at ran
  simp only at ran
  split at ran
  · rename_i done
    exact .inl ⟨done, (Option.some.inj ran).symm⟩
  · rename_i more
    simp only [Option.bind_eq_bind, Option.bind_eq_some_iff] at ran
    obtain ⟨m, decoded, rest⟩ := ran
    refine .inr ⟨by omega, m, decoded, ?_⟩
    split at rest
    · rename_i past
      cases rest
      exact .inl ⟨past, rfl⟩
    · rename_i short
      exact .inr ⟨by omega, rest⟩

theorem decodeLoop_sticky (ran : decodeLoop tables cpu vlimit fuel st = some final)
    (ok : final.vstate.sawfailure = false) : st.vstate.sawfailure = false := by
  induction fuel generalizing st with
  | zero => contradiction
  | succ fuel ih =>
    rcases decodeLoop_cases ran with ⟨-, rfl⟩ | ⟨-, m, -, ⟨-, failed⟩ | ⟨-, rest⟩⟩
    · exact ok
    · rw [failed] at ok
      contradiction
    · have entry := (validateInst_ok (ih rest)).entry
      rwa [settled, (reportInternal_ok entry).2] at entry

theorem decodeLoop_lost (ran : decodeLoop tables cpu vlimit fuel st = some final)
    (nextbyte : (st.decodebuffer st.slot).nextbyte = 0)
    (below : (st.decodebuffer st.slot).vpc < st.vstate.iadrbase)
    (more : (st.decodebuffer st.slot).vpc < vlimit) : final.vstate.sawfailure = true := by
  refine Classical.byContradiction fun ok => ?_
  rw [Bool.not_eq_true] at ok
  cases fuel with
  | zero => contradiction
  | succ fuel =>
    rcases decodeLoop_cases ran with ⟨done, -⟩ | ⟨-, m, decoded, ⟨-, failed⟩ | ⟨-, rest⟩⟩
    · omega
    · rw [failed] at ok
      contradiction
    · have result := validateInst_ok (decodeLoop_sticky rest ok)
      have vaddr := (decodeInst_spec tables _ nextbyte decoded).vaddr
      have inside := result.inside.1
      rw [settled, (reportInternal_ok result.entry).2] at inside
      simp only at inside
      omega

def Roomy (size : Nat) : Prop := size + 2 * (size / 8 + 1) ≤ 2 ^ 32

theorem decodeLoop_sound (roomy : Roomy size) (limit : vbase + size < 2 ^ 32)
    (inv : SweepInv tables code vbase size alignment insts off st)
    (ran : decodeLoop tables cpu (vbase + size) fuel st = some final) (ok : final.vstate.sawfailure = false) :
    ∃ all, SweepInv tables code vbase size alignment all size final := by
  induction fuel generalizing st insts off with
  | zero => contradiction
  | succ fuel ih =>
    have vpc := inv.vpc
    have inside := inv.inside
    rcases decodeLoop_cases ran with ⟨done, rfl⟩ | ⟨more, m, decoded, rest⟩
    · have complete : off = size := by omega
      exact ⟨insts, complete ▸ inv⟩
    · have here := inv.instAt decoded
      have placed := instAt_placed here
      have spec := decodeInst_spec tables _ inv.nextbyte decoded
      have bounds := placed.bounds
      rw [spec.vpc, vpc] at rest
      rcases rest with ⟨-, failed⟩ | ⟨fits, rest⟩
      · rw [failed] at ok
        contradiction
      · have passed := decodeLoop_sticky rest ok
        by_cases wraps : vbase + off + m.inst.length < 2 ^ 32
        · rw [Nat.mod_eq_of_lt wraps] at fits rest passed
          exact ih (inv.step here (by omega) passed) rest
        · have result := validateInst_ok passed
          have base := result.typed.range.1
          have newpc : (vbase + off + m.inst.length) % 2 ^ 32 = vbase + off + m.inst.length - 2 ^ 32 := by
            rw [Nat.mod_eq_sub_mod (by omega), Nat.mod_eq_of_lt (by omega)]
          have start : (settled m st).vstate.iadrbase = vbase := by
            rw [settled, (reportInternal_ok result.entry).2]
            exact inv.range.1
          have lost := decodeLoop_lost rest (by simp [advance, putSlot, spec.length]) (by
              unfold Roomy at roomy
              rw [show (advance cpu m _ (settled m st)).vstate.iadrbase = vbase from base.trans start]
              simp only [advance, putSlot, if_true]
              omega)
            (by
              simp only [advance, putSlot, if_true]
              omega)
          rw [lost] at ok
          contradiction

end Loop

end Glopen.Ncval
