import Glopen.Ncval.Validate

/-! The linear sweep that the validator performs, as a relation on the code alone. -/
namespace Glopen.Ncval

open Memory Nacl Option

structure Progress (least most : Nat) (m m' : NCDecoderState) : Prop where
  mpc : m'.mpc = m.mpc
  vpc : m'.vpc = m.vpc
  vaddr : m'.inst.vaddr = m.inst.vaddr
  maddr : m'.inst.maddr = m.inst.maddr
  prefixbytes : m'.inst.prefixbytes = m.inst.prefixbytes
  moved : m.nextbyte + least ≤ m'.nextbyte ∧ m'.nextbyte ≤ m.nextbyte + most
  displacement : m.inst.dispbytes ≤ 4 → m'.inst.dispbytes ≤ 4

section Stages

variable (tables : DecodeTables) (bytes : Nat → Byte) {m m' d : NCDecoderState}
  {least most least' most' : Nat}

theorem Progress.refl (m : NCDecoderState) : Progress 0 0 m m :=
  ⟨rfl, rfl, rfl, rfl, rfl, ⟨Nat.le_refl _, Nat.le_refl _⟩, id⟩

theorem Progress.trans (first : Progress least most m m') (second : Progress least' most' m' d) :
    Progress (least + least') (most + most') m d := by
  have h := first.moved
  have h' := second.moved
  exact ⟨second.mpc.trans first.mpc, second.vpc.trans first.vpc, second.vaddr.trans first.vaddr,
    second.maddr.trans first.maddr, second.prefixbytes.trans first.prefixbytes,
    ⟨by omega, by omega⟩, fun small => second.displacement (first.displacement small)⟩

theorem Progress.weaken (progress : Progress least most m m') (lower : least' ≤ least)
    (upper : most ≤ most') : Progress least' most' m m' := by
  have h := progress.moved
  exact { progress with moved := ⟨by omega, by omega⟩ }

theorem consumePrefix_spec (left : Nat) (m : NCDecoderState) : ∃ count ≤ left,
      consumePrefix tables bytes left m = { m with
          nextbyte := m.nextbyte + count
          inst := { m.inst with
            prefixbytes := m.inst.prefixbytes + count
            prefixmask := (consumePrefix tables bytes left m).inst.prefixmask } } := by
  induction left generalizing m with
  | zero => exact ⟨0, Nat.le_refl _, rfl⟩
  | succ left ih =>
    unfold consumePrefix
    simp only
    split
    · exact ⟨0, Nat.zero_le _, rfl⟩
    · obtain ⟨count, bound, same⟩ := ih { m with
        inst := { m.inst with
          prefixmask := m.inst.prefixmask ||| tables.kPrefixTable (bytes m.nextbyte)
          prefixbytes := m.inst.prefixbytes + 1 }
        nextbyte := m.nextbyte + 1 }
      refine ⟨count + 1, by omega, ?_⟩
      rw [same]
      simp only [NCDecoderState.mk.injEq, InstInfo.mk.injEq, and_true, true_and]
      omega

theorem consumeThirdByte_progress (opcode2 : Byte) (m : NCDecoderState) :
    Progress 0 1 m (consumeThirdByte tables bytes opcode2 m) := by
  unfold consumeThirdByte
  split
  · simp only
    split <;> exact ⟨rfl, rfl, rfl, rfl, rfl, ⟨by simp [errorInternal], by simp [errorInternal]⟩, id⟩
  · exact (Progress.refl m).weaken (Nat.le_refl _) (by decide)

theorem consumeOpcodeBytes_progress (m : NCDecoderState) :
    Progress 1 3 m (consumeOpcodeBytes tables bytes m) := by
  unfold consumeOpcodeBytes
  simp only
  split
  · have third := consumeThirdByte_progress tables bytes (bytes (m.nextbyte + 1)) { m with
        opinfo := getExtendedOpInfo tables m.inst.prefixmask (bytes (m.nextbyte + 1))
        nextbyte := m.nextbyte + 1 + 1
        inst := { m.inst with hasopbyte2 := true } }
    have moved := third.moved
    simp only at moved
    exact ⟨third.mpc, third.vpc, third.vaddr, third.maddr, third.prefixbytes,
      ⟨by simp only; omega, by simp only; omega⟩, third.displacement⟩
  · exact ⟨rfl, rfl, rfl, rfl, rfl, ⟨by simp, by simp⟩, id⟩

theorem getX87OpInfo_progress (m : NCDecoderState) : Progress 0 0 m (getX87OpInfo tables bytes m) := by
  unfold getX87OpInfo
  simp only
  split
  · split <;> exact ⟨rfl, rfl, rfl, rfl, rfl, ⟨Nat.le_refl _, Nat.le_refl _⟩, id⟩
  · exact ⟨rfl, rfl, rfl, rfl, rfl, ⟨Nat.le_refl _, Nat.le_refl _⟩, id⟩

theorem getOpInMrm_progress {mrm : Byte} (ran : getOpInMrm tables mrm m = some m') : Progress 0 0 m m' := by
  unfold getOpInMrm at ran
  split at ran
  · cases ran
    exact Progress.refl m
  · simp only at ran
    split at ran
    · contradiction
    · cases ran
      exact ⟨rfl, rfl, rfl, rfl, rfl, ⟨Nat.le_refl _, Nat.le_refl _⟩, id⟩

theorem modrmDispbytes_le (addr16 : Bool) (mrm : Byte) : modrmDispbytes addr16 mrm ≤ 4 := by
  unfold modrmDispbytes
  repeat' split
  all_goals decide

theorem consumeModRM_progress (ran : consumeModRM tables bytes m = some m') : Progress 0 1 m m' := by
  unfold consumeModRM at ran
  split at ran
  · cases ran
    exact (Progress.refl m).weaken (Nat.le_refl _) (by decide)
  · simp only [bind_eq_bind, bind_eq_some_iff] at ran
    obtain ⟨found, opcode, rest⟩ := ran
    cases rest
    have read : Progress 0 1 m { m with
        inst := { m.inst with mrm := bytes m.nextbyte }, nextbyte := m.nextbyte + 1 } :=
      ⟨rfl, rfl, rfl, rfl, rfl, ⟨by simp, Nat.le_refl _⟩, id⟩
    have opened : Progress 0 1 m found := by
      split at opcode
      · exact (read.trans (getX87OpInfo_progress tables bytes _)).trans (getOpInMrm_progress tables opcode)
      · exact read.trans (getOpInMrm_progress tables opcode)
    exact ⟨opened.mpc, opened.vpc, opened.vaddr, opened.maddr, opened.prefixbytes, opened.moved,
      fun _ => modrmDispbytes_le _ _⟩

theorem consumeSIB_progress (m : NCDecoderState) : Progress 0 1 m (consumeSIB bytes m) := by
  unfold consumeSIB
  split
  · exact (Progress.refl m).weaken (Nat.le_refl _) (by decide)
  · simp only
    repeat' split
    all_goals
      exact ⟨rfl, rfl, rfl, rfl, rfl, ⟨by simp [errorInternal], by simp [errorInternal]⟩,
        by simp [errorInternal]⟩

theorem immediateSize_le (m : NCDecoderState) : immediateSize m ≤ 6 := by
  have sizes : ∀ t, kImmTypeToSize66 t ≤ 6 ∧ kImmTypeToSize67 t ≤ 6 ∧ kImmTypeToSize t ≤ 6 := by
    intro t
    cases t <;> decide
  have := sizes m.inst.immtype
  unfold immediateSize extractOperandSize
  repeat' split
  all_goals omega

theorem consumeID_spec (small : m.nextbyte ≤ 200) (disp : m.inst.dispbytes ≤ 4) :
    Progress 0 10 m (consumeID m) ∧ (consumeID m).inst.length = (consumeID m).nextbyte := by
  have report : ∀ n : NCDecoderState, n = m ∨ n = errorInternal m →
      n.nextbyte + immediateSize n + n.inst.dispbytes ≤ m.nextbyte + 10 ∧ Progress 0 0 m n := by
    intro n cases
    have imm := immediateSize_le n
    rcases cases with rfl | rfl
    · exact ⟨by omega, Progress.refl _⟩
    · refine ⟨?_, ⟨rfl, rfl, rfl, rfl, rfl, ⟨Nat.le_refl _, Nat.le_refl _⟩, id⟩⟩
      simp only [errorInternal] at imm ⊢
      omega
  unfold consumeID
  generalize start : (if m.inst.immtype = .unknown then errorInternal m else m) = n
  have facts := report n (by rw [← start]; split <;> simp)
  have moved := facts.2.moved
  simp only
  rw [if_neg (by simp only [ne_eq, Decidable.not_not]; exact Nat.mod_eq_of_lt (by omega))]
  refine ⟨⟨facts.2.mpc, facts.2.vpc, facts.2.vaddr, facts.2.maddr, facts.2.prefixbytes,
    ⟨?_, ?_⟩, facts.2.displacement⟩, ?_⟩
  · simp only
    omega
  · exact facts.1
  · exact Nat.mod_eq_of_lt (by omega)

theorem maybeGet3ByteOpInfo_progress (m : NCDecoderState) : Progress 0 0 m (maybeGet3ByteOpInfo tables bytes m) ∧
      (maybeGet3ByteOpInfo tables bytes m).inst = m.inst ∧
      (maybeGet3ByteOpInfo tables bytes m).nextbyte = m.nextbyte := by
  unfold maybeGet3ByteOpInfo
  split
  · exact ⟨⟨rfl, rfl, rfl, rfl, rfl, ⟨Nat.le_refl _, Nat.le_refl _⟩, id⟩, rfl, rfl⟩
  · exact ⟨Progress.refl m, rfl, rfl⟩

structure Decoded (m d : NCDecoderState) : Prop where
  mpc : d.mpc = m.mpc
  vpc : d.vpc = m.vpc
  vaddr : d.inst.vaddr = m.vpc
  maddr : d.inst.maddr = m.mpc
  length : d.inst.length = d.nextbyte
  bounds : d.inst.prefixbytes < d.inst.length ∧ d.inst.length ≤ 19

theorem decodeInst_spec (start : m.nextbyte = 0) (ran : decodeInst tables bytes m = some d) : Decoded m d := by
  simp only [decodeInst, bind_eq_bind, bind_eq_some_iff] at ran
  obtain ⟨found, modrm, rest⟩ := ran
  cases rest
  obtain ⟨count, few, prefixed⟩ :=
    consumePrefix_spec tables bytes kMaxPrefixBytes (initDecoder m)
  rw [consumePrefixBytes] at modrm
  generalize consumePrefix tables bytes kMaxPrefixBytes (initDecoder m) = p at *
  have place : p.mpc = m.mpc ∧ p.vpc = m.vpc ∧ p.inst.vaddr = m.vpc ∧ p.inst.maddr = m.mpc ∧
      p.nextbyte = count ∧ p.inst.prefixbytes = count ∧ p.inst.dispbytes = 0 := by
    rw [prefixed]
    simp [initDecoder, start]
  simp only [kMaxPrefixBytes] at few
  have opcode := (consumeOpcodeBytes_progress tables bytes p).trans (consumeModRM_progress tables bytes modrm)
  have sib := opcode.trans (consumeSIB_progress bytes found)
  have disp := sib.displacement (by omega)
  have moved := sib.moved
  obtain ⟨id, length⟩ := consumeID_spec (by omega) disp
  have all := sib.trans id
  obtain ⟨last, inst, next⟩ :=
    maybeGet3ByteOpInfo_progress tables bytes (consumeID (consumeSIB bytes found))
  have pre := (all.trans last).prefixbytes
  have total := all.moved
  refine ⟨(all.trans last).mpc.trans place.1, (all.trans last).vpc.trans place.2.1,
    (all.trans last).vaddr.trans place.2.2.1, (all.trans last).maddr.trans place.2.2.2.1,
    ?_, ?_, ?_⟩
  · rw [inst, next, length]
  · rw [pre, inst, length]
    omega
  · rw [inst, length]
    omega

end Stages

def startAt (vbase off : Nat) : NCDecoderState := { freshSlot with mpc := off, vpc := vbase + off }

def instAt (tables : DecodeTables) (code : Mem) (vbase off : Nat) : Option NCDecoderState :=
  decodeInst tables (fun i => code (off + i)) (startAt vbase off)

inductive Sweep (tables : DecodeTables) (code : Mem) (vbase : Nat) :
    Nat → List NCDecoderState → Nat → Prop
  | nil (off : Nat) : Sweep tables code vbase off [] off
  | cons {off stop : Nat} {m : NCDecoderState} {rest : List NCDecoderState}
      (here : instAt tables code vbase off = some m)
      (after : Sweep tables code vbase (off + m.inst.length) rest stop) :
      Sweep tables code vbase off (m :: rest) stop

section Geometry

variable {tables : DecodeTables} {code : Mem} {vbase off stop : Nat} {m : NCDecoderState}
  {insts : List NCDecoderState}

structure Placed (vbase off : Nat) (m : NCDecoderState) : Prop where
  maddr : m.inst.maddr = off
  vaddr : m.inst.vaddr = vbase + off
  bounds : m.inst.prefixbytes < m.inst.length ∧ m.inst.length ≤ 19

theorem instAt_placed (here : instAt tables code vbase off = some m) : Placed vbase off m := by
  have decoded := decodeInst_spec tables _ rfl here
  exact ⟨decoded.maddr, decoded.vaddr, decoded.bounds⟩

section

variable (sweep : Sweep tables code vbase off insts stop)
include sweep

theorem Sweep.snoc (here : instAt tables code vbase stop = some m) :
    Sweep tables code vbase off (insts ++ [m]) (stop + m.inst.length) := by
  induction sweep with
  | nil off => exact .cons here (.nil _)
  | cons first after ih => exact .cons first (ih here)

theorem Sweep.ordered : off ≤ stop := by
  induction sweep with
  | nil off => exact Nat.le_refl _
  | cons here after ih => omega

theorem Sweep.inside (member : m ∈ insts) :
    Placed vbase m.inst.maddr m ∧ off ≤ m.inst.maddr ∧ m.inst.maddr + m.inst.length ≤ stop := by
  induction sweep with
  | nil off => cases member
  | cons here after ih =>
    have placed := instAt_placed here
    have order := after.ordered
    rcases List.mem_cons.mp member with rfl | member
    · have same := placed.maddr
      exact ⟨by rw [same]; exact placed, by omega, by omega⟩
    · obtain ⟨there, lower, upper⟩ := ih member
      exact ⟨there, by omega, upper⟩

theorem Sweep.disjoint : insts.Pairwise fun m n => m.inst.maddr + m.inst.length ≤ n.inst.maddr := by
  induction sweep with
  | nil off => exact .nil
  | cons here after ih =>
    refine .cons ?_ ih
    intro n member
    have := (after.inside member).2.1
    have := (instAt_placed here).maddr
    omega

theorem Sweep.covers {x : Nat} (lower : off ≤ x) (upper : x < stop) :
    ∃ m ∈ insts, m.inst.maddr ≤ x ∧ x < m.inst.maddr + m.inst.length := by
  induction sweep with
  | nil off => omega
  | @cons off stop m rest here after ih =>
    have same := (instAt_placed here).maddr
    by_cases first : x < off + m.inst.length
    · exact ⟨m, by simp, by omega, by omega⟩
    · obtain ⟨n, member, bounds⟩ := ih (by omega) upper
      exact ⟨n, by simp [member], bounds⟩

theorem Sweep.last (last : insts.getLast? = some m) : m.inst.maddr + m.inst.length = stop := by
  induction sweep with
  | nil off => contradiction
  | @cons off stop first rest here after ih =>
    cases after with
    | nil =>
      obtain rfl : first = m := by simpa using last
      rw [(instAt_placed here).maddr]
    | cons next after => exact ih (by simpa using last)

theorem Sweep.unique {n : NCDecoderState} (hm : m ∈ insts) (hn : n ∈ insts) {x : Nat}
    (inm : m.inst.maddr ≤ x ∧ x < m.inst.maddr + m.inst.length)
    (inn : n.inst.maddr ≤ x ∧ x < n.inst.maddr + n.inst.length) : m = n := by
  have pair := sweep.disjoint
  induction insts generalizing off with
  | nil => cases hm
  | cons first rest ih =>
    obtain ⟨ahead, pair⟩ := List.pairwise_cons.mp pair
    cases sweep with
    | cons here after =>
      rcases List.mem_cons.mp hm with rfl | mrest <;> rcases List.mem_cons.mp hn with rfl | nrest
      · rfl
      · have := ahead n nrest
        omega
      · have := ahead m mrest
        omega
      · exact ih after mrest nrest pair

end

end Geometry

end Glopen.Ncval
