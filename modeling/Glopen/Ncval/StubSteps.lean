import Glopen.Ncval.Checks
import Glopen.Ncval.StubOut

/-! What `ValidateInst` does to one instruction when rejected instructions are stubbed out: it
accepts the instruction and leaves its bytes alone, or overwrites all of them. -/
namespace Glopen.Ncval

open Memory Nacl Option

structure TypeOk (mem : Mem) (alignment : BundleSize) (prev m : NCDecoderState) : Prop where
  admitted : rejectedType m.opinfo.insttype = false
  data16 : m.opinfo.insttype = .sse2x → m.inst.prefixmask.has kPrefixDATA16 = true
  indirect : m.opinfo.insttype = .indirect → prev.inst.length ≠ 0 ∧ MaskedPair mem alignment prev m

/-- `BadInstructionError` is not called for the instruction. -/
structure Acceptable (mem : Mem) (alignment : BundleSize) (prev m : NCDecoderState) : Prop where
  prefixes : prefixAllowed m = true
  short : m.inst.length - m.inst.prefixbytes ≤ kMaxValidInstLength
  typed : TypeOk mem alignment prev m

section Squash

variable {mem mem' : Mem} {m prev prev' : NCDecoderState} {v v' : NCValidatorState}
  {cpu : CPUFeatures} {x : Nat}

theorem squash_inside (lower : m.inst.maddr ≤ x) (upper : x < m.inst.maddr + m.inst.length) :
    squash mem m x = kNaClFullStop :=
  if_pos ⟨lower, upper⟩

theorem squash_outside (outside : ¬ (m.inst.maddr ≤ x ∧ x < m.inst.maddr + m.inst.length)) :
    squash mem m x = mem x :=
  if_neg outside

theorem squash_squash (mem : Mem) (m : NCDecoderState) : squash (squash mem m) m = squash mem m := by
  funext x
  by_cases inside : m.inst.maddr ≤ x ∧ x < m.inst.maddr + m.inst.length
  · rw [squash_inside inside.1 inside.2, squash_inside inside.1 inside.2]
  · rw [squash_outside inside]

/-- Whether the processor lacks an instruction depends on its type and, for the fences, on its
third byte. -/
theorem validateInstType_squash
    (third : m.opinfo.insttype = .sfenceClflush → instByte mem' m 2 = instByte mem m 2) :
    (validateInstType mem' m cpu prev' v').2 = (validateInstType mem m cpu prev v).2 := by
  cases kind : m.opinfo.insttype
  case sfenceClflush =>
    simp only [validateInstType, kind, validateSFenceClFlush]
    rw [third kind]
  all_goals simp only [validateInstType, kind]

theorem rememberIP_alignment (ip : Nat) (v : NCValidatorState) : (rememberIP ip v).alignment = v.alignment := by
  unfold rememberIP
  repeat' split
  all_goals rfl

theorem rememberTP_alignment (target : Nat) (v : NCValidatorState) :
    (rememberTP target v).alignment = v.alignment := by
  unfold rememberTP
  repeat' split
  all_goals rfl

theorem forgetIP_alignment (ip : Nat) (v : NCValidatorState) : (forgetIP ip v).alignment = v.alignment := by
  unfold forgetIP
  split <;> rfl

theorem validateCallAlignment_alignment (m : NCDecoderState) (v : NCValidatorState) :
    (validateCallAlignment m v).alignment = v.alignment := by
  unfold validateCallAlignment
  simp only
  split <;> rfl

theorem validateJmp8_alignment (mem : Mem) (m : NCDecoderState) (v : NCValidatorState) :
    (validateJmp8 mem m v).alignment = v.alignment := by
  unfold validateJmp8
  simp only
  split
  · exact rememberTP_alignment _ v
  · rfl

theorem validateJmpz_alignment (mem : Mem) (m : NCDecoderState) (v : NCValidatorState) :
    (validateJmpz mem m v).alignment = v.alignment := by
  unfold validateJmpz
  simp only
  repeat' split
  · exact (validateCallAlignment_alignment m _).trans (rememberTP_alignment _ v)
  · exact rememberTP_alignment _ v
  · exact rememberTP_alignment _ v
  · rfl
  · rfl

end Squash

section Stages

variable (stub : Bool) (cpu : CPUFeatures) (m prev : NCDecoderState) (s : Scrutiny)

structure Quiet (s s' : Scrutiny) : Prop where
  mem : s'.mem = s.mem
  errors : s'.errors = s.errors
  alignment : s'.vstate.alignment = s.vstate.alignment

structure Rejects (stub : Bool) (m : NCDecoderState) (s s' : Scrutiny) : Prop where
  mem : stub = true → s'.mem = squash s.mem m
  alignment : s'.vstate.alignment = s.vstate.alignment

theorem reject_rejects (msg : String) : Rejects stub m s (reject stub m msg s) where
  mem := fun on => by simp only [reject, badInstructionError, on, if_true]
  alignment := rfl

variable {stub m s} in
theorem Rejects.again {s' : Scrutiny} (first : Rejects stub m s s') (msg : String) :
    Rejects stub m s (reject stub m msg s') where
  mem := fun on => by
    rw [(reject_rejects stub m s' msg).mem on, first.mem on, squash_squash]
  alignment := first.alignment

theorem validateIndirect5Stub_cases : (prev.inst.length ≠ 0 ∧ MaskedPair s.mem s.vstate.alignment prev m ∧
      Quiet s (validateIndirect5Stub stub m prev s)) ∨
    (¬ (prev.inst.length ≠ 0 ∧ MaskedPair s.mem s.vstate.alignment prev m) ∧
      Rejects stub m s (validateIndirect5Stub stub m prev s)) := by
  by_cases pair : prev.inst.length ≠ 0 ∧ MaskedPair s.mem s.vstate.alignment prev m
  · left
    obtain ⟨present, pair⟩ := pair
    have group5 := pair.group5
    refine ⟨present, pair, ?_⟩
    unfold validateIndirect5Stub
    simp only
    rw [if_neg present, if_neg (by simp [pair.no_prefixes]), if_neg (by simp [pair.opcode]),
      if_neg (by omega), if_neg (by simp [pair.register]), if_neg pair.not_esp,
      if_neg (by simp [pair.and_opcode]), if_neg (by simp [pair.and_register]),
      if_neg (by simp [pair.and_mask])]
    refine ⟨rfl, rfl, ?_⟩
    simp only
    split
    · exact (validateCallAlignment_alignment m _).trans (forgetIP_alignment _ _)
    · exact forgetIP_alignment _ _
  · right
    refine ⟨pair, ?_⟩
    have refused := reject_rejects stub m s "Unsafe indirect jump"
    unfold validateIndirect5Stub
    simp only
    split
    · exact refused
    rename_i present
    split
    · exact refused
    rename_i no_prefixes
    split
    · exact refused
    rename_i opcode
    split
    · exact refused
    rename_i group5
    split
    · exact refused
    rename_i register
    split
    · exact refused
    rename_i not_esp
    split
    · exact refused
    rename_i and_opcode
    split
    · exact refused
    rename_i and_register
    split
    · exact refused
    rename_i and_mask
    exact absurd ⟨present, by omega, Decidable.not_not.mp opcode, by omega, by omega, not_esp,
      Decidable.not_not.mp and_opcode, Decidable.not_not.mp and_register,
      Decidable.not_not.mp and_mask⟩ pair

theorem validateInstTypeStub_squash : (validateInstTypeStub stub m cpu prev s).2 =
      (validateInstType s.mem m cpu prev s.vstate).2 := by
  cases kind : m.opinfo.insttype <;> simp only [validateInstTypeStub, validateInstType, kind]

theorem validateInstTypeStub_cases : (TypeOk s.mem s.vstate.alignment prev m ∧
      Quiet s (validateInstTypeStub stub m cpu prev s).1) ∨
    (¬ TypeOk s.mem s.vstate.alignment prev m ∧
      Rejects stub m s (validateInstTypeStub stub m cpu prev s).1) := by
  have refused := reject_rejects stub m s
  -- an accepted type other than those that look further
  have passes (admitted : rejectedType m.opinfo.insttype = false)
      (plain : m.opinfo.insttype ≠ .sse2x ∧ m.opinfo.insttype ≠ .indirect) :
      TypeOk s.mem s.vstate.alignment prev m :=
    ⟨admitted, fun kind => absurd kind plain.1, fun kind => absurd kind plain.2⟩
  cases kind : m.opinfo.insttype
  case indirect =>
    simp only [validateInstTypeStub, kind]
    rcases validateIndirect5Stub_cases stub m prev s with
      ⟨present, pair, quiet⟩ | ⟨apart, rejects⟩
    · exact .inl ⟨⟨by rw [kind]; rfl, fun other => absurd (kind.symm.trans other) (by decide),
        fun _ => ⟨present, pair⟩⟩, quiet⟩
    · exact .inr ⟨fun typed => apart (typed.indirect kind), rejects⟩
  case sse2x =>
    simp only [validateInstTypeStub, kind]
    split
    · rename_i data16
      exact .inl ⟨⟨by rw [kind]; rfl, fun _ => data16,
        fun other => absurd (kind.symm.trans other) (by decide)⟩, rfl, rfl, rfl⟩
    · rename_i data16
      exact .inr ⟨fun typed => data16 (typed.data16 kind), refused _⟩
  case ret =>
    simp only [validateInstTypeStub, kind]
    refine .inr ⟨fun typed => ?_, (refused _).again _⟩
    have := typed.admitted
    rw [kind] at this
    contradiction
  case jmp8 =>
    simp only [validateInstTypeStub, validateInstType, kind]
    exact .inl ⟨passes (by rw [kind]; rfl) (by rw [kind]; decide), rfl, rfl, validateJmp8_alignment _ _ _⟩
  case jmpz =>
    simp only [validateInstTypeStub, validateInstType, kind]
    exact .inl ⟨passes (by rw [kind]; rfl) (by rw [kind]; decide), rfl, rfl, validateJmpz_alignment _ _ _⟩
  all_goals
    simp only [validateInstTypeStub, validateInstType, kind]
    first
    | exact .inl ⟨passes (by rw [kind]; rfl) (by rw [kind]; decide), rfl, rfl, rfl⟩
    | exact .inr ⟨fun typed => absurd typed.admitted (by rw [kind]; decide), refused _⟩

def checkForm (stub : Bool) (m : NCDecoderState) (s : Scrutiny) : Scrutiny :=
  let s := if prefixAllowed m then s else reject stub m "Bad prefix usage" s
  if kMaxValidInstLength < m.inst.length - m.inst.prefixbytes then
    reject stub m "Instruction too long" s
  else s

theorem checkForm_cases : (prefixAllowed m = true ∧ m.inst.length - m.inst.prefixbytes ≤ kMaxValidInstLength ∧
      checkForm stub m s = s) ∨
    (¬ (prefixAllowed m = true ∧ m.inst.length - m.inst.prefixbytes ≤ kMaxValidInstLength) ∧
      Rejects stub m s (checkForm stub m s)) := by
  unfold checkForm
  simp only
  by_cases prefixes : prefixAllowed m = true
  · rw [if_pos prefixes]
    split
    · rename_i long
      exact .inr ⟨fun both => absurd both.2 (by omega), reject_rejects stub m s _⟩
    · rename_i short
      exact .inl ⟨prefixes, by omega, rfl⟩
  · rw [if_neg prefixes]
    refine .inr ⟨fun both => prefixes both.1, ?_⟩
    split
    · exact (reject_rejects stub m s _).again _
    · exact reject_rejects stub m s _

theorem validateInstStub_eq : validateInstStub stub m cpu prev s =
      let s := checkForm stub m { s with vstate := rememberIP m.inst.vaddr s.vstate }
      let (s, squashme) := validateInstTypeStub stub m cpu prev s
      if squashme then { s with mem := squash s.mem m } else s :=
  rfl

theorem validateInstStub_acceptable (ok : Acceptable s.mem s.vstate.alignment prev m) :
    (validateInstStub stub m cpu prev s).errors = s.errors ∧ (validateInstStub stub m cpu prev s).mem =
        (if (validateInstType s.mem m cpu prev s.vstate).2 then squash s.mem m else s.mem) := by
  have aligned := rememberIP_alignment m.inst.vaddr s.vstate
  rw [validateInstStub_eq]
  generalize entered : ({ s with vstate := rememberIP m.inst.vaddr s.vstate } : Scrutiny) = t
  have start : t.mem = s.mem ∧ t.errors = s.errors ∧ t.vstate.alignment = s.vstate.alignment := by
    rw [← entered]
    exact ⟨rfl, rfl, aligned⟩
  have form : checkForm stub m t = t := by
    rcases checkForm_cases stub m t with ⟨-, -, same⟩ | ⟨bad, -⟩
    · exact same
    · exact absurd ⟨ok.prefixes, ok.short⟩ bad
  simp only [form]
  have squashed : (validateInstTypeStub stub m cpu prev t).2 =
      (validateInstType s.mem m cpu prev s.vstate).2 := by
    rw [validateInstTypeStub_squash]
    exact validateInstType_squash fun _ => by rw [start.1]
  rcases validateInstTypeStub_cases stub cpu m prev t with
    ⟨-, quiet⟩ | ⟨bad, -⟩
  · rw [squashed]
    split
    · exact ⟨quiet.errors.trans start.2.1, by simp only; rw [quiet.mem, start.1]⟩
    · exact ⟨quiet.errors.trans start.2.1, quiet.mem.trans start.1⟩
  · rw [start.1, start.2.2] at bad
    exact absurd ok.typed bad

theorem validateInstStub_on : (validateInstStub true m cpu prev s).mem = squash s.mem m ∨
    (Acceptable s.mem s.vstate.alignment prev m ∧ (validateInstType s.mem m cpu prev s.vstate).2 = false ∧
      (validateInstStub true m cpu prev s).mem = s.mem) := by
  by_cases ok : Acceptable s.mem s.vstate.alignment prev m
  · have accepted := (validateInstStub_acceptable true cpu m prev s ok).2
    cases squashme : (validateInstType s.mem m cpu prev s.vstate).2 with
    | true => exact .inl (by rw [accepted, squashme, if_pos rfl])
    | false => exact .inr ⟨ok, rfl, by rw [accepted, squashme, if_neg Bool.false_ne_true]⟩
  · left
    rw [validateInstStub_eq]
    have aligned := rememberIP_alignment m.inst.vaddr s.vstate
    generalize entered : ({ s with vstate := rememberIP m.inst.vaddr s.vstate } : Scrutiny) = t
    have start : t.mem = s.mem ∧ t.vstate.alignment = s.vstate.alignment := by
      rw [← entered]
      exact ⟨rfl, aligned⟩
    rw [← start.1]
    simp only
    generalize checked : checkForm true m t = u
    -- the bytes are halts after the first check that fails, and stay so
    have typed := validateInstTypeStub_cases true cpu m prev u
    have marked : (validateInstTypeStub true m cpu prev u).1.mem = squash t.mem m := by
      rcases checkForm_cases true m t with ⟨prefixes, short, same⟩ | ⟨-, rejects⟩
      · rw [checked] at same
        rcases typed with ⟨good, -⟩ | ⟨-, rejects⟩
        · rw [same, start.1, start.2] at good
          exact absurd ⟨prefixes, short, good⟩ ok
        · rw [rejects.mem rfl, same]
      · rw [checked] at rejects
        rcases typed with ⟨-, quiet⟩ | ⟨-, again⟩
        · rw [quiet.mem, rejects.mem rfl]
        · rw [again.mem rfl, rejects.mem rfl, squash_squash]
    split
    · simp only
      rw [marked, squash_squash]
    · exact marked

theorem validateInstStub_alignment :
    (validateInstStub stub m cpu prev s).vstate.alignment = s.vstate.alignment := by
  rw [validateInstStub_eq]
  have aligned := rememberIP_alignment m.inst.vaddr s.vstate
  generalize entered : ({ s with vstate := rememberIP m.inst.vaddr s.vstate } : Scrutiny) = t
  have start : t.vstate.alignment = s.vstate.alignment := by
    rw [← entered]
    exact aligned
  have formed : (checkForm stub m t).vstate.alignment = t.vstate.alignment := by
    rcases checkForm_cases stub m t with ⟨-, -, same⟩ | ⟨-, rejects⟩
    · rw [same]
    · exact rejects.alignment
  have typed : (validateInstTypeStub stub m cpu prev (checkForm stub m t)).1.vstate.alignment =
      (checkForm stub m t).vstate.alignment := by
    rcases validateInstTypeStub_cases stub cpu m prev (checkForm stub m t) with
      ⟨-, quiet⟩ | ⟨-, rejects⟩
    · exact quiet.alignment
    · exact rejects.alignment
  simp only
  split
  · exact typed.trans (formed.trans start)
  · exact typed.trans (formed.trans start)

end Stages

/-! Without `do_stub_out` the loop is that of the validator, so a second pass that succeeds is a
successful validation of the stubbed bytes. -/

section Off

variable (tables : DecodeTables) (cpu : CPUFeatures) (m prev : NCDecoderState) (s : Scrutiny)

/-- `s` has come to what the validator has. -/
def Scrutiny.Is (s : Scrutiny) (v : NCValidatorState) (mem : Mem) : Prop :=
  s.vstate = v ∧ s.mem = mem

variable {s} {v : NCValidatorState} {mem : Mem}

theorem reject_off (msg : String) (same : s.Is v mem) : (reject false m msg s).Is (statsSawFailure v) mem :=
  ⟨congrArg statsSawFailure same.1, same.2⟩

theorem validateIndirect5Stub_off (same : s.Is v mem) :
    (validateIndirect5Stub false m prev s).Is (validateIndirect5 mem m prev v) mem := by
  have refused := reject_off m "Unsafe indirect jump" same
  obtain ⟨rfl, rfl⟩ := same
  unfold validateIndirect5Stub validateIndirect5
  simp only
  split
  · exact refused
  split
  · exact refused
  split
  · exact refused
  split
  · exact refused
  split
  · exact refused
  split
  · exact refused
  split
  · exact refused
  split
  · exact refused
  split
  · exact refused
  · exact ⟨rfl, rfl⟩

theorem validateInstTypeStub_off (same : s.Is v mem) :
    (validateInstTypeStub false m cpu prev s).1.Is (validateInstType mem m cpu prev v).1 mem := by
  have refused := fun msg => reject_off m msg same
  cases kind : m.opinfo.insttype
  case indirect =>
    simp only [validateInstTypeStub, validateInstType, kind]
    exact validateIndirect5Stub_off m prev same
  case sse2x =>
    simp only [validateInstTypeStub, validateInstType, kind]
    split
    · exact same
    · exact refused _
  case ret =>
    simp only [validateInstTypeStub, validateInstType, kind]
    have twice := reject_off m "Illegal instruction" (refused "ret instruction (not allowed)")
    exact twice
  all_goals
    obtain ⟨rfl, rfl⟩ := same
    simp only [validateInstTypeStub, validateInstType, kind]
    first
    | exact refused _
    | exact ⟨rfl, rfl⟩

def formChecked (m : NCDecoderState) (v : NCValidatorState) : NCValidatorState :=
  let v := if prefixAllowed m then v else statsSawFailure v
  if kMaxValidInstLength < m.inst.length - m.inst.prefixbytes then statsSawFailure v else v

theorem validateInst_eq (mem : Mem) (v : NCValidatorState) : validateInst mem m cpu prev v =
      let (v, squashme) :=
        validateInstType mem m cpu prev (formChecked m (rememberIP m.inst.vaddr v))
      (v, if squashme then squash mem m else mem) :=
  rfl

theorem checkForm_off (same : s.Is v mem) : (checkForm false m s).Is (formChecked m v) mem := by
  have form : (if prefixAllowed m then s else reject false m "Bad prefix usage" s).Is
      (if prefixAllowed m then v else statsSawFailure v) mem := by
    split
    · exact same
    · exact reject_off m _ same
  unfold checkForm formChecked
  simp only
  split
  · exact reject_off m _ form
  · exact form

theorem validateInstStub_off (same : s.Is v mem) :
    (validateInstStub false m cpu prev s).Is (validateInst mem m cpu prev v).1
      (validateInst mem m cpu prev v).2 := by
  have entered : Scrutiny.Is { s with vstate := rememberIP m.inst.vaddr s.vstate }
      (rememberIP m.inst.vaddr v) mem :=
    ⟨congrArg (rememberIP m.inst.vaddr) same.1, same.2⟩
  have form := checkForm_off m entered
  have typed := validateInstTypeStub_off cpu m prev form
  rw [validateInstStub_eq, validateInst_eq]
  simp only
  rw [validateInstTypeStub_squash, form.1, form.2]
  split
  · exact ⟨typed.1, congrArg (squash · m) typed.2⟩
  · exact typed

theorem advanceStub_off (newpc : Nat) (st : StubLoop) :
    (advanceStub cpu false m newpc st).toDecodeLoop = advance cpu m newpc st.toDecodeLoop := by
  obtain ⟨vstate, mem⟩ := validateInstStub_off cpu m (previousInst st.toDecodeLoop)
    (s := ⟨st.vstate, st.mem, st.errors⟩) ⟨rfl, rfl⟩
  simp only [advanceStub, advance, vstate, mem]

theorem decodeLoopStub_off (vlimit fuel : Nat) (st : StubLoop) :
    (decodeLoopStub tables cpu false vlimit fuel st).map (·.toDecodeLoop) =
      decodeLoop tables cpu vlimit fuel st.toDecodeLoop := by
  induction fuel generalizing st with
  | zero => rfl
  | succ fuel ih =>
    unfold decodeLoopStub decodeLoop
    simp only
    split
    · rfl
    cases decodeInst tables (fun i => st.mem ((st.decodebuffer st.slot).mpc + i))
        (st.decodebuffer st.slot) with
    | none => rfl
    | some m =>
      simp only [bind_eq_bind, bind_some]
      split
      · rfl
      · rw [ih, advanceStub_off]

theorem ncValidateSegmentStub_off (fuel : Nat) (code : Mem) (vbase size : Nat) (v : NCValidatorState) :
    (ncValidateSegmentStub tables cpu false fuel code vbase size v).map (fun pass => (pass.vstate, pass.mem)) =
      ncValidateSegment tables cpu fuel code vbase size v := by
  have loop := decodeLoopStub_off tables cpu ((vbase + size) % 2 ^ 32) fuel (startLoop code vbase v)
  unfold ncValidateSegmentStub ncValidateSegment
  split
  · rfl
  split
  · rfl
  unfold ncDecodeSegmentStub ncDecodeSegment
  simp only [bind_eq_bind]
  rw [show (⟨code, putSlot (fun _ => freshSlot) 0 { freshSlot with vpc := vbase }, 0,
    kDecodeBufferSize, statsNewSegment v⟩ : DecodeLoop) = (startLoop code vbase v).toDecodeLoop
    from rfl, ← loop]
  cases decodeLoopStub tables cpu false ((vbase + size) % 2 ^ 32) fuel (startLoop code vbase v)
  · rfl
  · rfl

end Off

theorem naClValidateCode_accepts {size : Nat} {tables : DecodeTables} {cpu : CPUFeatures}
    {heap : Heap size} {stubOutMode : Bool} {fuel : Nat} {guestAddr : BitVec 32} {data mem : Mem}
    {bundleSize : Nat}
    (ok : naClValidateCode tables cpu heap stubOutMode fuel guestAddr data bundleSize = some (.ok, mem)) :
    ∃ v code, stubOutPass tables cpu stubOutMode fuel data guestAddr.toNat size v = some code ∧
      ncValidate tables cpu heap fuel code guestAddr bundleSize = some 0 := by
  unfold naClValidateCode at ok
  split at ok
  · cases ok
  rename_i v init
  simp only [bind_eq_bind, bind_eq_some_iff] at ok
  obtain ⟨code, first, second, ran, status⟩ := ok
  refine ⟨v, code, first, ?_⟩
  have pass := ncValidateSegmentStub_off tables cpu fuel code guestAddr.toNat size v
  rw [ran] at pass
  have clean : (ncValidateFinish second.vstate).sawfailure = false := by
    cases failed : (ncValidateFinish second.vstate).sawfailure with
    | false => rfl
    | true => simp [failed] at status
  unfold ncValidate
  rw [init]
  simp only [← pass, map_some, bind_eq_bind, bind_some, clean]
  rfl

end Glopen.Ncval
