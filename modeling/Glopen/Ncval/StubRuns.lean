import Glopen.Nacl.App
import Glopen.Ncval.ControlFlow
import Glopen.Ncval.DecodeBytes
import Glopen.Ncval.StubSteps

/-! The two passes of stub-out mode: the second one meets every instruction of the first and has
no bad instruction to report. -/
namespace Glopen.Ncval

open Memory Nacl List Option

structure Ready (vbase off : Nat) (alignment : BundleSize) (st : StubLoop) : Prop where
  slot : st.slot < 4 ∧ st.slot = st.dbindex % 4
  vpc : (st.decodebuffer st.slot).vpc = vbase + off
  mpc : (st.decodebuffer st.slot).mpc = off
  nextbyte : (st.decodebuffer st.slot).nextbyte = 0
  prev : (previousInst st.toDecodeLoop).inst.length ≠ 0 →
    (previousInst st.toDecodeLoop).inst.maddr + (previousInst st.toDecodeLoop).inst.length = off
  alignment : st.vstate.alignment = alignment

def StubLoop.settled (m : NCDecoderState) (st : StubLoop) : StubLoop :=
  { st with toDecodeLoop := Ncval.settled m st.toDecodeLoop }

def StubLoop.round (cpu : CPUFeatures) (stub : Bool) (m : NCDecoderState) (st : StubLoop) : StubLoop :=
  advanceStub cpu stub m (m.vpc + m.inst.length) (st.settled m)

def StubLoop.ended (m : NCDecoderState) (st : StubLoop) : StubLoop :=
  { st.settled m with vstate := statsSawFailure (st.settled m).vstate }

variable {tables : DecodeTables} {cpu : CPUFeatures} {vbase off size fuel : Nat} {alignment : BundleSize}
  {st : StubLoop} {m : NCDecoderState}

section Rounds

variable {stub : Bool}

theorem reportInternal_alignment (m : NCDecoderState) (v : NCValidatorState) :
    (reportInternal m v).alignment = v.alignment := by
  unfold reportInternal
  split <;> rfl

def StubLoop.scrutiny (m : NCDecoderState) (st : StubLoop) : Scrutiny :=
  ⟨reportInternal m st.vstate, st.mem, st.errors⟩

section

variable (ready : Ready vbase off alignment st)
include ready

theorem Ready.checked (cpu : CPUFeatures) (stub : Bool) (m : NCDecoderState) :
    ∃ s, s = validateInstStub stub m cpu (previousInst st.toDecodeLoop) (st.scrutiny m) ∧
      (st.round cpu stub m).mem = s.mem ∧ (st.round cpu stub m).errors = s.errors ∧
      (st.round cpu stub m).vstate = s.vstate ∧
      (st.round cpu stub m).seen = st.seen ++ [m] := by
  have prev := previousInst_settled (m := m) ready.slot.1
  refine ⟨_, rfl, ?_, ?_, ?_, rfl⟩ <;> rw [← prev] <;> rfl

theorem Ready.last (cpu : CPUFeatures) (stub : Bool) (m : NCDecoderState) :
    previousInst (st.round cpu stub m).toDecodeLoop = m := by
  have slot := ready.slot
  simp only [StubLoop.round, StubLoop.settled, previousInst, advanceStub, settled, putSlot, kDecodeBufferSize]
  rw [if_neg (by omega), if_pos (by omega)]

theorem Ready.round (cpu : CPUFeatures) (stub : Bool) (here : instAt tables st.mem vbase off = some m) :
    Ready vbase (off + m.inst.length) alignment (st.round cpu stub m) := by
  have decoded := decodeInst_spec tables _ rfl here
  have placed := instAt_placed here
  have last := ready.last cpu stub m
  obtain ⟨s, same, -, -, vstate, -⟩ := ready.checked cpu stub m
  have slot := ready.slot
  refine ⟨?_, ?_, ?_, ?_, ?_, ?_⟩
  · simp only [StubLoop.round, advanceStub, kDecodeBufferSize]
    omega
  · simp only [StubLoop.round, advanceStub, putSlot, if_true, decoded.vpc, startAt]
    omega
  · simp [StubLoop.round, advanceStub, putSlot, decoded.mpc, startAt]
  · simp [StubLoop.round, advanceStub, putSlot, decoded.length]
  · intro _
    rw [last, placed.maddr]
  · rw [vstate, same, validateInstStub_alignment, StubLoop.scrutiny, reportInternal_alignment]
    exact ready.alignment

theorem Ready.decoded : decodeInst tables (fun i => st.mem ((st.decodebuffer st.slot).mpc + i))
      (st.decodebuffer st.slot) = instAt tables st.mem vbase off := by
  rw [ready.mpc]
  exact decodeInst_congr tables _ ready.mpc ready.vpc ready.nextbyte

theorem decodeLoopStub_done (complete : size ≤ off) :
    decodeLoopStub tables cpu stub (vbase + size) (fuel + 1) st = some st := by
  have vpc := ready.vpc
  unfold decodeLoopStub
  simp only
  rw [if_pos (by omega)]

end

section

variable (ready : Ready vbase off alignment st) (more : off < size) (room : vbase + size + 19 ≤ 2 ^ 32)
  (here : instAt tables st.mem vbase off = some m)
include ready more room here

theorem decodeLoopStub_past (past : size < off + m.inst.length) :
    decodeLoopStub tables cpu stub (vbase + size) (fuel + 1) st = some (st.ended m) := by
  have vpc := ready.vpc
  have bounds := (instAt_placed here).bounds
  have decoded := decodeInst_spec tables _ rfl here
  have place : m.vpc = vbase + off := decoded.vpc
  unfold decodeLoopStub
  simp only
  rw [if_neg (by omega), ready.decoded, here]
  simp only [bind_eq_bind, bind_some]
  rw [if_pos (by rw [place, Nat.mod_eq_of_lt (by omega)]; omega)]
  rfl

theorem decodeLoopStub_round (fits : off + m.inst.length ≤ size) :
    decodeLoopStub tables cpu stub (vbase + size) (fuel + 1) st =
      decodeLoopStub tables cpu stub (vbase + size) fuel (st.round cpu stub m) := by
  have vpc := ready.vpc
  have bounds := (instAt_placed here).bounds
  have decoded := decodeInst_spec tables _ rfl here
  have place : m.vpc = vbase + off := decoded.vpc
  have small : (m.vpc + m.inst.length) % 2 ^ 32 = m.vpc + m.inst.length :=
    Nat.mod_eq_of_lt (by omega)
  rw [decodeLoopStub]
  simp only
  rw [if_neg (by omega), ready.decoded, here]
  simp only [bind_eq_bind, bind_some, small]
  rw [if_neg (by omega)]
  rfl

end

theorem decodeLoopStub_rule (legal : LegalTables tables) (room : vbase + size + 19 ≤ 2 ^ 32)
    (Run : Nat → StubLoop → StubLoop → Prop)
    (done : ∀ off st, Ready vbase off alignment st → size ≤ off → Run off st st)
    (past : ∀ off st m, Ready vbase off alignment st → off < size →
      instAt tables st.mem vbase off = some m → size < off + m.inst.length →
      Run off st (st.ended m))
    (round : ∀ off st m final, Ready vbase off alignment st → off < size →
      instAt tables st.mem vbase off = some m → off + m.inst.length ≤ size →
      Run (off + m.inst.length) (st.round cpu stub m) final → Run off st final)
    (ready : Ready vbase off alignment st) (enough : size - off < fuel) :
    ∃ final, decodeLoopStub tables cpu stub (vbase + size) fuel st = some final ∧ Run off st final := by
  induction fuel generalizing off st with
  | zero => omega
  | succ fuel ih =>
    by_cases complete : size ≤ off
    · exact ⟨st, decodeLoopStub_done ready complete, done off st ready complete⟩
    · have more : off < size := by omega
      obtain ⟨m, here⟩ : ∃ m, instAt tables st.mem vbase off = some m := decodeInst_total legal
      by_cases fits : off + m.inst.length ≤ size
      · have bounds := (instAt_placed here).bounds
        obtain ⟨final, ran, run⟩ := ih (ready.round cpu stub here) (by omega)
        exact ⟨final, (decodeLoopStub_round ready more room here fits).trans ran,
          round off st m final ready more here fits run⟩
      · exact ⟨_, decodeLoopStub_past ready more room here (by omega), past off st m ready more here (by omega)⟩

end Rounds

section Passes

variable {st₂ : StubLoop}

theorem halts_run (legal : LegalTables tables) (cpu : CPUFeatures)
    (room : vbase + size + 19 ≤ 2 ^ 32) (count : Nat)
    (ready : Ready vbase off alignment st) (fits : off + count ≤ size)
    (halts : ∀ x, off ≤ x → x < off + count → st.mem x = kNaClFullStop) :
    ∃ st', (∀ fuel, decodeLoopStub tables cpu false (vbase + size) (fuel + count) st =
        decodeLoopStub tables cpu false (vbase + size) fuel st') ∧
      Ready vbase (off + count) alignment st' ∧ st'.errors = st.errors ∧
      (∀ x, off + count ≤ x → st'.mem x = st.mem x) ∧ (∀ n ∈ st.seen, n ∈ st'.seen) ∧
      (0 < count → ∃ n ∈ st'.seen, n.inst.vaddr = vbase + off) := by
  induction count generalizing off st with
  | zero => exact ⟨st, fun _ => rfl, ready, rfl, fun _ _ => rfl, fun _ seen => seen,
      fun positive => absurd positive (Nat.lt_irrefl 0)⟩
  | succ count ih =>
    obtain ⟨m, here, one, plain, kind⟩ : ∃ m, instAt tables st.mem vbase off = some m ∧
        m.inst.length = 1 ∧ m.inst.prefixbytes = 0 ∧ m.opinfo.insttype = .i386 :=
      decodeInst_halt legal rfl (halts off (Nat.le_refl _) (by omega))
    obtain ⟨s, check, mem, errors, -, seen⟩ :=
      ready.checked cpu false m
    have ok : Acceptable (st.scrutiny m).mem (st.scrutiny m).vstate.alignment (previousInst st.toDecodeLoop) m :=
      ⟨by simp [prefixAllowed, plain], by simp [one, plain, kMaxValidInstLength],
        by rw [kind]; rfl, fun other => absurd (kind.symm.trans other) (by decide),
        fun other => absurd (kind.symm.trans other) (by decide)⟩
    have accepted := validateInstStub_acceptable false cpu m _ _ ok
    have stays : (validateInstType (st.scrutiny m).mem m cpu (previousInst st.toDecodeLoop)
        (st.scrutiny m).vstate).2 = false := by
      simp only [validateInstType, kind]
    rw [stays, if_neg Bool.false_ne_true, ← check] at accepted
    have same : (st.round cpu false m).mem = st.mem := mem.trans accepted.2
    have next := ready.round cpu false here
    rw [one] at next
    obtain ⟨st', runs, ready', errors', mem', kept, -⟩ := ih next (by omega) fun x lower upper => by
      rw [same]
      exact halts x (by omega) (by omega)
    refine ⟨st', fun fuel => ?_, ?_, ?_, ?_, ?_, fun _ => ?_⟩
    · rw [← runs, ← Nat.add_assoc]
      exact decodeLoopStub_round ready (by omega) room here (by omega)
    · rwa [show off + (count + 1) = off + 1 + count by omega]
    · rw [errors', errors, accepted.1]
      rfl
    · intro x above
      rw [mem' x (by omega), same]
    · intro n member
      exact kept n (by rw [seen]; exact mem_append_left _ member)
    · exact ⟨m, kept m (by rw [seen]; exact mem_append_right _ (mem_singleton.mpr rfl)),
        (instAt_placed here).vaddr⟩

/-- What the second pass can see of the instruction before: if it starts with the byte of an
`and`, it was not overwritten and both passes have it. -/
def SameMask (st st₂ : StubLoop) : Prop :=
  (previousInst st.toDecodeLoop).inst.length ≠ 0 →
  3 ≤ (previousInst st.toDecodeLoop).inst.length →
  instByte st.mem (previousInst st.toDecodeLoop) 0 = 0x83 →
  previousInst st₂.toDecodeLoop = previousInst st.toDecodeLoop ∧
    ∀ i < 3, instByte st₂.mem (previousInst st.toDecodeLoop) i =
      instByte st.mem (previousInst st.toDecodeLoop) i

theorem SameMask.pair (same : SameMask st st₂) (ready : Ready vbase off alignment st)
    (start : m.inst.maddr = off) (opcodes : ∀ i < 2, instByte st₂.mem m i = instByte st.mem m i)
    (present : (previousInst st.toDecodeLoop).inst.length ≠ 0)
    (pair : MaskedPair st.mem alignment (previousInst st.toDecodeLoop) m) :
    (previousInst st₂.toDecodeLoop).inst.length ≠ 0 ∧
      MaskedPair st₂.mem alignment (previousInst st₂.toDecodeLoop) m := by
  have long := pair.length ((ready.prev present).trans start.symm) (by omega)
  obtain ⟨prev, bytes⟩ := same present long pair.and_opcode
  rw [prev]
  refine ⟨present, pair.no_prefixes, ?_, ?_, ?_, ?_, ?_, ?_, ?_⟩
  · rw [opcodes 0 (by decide), pair.opcode]
  · rw [opcodes 1 (by decide)]
    exact pair.group5
  · rw [opcodes 1 (by decide), pair.register]
  · rw [opcodes 1 (by decide)]
    exact pair.not_esp
  · rw [bytes 0 (by decide), pair.and_opcode]
  · rw [bytes 1 (by decide), opcodes 1 (by decide), pair.and_register]
  · rw [bytes 2 (by decide), pair.and_mask]

theorem instAt_congr {mem mem' : Mem} (here : instAt tables mem vbase off = some m)
    (same : ∀ x, off ≤ x → x < off + m.inst.length → mem' x = mem x) : instAt tables mem' vbase off = some m :=
  decodeInst_local tables rfl here fun i inside => same _ (Nat.le_add_right _ _) (by omega)

/-- The second pass from `st₂` does what the first pass from `st` to `final` has prepared. -/
structure Follows (st final st₂ final₂ : StubLoop) : Prop where
  errors : final₂.errors = st₂.errors
  kept : ∀ n ∈ st₂.seen, n ∈ final₂.seen
  boundaries : ∀ m ∈ final.seen, m ∈ st.seen ∨ ∃ n ∈ final₂.seen, n.inst.vaddr = m.inst.vaddr
  stop : (final₂.decodebuffer final₂.slot).mpc = (final.decodebuffer final.slot).mpc

/-- The first pass leaves the bytes behind it alone, and the second one follows it over the
bytes that it leaves. -/
def Converges (tables : DecodeTables) (cpu : CPUFeatures) (vbase size : Nat)
    (alignment : BundleSize) (off : Nat) (st final : StubLoop) : Prop :=
  (∀ x < off, final.mem x = st.mem x) ∧
  ∀ st₂ fuel, Ready vbase off alignment st₂ → size - off < fuel →
    (∀ x, off ≤ x → st₂.mem x = final.mem x) → SameMask st st₂ →
    ∃ final₂, decodeLoopStub tables cpu false (vbase + size) fuel st₂ = some final₂ ∧
      Follows st final st₂ final₂

theorem converges_done (ready : Ready vbase off alignment st) (complete : size ≤ off) :
    Converges tables cpu vbase size alignment off st st := by
  refine ⟨fun _ _ => rfl, fun st₂ fuel ready₂ enough _ _ => ⟨st₂, ?_, ?_⟩⟩
  · obtain ⟨fuel, rfl⟩ : ∃ f, fuel = f + 1 := ⟨fuel - 1, by omega⟩
    exact decodeLoopStub_done ready₂ complete
  · exact ⟨rfl, fun _ seen => seen, fun _ seen => .inl seen, ready₂.mpc.trans ready.mpc.symm⟩

theorem converges_past (room : vbase + size + 19 ≤ 2 ^ 32)
    (ready : Ready vbase off alignment st) (more : off < size)
    (here : instAt tables st.mem vbase off = some m) (past : size < off + m.inst.length) :
    Converges tables cpu vbase size alignment off st (st.ended m) := by
  refine ⟨fun _ _ => rfl, fun st₂ fuel ready₂ enough same _ => ⟨st₂.ended m, ?_, ?_⟩⟩
  · obtain ⟨fuel, rfl⟩ : ∃ f, fuel = f + 1 := ⟨fuel - 1, by omega⟩
    have here₂ : instAt tables st₂.mem vbase off = some m :=
      instAt_congr here fun x lower _ => same x lower
    exact decodeLoopStub_past ready₂ more room here₂ past
  · exact ⟨rfl, fun _ seen => seen, fun _ seen => .inl seen,
      by simp [StubLoop.ended, StubLoop.settled, settled, putSlot]⟩

section

variable (legal : LegalTables tables) (room : vbase + size + 19 ≤ 2 ^ 32) {final : StubLoop}
  (ready : Ready vbase off alignment st)
include legal room ready

theorem converges_stubbed (here : instAt tables st.mem vbase off = some m) (fits : off + m.inst.length ≤ size)
    (stubbed : (st.round cpu true m).mem = squash st.mem m)
    (rest : Converges tables cpu vbase size alignment (off + m.inst.length)
      (st.round cpu true m) final) (ready₂ : Ready vbase off alignment st₂)
    (enough : size - off < fuel) (same : ∀ x, off ≤ x → st₂.mem x = final.mem x) :
    ∃ final₂, decodeLoopStub tables cpu false (vbase + size) fuel st₂ = some final₂ ∧
      Follows st final st₂ final₂ := by
  have placed := instAt_placed here
  have bounds := placed.bounds
  have left : size - (off + m.inst.length) < fuel - m.inst.length := by omega
  have first : m.inst.maddr + 0 < m.inst.maddr + m.inst.length := by omega
  have split : fuel - m.inst.length + m.inst.length = fuel := by omega
  obtain ⟨st', runs, ready', errors, behind, kept, boundary⟩ :=
    halts_run legal cpu room m.inst.length ready₂ fits fun x lower upper => by
      rw [same x lower, rest.1 x upper, stubbed]
      exact squash_inside (by rw [placed.maddr]; exact lower) (by rw [placed.maddr]; exact upper)
  have mask : SameMask (st.round cpu true m) st' := by
    intro _ _ opcode
    rw [ready.last cpu true m, instByte, stubbed, squash_inside (Nat.le_add_right _ _) first] at opcode
    exact absurd opcode (by decide)
  have bytes : ∀ x, off + m.inst.length ≤ x → st'.mem x = final.mem x :=
    fun x above => (behind x above).trans (same x (by omega))
  obtain ⟨final₂, ran, follows⟩ := rest.2 st' (fuel - m.inst.length) ready' left bytes mask
  refine ⟨final₂, ?_, follows.errors.trans errors, fun n seen => follows.kept n (kept n seen), ?_, follows.stop⟩
  · rw [← ran, ← runs, split]
  · intro n seen
    obtain ⟨-, -, -, -, -, added⟩ := ready.checked cpu true m
    rcases follows.boundaries n seen with earlier | found
    · rw [added] at earlier
      rcases mem_append.mp earlier with earlier | last
      · exact .inl earlier
      · obtain ⟨halt, member, start⟩ := boundary (Nat.zero_lt_of_lt bounds.1)
        rw [mem_singleton.mp last]
        exact .inr ⟨halt, follows.kept halt member, start.trans placed.vaddr.symm⟩
    · exact .inr found

section

variable (more : off < size) (here : instAt tables st.mem vbase off = some m)
  (fits : off + m.inst.length ≤ size)
include more here fits

theorem converges_kept (ok : Acceptable st.mem alignment (previousInst st.toDecodeLoop) m)
    (present : (validateInstType st.mem m cpu (previousInst st.toDecodeLoop) (st.scrutiny m).vstate).2 = false)
    (stays : (st.round cpu true m).mem = st.mem)
    (rest : Converges tables cpu vbase size alignment (off + m.inst.length)
      (st.round cpu true m) final) (ready₂ : Ready vbase off alignment st₂)
    (enough : size - off < fuel) (same : ∀ x, off ≤ x → st₂.mem x = final.mem x) (mask : SameMask st st₂) :
    ∃ final₂, decodeLoopStub tables cpu false (vbase + size) fuel st₂ = some final₂ ∧
      Follows st final st₂ final₂ := by
  have placed := instAt_placed here
  have start := placed.maddr
  have bounds := placed.bounds
  have own : ∀ x, off ≤ x → x < off + m.inst.length → st₂.mem x = st.mem x := by
    intro x lower upper
    rw [same x lower, rest.1 x upper, stays]
  have bytes : ∀ i < m.inst.length, instByte st₂.mem m i = instByte st.mem m i :=
    fun i inside => own _ (by omega) (by omega)
  have here₂ := instAt_congr here own
  have ok₂ : Acceptable (st₂.scrutiny m).mem (st₂.scrutiny m).vstate.alignment
      (previousInst st₂.toDecodeLoop) m := by
    refine ⟨ok.prefixes, ok.short, ok.typed.admitted, ok.typed.data16, fun kind => ?_⟩
    obtain ⟨there, pair⟩ := ok.typed.indirect kind
    have long : 2 ≤ m.inst.length :=
      instAt_group5 legal here pair.no_prefixes.1 (by rw [← start]; exact pair.opcode)
    rw [StubLoop.scrutiny, reportInternal_alignment, ready₂.alignment]
    exact mask.pair ready start (fun i two => bytes i (by omega)) there pair
  obtain ⟨s, check, mem, errors, -, added⟩ := ready₂.checked cpu false m
  have accepted := validateInstStub_acceptable false cpu m _ _ ok₂
  rw [← check] at accepted
  have behind : ∀ x, off + m.inst.length ≤ x → (st₂.round cpu false m).mem x = st₂.mem x := by
    intro x above
    rw [mem, accepted.2]
    split
    · exact squash_outside (by omega)
    · rfl
  have next : SameMask (st.round cpu true m) (st₂.round cpu false m) := by
    rw [SameMask, ready.last cpu true m, ready₂.last cpu false m, stays]
    intro _ long _
    have unsquashed : (st₂.round cpu false m).mem = st₂.mem := by
      have implemented : (validateInstType (st₂.scrutiny m).mem m cpu
          (previousInst st₂.toDecodeLoop) (st₂.scrutiny m).vstate).2 = false :=
        (validateInstType_squash fun _ => bytes 2 (by omega)).trans present
      rw [mem, accepted.2, implemented, if_neg Bool.false_ne_true]
      rfl
    exact ⟨rfl, fun i three => by rw [unsquashed]; exact bytes i (by omega)⟩
  obtain ⟨fuel, rfl⟩ : ∃ f, fuel = f + 1 := ⟨fuel - 1, by omega⟩
  obtain ⟨final₂, ran, follows⟩ := rest.2 _ fuel (ready₂.round cpu false here₂) (by omega)
    (fun x above => (behind x above).trans (same x (by omega))) next
  have again : m ∈ final₂.seen :=
    follows.kept m (by rw [added]; exact mem_append_right _ (mem_singleton.mpr rfl))
  refine ⟨final₂, (decodeLoopStub_round ready₂ more room here₂ fits).trans ran,
    follows.errors.trans (errors.trans accepted.1),
    fun n seen => follows.kept n (by rw [added]; exact mem_append_left _ seen), ?_,
    follows.stop⟩
  intro n seen
  obtain ⟨-, -, -, -, -, added₁⟩ := ready.checked cpu true m
  rcases follows.boundaries n seen with earlier | found
  · rw [added₁] at earlier
    rcases mem_append.mp earlier with earlier | last
    · exact .inl earlier
    · rw [mem_singleton.mp last]
      exact .inr ⟨m, again, rfl⟩
  · exact .inr found

theorem converges_round
    (rest : Converges tables cpu vbase size alignment (off + m.inst.length) (st.round cpu true m) final) :
    Converges tables cpu vbase size alignment off st final := by
  have start := (instAt_placed here).maddr
  obtain ⟨s, check, mem, -, -, -⟩ := ready.checked cpu true m
  have outcome := validateInstStub_on cpu m (previousInst st.toDecodeLoop) (st.scrutiny m)
  rw [← check, ← mem] at outcome
  refine ⟨fun x below => ?_, fun st₂ fuel ready₂ enough same mask => ?_⟩
  · rw [rest.1 x (by omega)]
    rcases outcome with stubbed | ⟨-, -, stays⟩
    · rw [stubbed]
      exact squash_outside (by omega)
    · rw [stays]
      rfl
  · rcases outcome with stubbed | ⟨ok, present, stays⟩
    · exact converges_stubbed legal room ready here fits stubbed rest ready₂ enough same
    · rw [StubLoop.scrutiny, reportInternal_alignment, ready.alignment] at ok
      exact converges_kept legal room ready more here fits ok present stays rest ready₂ enough same mask

end

end

theorem ready_start (code : Mem) (vbase : Nat) (v : NCValidatorState) :
    Ready vbase 0 v.alignment (startLoop code vbase v) where
  slot := ⟨by simp [startLoop], by simp [startLoop, kDecodeBufferSize]⟩
  vpc := by simp [startLoop, putSlot]
  mpc := by simp [startLoop, putSlot, freshSlot]
  nextbyte := by simp [startLoop, putSlot, freshSlot]
  prev := by simp [startLoop, previousInst, putSlot, freshSlot, kDecodeBufferSize]
  alignment := by
    unfold startLoop statsNewSegment
    simp only
    split <;> rfl

end Passes

structure StubConvergence (first second : Pass) : Prop where
  boundaries : ∀ m ∈ first.seen, ∃ n ∈ second.seen, n.inst.vaddr = m.inst.vaddr
  stop : second.stop = first.stop
  errors : second.errors = []

theorem decodeSegment_converges (legal : LegalTables tables)
    (cpu : CPUFeatures) (room : vbase + size + 19 ≤ 2 ^ 32) (code : Mem)
    {v v' : NCValidatorState} (same : v'.alignment = v.alignment) (enough : size < fuel) :
    ∃ first second, ncDecodeSegmentStub tables cpu true fuel code vbase size v = some first ∧
      ncDecodeSegmentStub tables cpu false fuel first.mem vbase size v' = some second ∧
      StubConvergence first second := by
  have limit : (vbase + size) % 2 ^ 32 = vbase + size := Nat.mod_eq_of_lt (by omega)
  have enough' : size - 0 < fuel := enough
  obtain ⟨final, ran, -, follow⟩ :=
    decodeLoopStub_rule legal room (Converges tables cpu vbase size v.alignment)
      (fun _ _ ready complete => converges_done ready complete)
      (fun _ _ _ ready more here past => converges_past room ready more here past)
      (fun _ _ _ _ ready more here fits rest =>
        converges_round legal room ready more here fits rest)
      (ready_start code vbase v) enough'
  obtain ⟨final₂, ran₂, follows⟩ := follow (startLoop final.mem vbase v') fuel
    (same ▸ ready_start final.mem vbase v') enough' (fun _ _ => rfl) (fun present => by
      simp [startLoop, previousInst, putSlot, freshSlot, kDecodeBufferSize] at present)
  refine ⟨⟨final.vstate, final.mem, final.errors, final.seen, _⟩,
    ⟨final₂.vstate, final₂.mem, final₂.errors, final₂.seen, _⟩, ?_, ?_, ?_, follows.stop,
    follows.errors⟩
  · simp only [ncDecodeSegmentStub, limit, ran]
    rfl
  · simp only [ncDecodeSegmentStub, limit, ran₂]
    rfl
  · intro m seen
    exact (follows.boundaries m seen).resolve_left not_mem_nil

/-- The pass that stubs out ends, the next pass over its bytes meets every instruction that it
met and stops where it stopped, and no bad instruction is left to report. The code lies in the
sandbox, so that its end and that of its last instruction do not wrap around. -/
theorem stub_out_converges {tables : DecodeTables} (legal : LegalTables tables)
    (cpu : CPUFeatures) (code : Mem) (guestAddr : BitVec 32) {size : Nat}
    (inside : guestAddr.toNat + size ≤ 2 ^ Arch.x86_32.naclMaxAddrBits)
    {v v' : NCValidatorState} (same : v'.alignment = v.alignment) {fuel : Nat} (enough : size < fuel) :
    ∃ first second, ncValidateSegmentStub tables cpu true fuel code guestAddr.toNat size v = some first ∧
      ncValidateSegmentStub tables cpu false fuel first.mem guestAddr.toNat size v' = some second ∧
      StubConvergence first second := by
  have room : guestAddr.toNat + size + 19 ≤ 2 ^ 32 := by
    rw [show Arch.x86_32.naclMaxAddrBits = 30 from rfl] at inside
    omega
  unfold ncValidateSegmentStub
  split
  · exact ⟨_, _, rfl, rfl, fun _ seen => absurd seen List.not_mem_nil, rfl, rfl⟩
  split
  · exact ⟨_, _, rfl, rfl, fun _ seen => absurd seen List.not_mem_nil, rfl, rfl⟩
  · exact decodeSegment_converges legal cpu room code same enough

def haltTables : DecodeTables :=
  { sampleTables with
    kDecode1ByteOp := fun b =>
      if b = kNaClFullStop then ⟨.i386, false, .none, 0⟩ else sampleTables.kDecode1ByteOp b }

theorem haltTables_legal : LegalTables haltTables where
  halt_prefix := by decide
  halt := by decide
  group5 := by decide
  known := by
    have sample : ∀ b, (sampleTables.kDecode1ByteOp b).immtype ≠ .unknown := by
      intro b
      simp only [sampleTables]
      repeat' split
      all_goals decide
    have first : ∀ b, (haltTables.kDecode1ByteOp b).immtype ≠ .unknown := by
      intro b
      simp only [haltTables]
      split
      · decide
      · exact sample b
    intro table member b
    rcases mem_cons.mp member with rfl | member
    · exact first b
    · simp only [mem_cons, not_mem_nil, or_false] at member
      rcases member with rfl | rfl | rfl | rfl | rfl | rfl | rfl | rfl | rfl <;>
        exact NCDecodeImmediateType.noConfusion

/-- A return, then `and $0xe0, %eax; jmp *%eax` and no-ops. -/
def stubbedSample : Mem := fun x => ([0xc3, 0x83, 0xe0, 0xe0, 0xff, 0xe0][x]?).getD 0x90

def freshValidator : NCValidatorState :=
  ⟨0x20000, 0x20020, bundle32, BitTable.empty, BitTable.empty, 0, false⟩

theorem stub_out_converges_sample : ∃ first second,
    ncValidateSegmentStub haltTables samplePentium true 33 stubbedSample 0x20000 32 freshValidator = some first ∧
    ncValidateSegmentStub haltTables samplePentium false 33 first.mem 0x20000 32 freshValidator = some second ∧
    StubConvergence first second :=
  stub_out_converges haltTables_legal samplePentium stubbedSample 0x20000#32 (by decide) rfl (by decide)

end Glopen.Ncval
