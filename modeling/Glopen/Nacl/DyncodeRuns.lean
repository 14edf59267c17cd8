import Glopen.Nacl.Dyncode

/-! Whole runs of dynamic-code requests. `dynamic_load_mutex` serialises the calls, so a
run is a list of calls; between two stores of one call other threads may look. -/
namespace Glopen.Nacl

open Memory List Option
variable {arch : Arch} (validate : Validator)

structure Session (arch : Arch) where
  nap : NaClApp
  published : List (DyncodeCall arch)

def NaClApp.storeText (nap : NaClApp) (ws : List Write) : NaClApp :=
  { nap with textShm := nap.textShm.map (storeAll · ws) }

/-- `none`: the process has aborted. -/
def Session.step (s : Session arch) (call : DyncodeCall arch) : Option (Session arch) :=
  (naClTextSysDyncodeCopy validate s.nap call).map fun (ret, ws) =>
    { nap := s.nap.storeText ws
      published := if ret = 0 then s.published ++ [call] else s.published }

def Session.run (s : Session arch) (calls : List (DyncodeCall arch)) : Option (Session arch) :=
  calls.foldlM (Session.step validate) s

/-- Every word of the bundle at `start` is the halt word. -/
def HaltFilled (haltWord : Word) (b : BundleSize) (m : Mem) (start : Nat) : Prop :=
  ∀ i < b.toNat / 4, loadWord m (start + 4 * i) = haltWord

instance (haltWord : Word) (b : BundleSize) (m : Mem) (start : Nat) :
    Decidable (HaltFilled haltWord b m start) :=
  inferInstanceAs (Decidable (∀ i < b.toNat / 4, _))

/-- Bundle `k` of the dynamic text lies in the destination of the call. -/
def DyncodeCall.Covers (nap : NaClApp) (call : DyncodeCall arch) (k : Nat) : Prop :=
  call.offset nap ≤ nap.bundleSize.toNat * k ∧ nap.bundleSize.toNat * k < call.offset nap + call.size

instance (nap : NaClApp) (call : DyncodeCall arch) (k : Nat) : Decidable (call.Covers nap k) :=
  inferInstanceAs (Decidable (_ ∧ _))

/-- Where bundle `k` of the dynamic text comes from in the code of the call. -/
def DyncodeCall.codeAt (nap : NaClApp) (call : DyncodeCall arch) (k : Nat) : Nat :=
  nap.bundleSize.toNat * k - call.offset nap

/-- The calls whose code for bundle `k` is not just halts. -/
def writers (nap : NaClApp) (published : List (DyncodeCall arch)) (k : Nat) : List (DyncodeCall arch) :=
  published.filter fun call => call.Covers nap k ∧
    ¬ HaltFilled arch.haltWord nap.bundleSize (call.code validate) (call.codeAt nap k)

def BundleOk (nap : NaClApp) (shm : Mem) (published : List (DyncodeCall arch)) (k : Nat) : Prop :=
  (writers validate nap published k = [] ∧
    HaltFilled arch.haltWord nap.bundleSize shm (nap.bundleSize.toNat * k)) ∨
  ∃ call, writers validate nap published k = [call] ∧
    Holds nap.bundleSize shm (nap.bundleSize.toNat * k) (call.code validate) (call.codeAt nap k)

def Authorised (nap : NaClApp) (call : DyncodeCall arch) : Prop :=
  call.accepted validate = true ∨ nap.ignoreValidatorResult = true

def InProgress (nap : NaClApp) (shm : Mem) (published : List (DyncodeCall arch))
    (call : DyncodeCall arch) (k : Nat) : Prop :=
  writers validate nap published k = [] ∧ call.Covers nap k ∧ Authorised validate nap call ∧
    (HaltStarted arch.haltWord shm (nap.bundleSize.toNat * k) ∨
      Holds nap.bundleSize shm (nap.bundleSize.toNat * k) (call.code validate) (call.codeAt nap k))

/-- Bundle `k` lies inside `[dynamic_text_start, dynamic_text_end)`. -/
def InRegion (nap : NaClApp) (k : Nat) : Prop :=
  nap.bundleSize.toNat * (k + 1) ≤ nap.dynamicTextEnd - nap.dynamicTextStart

variable {nap : NaClApp} {shm : Mem} {ws : List Write} {k : Nat} {done : List Write}

section Bundles

variable {validate} {call : DyncodeCall arch} {published : List (DyncodeCall arch)}

theorem HaltFilled.congr {haltWord : Word} {b : BundleSize} {m m' : Mem} {s t : Nat}
    (same : ∀ i < b.toNat, m (s + i) = m' (t + i)) : HaltFilled haltWord b m s ↔ HaltFilled haltWord b m' t := by
  have word : ∀ i < b.toNat / 4, loadWord m (s + 4 * i) = loadWord m' (t + 4 * i) := by
    intro i hi
    apply loadWord_congr
    intro j hj
    rw [Nat.add_assoc, Nat.add_assoc]
    exact same _ (by omega)
  constructor
  · intro filled i hi
    rw [← word i hi]
    exact filled i hi
  · intro filled i hi
    rw [word i hi]
    exact filled i hi

section

variable (publishes : Publishes validate nap shm call ws)
include publishes

theorem covers_fits (covers : call.Covers nap k) :
    nap.bundleSize.toNat * k + nap.bundleSize.toNat ≤ call.offset nap + call.size := by
  obtain ⟨q, hq⟩ := Nat.dvd_of_mod_eq_zero publishes.request.dest_aligned
  obtain ⟨n, hn⟩ := Nat.dvd_of_mod_eq_zero publishes.request.size_aligned
  have upper := covers.2
  rw [hq, hn, ← Nat.mul_add] at upper ⊢
  have := Nat.lt_of_mul_lt_mul_left upper
  calc nap.bundleSize.toNat * k + nap.bundleSize.toNat
      = nap.bundleSize.toNat * (k + 1) := (Nat.mul_succ _ _).symm
    _ ≤ nap.bundleSize.toNat * (q + n) := Nat.mul_le_mul_left _ this

theorem uncovered_untouched (apart : ¬ call.Covers nap k) (sub : ∀ w ∈ done, w ∈ ws) {i : Nat}
    (inner : i < nap.bundleSize.toNat) :
    storeAll shm done (nap.bundleSize.toNat * k + i) = shm (nap.bundleSize.toNat * k + i) := by
  apply storeAll_frame
  rintro w member ⟨lower, upper⟩
  have inside := writes_inside publishes.request publishes.stores (sub w member)
  obtain ⟨q, hq⟩ := Nat.dvd_of_mod_eq_zero publishes.request.dest_aligned
  simp only [DyncodeCall.Covers, not_and, Nat.not_lt] at apart
  by_cases before : k < q
  · have : nap.bundleSize.toNat * k + nap.bundleSize.toNat ≤ nap.bundleSize.toNat * q :=
      calc nap.bundleSize.toNat * k + nap.bundleSize.toNat
          = nap.bundleSize.toNat * (k + 1) := (Nat.mul_succ _ _).symm
        _ ≤ nap.bundleSize.toNat * q := Nat.mul_le_mul_left _ before
    omega
  · have : nap.bundleSize.toNat * q ≤ nap.bundleSize.toNat * k :=
      Nat.mul_le_mul_left _ (Nat.le_of_not_lt before)
    have := apart (by omega)
    omega

theorem covered_was_halted (covers : call.Covers nap k) :
    HaltFilled arch.haltWord nap.bundleSize shm (nap.bundleSize.toNat * k) := by
  intro i hi
  have fits := covers_fits publishes covers
  have scanned := List.all_eq_true.mp publishes.unused (nap.bundleSize.toNat * k + 4 * i) (by
    rw [mem_addresses (by decide)]
    have aligned := publishes.request.word_aligned.1
    obtain ⟨c, hc⟩ := nap.bundleSize.four_dvd
    have lower := covers.1
    refine ⟨(nap.bundleSize.toNat * k + 4 * i - call.offset nap) / 4, ?_, by omega⟩
    rw [hc, Nat.mul_assoc] at lower ⊢
    omega)
  simpa using scanned

end

theorem writers_empty_of_halted (ok : BundleOk validate nap shm published k)
    (halted : HaltFilled arch.haltWord nap.bundleSize shm (nap.bundleSize.toNat * k)) :
    writers validate nap published k = [] := by
  rcases ok with ⟨none, -⟩ | ⟨owner, single, held⟩
  · exact none
  · have member : owner ∈ writers validate nap published k := by
      rw [single]
      exact mem_singleton.mpr rfl
    have code := (mem_filter.mp member).2
    simp only [decide_eq_true_eq] at code
    exact absurd ((HaltFilled.congr held).mp halted) code.2

theorem covered_in_progress (publishes : Publishes validate nap shm call ws)
    (ok : BundleOk validate nap shm published k) (covers : call.Covers nap k)
    (initial : done <+: ws) : InProgress validate nap (storeAll shm done) published call k := by
  have halted := covered_was_halted publishes covers
  refine ⟨writers_empty_of_halted ok halted, covers, publishes.authorised, ?_⟩
  have place : call.offset nap + call.codeAt nap k = nap.bundleSize.toNat * k := by
    have := covers.1
    simp only [DyncodeCall.codeAt]
    omega
  obtain ⟨q, hq⟩ := Nat.dvd_of_mod_eq_zero publishes.request.dest_aligned
  have index : call.codeAt nap k = nap.bundleSize.toNat * (k - q) := by
    rw [DyncodeCall.codeAt, hq, ← Nat.mul_sub]
  have started : HaltStarted arch.haltWord shm (nap.bundleSize.toNat * k) := by
    have := halted 0 (by rcases nap.bundleSize.known with h | h <;> rw [h] <;> decide)
    simpa [HaltStarted] using this
  have step := publication_step (k := k - q) publishes.request publishes.stores initial
    (by have := covers.2; omega) (by rw [← index, place]; exact started)
  rwa [← index, place] at step

theorem uncovered_ok (publishes : Publishes validate nap shm call ws)
    (ok : BundleOk validate nap shm published k) (apart : ¬ call.Covers nap k)
    (sub : ∀ w ∈ done, w ∈ ws) : BundleOk validate nap (storeAll shm done) published k := by
  have kept : ∀ i < nap.bundleSize.toNat, storeAll shm done (nap.bundleSize.toNat * k + i) =
      shm (nap.bundleSize.toNat * k + i) :=
    fun i inner => uncovered_untouched publishes apart sub inner
  rcases ok with ⟨none, halted⟩ | ⟨owner, single, held⟩
  · exact .inl ⟨none, (HaltFilled.congr kept).mpr halted⟩
  · exact .inr ⟨owner, single, fun i inner => (kept i inner).trans (held i inner)⟩

theorem writers_append (nap : NaClApp) (published : List (DyncodeCall arch))
    (call : DyncodeCall arch) (k : Nat) : writers validate nap (published ++ [call]) k =
      writers validate nap published k ++ writers validate nap [call] k :=
  filter_append _ _

theorem published_ok (publishes : Publishes validate nap shm call ws)
    (ok : BundleOk validate nap shm published k) :
    BundleOk validate nap (storeAll shm ws) (published ++ [call]) k := by
  by_cases covers : call.Covers nap k
  · have none := writers_empty_of_halted ok (covered_was_halted publishes covers)
    have fits := covers_fits publishes covers
    have held : Holds nap.bundleSize (storeAll shm ws) (nap.bundleSize.toNat * k)
        (call.code validate) (call.codeAt nap k) := by
      intro i inner
      have lower := covers.1
      have complete := publication_complete publishes.request publishes.stores shm
        (i := call.codeAt nap k + i) (by simp only [DyncodeCall.codeAt]; omega)
      rw [← complete]
      congr 1
      simp only [DyncodeCall.codeAt]
      omega
    by_cases halts : HaltFilled arch.haltWord nap.bundleSize (call.code validate) (call.codeAt nap k)
    · left
      refine ⟨?_, (HaltFilled.congr held).mpr halts⟩
      rw [writers_append, none]
      simp [writers, halts]
    · right
      refine ⟨call, ?_, held⟩
      rw [writers_append, none]
      simp [writers, halts, covers]
  · have unowned : writers validate nap [call] k = [] := by simp [writers, covers]
    have kept := uncovered_ok publishes ok covers (fun w (hw : w ∈ ws) => hw)
    rw [BundleOk, writers_append, unowned, append_nil]
    exact kept

end Bundles

structure StoreOk (nap : NaClApp) (s : Session arch) (shm : Mem) : Prop where
  app : s.nap = { nap with textShm := some shm }
  bundles : ∀ k, InRegion nap k → BundleOk validate nap shm s.published k
  authorised : ∀ call ∈ s.published, call.size ≠ 0 → Authorised validate nap call

section Runs

variable {validate} {s : Session arch}

theorem StoreOk.present (ok : StoreOk validate nap s shm) : s.nap.textShm = some shm := by
  rw [ok.app]

theorem StoreOk.ready (ok : StoreOk validate nap s shm) (ready : DynTextReady arch nap) :
    DynTextReady arch s.nap := by
  rw [ok.app]
  exact ⟨ready.start_aligned, ready.start_low, ready.start_le_end, ready.end_lt, ready.bits_le⟩

theorem StoreOk.publishes (ok : StoreOk validate nap s shm) {call : DyncodeCall arch}
    (h : Publishes validate s.nap shm call ws) : Publishes validate nap shm call ws := by
  rw [ok.app] at h
  exact ⟨⟨h.range.dest_aligned, h.range.size_aligned, h.range.above, h.range.below,
    h.range.no_wrap⟩, h.request, h.authorised, h.unused, h.stores⟩

theorem bundleOk_trivial {published : List (DyncodeCall arch)}
    {call : DyncodeCall arch} (empty : call.size = 0) (ok : BundleOk validate nap shm published k) :
    BundleOk validate nap shm (published ++ [call]) k := by
  have apart : ¬ call.Covers nap k := by
    rintro ⟨lower, upper⟩
    omega
  have unowned : writers validate nap [call] k = [] := by simp [writers, apart]
  rw [BundleOk, writers_append, unowned, append_nil]
  exact ok

theorem step_storeOk (ready : DynTextReady arch nap) (ok : StoreOk validate nap s shm)
    {call : DyncodeCall arch} {s' : Session arch} (step : s.step validate call = some s') :
    ∃ shm', StoreOk validate nap s' shm' := by
  obtain ⟨⟨ret, ws⟩, ran, rfl⟩ := map_eq_some_iff.mp step
  rcases dyncode_spec (ok.ready ready) ok.present ran with
    ⟨error, rfl⟩ | ⟨rfl, empty, rfl⟩ | ⟨rfl, published⟩
  · refine ⟨shm, ?_, ?_, ?_⟩
    · simp [NaClApp.storeText, ok.app]
    · simpa [error] using ok.bundles
    · simpa [error] using ok.authorised
  · refine ⟨shm, ?_, ?_, ?_⟩
    · simp [NaClApp.storeText, ok.app]
    · intro k region
      simpa using bundleOk_trivial empty (ok.bundles k region)
    · intro c member nonempty
      have split : c ∈ s.published ∨ c = call := by simpa using member
      rcases split with old | rfl
      · exact ok.authorised c old nonempty
      · exact absurd empty nonempty
  · have publishes := ok.publishes published
    refine ⟨storeAll shm ws, ?_, ?_, ?_⟩
    · simp [NaClApp.storeText, ok.app]
    · intro k region
      simpa using published_ok publishes (ok.bundles k region)
    · intro c member nonempty
      have split : c ∈ s.published ∨ c = call := by simpa using member
      rcases split with old | rfl
      · exact ok.authorised c old nonempty
      · exact publishes.authorised

theorem run_storeOk (ready : DynTextReady arch nap) (calls : List (DyncodeCall arch))
    {s s' : Session arch} (ok : StoreOk validate nap s shm)
    (ran : s.run validate calls = some s') : ∃ shm', StoreOk validate nap s' shm' := by
  induction calls generalizing s shm with
  | nil =>
    cases ran
    exact ⟨shm, ok⟩
  | cons call rest ih =>
    simp only [Session.run, foldlM_cons, bind_eq_bind, bind_eq_some_iff] at ran
    obtain ⟨next, step, tail⟩ := ran
    obtain ⟨shm', ok'⟩ := step_storeOk ready ok step
    exact ih ok' tail

theorem run_published (calls : List (DyncodeCall arch)) {s s' : Session arch}
    (ran : s.run validate calls = some s') : ∃ new, new.Sublist calls ∧ s'.published = s.published ++ new := by
  induction calls generalizing s with
  | nil =>
    cases ran
    exact ⟨[], .slnil, (append_nil _).symm⟩
  | cons call rest ih =>
    simp only [Session.run, foldlM_cons, bind_eq_bind, bind_eq_some_iff] at ran
    obtain ⟨next, step, tail⟩ := ran
    obtain ⟨new, sub, recorded⟩ := ih tail
    obtain ⟨⟨ret, ws⟩, -, rfl⟩ := map_eq_some_iff.mp step
    by_cases success : ret = 0
    · exact ⟨call :: new, sub.cons_cons call, by simpa [success] using recorded⟩
    · exact ⟨new, sub.cons call, by simpa [success] using recorded⟩

section

variable (ready : DynTextReady arch nap) (ok : StoreOk validate nap s shm) {call : DyncodeCall arch}
  {ret : Int} (ran : naClTextSysDyncodeCopy validate s.nap call = some (ret, ws))
include ready ok ran

theorem during_call (initial : done <+: ws) (region : InRegion nap k) :
    BundleOk validate nap (storeAll shm done) s.published k ∨
      InProgress validate nap (storeAll shm done) s.published call k := by
  have before := ok.bundles k region
  have idle : ws = [] → BundleOk validate nap (storeAll shm done) s.published k := by
    rintro rfl
    rw [prefix_nil.mp initial]
    exact before
  rcases dyncode_spec (ok.ready ready) ok.present ran with
    ⟨-, none⟩ | ⟨-, -, none⟩ | ⟨-, published⟩
  · exact .inl (idle none)
  · exact .inl (idle none)
  · have publishes := ok.publishes published
    by_cases covers : call.Covers nap k
    · exact .inr (covered_in_progress publishes before covers initial)
    · exact .inl (uncovered_ok publishes before covers fun w hw => initial.subset hw)

/-- Every store of a call lies in its destination, which is made of whole bundles between
`dynamic_text_start` and the final halt sled. -/
theorem stores_in_range {w : Write} (member : w ∈ ws) :
    InRange nap call ∧ call.dest ≤ nap.dynamicTextStart + w.addr ∧
      nap.dynamicTextStart + w.addr + 4 ≤ call.dest + call.size := by
  rcases dyncode_spec (ok.ready ready) ok.present ran with
    ⟨-, rfl⟩ | ⟨-, -, rfl⟩ | ⟨-, published⟩
  · cases member
  · cases member
  · have publishes := ok.publishes published
    have inside := writes_inside publishes.request publishes.stores member
    have above := publishes.range.above
    refine ⟨publishes.range, ?_, ?_⟩
    · simp only [DyncodeCall.offset] at inside
      omega
    · simp only [DyncodeCall.offset] at inside
      omega

end

end Runs

def sampleApp (ignore : Bool) : NaClApp where
  addrBits := 30
  stackSize := 0x10000
  memStart := 0
  staticTextEnd := 0x30000
  dynamicTextStart := 0x30000
  dynamicTextEnd := 0x40000
  rodataStart := 0x40000
  dataStart := 0
  dataEnd := 0x40010
  breakAddr := 0x40010
  entryPt := 0x20000
  bundleSize := bundle32
  useShmForDynamicText := true
  ignoreValidatorResult := ignore
  textShm := some fun _ => 0xf4
  memMap := []

def sampleCall : DyncodeCall .x86_32 where
  user := fun _ => 0x90
  findAddressSpace := fun len => if len = 0x10000 then some 0x50000000 else none
  found_fits := by
    intro len addr found
    split at found
    · cases some.inj found
      subst len
      decide
    · contradiction
  mapOk := true
  mallocOk := true
  unmapOk := true
  dest := 0x30000
  src := 0x100
  size := 32
  dest_lt := by decide
  src_lt := by decide
  size_lt := by decide

theorem sampleApp_ready (ignore : Bool) : DynTextReady .x86_32 (sampleApp ignore) :=
  ⟨by simp [sampleApp, naclMapPagesize], by simp [sampleApp, naclMapPagesize],
    by simp [sampleApp], by simp [sampleApp, Arch.ptrBits],
    by simp [sampleApp, Arch.naclMaxAddrBits]⟩

end Glopen.Nacl
