import Glopen.Srpc.Discovery

/-! The service-discovery string in memory. Its length is a sum modulo 2^32, and every string that
can be read back is too long for the memory of a sum that was cut. -/
namespace Glopen.Srpc

open List Option
variable {size : SizeT} {host : Host}

theorem text_length (method : MethodDesc) :
    method.text.length = method.name.bytes.length + 1 + method.inputTypes.bytes.length + 1 +
      method.outputTypes.bytes.length + 1 := by
  simp only [MethodDesc.text, length_append, length_cons, length_nil]
  omega

theorem sdText_cons (method : MethodDesc) (rest : List MethodDesc) :
    sdText (method :: rest) = method.text ++ sdText rest := flatMap_cons

theorem SizeT.max_large (size : SizeT) : 2 ^ 32 - 1 ≤ size.max := by cases size <;> decide

variable {methods : List MethodDesc} {memory memory' : List UInt8} {offset : Nat} {text : List UInt8}
  {p length : Nat} {str : CString}

theorem sum_exact {start : Nat} (small : start + (sdText methods).length < 2 ^ 32) :
    methods.foldl (fun length method =>
      (length + naclAbiSizeTSaturate ((method.name.bytes.length + 1 +
        method.inputTypes.bytes.length + 1 + method.outputTypes.bytes.length + 1) %
          (size.max + 1))) % 2 ^ 32) start = start + (sdText methods).length := by
  induction methods generalizing start with
  | nil => rfl
  | cons method rest ih =>
    have large := size.max_large
    rw [sdText_cons, length_append] at small ⊢
    have entry : naclAbiSizeTSaturate (method.text.length % (size.max + 1)) = method.text.length := by
      rw [Nat.mod_eq_of_lt (by omega), naclAbiSizeTSaturate]
      exact Nat.min_eq_left (by simp only [naclAbiSizeTMax]; omega)
    rw [foldl_cons, ← text_length, entry, Nat.mod_eq_of_lt (by omega), ih (by omega), Nat.add_assoc]

theorem store_tail {written tail bytes : List UInt8} (room : bytes.length ≤ tail.length) :
    store (written ++ tail) written.length bytes = some (written ++ (bytes ++ tail.drop bytes.length)) := by
  rw [store, length_append, if_neg (by omega), take_left, drop_length_add_append]

theorem store_length {bytes : List UInt8}
    (stored : store memory offset bytes = some memory') : memory'.length = memory.length := by
  rw [store] at stored
  split at stored
  · cases stored
  · cases stored
    simp only [length_append, length_take, length_drop]
    omega

theorem store_zero (stored : store memory offset [0] = some memory') : 0 ∈ memory' := by
  rw [store] at stored
  split at stored
  · cases stored
  · cases stored
    exact mem_append_right _ mem_cons_self

theorem ofBytes_shorter (zero : 0 ∈ memory) : (CString.ofBytes memory).bytes.length < memory.length := by
  have split : (CString.ofBytes memory).bytes.length +
      (memory.dropWhile fun c => decide (c ≠ 0)).length = memory.length := by
    rw [← length_append]
    exact congrArg List.length takeWhile_append_dropWhile
  have behind : memory.dropWhile (fun c => decide (c ≠ 0)) ≠ [] := by
    intro none_left
    have all := dropWhile_eq_nil_iff.mp none_left 0 zero
    exact absurd all (by decide)
  have := length_pos_iff.mpr behind
  omega

variable {limit printed q : Nat} {service : Service}

theorem snprintf_short (result : snprintf memory offset limit text = some (memory', printed)) :
    text.length ≤ intMax := by
  rw [snprintf] at result
  split at result
  · cases result
  · omega

theorem snprintf_length (result : snprintf memory offset limit text = some (memory', printed)) :
    memory'.length = memory.length := by
  rw [snprintf] at result
  split at result
  · cases result
  split at result
  · cases result
    rfl
  · obtain ⟨stored, found, same⟩ := map_eq_some_iff.mp result
    cases same
    exact store_length found

theorem bufLimit_inside (inside : p ≤ length) (small : length ≤ size.max) :
    bufLimit size length p = length - p := by
  rw [bufLimit, Int.emod_eq_of_lt (by omega) (by omega)]
  omega

theorem snprintf_fits {written tail text : List UInt8} {limit : Nat}
    (short : text.length ≤ intMax) (enough : text.length < limit) (room : text.length < tail.length) :
    snprintf (written ++ tail) written.length limit text =
      some (written ++ text ++ (0 :: tail.drop (text.length + 1)), text.length) := by
  have whole : text.take (limit - 1) = text := take_of_length_le (by omega)
  have stored := @store_tail written tail (text ++ [0]) (by rw [length_append, length_singleton]; omega)
  rw [snprintf, if_neg (by omega), if_neg (by omega), whole, stored]
  simp only [length_append, length_singleton, append_assoc, singleton_append]
  rfl

theorem fill_writes {length : Nat} {methods : List MethodDesc}
    (short : ∀ method ∈ methods, method.text.length ≤ intMax) {written tail : List UInt8}
    (room : written.length + (sdText methods).length + 1 = length)
    (memory : length < written.length + tail.length) (small : length ≤ size.max) :
    ∃ tail', fillSDString size length methods (written ++ tail) written.length =
      some (written ++ sdText methods ++ tail', (written ++ sdText methods).length) ∧ 0 < tail'.length := by
  induction methods generalizing written tail with
  | nil =>
    refine ⟨tail, ?_, by rw [sdText, flatMap_nil, length_nil] at room; omega⟩
    rw [sdText, flatMap_nil, append_nil]
    rfl
  | cons method rest ih =>
    rw [sdText_cons, length_append] at room
    have printed := @snprintf_fits written tail method.text (bufLimit size length written.length)
      (short method mem_cons_self)
      (by rw [bufLimit_inside (by omega) small]; omega) (by omega)
    obtain ⟨tail', filled, some_left⟩ := @ih
      (fun other member => short other (mem_cons_of_mem _ member)) (written ++ method.text)
      (0 :: tail.drop (method.text.length + 1))
      (by rw [length_append]; omega)
      (by rw [length_append, length_cons, length_drop]; omega)
    refine ⟨tail', ?_, some_left⟩
    rw [fillSDString, printed]
    simp only [bind_eq_bind, bind_some]
    rw [← length_append, filled, sdText_cons, append_assoc written]

theorem sdText_noNul (methods : List MethodDesc) : 0 ∉ sdText methods := by
  intro member
  obtain ⟨method, -, inside⟩ := mem_flatMap.mp member
  rw [text_eq, mem_append] at inside
  rcases inside with line | last
  · exact line_noNul method line
  · exact absurd (mem_singleton.mp last) (by decide)

theorem ofBytes_stop (noNul : 0 ∉ text) (rest : List UInt8) :
    CString.ofBytes (text ++ 0 :: rest) = ⟨text, noNul⟩ := by
  have inside : ∀ c ∈ text, decide (c ≠ 0) = true :=
    fun c member => decide_eq_true fun zero => noNul (zero ▸ member)
  simp only [CString.ofBytes, CString.mk.injEq]
  rw [takeWhile_append_of_pos inside, takeWhile_cons_of_neg (by decide), append_nil]

theorem build_fits (plenty : ∀ n, host.malloc n = true) (small : (sdText methods).length + 2 < 2 ^ 32)
    (short : ∀ method ∈ methods, method.text.length ≤ intMax) :
    buildSDString host methods = some ⟨sdText methods, sdText_noNul methods⟩ := by
  have large := host.size.max_large
  have length : sdLength host.size methods = 1 + (sdText methods).length := sum_exact (by omega)
  have allocated : (1 + (sdText methods).length + 1) % 2 ^ 32 = (sdText methods).length + 2 := by
    rw [Nat.mod_eq_of_lt (by omega)]
    omega
  obtain ⟨tail, filled, some_left⟩ := @fill_writes host.size (1 + (sdText methods).length) methods
    short [] (List.replicate ((sdText methods).length + 2) 0)
    (by rw [length_nil]; omega)
    (by rw [length_nil, length_replicate]; omega) (by omega)
  rw [nil_append, nil_append, length_nil] at filled
  rw [buildSDString, length, allocated, plenty, if_neg (by decide), filled]
  simp only [bind_eq_bind, bind_some]
  rw [store_tail (by rw [length_singleton]; omega), Option.map_eq_map, map_some,
    singleton_append, ofBytes_stop (sdText_noNul methods)]

theorem fill_length (filled : fillSDString size length methods memory p = some (memory', q)) :
    memory'.length = memory.length := by
  induction methods generalizing memory p with
  | nil =>
    cases filled
    rfl
  | cons method rest ih =>
    simp only [fillSDString, bind_eq_bind, bind_eq_some_iff] at filled
    obtain ⟨⟨middle, printed⟩, step, later⟩ := filled
    rw [ih later]
    exact snprintf_length step

theorem fill_short (filled : fillSDString size length methods memory p = some (memory', q)) :
    ∀ method ∈ methods, method.text.length ≤ intMax := by
  induction methods generalizing memory p with
  | nil => exact fun method member => absurd member not_mem_nil
  | cons method rest ih =>
    simp only [fillSDString, bind_eq_bind, bind_eq_some_iff] at filled
    obtain ⟨⟨middle, printed⟩, step, later⟩ := filled
    intro other member
    rcases mem_cons.mp member with same | among
    · rw [same]
      exact snprintf_short step
    · exact ih later other among

theorem build_bounds (built : buildSDString host methods = some str) :
    (∀ method ∈ methods, method.text.length ≤ intMax) ∧
      str.bytes.length < (sdLength host.size methods + 1) % 2 ^ 32 := by
  simp only [buildSDString] at built
  split at built
  · cases built
  · simp only [bind_eq_bind, bind_eq_some_iff] at built
    obtain ⟨⟨memory, p⟩, filled, stored⟩ := built
    obtain ⟨memory', final, result⟩ := map_eq_some_iff.mp stored
    refine ⟨fill_short filled, ?_⟩
    have length := (store_length final).trans (fill_length filled)
    rw [length_replicate] at length
    rw [← result, ← length]
    exact ofBytes_shorter (store_zero final)

structure DescriptionFits (host : Host) (methods : List MethodDesc) : Prop where
  total : (sdText methods).length + 2 < 2 ^ 32
  lines : ∀ method ∈ methods, method.text.length ≤ intMax
  few : methods.length < host.size.max / host.size.methodSize

theorem ctor_exact (read : naClSrpcServiceStringCtor host str = some service) :
    str.bytes = sdText service.rpcDescr ∧ service.rpcDescr.length < host.size.max / host.size.methodSize := by
  simp only [naClSrpcServiceStringCtor, bind_eq_bind, bind_eq_some_iff] at read
  obtain ⟨count, counted, read⟩ := read
  split at read
  · cases read
  split at read
  · cases read
  obtain ⟨methods, parsed, result⟩ := map_eq_some_iff.mp read
  obtain ⟨text, length⟩ := parseEntries_exact parsed (by rw [counted, Nat.zero_add])
  rw [← result]
  exact ⟨text, by simp only; omega⟩

theorem lines_few (methods : List MethodDesc) : 3 * methods.length ≤ (sdText methods).length := by
  induction methods with
  | nil => exact Nat.le_refl 0
  | cons method rest ih =>
    rw [sdText_cons, length_append, text_length, length_cons]
    omega

theorem ctor_reads (plenty : ∀ n, host.malloc n = true)
    (plain : ∀ method ∈ methods, method.Plain) (fits : DescriptionFits host methods) :
    naClSrpcServiceStringCtor host ⟨sdText methods, sdText_noNul methods⟩ =
      some ⟨⟨sdText methods, sdText_noNul methods⟩, methods⟩ := by
  have total := fits.total
  have few := fits.few
  have lines := lines_few methods
  rw [naClSrpcServiceStringCtor, countEntries_text plain (by omega), Nat.zero_add]
  simp only [bind_eq_bind, bind_some]
  rw [if_neg (by omega), plenty, if_neg (by decide), parseEntries_text plenty plain]
  rfl

theorem description_fits (built : buildSDString host methods = some str)
    (read : naClSrpcServiceStringCtor host str = some service)
    (same : service.rpcDescr = methods) : DescriptionFits host methods := by
  obtain ⟨lines, bound⟩ := build_bounds built
  obtain ⟨exact_text, few⟩ := ctor_exact read
  rw [same] at exact_text few
  refine ⟨?_, lines, few⟩
  rw [exact_text] at bound
  have word := Nat.mod_lt (sdLength host.size methods + 1) (show 0 < 2 ^ 32 by decide)
  by_contra exceeds
  by_cases edge : (sdText methods).length + 1 < 2 ^ 32
  · have length : sdLength host.size methods = 1 + (sdText methods).length := sum_exact (by omega)
    omega
  · omega

/-- A table is read back from its string, and every signature finds its method, exactly when the
description fits. -/
theorem service_discovery_iff (plenty : ∀ n, host.malloc n = true) {methods : List MethodDesc}
    (plain : ∀ method ∈ methods, method.Plain) : (∃ str service, buildSDString host methods = some str ∧
      naClSrpcServiceStringCtor host str = some service ∧ service.rpcDescr = methods ∧
      ∀ method ∈ methods, service.rpcDescr[naClSrpcServiceMethodIndex service method.signature]? =
        some method) ↔ DescriptionFits host methods := by
  constructor
  · rintro ⟨str, service, built, read, same, -⟩
    exact description_fits built read same
  · intro fits
    refine ⟨_, ⟨⟨sdText methods, sdText_noNul methods⟩, methods⟩,
      build_fits plenty fits.total fits.lines, ctor_reads plenty plain fits, rfl, ?_⟩
    intro method member
    exact @index_of_signature ⟨_, methods⟩ plain method member

def plentyHost (size : SizeT) : Host := ⟨size, fun _ => true⟩

theorem discovery_noNul : 0 ∉ ([115, 100] : List UInt8) := by decide

theorem types_noNul : 0 ∉ ([105, 115] : List UInt8) := by decide

theorem empty_noNul : 0 ∉ ([] : List UInt8) := not_mem_nil

/-- The methods `sd::is` and `is:is:`. -/
def sampleMethods : List MethodDesc :=
  [⟨⟨[115, 100], discovery_noNul⟩, ⟨[], empty_noNul⟩, ⟨[105, 115], types_noNul⟩⟩,
    ⟨⟨[105, 115], types_noNul⟩, ⟨[105, 115], types_noNul⟩, ⟨[], empty_noNul⟩⟩]

theorem sample_discovery : ∃ str service, buildSDString (plentyHost .bits64) sampleMethods = some str ∧
      naClSrpcServiceStringCtor (plentyHost .bits64) str = some service ∧
      service.rpcDescr = sampleMethods ∧
      ∀ method ∈ sampleMethods,
        service.rpcDescr[naClSrpcServiceMethodIndex service method.signature]? = some method := by
  have plain : ∀ method ∈ sampleMethods, method.Plain := by
    intro method member
    simp only [sampleMethods, List.mem_cons, List.not_mem_nil, or_false] at member
    rcases member with rfl | rfl
    · exact ⟨⟨by decide, by decide⟩, ⟨by decide, by decide⟩, ⟨by decide, by decide⟩⟩
    · exact ⟨⟨by decide, by decide⟩, ⟨by decide, by decide⟩, ⟨by decide, by decide⟩⟩
  exact (@service_discovery_iff (plentyHost .bits64) (fun _ => rfl) sampleMethods plain).mpr
    ⟨by decide, by decide, by decide⟩

theorem long_noNul (n : Nat) : 0 ∉ List.replicate n (97 : UInt8) :=
  fun member => absurd (eq_of_mem_replicate member) (by decide)

/-- A method with a name of `n` characters and without arguments. -/
def longMethod (n : Nat) : MethodDesc :=
  ⟨⟨List.replicate n 97, long_noNul n⟩, ⟨[], empty_noNul⟩, ⟨[], empty_noNul⟩⟩

theorem long_plain (n : Nat) : (longMethod n).Plain := by
  refine ⟨⟨?_, ?_⟩, ⟨not_mem_nil, not_mem_nil⟩, ⟨not_mem_nil, not_mem_nil⟩⟩
  · exact fun member => absurd (eq_of_mem_replicate member) (by decide)
  · exact fun member => absurd (eq_of_mem_replicate member) (by decide)

theorem long_name (n : Nat) : (longMethod n).name.bytes.length = n := length_replicate

theorem long_types (n : Nat) : (longMethod n).inputTypes.bytes.length = 0 ∧
    (longMethod n).outputTypes.bytes.length = 0 := ⟨rfl, rfl⟩

theorem four_lines {method : MethodDesc} (name : method.name.bytes.length = 2 ^ 30)
    (types : method.inputTypes.bytes.length = 0 ∧ method.outputTypes.bytes.length = 0) :
    sdLength .bits64 (List.replicate 4 method) = 13 ∧ 2 ^ 32 < (sdText (List.replicate 4 method)).length := by
  obtain ⟨ins, outs⟩ := types
  have entry : naclAbiSizeTSaturate ((method.name.bytes.length + 1 +
      method.inputTypes.bytes.length + 1 + method.outputTypes.bytes.length + 1) %
        (SizeT.bits64.max + 1)) = 1073741827 := by
    simp only [naclAbiSizeTSaturate, SizeT.max, naclAbiSizeTMax]
    omega
  have text : method.text.length = 1073741827 := by
    rw [text_length]
    omega
  constructor
  · simp only [sdLength, List.replicate, foldl_cons, foldl_nil, entry]
    omega
  · simp only [List.replicate, length_append, text, sdText, flatMap_nil, flatMap_cons, length_nil]
    omega

/-- For these lines 14 bytes are allocated. -/
theorem long_table_lost : (∀ method ∈ List.replicate 4 (longMethod (2 ^ 30)), method.Plain) ∧
    sdLength .bits64 (List.replicate 4 (longMethod (2 ^ 30))) + 1 = 14 ∧ ¬ ∃ str service,
      buildSDString (plentyHost .bits64) (List.replicate 4 (longMethod (2 ^ 30))) = some str ∧
      naClSrpcServiceStringCtor (plentyHost .bits64) str = some service ∧
      service.rpcDescr = List.replicate 4 (longMethod (2 ^ 30)) := by
  have lines := four_lines (long_name (2 ^ 30)) (long_types (2 ^ 30))
  refine ⟨fun method member => List.eq_of_mem_replicate member ▸ long_plain _, ?_, ?_⟩
  · rw [lines.1]
  · rintro ⟨str, service, built, read, same⟩
    have fits := (description_fits built read same).total
    have exceeds := lines.2
    omega

end Glopen.Srpc
