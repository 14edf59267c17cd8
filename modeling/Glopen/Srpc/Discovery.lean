import Mathlib.Data.List.GetD
import Glopen.Srpc.Service

/-! Round trip of service descriptions. -/
namespace Glopen.Srpc

open List Option
variable {host : Host}

def CString.Plain (field : CString) : Prop := colon ∉ field.bytes ∧ newline ∉ field.bytes

structure MethodDesc.Plain (method : MethodDesc) : Prop where
  name : method.name.Plain
  inputTypes : method.inputTypes.Plain
  outputTypes : method.outputTypes.Plain

def sdText (methods : List MethodDesc) : List UInt8 := methods.flatMap MethodDesc.text

variable {field : CString} {method : MethodDesc}

section Parsing

variable {delimiter : UInt8} {string rest : List UInt8}

theorem getOneElement_plain (plenty : ∀ n, host.malloc n = true)
    (plain : field.Plain) (ends : delimiter = colon ∨ delimiter = newline) (rest : List UInt8) :
    getOneElement host (field.bytes ++ delimiter :: rest) = some field := by
  have inside : ∀ c ∈ field.bytes, inElement c = true := by
    intro c member
    apply decide_eq_true
    exact ⟨fun same => plain.1 (same ▸ member), fun same => plain.2 (same ▸ member),
      fun zero => field.noNul (zero ▸ member)⟩
  have outside : ¬ inElement delimiter = true := by
    intro other
    have := of_decide_eq_true other
    rcases ends with same | same
    · exact this.1 same
    · exact this.2.1 same
  rw [getOneElement, takeWhile_append_of_pos inside, takeWhile_cons_of_neg outside, append_nil]
  simp only [plenty, ofBytes_bytes, if_true]

theorem skip_head (delimiter : UInt8) (rest : List UInt8) :
    skip delimiter (delimiter :: rest) = some rest := if_pos rfl

theorem parse_text (plenty : ∀ n, host.malloc n = true) {method : MethodDesc}
    (plain : method.Plain) (rest : List UInt8) :
    parseOneEntry host (method.text ++ rest) = some (method, newline :: rest) := by
  simp only [MethodDesc.text, append_assoc, cons_append, nil_append]
  rw [parseOneEntry, getOneElement_plain plenty plain.name (.inl rfl)]
  simp only [bind_eq_bind, bind_some, drop_left, skip_head]
  rw [getOneElement_plain plenty plain.inputTypes (.inl rfl)]
  simp only [bind_some, drop_left, skip_head]
  rw [getOneElement_plain plenty plain.outputTypes (.inr rfl)]
  simp only [bind_some, drop_left]

variable {methods : List MethodDesc} {count : Nat} {p : List UInt8}

theorem parseEntries_text (plenty : ∀ n, host.malloc n = true) (plain : ∀ method ∈ methods, method.Plain) :
    parseEntries host methods.length (sdText methods) = some methods := by
  induction methods with
  | nil => rfl
  | cons method rest ih =>
    have later := ih fun other member => plain other (mem_cons_of_mem _ member)
    rw [length_cons, parseEntries, sdText, flatMap_cons, parse_text plenty (plain method mem_cons_self)]
    simp only [bind_eq_bind, bind_some, skip_head]
    rw [← sdText, later]
    rfl

theorem afterNewline_append {line : List UInt8} (plain : newline ∉ line) (rest : List UInt8) :
    afterNewline (line ++ newline :: rest) = some rest := by
  induction line with
  | nil => exact if_pos rfl
  | cons c line ih =>
    have other : c ≠ newline := fun same => plain (same ▸ mem_cons_self)
    rw [cons_append, afterNewline, if_neg other]
    exact ih fun member => plain (mem_cons_of_mem _ member)

def MethodDesc.line (method : MethodDesc) : List UInt8 :=
  method.name.bytes ++ colon :: (method.inputTypes.bytes ++ colon :: method.outputTypes.bytes)

theorem text_eq (method : MethodDesc) : method.text = method.line ++ [newline] := by
  simp only [MethodDesc.text, MethodDesc.line, append_assoc, cons_append]

theorem line_plain (plain : method.Plain) : newline ∉ method.line := by
  have other : newline ≠ colon := by decide
  simp only [MethodDesc.line, mem_append, mem_cons, not_or]
  exact ⟨plain.name.2, other, plain.inputTypes.2, other, plain.outputTypes.2⟩

theorem countEntries_line {line : List UInt8} (plain : newline ∉ line) (rest : List UInt8) (count : Nat) :
    countEntries (line ++ newline :: rest) count =
      if (count + 1) % 2 ^ 32 = 0 then none else countEntries rest (count + 1) := by
  have some_line : line ++ newline :: rest ≠ [] :=
    fun empty => cons_ne_nil _ _ (append_eq_nil_iff.mp empty).2
  rw [countEntries, if_neg some_line]
  split
  · rename_i missing
    rw [afterNewline_append plain] at missing
    cases missing
  · rename_i next found
    rw [afterNewline_append plain] at found
    cases found
    rfl

theorem countEntries_text (plain : ∀ method ∈ methods, method.Plain) (few : count + methods.length < 2 ^ 32) :
    countEntries (sdText methods) count = some (count + methods.length) := by
  induction methods generalizing count with
  | nil =>
    rw [sdText, flatMap_nil, countEntries, if_pos rfl]
    rfl
  | cons method rest ih =>
    rw [length_cons] at few ⊢
    have later := ih (fun other member => plain other (mem_cons_of_mem _ member))
      (show count + 1 + rest.length < 2 ^ 32 by omega)
    have line := line_plain (plain method mem_cons_self)
    rw [sdText, flatMap_cons, text_eq, append_assoc, singleton_append,
      countEntries_line line, if_neg (by omega), ← sdText, later]
    congr 1
    omega

theorem element_exact (found : getOneElement host string = some field) :
    string = field.bytes ++ string.drop field.bytes.length ∧ newline ∉ field.bytes := by
  rw [getOneElement] at found
  split at found
  · have noNul : 0 ∉ string.takeWhile inElement :=
      fun member => absurd (mem_takeWhile_imp member) (by decide)
    have same : field = ⟨string.takeWhile inElement, noNul⟩ :=
      (some.inj found).symm.trans (ofBytes_bytes ⟨_, noNul⟩)
    subst same
    constructor
    · exact (prefix_iff_eq_append.mp (List.takeWhile_prefix _)).symm
    · exact fun member => absurd (mem_takeWhile_imp member) (by decide)
  · cases found

theorem skip_exact (found : skip delimiter string = some rest) : string = delimiter :: rest := by
  cases string with
  | nil => cases found
  | cons c string =>
    rw [skip] at found
    split at found
    · rename_i same
      rw [same, some.inj found]
    · cases found

theorem parse_exact (parsed : parseOneEntry host p = some (method, rest)) :
    p = method.line ++ rest ∧ newline ∉ method.line := by
  simp only [parseOneEntry, bind_eq_bind, bind_eq_some_iff] at parsed
  obtain ⟨name, hname, p1, skip1, ins, hins, p2, skip2, outs, houts, result⟩ := parsed
  cases result
  obtain ⟨split1, plain1⟩ := element_exact hname
  obtain ⟨split2, plain2⟩ := element_exact hins
  obtain ⟨split3, plain3⟩ := element_exact houts
  rw [skip_exact skip1, split2, skip_exact skip2, split3] at split1
  have other : newline ≠ colon := by decide
  constructor
  · simp only [MethodDesc.line, append_assoc, cons_append]
    exact split1
  · simp only [MethodDesc.line, mem_append, mem_cons, not_or]
    exact ⟨plain1, other, plain2, other, plain3⟩

theorem countEntries_grows {total : Nat}
    (counted : countEntries p count = some total) : count + min p.length 1 ≤ total := by
  fun_induction countEntries p count with
  | case1 count => exact Nat.le_of_eq (some.inj counted)
  | case2 => cases counted
  | case3 => cases counted
  | case4 p count _ next _ _ ih =>
    have := ih counted
    omega

theorem parseEntries_exact {n : Nat} (parsed : parseEntries host n p = some methods)
    (counted : countEntries p count = some (count + n)) : p = sdText methods ∧ methods.length = n := by
  induction n generalizing p count methods with
  | zero =>
    cases parsed
    have grows := countEntries_grows counted
    exact ⟨length_eq_zero_iff.mp (by omega), rfl⟩
  | succ n ih =>
    simp only [parseEntries, bind_eq_bind, bind_eq_some_iff] at parsed
    obtain ⟨⟨method, rest⟩, hmethod, next, hnext, hlater⟩ := parsed
    obtain ⟨later, parsed, result⟩ := map_eq_some_iff.mp hlater
    obtain ⟨first, plain⟩ := parse_exact hmethod
    have tail : rest = newline :: next := skip_exact hnext
    rw [tail] at first
    rw [first, countEntries_line plain] at counted
    split at counted
    · cases counted
    · obtain ⟨remaining, length⟩ := ih parsed (by rw [counted]; congr 1; omega)
      rw [← result, sdText, flatMap_cons, ← sdText, ← remaining, text_eq, append_assoc,
        singleton_append, length_cons, length]
      exact ⟨first, rfl⟩

end Parsing

theorem line_noNul (method : MethodDesc) : 0 ∉ method.line := by
  have other : 0 ≠ colon := by decide
  simp only [MethodDesc.line, mem_append, mem_cons, not_or]
  exact ⟨method.name.noNul, other, method.inputTypes.noNul, other, method.outputTypes.noNul⟩

def MethodDesc.signature (method : MethodDesc) : CString := ⟨method.line, line_noNul method⟩

theorem line_inj {other : MethodDesc} (plain : method.Plain) (plain' : other.Plain)
    (same : method.line = other.line) : method = other := by
  have parsed := @parse_text ⟨.bits32, fun _ => true⟩ (fun _ => rfl) method plain []
  have parsed' := @parse_text ⟨.bits32, fun _ => true⟩ (fun _ => rfl) other plain' []
  rw [text_eq, same, ← text_eq, parsed'] at parsed
  exact (Prod.mk.inj (some.inj parsed)).1.symm

theorem fieldMatches_head (field : CString) (terminator : UInt8) (rest : List UInt8) :
    fieldMatches field terminator (field.bytes ++ terminator :: rest) = true := by
  apply decide_eq_true
  constructor
  · exact take_left
  · simp

theorem drop_field (field : CString) (terminator : UInt8) (rest : List UInt8) :
    (field.bytes ++ terminator :: rest).drop (field.bytes.length + 1) = rest := by
  rw [append_cons]
  exact drop_left' (by rw [length_append, length_singleton])

theorem signature_own (method : MethodDesc) : signatureMatches method method.signature = true := by
  have last : fieldMatches method.outputTypes 0 method.outputTypes.bytes = true := by
    apply decide_eq_true
    exact ⟨take_length, getD_eq_default _ _ le_rfl⟩
  simp only [signatureMatches, matchAll, MethodDesc.signature, MethodDesc.line, fieldMatches_head,
    drop_field, last, Bool.and_self]

theorem field_exact {terminator : UInt8} {signature : List UInt8}
    (found : fieldMatches field terminator signature = true) (inside : terminator ≠ 0) :
    signature = field.bytes ++ terminator :: signature.drop (field.bytes.length + 1) := by
  obtain ⟨start, behind⟩ := of_decide_eq_true found
  by_cases bound : field.bytes.length < signature.length
  · rw [getD_eq_getElem _ _ bound] at behind
    rw [← behind, ← drop_eq_getElem_cons bound]
    exact (take_append_drop field.bytes.length signature).symm.trans
      (congrArg (· ++ signature.drop field.bytes.length) start)
  · rw [getD_eq_default _ _ (by omega)] at behind
    exact absurd behind.symm inside

theorem last_exact {signature : List UInt8} (noNul : 0 ∉ signature)
    (found : fieldMatches field 0 signature = true) : signature = field.bytes := by
  obtain ⟨start, behind⟩ := of_decide_eq_true found
  by_cases bound : field.bytes.length < signature.length
  · rw [getD_eq_getElem _ _ bound] at behind
    exact absurd (behind ▸ getElem_mem bound) noNul
  · rw [← start]
    exact (take_of_length_le (by omega)).symm

theorem signature_exact {signature : CString}
    (found : signatureMatches method signature = true) : signature.bytes = method.line := by
  obtain ⟨bytes, noNul⟩ := signature
  simp only [signatureMatches, matchAll, Bool.and_true, Bool.and_eq_true] at found
  obtain ⟨name, ins, outs⟩ := found
  have split1 := field_exact name (by decide)
  have split2 := field_exact ins (by decide)
  have split3 := last_exact (fun member => noNul (mem_of_mem_drop (mem_of_mem_drop member))) outs
  rw [split3] at split2
  rw [split2] at split1
  exact split1

theorem index_of_signature {service : Service} (plain : ∀ method ∈ service.rpcDescr, method.Plain)
    {method : MethodDesc} (member : method ∈ service.rpcDescr) :
    service.rpcDescr[naClSrpcServiceMethodIndex service method.signature]? = some method := by
  have found : (service.rpcDescr.findIdx? (signatureMatches · method.signature)).isSome = true := by
    rw [List.findIdx?_isSome]
    exact List.any_eq_true.mpr ⟨method, member, signature_own method⟩
  obtain ⟨i, index⟩ := isSome_iff_exists.mp found
  obtain ⟨bound, same, -⟩ := List.findIdx?_eq_some_iff_getElem.mp index
  rw [naClSrpcServiceMethodIndex, index, getD_some, List.getElem?_eq_getElem bound]
  congr 1
  exact line_inj (plain _ (getElem_mem bound)) (plain method member) (signature_exact same).symm

end Glopen.Srpc
