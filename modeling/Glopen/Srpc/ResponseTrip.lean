import Mathlib.Data.List.Zip
import Glopen.Srpc.RequestTrip

/-! Round trip of responses. The client decodes into its own arguments: an array keeps the
client's count, and a bool keeps three of the client's bytes. -/
namespace Glopen.Srpc

open Wire List
variable {δ : Type} {host : Host}

/-- The client's argument after `sent` was received into it. -/
def Arg.receive : Arg δ → Arg δ → Arg δ
  | .bool old, .bool bval => .bool (old / 256 * 256 + bval.toUInt8.toUInt32)
  | .charArray old, .charArray caval => .charArray (old.overwrite caval.elems)
  | .doubleArray old, .doubleArray daval => .doubleArray (old.overwrite daval.elems)
  | .intArray old, .intArray iaval => .intArray (old.overwrite iaval.elems)
  | _, sent => sent

def Arg.Holds (client sent : Arg δ) : Prop :=
  client.tag = sent.tag ∧ sent.count.getD 0 ≤ client.count.getD 0

def Arg.Agrees : Arg δ → Arg δ → Prop
  | .bool old, .bool bval => old / 256 = bval / 256
  | client, sent => client.count = sent.count

variable {α : Type} {client : CArray α}

theorem overwrite_length {elems : List α} (capacity : elems.length ≤ client.elems.length) :
    (client.overwrite elems).elems.length = client.elems.length := by
  simp only [CArray.overwrite, length_take, length_append, length_drop]
  omega

theorem overwrite_eq_iff {sent : CArray α} (capacity : sent.elems.length ≤ client.elems.length) :
    client.overwrite sent.elems = sent ↔ client.elems.length = sent.elems.length := by
  constructor
  · intro same
    rw [← overwrite_length capacity, same]
  · exact overwrite_all

theorem bool_eq_iff (old bval : UInt32) :
    old / 256 * 256 + bval.toUInt8.toUInt32 = bval ↔ old / 256 = bval / 256 := by
  have low : bval.toUInt8.toUInt32.toNat = bval.toNat % 256 := by
    rw [UInt8.toNat_toUInt32, UInt32.toNat_toUInt8]
  have width : (256 : UInt32).toNat = 256 := rfl
  have small := old.toNat_lt
  rw [← UInt32.toNat_inj, ← UInt32.toNat_inj]
  simp only [UInt32.toNat_add, UInt32.toNat_mul, UInt32.toNat_div, low, width]
  omega

theorem receive_eq_iff {client sent : Arg δ} (holds : client.Holds sent) :
    client.receive sent = sent ↔ client.Agrees sent := by
  obtain ⟨same, capacity⟩ := holds
  cases sent with
  | bool bval =>
    cases client with
    | bool old => rw [Arg.receive, Arg.bool.injEq, bool_eq_iff, Arg.Agrees]
    | _ => simp [Arg.tag] at same
  | charArray caval =>
    cases client with
    | charArray old =>
      rw [Arg.receive, Arg.charArray.injEq, overwrite_eq_iff capacity]
      exact Option.some_inj.symm
    | _ => simp [Arg.tag] at same
  | doubleArray daval =>
    cases client with
    | doubleArray old =>
      rw [Arg.receive, Arg.doubleArray.injEq, overwrite_eq_iff capacity]
      exact Option.some_inj.symm
    | _ => simp [Arg.tag] at same
  | intArray iaval =>
    cases client with
    | intArray old =>
      rw [Arg.receive, Arg.intArray.injEq, overwrite_eq_iff capacity]
      exact Option.some_inj.symm
    | _ => simp [Arg.tag] at same
  | _ =>
    cases client
    all_goals first
      | exact ⟨fun _ => rfl, fun _ => rfl⟩
      | simp [Arg.tag] at same

theorem arrTarget_own [WireType α] [Inhabited α] {n : Nat}
    (small : n < 2 ^ 32) (capacity : n ≤ client.elems.length) :
    arrTarget host false client (UInt32.ofNat n) = some client := by
  rw [arrTarget, if_neg Bool.false_ne_true, count_toNat small, if_neg (by omega)]

theorem array_into [WireType α] [Inhabited α] {sent : CArray α}
    (capacity : sent.elems.length ≤ client.elems.length)
    (fits : (arrBytes true sent).length ≤ naclAbiImcUserBytesMax) :
    Reads (arrGet host false true client : Get δ (CArray α)) (arrBytes true sent) []
      (client.overwrite sent.elems) := by
  rw [arrBytes, length_append, if_pos rfl] at fits
  exact arr_reads (arrTarget_own sent.small capacity) (by omega)

theorem received_eq_iff {client rets : List (Arg δ)} (holds : List.Forall₂ Arg.Holds client rets) :
    List.zipWith Arg.receive client rets = rets ↔ List.Forall₂ Arg.Agrees client rets := by
  induction holds with
  | nil => exact ⟨fun _ => .nil, fun _ => rfl⟩
  | cons first _ ih =>
    rw [zipWith_cons_cons, cons_eq_cons, receive_eq_iff first, ih, List.forall₂_cons]

variable [Inhabited δ]

theorem client_reads (plenty : ∀ n, host.malloc n = true) {client sent : Arg δ}
    (holds : client.Holds sent) (valid : sent.serializable = true)
    (fits : (sent.bytes true).length ≤ naclAbiImcUserBytesMax) :
    Reads (eltGet host false true client) (sent.bytes true) (sent.descs true) (client.receive sent) := by
  obtain ⟨same, capacity⟩ := holds
  cases sent with
  | bool bval =>
    cases client with
    | bool old =>
      exact ((readOne_reads bval.toUInt8).map fun low => old / 256 * 256 + UInt8.toUInt32 low).map Arg.bool
    | _ => simp [Arg.tag] at same
  | charArray caval =>
    cases client with
    | charArray old => exact (array_into capacity fits).map Arg.charArray
    | _ => simp [Arg.tag] at same
  | double dval =>
    cases client with
    | double old => exact (readOne_reads dval).map Arg.double
    | _ => simp [Arg.tag] at same
  | doubleArray daval =>
    cases client with
    | doubleArray old => exact (array_into capacity fits).map Arg.doubleArray
    | _ => simp [Arg.tag] at same
  | handle hval =>
    cases client with
    | handle old => exact fun rest => rfl
    | _ => simp [Arg.tag] at same
  | int ival =>
    cases client with
    | int old => exact (readOne_reads ival).map Arg.int
    | _ => simp [Arg.tag] at same
  | intArray iaval =>
    cases client with
    | intArray old => exact (array_into capacity fits).map Arg.intArray
    | _ => simp [Arg.tag] at same
  | string sval =>
    cases client with
    | string old =>
      simp only [Arg.bytes, if_true, length_append, flat_uint8] at fits
      exact (string_reads (by omega) (plenty _)).map Arg.string
    | _ => simp [Arg.tag] at same
  | invalid => cases valid
  | object => cases valid
  | variantArray => cases valid

def receiveResponse (host : Host) (retTypes : List UInt8) (rets : List (Arg δ)) :
    Get δ (List (Arg δ)) := do
  let rpc ← naClSrpcRpcGet
  naClSrpcResponseGet host rpc retTypes rets

theorem results_read (plenty : ∀ n, host.malloc n = true) {client rets : List (Arg δ)}
    (fits : ResponseFits rets) (holds : List.Forall₂ Arg.Holds client rets) :
    Reads (argsGet host false true client (rets.map Arg.tag)) (argsBytes true rets)
      (argsDescs true rets) (List.zipWith Arg.receive client rets) := by
  have most : naclSrpcMaxArgs = 128 := rfl
  have few := fits.results.few
  have bytes := fits.bytes
  have room : (argsBytes true rets).length ≤ naclAbiImcUserBytesMax := by omega
  have lengths := holds.length_eq
  have count : (UInt32.ofNat rets.length).toNat = rets.length := count_toNat (by omega)
  have filled := @getAll_reads δ _ host false true true (fun pair => pair.1.receive pair.2) (client.zip rets) (by
      rintro ⟨target, sent⟩ member
      have each := (List.forall₂_zip holds) member
      have among := (of_mem_zip member).2
      exact ⟨each.1, client_reads plenty each (fits.results.serializable sent among) (elt_room room among)⟩)
  rw [length_zip, lengths, Nat.min_self, map_fst_zip (by omega),
    map_snd_zip (by omega), map_zip_eq_zipWith] at filled
  apply (readOne_reads (UInt32.ofNat rets.length)).bind
  rw [count, if_neg (by omega)]
  have target : argsTarget host false client (rets.map Arg.tag) rets.length = some client := by
    rw [argsTarget, if_neg (fun both => Bool.false_ne_true both.1), length_map,
      if_neg (fun different => different rfl)]
  exact (Reads.lift target).bind filled

def answeredRpc : NaClSrpcRpc := { sampleRpc with appError := naclSrpcResultOk }

theorem sample_response_fits : ResponseFits sampleArgs :=
  ⟨⟨by decide, by decide⟩, by decide, by decide⟩

theorem pair_small : ([0, 0] : List UInt8).length < 2 ^ 32 := by decide

theorem single_small : ([7] : List UInt8).length < 2 ^ 32 := by decide

def clientResults : List (Arg Nat) := [.charArray ⟨[0, 0], pair_small⟩, .bool 0x100]

def serverResults : List (Arg Nat) := [.charArray ⟨[7], single_small⟩, .bool 1]

def shortened : SendBuffer Nat × Bool := responsePut .bits64 answeredRpc serverResults ⟨[], []⟩

end Glopen.Srpc
