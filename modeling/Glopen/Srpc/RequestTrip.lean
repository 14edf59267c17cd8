import Glopen.Srpc.Codec

/-! Round trip of requests. -/
namespace Glopen.Srpc

open Wire List
variable {δ : Type} {host : Host}

def Arg.onWire : Arg δ → Arg δ
  | .bool bval => .bool bval.toUInt8.toUInt32
  | arg => arg

def Arg.template [Inhabited δ] : Arg δ → Arg δ
  | .charArray caval => .charArray (CArray.fresh (UInt32.ofNat caval.elems.length))
  | .doubleArray daval => .doubleArray (CArray.fresh (UInt32.ofNat daval.elems.length))
  | .intArray iaval => .intArray (CArray.fresh (UInt32.ofNat iaval.elems.length))
  | arg => Arg.blank arg.tag

def Arg.allocatable : Arg δ → Prop
  | .charArray caval => caval.elems.length < naclAbiSizeTMax / 1
  | .doubleArray daval => daval.elems.length < naclAbiSizeTMax / 8
  | .intArray iaval => iaval.elems.length < naclAbiSizeTMax / 4
  | _ => True

theorem fresh_length {α : Type} [Inhabited α] {n : Nat} (small : n < 2 ^ 32) :
    (CArray.fresh (UInt32.ofNat n) : CArray α).elems.length = n := by
  rw [CArray.fresh, length_replicate, count_toNat small]

section

variable {α : Type} [WireType α] [Inhabited α] {array sent : CArray α} (plenty : ∀ n, host.malloc n = true)
include plenty

theorem array_value (fits : (arrBytes true sent).length ≤ naclAbiImcUserBytesMax) :
    Reads (arrGet host true true array : Get δ (CArray α)) (arrBytes true sent) [] sent := by
  rw [arrBytes, length_append, if_pos rfl] at fits
  have fits : (flat sent.elems).length ≤ naclAbiImcUserBytesMax := by omega
  have few := few_of_fits fits
  have found : arrTarget host true array (UInt32.ofNat sent.elems.length) =
      some (CArray.fresh (UInt32.ofNat sent.elems.length)) :=
    arrTarget_fresh (by rw [count_toNat sent.small]; exact few) (plenty _)
  have read := @arr_reads δ _ _ _ _ _ _ _ _ found fits
  rw [overwrite_all (fresh_length sent.small)] at read
  exact read

theorem array_template (few : sent.elems.length < naclAbiSizeTMax / WireType.size α) :
    Reads (arrGet host true false array : Get δ (CArray α)) (arrBytes false sent) []
      (CArray.fresh (UInt32.ofNat sent.elems.length)) :=
  arr_template (arrTarget_fresh (by rw [count_toNat sent.small]; exact few) (plenty _))

end

theorem tag_ne_colon (arg : Arg δ) : arg.tag ≠ colon := by
  cases arg
  all_goals simp only [Arg.tag]
  all_goals decide

variable [Inhabited δ]

theorem value_reads (plenty : ∀ n, host.malloc n = true) {sent : Arg δ} (valid : sent.serializable = true)
    (fits : (sent.bytes true).length ≤ naclAbiImcUserBytesMax) :
    Reads (eltGet host true true (Arg.blank sent.tag)) (sent.bytes true) (sent.descs true) sent.onWire := by
  cases sent with
  | bool bval =>
    have read := (@readOne_reads δ _ _ bval.toUInt8).map fun low => (0 : UInt32) / 256 * 256 + UInt8.toUInt32 low
    have zero : (0 : UInt32) / 256 * 256 + bval.toUInt8.toUInt32 = bval.toUInt8.toUInt32 :=
      UInt32.zero_add _
    rw [zero] at read
    exact read.map Arg.bool
  | charArray caval => exact (array_value plenty fits).map Arg.charArray
  | double dval => exact (readOne_reads dval).map Arg.double
  | doubleArray daval => exact (array_value plenty fits).map Arg.doubleArray
  | handle hval => exact fun rest => rfl
  | int ival => exact (readOne_reads ival).map Arg.int
  | intArray iaval => exact (array_value plenty fits).map Arg.intArray
  | string sval =>
    simp only [Arg.bytes, if_true, length_append, flat_uint8] at fits
    exact (string_reads (by omega) (plenty _)).map Arg.string
  | invalid => cases valid
  | object => cases valid
  | variantArray => cases valid

theorem template_reads (plenty : ∀ n, host.malloc n = true) {sent : Arg δ}
    (valid : sent.serializable = true) (few : sent.allocatable) :
    Reads (eltGet host true false (Arg.blank sent.tag)) (sent.bytes false) (sent.descs false)
      sent.template := by
  cases sent with
  | bool bval => exact (Reads.pure _).map Arg.bool
  | charArray caval => exact (array_template plenty few).map Arg.charArray
  | double dval => exact (Reads.pure _).map Arg.double
  | doubleArray daval => exact (array_template plenty few).map Arg.doubleArray
  | handle hval => exact (Reads.pure _).map Arg.handle
  | int ival => exact (Reads.pure _).map Arg.int
  | intArray iaval => exact (array_template plenty few).map Arg.intArray
  | string sval => exact (Reads.pure _).map Arg.string
  | invalid => cases valid
  | object => cases valid
  | variantArray => cases valid

theorem declaredArgs_tags (argvec : List (Arg δ)) : declaredArgs (argvec.map Arg.tag) argvec.length =
      some (argvec.map fun arg => (Arg.blank arg.tag : Arg δ)) := by
  have whole : (argvec.map Arg.tag).take argvec.length = argvec.map Arg.tag :=
    take_of_length_le (by rw [length_map])
  have ends : (argvec.map Arg.tag)[argvec.length]? = none :=
    List.getElem?_eq_none (by rw [length_map])
  have plain : colon ∉ argvec.map Arg.tag := by
    intro member
    obtain ⟨arg, -, same⟩ := List.mem_map.mp member
    exact tag_ne_colon arg same
  rw [declaredArgs, whole, ends, if_neg, Option.all_none, if_pos rfl, map_map]
  · rfl
  · rintro (short | member)
    · rw [length_map] at short
      omega
    · exact plain member

theorem argsTarget_tags (plenty : ∀ n, host.malloc n = true) {argvec : List (Arg δ)}
    (few : argvec.length < naclSrpcMaxArgs) : argsTarget host true [] (argvec.map Arg.tag) argvec.length =
      some (argvec.map fun arg => (Arg.blank arg.tag : Arg δ)) := by
  have most : naclSrpcMaxArgs = 128 := rfl
  rw [argsTarget]
  by_cases empty : argvec = []
  · subst empty
    rfl
  · have positive := length_pos_iff.mpr empty
    have large : 128 ≤ host.size.max / host.size.argSize := by cases host.size <;> decide
    rw [if_pos ⟨rfl, positive⟩, if_neg (by omega), plenty, if_neg (by decide)]
    exact declaredArgs_tags argvec

theorem args_reads (plenty : ∀ n, host.malloc n = true) {readValues values : Bool}
    {argvec : List (Arg δ)} {result : Arg δ → Arg δ} (few : argvec.length < naclSrpcMaxArgs)
    (tags : ∀ arg ∈ argvec, (Arg.blank arg.tag : Arg δ).tag = arg.tag)
    (each : ∀ arg ∈ argvec, Reads (eltGet host true readValues (Arg.blank arg.tag))
      (arg.bytes values) (arg.descs values) (result arg)) :
    Reads (argsGet host true readValues [] (argvec.map Arg.tag)) (argsBytes values argvec)
      (argsDescs values argvec) (argvec.map result) := by
  have most : naclSrpcMaxArgs = 128 := rfl
  have count : (UInt32.ofNat argvec.length).toNat = argvec.length := count_toNat (by omega)
  apply (readOne_reads (UInt32.ofNat argvec.length)).bind
  rw [count, if_neg (by omega)]
  have target := argsTarget_tags plenty few
  have filled := @getAll_reads δ _ host true readValues values (fun pair => result pair.2)
    (argvec.map fun arg => (Arg.blank arg.tag, arg)) (by
      intro pair member
      obtain ⟨arg, among, rfl⟩ := List.mem_map.mp member
      exact ⟨tags arg among, each arg among⟩)
  rw [length_map, map_map, map_map, map_map] at filled
  have second : Prod.snd ∘ (fun arg : Arg δ => ((Arg.blank arg.tag : Arg δ), arg)) = id := rfl
  rw [second, map_id] at filled
  exact (Reads.lift target).bind filled

theorem blank_tag {arg : Arg δ} (valid : arg.serializable = true) :
    (Arg.blank arg.tag : Arg δ).tag = arg.tag := by
  cases arg with
  | invalid => cases valid
  | object => cases valid
  | variantArray => cases valid
  | _ => rfl

def receiveRequest (host : Host) (argTypes retTypes : List UInt8) :
    Get δ (NaClSrpcRpc × List (Arg δ) × List (Arg δ)) := do
  let rpc ← naClSrpcRpcGet
  (rpc, ·) <$> naClSrpcRequestGet host argTypes retTypes

def Arg.count : Arg δ → Option Nat
  | .charArray caval => some caval.elems.length
  | .doubleArray daval => some daval.elems.length
  | .intArray iaval => some iaval.elems.length
  | _ => none

theorem template_matches {arg : Arg δ} (valid : arg.serializable = true) :
    arg.template.tag = arg.tag ∧ arg.template.count = arg.count := by
  cases arg with
  | charArray caval => exact ⟨rfl, congrArg some (fresh_length caval.small)⟩
  | doubleArray daval => exact ⟨rfl, congrArg some (fresh_length daval.small)⟩
  | intArray iaval => exact ⟨rfl, congrArg some (fresh_length iaval.small)⟩
  | invalid => cases valid
  | object => cases valid
  | variantArray => cases valid
  | _ => exact ⟨rfl, rfl⟩

theorem request_received (plenty : ∀ n, host.malloc n = true) (rpc : NaClSrpcRpc)
    {args rets : List (Arg δ)} (fits : RequestFits args rets) (counts : ∀ ret ∈ rets, ret.allocatable) :
    Reads (receiveRequest host (args.map Arg.tag) (rets.map Arg.tag)) (requestBytes rpc args rets)
      (argsDescs true args) ({ rpc with isRequest := 1, appError := naclSrpcResultOk },
        args.map Arg.onWire, rets.map Arg.template) := by
  have bytes := fits.bytes
  have room : (argsBytes true args).length ≤ naclAbiImcUserBytesMax := by omega
  have first := args_reads plenty fits.arguments.few
    (fun arg member => blank_tag (fits.arguments.serializable arg member))
    (fun arg member => value_reads plenty (fits.arguments.serializable arg member) (elt_room room member))
  have second := args_reads plenty fits.results.few
    (fun arg member => blank_tag (fits.results.serializable arg member))
    (fun arg member => template_reads plenty (fits.results.serializable arg member) (counts arg member))
  have vectors : Reads (naClSrpcRequestGet host (args.map Arg.tag) (rets.map Arg.tag))
      (argsBytes true args ++ argsBytes false rets) (argsDescs true args ++ argsDescs false rets)
      (args.map Arg.onWire, rets.map Arg.template) :=
    first.bind (second.map (args.map Arg.onWire, ·))
  rw [templateDescs, append_nil] at vectors
  exact (rpc_reads fun _ => rfl).bind (vectors.map _)

/-- A request that fits is sent, and the server reads all of it back: the header, the arguments
(of a bool its low byte), and result templates of the same types and counts. -/
theorem request_round_trip {size : SizeT} (plenty : ∀ n, host.malloc n = true)
    (rpc : NaClSrpcRpc) {args rets : List (Arg δ)} (fits : RequestFits args rets)
    (counts : ∀ ret ∈ rets, ret.allocatable) :
    ∃ sent templates, requestPut size rpc args rets ⟨[], []⟩ = (sent, true) ∧
      receiveRequest host (args.map Arg.tag) (rets.map Arg.tag) ⟨sent.bytes, sent.descs⟩ =
        some (({ rpc with isRequest := 1, appError := naclSrpcResultOk }, args.map Arg.onWire,
          templates), ⟨[], []⟩) ∧
      templates.map Arg.tag = rets.map Arg.tag ∧
      templates.map Arg.count = rets.map Arg.count := by
  refine ⟨⟨requestBytes rpc args rets, argsDescs true args⟩, rets.map Arg.template, ?_, ?_, ?_, ?_⟩
  · exact request_put rpc fits
  · have received := request_received plenty rpc fits counts ⟨[], []⟩
    rw [List.append_nil, List.append_nil] at received
    exact received
  · rw [List.map_map]
    apply List.map_congr_left
    intro ret member
    exact (template_matches (fits.results.serializable ret member)).1
  · rw [List.map_map]
    apply List.map_congr_left
    intro ret member
    exact (template_matches (fits.results.serializable ret member)).2

def sampleHost : Host := ⟨.bits32, fun _ => true⟩

def sampleRpc : NaClSrpcRpc := ⟨0xc0da0002, 7, 0, 3, 0⟩

theorem hi_noNul : 0 ∉ ([104, 105] : List UInt8) := by decide

theorem three_small : ([1, 2, 3] : List UInt32).length < 2 ^ 32 := by decide

def sampleArgs : List (Arg Nat) := [.string ⟨[104, 105], hi_noNul⟩, .intArray ⟨[1, 2, 3], three_small⟩]

theorem sample_fits : RequestFits sampleArgs sampleArgs :=
  ⟨⟨by decide, by decide⟩, ⟨by decide, by decide⟩, by decide, by decide⟩

theorem sample_round_trip : ∃ sent templates,
    requestPut .bits64 sampleRpc sampleArgs sampleArgs ⟨[], []⟩ = (sent, true) ∧
    receiveRequest sampleHost [115, 73] [115, 73] ⟨sent.bytes, sent.descs⟩ =
      some (({ sampleRpc with isRequest := 1, appError := naclSrpcResultOk },
        sampleArgs.map Arg.onWire, templates), ⟨[], []⟩) ∧
    templates.map Arg.tag = [115, 73] ∧ templates.map Arg.count = [none, some 3] := by
  refine @request_round_trip Nat sampleHost _ .bits64 (fun _ => rfl) sampleRpc sampleArgs sampleArgs
    sample_fits fun ret member => ?_
  simp only [sampleArgs, List.mem_cons, List.not_mem_nil, or_false] at member
  rcases member with rfl | rfl
  · trivial
  · exact (by decide : 3 < naclAbiSizeTMax / 4)

def Arg.bval? : Arg δ → Option UInt32
  | .bool bval => some bval
  | _ => none

theorem gigabyte_small : (List.replicate (2 ^ 30) (0 : UInt32)).length < 2 ^ 32 := by
  rw [length_replicate]
  decide

def gigabyteArray : CArray UInt32 := ⟨List.replicate (2 ^ 30) 0, gigabyte_small⟩

theorem gigabyte_bytes : arrBytes false gigabyteArray = countBytes (2 ^ 30) := by
  have length : gigabyteArray.elems.length = 2 ^ 30 := length_replicate
  rw [arrBytes, length, if_neg Bool.false_ne_true, append_nil]

def wideBool : SendBuffer Nat × Bool := requestPut .bits64 sampleRpc [.bool 256] [] ⟨[], []⟩

/-- A bool of 256 arrives as 0, and a result template of 2^30 integers is sent but refused. -/
theorem requests_not_received : (wideBool.2 = true ∧
      (receiveRequest sampleHost [98] [] ⟨wideBool.1.bytes, wideBool.1.descs⟩).map
        (fun received => received.1.2.1.map Arg.bval?) = some [some 0]) ∧
    ∃ sent : SendBuffer Nat, requestPut .bits64 sampleRpc [] [.intArray gigabyteArray] ⟨[], []⟩ = (sent, true) ∧
      (receiveRequest sampleHost [] [73] ⟨sent.bytes, sent.descs⟩).isNone = true := by
  refine ⟨⟨by decide +kernel, by decide +kernel⟩, ?_⟩
  have wire : argsBytes false [(.intArray gigabyteArray : Arg Nat)] =
      countBytes 1 ++ (WireType.bytes (73 : UInt8) ++ countBytes (2 ^ 30)) := by
    rw [← gigabyte_bytes]
    exact congrArg (countBytes 1 ++ ·) (List.append_nil _)
  have fits : RequestFits ([] : List (Arg Nat)) [.intArray gigabyteArray] :=
    ⟨⟨by decide, by decide⟩, ⟨by decide, by simp [Arg.serializable]⟩, by rw [wire]; decide +kernel, by decide⟩
  refine ⟨⟨requestBytes sampleRpc ([] : List (Arg Nat)) [.intArray gigabyteArray], []⟩, ?_, ?_⟩
  · exact request_put sampleRpc fits
  · simp only [requestBytes, wire]
    decide +kernel

end Glopen.Srpc
