import Glopen.Srpc.Serialize

/-! What the two sides of a message agree on: the bytes and descriptors of each part, which a
put appends and a get consumes. -/
namespace Glopen.Srpc

open Wire List
variable {δ : Type}

/-- With enough room, `put` appends exactly these bytes and descriptors. -/
def Writes (put : Put δ) (bytes : List UInt8) (descs : List δ) : Prop :=
  ∀ buffer, buffer.bytes.length + bytes.length ≤ naclAbiImcUserBytesMax →
    buffer.descs.length + descs.length ≤ srpcDescMax →
    put buffer = (⟨buffer.bytes ++ bytes, buffer.descs ++ descs⟩, true)

/-- `get` consumes exactly these bytes and descriptors, and returns `value`. -/
def Reads {α : Type} (get : Get δ α) (bytes : List UInt8) (descs : List δ) (value : α) : Prop :=
  ∀ rest : ReceiveBuffer δ, get ⟨bytes ++ rest.bytes, descs ++ rest.descs⟩ = some (value, rest)

section Writes

variable {size : SizeT}

theorem Writes.done : Writes (Put.done : Put δ) [] [] := by
  intro buffer _ _
  rw [append_nil, append_nil]
  rfl

theorem Writes.andThen {first second : Put δ} {bytes bytes' : List UInt8} {descs descs' : List δ}
    (one : Writes first bytes descs) (two : Writes second bytes' descs') :
    Writes (first.andThen second) (bytes ++ bytes') (descs ++ descs') := by
  intro buffer room space
  rw [length_append] at room space
  rw [Put.andThen, one buffer (by omega) (by omega)]
  simp only
  rw [two _ (by rw [length_append]; omega) (by rw [length_append]; omega), append_assoc, append_assoc]

theorem write_writes {α : Type} [WireType α] (source : List α) :
    Writes (naClSrpcImcWrite size source : Put δ) (flat source) [] := by
  intro buffer room _
  have length := flat_length source
  have least := @WireType.size_pos α _
  have most := @WireType.size_le α _
  have limit : naclAbiImcUserBytesMax = 131072 := rfl
  have narrow : source.length % 2 ^ 32 = source.length :=
    Nat.mod_eq_of_lt ((Nat.le_mul_of_pos_right _ least).trans_lt (by omega))
  have large : source.length < size.max / WireType.size α := by
    have : 2 ^ 32 - 1 ≤ size.max := by cases size <;> decide
    rw [Nat.lt_div_iff_mul_lt least]
    omega
  have whole : source.length * WireType.size α % 2 ^ 32 = (flat source).length := by
    rw [length]
    exact Nat.mod_eq_of_lt (by omega)
  rw [naClSrpcImcWrite]
  simp only [narrow]
  rw [if_neg (by omega), whole, if_neg (by omega), take_length, append_nil]

theorem write_one {α : Type} [WireType α] (value : α) :
    Writes (naClSrpcImcWrite size [value] : Put δ) (WireType.bytes value) [] := by
  have one := @write_writes δ size α _ [value]
  rw [flat, flatMap_singleton] at one
  exact one

end Writes

section Reads

variable {α β : Type}

theorem Reads.pure (value : α) : Reads (pure value : Get δ α) [] [] value := fun _ => rfl

theorem Reads.lift {option : Option α} {value : α} (found : option = some value) :
    Reads (StateT.lift option : Get δ α) [] [] value := by
  intro rest
  rw [found]
  rfl

theorem Reads.then {first : Get δ α} {second : α → Get δ β} {bytes : List UInt8}
    {descs : List δ} {a : α} (reads : Reads first bytes descs a) (rest : ReceiveBuffer δ) :
    (first >>= second) ⟨bytes ++ rest.bytes, descs ++ rest.descs⟩ = second a rest := by
  change (first _).bind _ = _
  rw [reads rest]
  rfl

theorem Reads.bind {first : Get δ α} {second : α → Get δ β} {bytes bytes' : List UInt8}
    {descs descs' : List δ} {a : α} {b : β} (one : Reads first bytes descs a)
    (two : Reads (second a) bytes' descs' b) :
    Reads (first >>= second) (bytes ++ bytes') (descs ++ descs') b := by
  intro rest
  rw [append_assoc, append_assoc, one.then ⟨bytes' ++ rest.bytes, descs' ++ rest.descs⟩]
  exact two rest

theorem Reads.map {get : Get δ α} {bytes : List UInt8} {descs : List δ} {a : α} (f : α → β)
    (reads : Reads get bytes descs a) : Reads (f <$> get) bytes descs (f a) := by
  intro rest
  change (get _).bind _ = _
  rw [reads rest]
  rfl

theorem read_reads {eltSize nElt : Nat} {bytes : List UInt8}
    (few : nElt < naclAbiSizeTMax / eltSize) (length : bytes.length = nElt * eltSize) :
    Reads (naClSrpcImcRead eltSize nElt : Get δ (List UInt8)) bytes [] bytes := by
  intro rest
  rw [naClSrpcImcRead, if_neg (by omega)]
  simp only [length_append, nil_append]
  rw [if_pos (by omega), take_left' length, drop_left' length]

theorem readOne_reads [WireType α] (value : α) :
    Reads (readOne α : Get δ α) (WireType.bytes value) [] value := by
  have least := @WireType.size_pos α _
  have most := @WireType.size_le α _
  have few : 1 < naclAbiSizeTMax / WireType.size α := by
    rw [Nat.lt_div_iff_mul_lt least]
    simp only [naclAbiSizeTMax]
    omega
  have length : (WireType.bytes value).length = 1 * WireType.size α := by
    rw [WireType.bytes_length, Nat.one_mul]
  have read := (@read_reads δ _ _ _ few length).map (WireType.ofBytes (α := α))
  rw [WireType.ofBytes_bytes] at read
  exact read

end Reads

section Elements

def countBytes (count : Nat) : List UInt8 := WireType.bytes (UInt32.ofNat count)

def arrBytes {α : Type} [WireType α] (values : Bool) (array : CArray α) : List UInt8 :=
  countBytes array.elems.length ++ if values then flat array.elems else []

def Arg.bytes (values : Bool) : Arg δ → List UInt8
  | .bool bval => if values then WireType.bytes bval.toUInt8 else []
  | .charArray caval => arrBytes values caval
  | .double dval => if values then WireType.bytes dval else []
  | .doubleArray daval => arrBytes values daval
  | .int ival => if values then WireType.bytes ival else []
  | .intArray iaval => arrBytes values iaval
  | .string sval => if values then countBytes sval.bytes.length ++ flat sval.bytes else []
  | .handle _ | .invalid | .object | .variantArray => []

def Arg.descs (values : Bool) : Arg δ → List δ
  | .handle hval => if values then [hval] else []
  | _ => []

def Arg.serializable : Arg δ → Bool
  | .invalid | .object | .variantArray => false
  | _ => true

variable {size : SizeT}

theorem basic_writes {α : Type} [WireType α] (values : Bool) (value : α) :
    Writes (basicPut size values value : Put δ) (if values then WireType.bytes value else []) [] := by
  cases values with
  | true => exact write_one value
  | false => exact Writes.done

theorem arr_writes {α : Type} [WireType α] (values : Bool) (array : CArray α) :
    Writes (arrPut size values array : Put δ) (arrBytes values array) [] := by
  cases values with
  | true => exact (write_one _).andThen (write_writes array.elems)
  | false => exact (write_one _).andThen Writes.done

theorem elt_writes (values : Bool) {arg : Arg δ} (valid : arg.serializable = true) :
    Writes (eltPut size values arg) (arg.bytes values) (arg.descs values) := by
  cases arg with
  | bool bval => exact basic_writes values bval.toUInt8
  | charArray caval => exact arr_writes values caval
  | double dval => exact basic_writes values dval
  | doubleArray daval => exact arr_writes values daval
  | int ival => exact basic_writes values ival
  | intArray iaval => exact arr_writes values iaval
  | string sval =>
    cases values with
    | true => exact (write_one _).andThen (write_writes sval.bytes)
    | false => exact Writes.done
  | handle hval =>
    cases values with
    | true =>
      intro buffer room space
      rw [eltPut, handlePut, if_pos rfl, naClSrpcImcWriteDesc, if_neg]
      · rw [Arg.bytes, append_nil]
        rfl
      · simp only [Arg.descs, if_true, length_singleton] at space
        omega
    | false => exact Writes.done
  | invalid => cases valid
  | object => cases valid
  | variantArray => cases valid

theorem count_toNat {n : Nat} (small : n < 2 ^ 32) : (UInt32.ofNat n).toNat = n := by
  rw [UInt32.toNat_ofNat', Nat.mod_eq_of_lt small]

theorem few_of_fits {α : Type} [WireType α] {elems : List α}
    (fits : (flat elems).length ≤ naclAbiImcUserBytesMax) :
    elems.length < naclAbiSizeTMax / WireType.size α := by
  have most := @WireType.size_le α _
  rw [Nat.lt_div_iff_mul_lt WireType.size_pos, ← flat_length]
  simp only [naclAbiSizeTMax, naclAbiImcUserBytesMax] at *
  omega

variable {host : Host} {allocate : Bool}

section

variable {α : Type} [WireType α] [Inhabited α] {array target sent : CArray α}
  (found : arrTarget host allocate array (UInt32.ofNat sent.elems.length) = some target)
include found

theorem arr_reads (fits : (flat sent.elems).length ≤ naclAbiImcUserBytesMax) :
    Reads (arrGet host allocate true array : Get δ (CArray α)) (arrBytes true sent) []
      (target.overwrite sent.elems) := by
  apply (readOne_reads (UInt32.ofNat sent.elems.length)).bind
  apply (Reads.lift found).bind
  rw [if_pos rfl, count_toNat sent.small]
  have read := @read_reads δ _ _ _ (few_of_fits fits) (flat_length sent.elems)
  have filled := read.map fun bytes =>
    target.overwrite (unflat (bytes.length / WireType.size α) bytes)
  simp only [flat_length, Nat.mul_div_cancel _ WireType.size_pos, unflat_flat] at filled
  exact filled

theorem arr_template : Reads (arrGet host allocate false array : Get δ (CArray α)) (arrBytes false sent) []
      target := by
  apply (readOne_reads (UInt32.ofNat sent.elems.length)).bind
  apply (Reads.lift found).bind
  rw [if_neg Bool.false_ne_true]
  exact Reads.pure target

end

theorem arrTarget_fresh {α : Type} [WireType α] [Inhabited α] {array : CArray α} {dim : UInt32}
    (few : dim.toNat < naclAbiSizeTMax / WireType.size α)
    (memory : host.malloc (dim.toNat * WireType.size α) = true) :
    arrTarget host true array dim = some (CArray.fresh dim) := by
  rw [arrTarget, if_pos rfl, if_neg (by omega), if_pos memory]

theorem overwrite_all {α : Type} {target sent : CArray α}
    (same : target.elems.length = sent.elems.length) : target.overwrite sent.elems = sent := by
  have whole : (sent.elems ++ target.elems.drop sent.elems.length).take target.elems.length = sent.elems := by
    rw [same]
    exact take_left
  cases sent
  simp only [CArray.overwrite, CArray.mk.injEq]
  exact whole

theorem flat_uint8 (bytes : List UInt8) : flat bytes = bytes := by
  induction bytes with
  | nil => rfl
  | cons byte rest ih =>
    have one : WireType.bytes byte = [byte] := congrArg (· :: []) UInt8.ofNat_toNat
    rw [flat, flatMap_cons, one, ← flat, ih]
    rfl

theorem string_reads {old sval : CString} (fits : sval.bytes.length ≤ naclAbiImcUserBytesMax)
    (memory : host.malloc (sval.bytes.length + 1) = true) : Reads (stringGet host true old : Get δ CString)
      (countBytes sval.bytes.length ++ flat sval.bytes) [] sval := by
  have limit : naclAbiImcUserBytesMax = 131072 := rfl
  have most : naclAbiSizeTMax = 4294967295 := rfl
  rw [stringGet, if_pos rfl]
  apply (readOne_reads (UInt32.ofNat sval.bytes.length)).bind
  rw [count_toNat (by omega), if_neg (by omega), memory, if_neg (by decide)]
  have read := @read_reads δ 1 sval.bytes.length (flat sval.bytes)
    (by rw [Nat.div_one]; omega) (flat_length sval.bytes)
  have got := read.map CString.ofBytes
  rw [flat_uint8, ofBytes_bytes] at got
  rw [flat_uint8]
  exact got

end Elements

section Vectors

variable {size : SizeT}

def eltBytes (values : Bool) (arg : Arg δ) : List UInt8 := WireType.bytes arg.tag ++ arg.bytes values

def argsBytes (values : Bool) (argvec : List (Arg δ)) : List UInt8 :=
  countBytes argvec.length ++ argvec.flatMap (eltBytes values)

def argsDescs (values : Bool) (argvec : List (Arg δ)) : List δ := argvec.flatMap (Arg.descs values)

def rpcBytes (rpc : NaClSrpcRpc) : List UInt8 :=
  WireType.bytes rpc.protocolVersion ++ (WireType.bytes rpc.requestId ++
    (WireType.bytes rpc.isRequest ++ (WireType.bytes rpc.rpcNumber ++
      if rpc.isRequest = 0 then WireType.bytes rpc.appError else [])))

theorem putAll_writes (values : Bool) {argvec : List (Arg δ)} (valid : ∀ arg ∈ argvec, arg.serializable = true) :
    Writes (putAll size values argvec) (argvec.flatMap (eltBytes values)) (argsDescs values argvec) := by
  induction argvec with
  | nil => exact Writes.done
  | cons arg rest ih =>
    have first := @elt_writes δ size values arg (valid arg mem_cons_self)
    have later := ih fun other member => valid other (mem_cons_of_mem _ member)
    have all := (@write_one δ size _ _ arg.tag).andThen (first.andThen later)
    rw [flatMap_cons, eltBytes, append_assoc]
    exact all

theorem args_writes (values : Bool) {argvec : List (Arg δ)}
    (few : argvec.length < naclSrpcMaxArgs) (valid : ∀ arg ∈ argvec, arg.serializable = true) :
    Writes (argsPut size values argvec) (argsBytes values argvec) (argsDescs values argvec) := by
  rw [argsPut, if_neg (by omega)]
  exact (write_one _).andThen (putAll_writes values valid)

theorem rpc_writes (rpc : NaClSrpcRpc) : Writes (rpcWrite size rpc : Put δ) (rpcBytes rpc) [] := by
  apply (write_one _).andThen
  apply (write_one _).andThen
  apply (write_one _).andThen
  apply (write_one _).andThen
  split
  · exact write_one _
  · exact Writes.done

theorem rpc_reads {rpc : NaClSrpcRpc} (request : rpc.isRequest ≠ 0 → rpc.appError = naclSrpcResultOk) :
    Reads (naClSrpcRpcGet : Get δ NaClSrpcRpc) (rpcBytes rpc) [] rpc := by
  apply (readOne_reads rpc.protocolVersion).bind
  apply (readOne_reads rpc.requestId).bind
  apply (readOne_reads rpc.isRequest).bind
  apply (readOne_reads rpc.rpcNumber).bind
  by_cases response : rpc.isRequest = 0
  · rw [if_pos response, if_pos response]
    have read : Reads (readOne UInt32 >>= fun appError => pure { rpc with appError := appError } :
        Get δ NaClSrpcRpc) (WireType.bytes rpc.appError ++ []) ([] ++ []) rpc :=
      (readOne_reads rpc.appError).bind (Reads.pure rpc)
    rw [append_nil] at read
    exact read
  · rw [if_neg response, if_neg response, ← request response]
    exact (Reads.pure (δ := δ) rpc.appError).bind (Reads.pure rpc)

variable [Inhabited δ] {host : Host} {allocate read values : Bool}

theorem getAll_reads {result : Arg δ × Arg δ → Arg δ} {pairs : List (Arg δ × Arg δ)}
    (each : ∀ pair ∈ pairs, pair.1.tag = pair.2.tag ∧
      Reads (eltGet host allocate read pair.1) (pair.2.bytes values) (pair.2.descs values) (result pair)) :
    Reads (getAll host allocate read pairs.length (pairs.map Prod.fst))
      ((pairs.map Prod.snd).flatMap (eltBytes values)) (argsDescs values (pairs.map Prod.snd))
      (pairs.map result) := by
  induction pairs with
  | nil => exact Reads.pure []
  | cons pair rest ih =>
    obtain ⟨tag, first⟩ := each pair mem_cons_self
    have later := ih fun other member => each other (mem_cons_of_mem _ member)
    simp only [map_cons, flatMap_cons, eltBytes, append_assoc]
    apply (readOne_reads pair.2.tag).bind
    rw [if_neg (fun different => different tag)]
    exact first.bind (later.map (result pair :: ·))

end Vectors

end Glopen.Srpc

/-! Messages that fit into a send buffer, and what is sent of them. -/
namespace Glopen.Srpc

open Wire List
variable {δ : Type} {size : SizeT}

structure Sendable (argvec : List (Arg δ)) : Prop where
  few : argvec.length < naclSrpcMaxArgs
  serializable : ∀ arg ∈ argvec, arg.serializable = true

theorem elt_room {values : Bool} {argvec : List (Arg δ)}
    (room : (argsBytes values argvec).length ≤ naclAbiImcUserBytesMax) {arg : Arg δ}
    (member : arg ∈ argvec) : (arg.bytes values).length ≤ naclAbiImcUserBytesMax := by
  have inner := (sublist_flatten_of_mem (List.mem_map_of_mem (f := eltBytes values) member)).length_le
  rw [← flatMap_def] at inner
  rw [argsBytes, length_append] at room
  rw [eltBytes, length_append] at inner
  exact (Nat.le_trans (Nat.le_add_left _ _) inner).trans ((Nat.le_add_left _ _).trans room)

structure RequestFits (args rets : List (Arg δ)) : Prop where
  arguments : Sendable args
  results : Sendable rets
  bytes : 17 + (argsBytes true args).length + (argsBytes false rets).length ≤ naclAbiImcUserBytesMax
  descs : (argsDescs true args).length ≤ srpcDescMax

def requestBytes (rpc : NaClSrpcRpc) (args rets : List (Arg δ)) : List UInt8 :=
  rpcBytes { rpc with isRequest := 1, appError := naclSrpcResultOk } ++
    (argsBytes true args ++ argsBytes false rets)

theorem request_length (rpc : NaClSrpcRpc) (args rets : List (Arg δ)) : (requestBytes rpc args rets).length =
      17 + (argsBytes true args).length + (argsBytes false rets).length := by
  rw [requestBytes, length_append, length_append, ← Nat.add_assoc]
  rfl

theorem templateDescs (rets : List (Arg δ)) : argsDescs false rets = [] := by
  apply flatMap_eq_nil_iff.mpr
  intro arg _
  cases arg <;> rfl

theorem request_sent (rpc : NaClSrpcRpc) {args rets : List (Arg δ)} (fits : RequestFits args rets) :
    Writes (requestPut size rpc args rets) (requestBytes rpc args rets) (argsDescs true args) := by
  have arguments := @args_writes δ size true args fits.arguments.few fits.arguments.serializable
  have results := @args_writes δ size false rets fits.results.few fits.results.serializable
  have all := (@rpc_writes δ size { rpc with isRequest := 1, appError := naclSrpcResultOk }).andThen
    (arguments.andThen results)
  rw [templateDescs, append_nil] at all
  exact all

theorem request_put (rpc : NaClSrpcRpc) {args rets : List (Arg δ)} (fits : RequestFits args rets) :
    requestPut size rpc args rets ⟨[], []⟩ = (⟨requestBytes rpc args rets, argsDescs true args⟩, true) := by
  apply request_sent rpc fits
  · rw [request_length, length_nil, Nat.zero_add]
    exact fits.bytes
  · rw [length_nil, Nat.zero_add]
    exact fits.descs

structure ResponseFits (rets : List (Arg δ)) : Prop where
  results : Sendable rets
  bytes : 21 + (argsBytes true rets).length ≤ naclAbiImcUserBytesMax
  descs : (argsDescs true rets).length ≤ srpcDescMax

def responseBytes (rpc : NaClSrpcRpc) (rets : List (Arg δ)) : List UInt8 :=
  rpcBytes { rpc with isRequest := 0 } ++ argsBytes true rets

theorem response_length (rpc : NaClSrpcRpc) (rets : List (Arg δ)) :
    (responseBytes rpc rets).length = 21 + (argsBytes true rets).length := by
  rw [responseBytes, length_append]
  rfl

theorem response_sent (rpc : NaClSrpcRpc) {rets : List (Arg δ)} (fits : ResponseFits rets) :
    Writes (responsePut size rpc rets) (responseBytes rpc rets) (argsDescs true rets) :=
  (rpc_writes { rpc with isRequest := 0 }).andThen (args_writes true fits.results.few fits.results.serializable)

theorem response_put (rpc : NaClSrpcRpc) {rets : List (Arg δ)} (fits : ResponseFits rets) :
    responsePut size rpc rets ⟨[], []⟩ = (⟨responseBytes rpc rets, argsDescs true rets⟩, true) := by
  apply response_sent rpc fits
  · rw [response_length, length_nil, Nat.zero_add]
    exact fits.bytes
  · rw [length_nil, Nat.zero_add]
    exact fits.descs

end Glopen.Srpc
