import Mathlib.Algebra.Ring.Nat
import Glopen.Srpc.Service

/-! The length functions of rpc_serialize.c against what the encoders append. -/
namespace Glopen.Srpc

open Wire List
variable {δ : Type}

section Lengths

variable (size : SizeT) (writeValue : Bool)

def basicLength (α : Type) [WireType α] : Nat × Nat :=
  if writeValue then (WireType.size α, 0) else (0, 0)

def boolLength : Nat × Nat := basicLength writeValue UInt8
def doubleLength : Nat × Nat := basicLength writeValue UInt64
def intLength : Nat × Nat := basicLength writeValue UInt32

def arrLength {α : Type} [WireType α] (array : CArray α) : Nat × Nat :=
  if writeValue then ((4 + WireType.size α * array.elems.length) % 2 ^ 32, 0) else (4, 0)

def charArrLength (caval : CArray UInt8) : Nat × Nat := arrLength writeValue caval
def doubleArrLength (daval : CArray UInt64) : Nat × Nat := arrLength writeValue daval
def intArrLength (iaval : CArray UInt32) : Nat × Nat := arrLength writeValue iaval

def handleLength : Nat × Nat := if writeValue then (0, 1) else (0, 0)

/-- The sum is one of the host's `size_t`. -/
def stringLength (sval : CString) : Nat × Nat :=
  if writeValue then (naclAbiSizeTSaturate ((4 + sval.bytes.length) % (size.max + 1)), 0)
  else (0, 0)

def invalidLength : Nat × Nat := (0, 0)

/-- `length` of the interface that `ArgsGetEltInterface` selects: the bytes and the handles. -/
def eltLength : Arg δ → Nat × Nat
  | .bool _ => boolLength writeValue
  | .charArray caval => charArrLength writeValue caval
  | .double _ => doubleLength writeValue
  | .doubleArray daval => doubleArrLength writeValue daval
  | .handle _ => handleLength writeValue
  | .int _ => intLength writeValue
  | .intArray iaval => intArrLength writeValue iaval
  | .string sval => stringLength size writeValue sval
  | .invalid | .object | .variantArray => invalidLength

/-- The loop of `ArgsLength`, with its sums so far. -/
def allLengths : List (Arg δ) → Nat × Nat → Nat × Nat
  | [], tmp => tmp
  | arg :: rest, tmp =>
    let elt := eltLength size writeValue arg
    allLengths rest ((tmp.1 + (1 + elt.1)) % 2 ^ 32, tmp.2 + elt.2)

/-- The results of `ArgsLength`. -/
def argsLengths (argvec : List (Arg δ)) : Option (Nat × Nat) :=
  if argsLength argvec then some (allLengths size writeValue argvec (4, 0)) else none

def rpcLength (isRequest : Bool) : Nat × Nat := (4 + 8 + 1 + 4 + if isRequest then 4 else 0, 0)

def addLengths (sums more : Nat × Nat) : Nat × Nat :=
  ((sums.1 + more.1) % 2 ^ 32, sums.2 + more.2)

def requestLength (args rets : List (Arg δ)) (sums : Nat × Nat) : (Nat × Nat) × Bool :=
  let sums := addLengths sums (rpcLength true)
  match argsLengths size true args with
  | none => (sums, false)
  | some tmp =>
    let sums := addLengths sums tmp
    match argsLengths size false rets with
    | none => (sums, false)
    | some tmp => (addLengths sums tmp, true)

def responseLength (rets : List (Arg δ)) (sums : Nat × Nat) : (Nat × Nat) × Bool :=
  let sums := addLengths sums (rpcLength false)
  match argsLengths size true rets with
  | none => (sums, false)
  | some tmp => (addLengths sums tmp, true)

end Lengths

inductive Message (δ : Type) where
  | request (args rets : List (Arg δ))
  | response (rets : List (Arg δ))

def Message.put (size : SizeT) (rpc : NaClSrpcRpc) : Message δ → Put δ
  | .request args rets => requestPut size rpc args rets
  | .response rets => responsePut size rpc rets

def Message.length (size : SizeT) : Message δ → Nat × Nat → (Nat × Nat) × Bool
  | .request args rets => requestLength size args rets
  | .response rets => responseLength size rets

def LengthsAgree (size : SizeT) (rpc : NaClSrpcRpc) (message : Message δ) (buffer : SendBuffer δ) :
    Prop :=
  message.length size (0, 0) = (((message.put size rpc buffer).1.bytes.length - buffer.bytes.length,
      (message.put size rpc buffer).1.descs.length - buffer.descs.length), true)

def writtenBytes (count eltSize : Nat) : Nat :=
  if count % 2 ^ 32 = imcFailure then 0 else count % 2 ^ 32 * eltSize % 2 ^ 32

/-- What the length of an argument lacks of the bytes appended, modulo a word: nothing, unless a
failed write is taken for a success or the length is saturated. -/
def Arg.shortfall (size : SizeT) : Arg δ → Nat
  | .charArray caval => if caval.elems.length = imcFailure then 1 else 0
  | .intArray iaval => if iaval.elems.length = imcFailure then 4 else 0
  | .doubleArray daval => if daval.elems.length = imcFailure then 8 else 0
  | .string sval =>
    if naclAbiSizeTMax < (4 + sval.bytes.length) % (size.max + 1) then
      writtenBytes sval.bytes.length 1 + 5
    else if sval.bytes.length % 2 ^ 32 = imcFailure then 1
    else 0
  | _ => 0

def Message.MakesUp (size : SizeT) : Message δ → Prop
  | .request args _ => (args.map (Arg.shortfall size)).sum = 4
  | .response _ => False

variable {size : SizeT} {counted : Nat × Nat} {writes : Nat}

section Accounts

/-- A put that succeeds appends as many descriptors as counted, and as many bytes as counted and
missed, modulo a word; it makes few writes. -/
def Accounts (put : Put δ) (counted : Nat × Nat) (missed writes : Nat) : Prop :=
  ∀ buffer, (put buffer).2 = true → ∃ bytes,
    (put buffer).1.bytes.length = buffer.bytes.length + bytes ∧
      (put buffer).1.descs.length = buffer.descs.length + counted.2 ∧
      (counted.1 + missed) % 2 ^ 32 = bytes % 2 ^ 32 ∧ bytes + missed ≤ writes * 2 ^ 20

variable {counted' : Nat × Nat} {missed' writes' : Nat} {α : Type} {values : Bool}

theorem Accounts.andThen {first second : Put δ} {missed : Nat} (one : Accounts first counted missed writes)
    (two : Accounts second counted' missed' writes') :
    Accounts (first.andThen second) (counted.1 + counted'.1, counted.2 + counted'.2)
      (missed + missed') (writes + writes') := by
  intro buffer sent
  unfold Put.andThen at sent ⊢
  split at sent
  · rename_i between ran
    obtain ⟨bytes, grown, descs, count, few⟩ := one buffer (congrArg Prod.snd ran)
    obtain ⟨bytes', grown', descs', count', few'⟩ := two between sent
    rw [ran] at grown descs
    simp only at grown descs ⊢
    exact ⟨bytes + bytes', by omega, by omega, by omega, by omega⟩
  · cases sent

theorem Accounts.change {put : Put δ} {missed : Nat} (accounts : Accounts put counted missed writes)
    (bytes : counted'.1 % 2 ^ 32 = counted.1 % 2 ^ 32) (handles : counted'.2 = counted.2)
    (same : missed' = missed) (order : writes ≤ writes') : Accounts put counted' missed' writes' := by
  intro buffer sent
  obtain ⟨appended, grown, descs, count, few⟩ := accounts buffer sent
  exact ⟨appended, grown, by omega, by omega, by omega⟩

theorem Accounts.more {put : Put δ} {missed : Nat}
    (accounts : Accounts put counted missed writes) (order : writes ≤ writes') :
    Accounts put counted missed writes' :=
  accounts.change rfl rfl rfl order

theorem done_accounts : Accounts (Put.done : Put δ) (0, 0) 0 0 := by
  intro buffer _
  exact ⟨0, rfl, rfl, rfl, by omega⟩

theorem write_appends [WireType α] (source : List α) {buffer : SendBuffer δ}
    (sent : (naClSrpcImcWrite size source buffer).2 = true) :
    (naClSrpcImcWrite size source buffer).1.bytes.length =
        buffer.bytes.length + writtenBytes source.length (WireType.size α) ∧
      (naClSrpcImcWrite size source buffer).1.descs = buffer.descs ∧
      writtenBytes source.length (WireType.size α) ≤ 2 ^ 17 := by
  have least := @WireType.size_pos α _
  have most := @WireType.size_le α _
  have limit : naclAbiImcUserBytesMax = 131072 := rfl
  have failure : imcFailure = 4294967295 := rfl
  unfold naClSrpcImcWrite at sent ⊢
  unfold writtenBytes
  simp only at sent ⊢
  split at sent
  · rename_i large
    rw [if_pos large, if_pos (of_decide_eq_true sent)]
    exact ⟨rfl, rfl, Nat.zero_le _⟩
  rename_i small
  rw [if_neg small]
  split at sent
  · rename_i full
    rw [if_pos full, if_pos (of_decide_eq_true sent)]
    exact ⟨rfl, rfl, Nat.zero_le _⟩
  rename_i room
  have count : source.length % 2 ^ 32 ≠ imcFailure := by
    intro all
    rw [all, failure, show 4294967295 * WireType.size α =
      (2 ^ 32 - WireType.size α) + 2 ^ 32 * (WireType.size α - 1) by omega,
      Nat.add_mul_mod_self_left, Nat.mod_eq_of_lt (by omega)] at room
    omega
  have inside := (Nat.mod_le _ (2 ^ 32)).trans
    (Nat.mul_le_mul_right (WireType.size α) (Nat.mod_le source.length (2 ^ 32)))
  rw [if_neg room, if_neg count]
  simp only
  rw [length_append, length_take, flat_length, Nat.min_eq_left inside]
  exact ⟨rfl, trivial, by omega⟩

theorem write_accounts [WireType α] (source : List α) {counted missed : Nat}
    (count : (counted + missed) % 2 ^ 32 = writtenBytes source.length (WireType.size α) % 2 ^ 32)
    (few : missed ≤ writtenBytes source.length (WireType.size α) + 8) :
    Accounts (naClSrpcImcWrite size source : Put δ) (counted, 0) missed 1 := by
  intro buffer sent
  obtain ⟨grown, descs, most⟩ := write_appends source sent
  exact ⟨_, grown, by rw [descs]; rfl, count, by omega⟩

theorem one_accounts {α : Type} [WireType α] (value : α) :
    Accounts (naClSrpcImcWrite size [value] : Put δ) (WireType.size α, 0) 0 1 := by
  have most := @WireType.size_le α _
  refine write_accounts [value] ?_ (Nat.zero_le _)
  have one : writtenBytes [value].length (WireType.size α) = 1 * WireType.size α % 2 ^ 32 := rfl
  rw [one]
  omega

theorem basic_accounts [WireType α] (values : Bool) (value : α) :
    Accounts (basicPut size values value : Put δ) (basicLength values α) 0 1 := by
  cases values with
  | true => exact one_accounts value
  | false => exact done_accounts.more (Nat.zero_le _)

theorem elems_accounts {α : Type} [WireType α] (array : CArray α) :
    Accounts (naClSrpcImcWrite size array.elems : Put δ) (WireType.size α * array.elems.length, 0)
      (if array.elems.length = imcFailure then WireType.size α else 0) 1 := by
  have most := @WireType.size_le α _
  have failure : imcFailure = 4294967295 := rfl
  have narrow := Nat.mod_eq_of_lt array.small
  refine write_accounts array.elems ?_ (by split <;> omega)
  unfold writtenBytes
  rw [narrow]
  split
  · rename_i all
    rw [all, failure]
    omega
  · rw [Nat.add_zero, Nat.mod_mod, Nat.mul_comm]

theorem arr_accounts [WireType α] (array : CArray α) (values : Bool) :
    Accounts (arrPut size values array : Put δ) (arrLength values array)
      (if values = true ∧ array.elems.length = imcFailure then WireType.size α else 0) 2 := by
  cases values with
  | true =>
    have both := (@one_accounts δ size _ _ (UInt32.ofNat array.elems.length)).andThen
      (@elems_accounts δ size _ _ array)
    have count : (4 + WireType.size α * array.elems.length) % 2 ^ 32 % 2 ^ 32 = _ :=
      Nat.mod_mod _ _
    exact both.change count rfl (by simp) (Nat.le_refl 2)
  | false =>
    have one := (@one_accounts δ size _ _ (UInt32.ofNat array.elems.length)).andThen done_accounts
    exact one.more (by decide)

def Arg.missed (size : SizeT) (values : Bool) (arg : Arg δ) : Nat :=
  if values then arg.shortfall size else 0

theorem handle_accounts (values : Bool) (hval : δ) :
    Accounts (handlePut values hval) (handleLength values) 0 0 := by
  cases values with
  | true =>
    intro buffer sent
    unfold handlePut naClSrpcImcWriteDesc at sent ⊢
    simp only [if_true] at sent ⊢
    split at sent
    · cases sent
    · rename_i room
      rw [if_neg room]
      exact ⟨0, rfl, by simp [handleLength], rfl, by omega⟩
  | false => exact done_accounts

theorem string_accounts (values : Bool) (sval : CString) :
    Accounts (stringPut size values sval : Put δ) (stringLength size values sval)
      ((Arg.string sval : Arg δ).missed size values) 2 := by
  have failure : imcFailure = 4294967295 := rfl
  have limit : naclAbiSizeTMax = 4294967295 := rfl
  have char : WireType.size UInt8 = 1 := rfl
  cases values with
  | true =>
    have count := @one_accounts δ size _ _ (UInt32.ofNat sval.bytes.length)
    simp only [stringLength, naclAbiSizeTSaturate, Arg.missed, Arg.shortfall, if_true]
    split
    · rename_i saturated
      rw [Nat.min_eq_right (Nat.le_of_lt saturated)]
      have chars : Accounts (naClSrpcImcWrite size sval.bytes : Put δ) (naclAbiSizeTMax - 4, 0)
          (writtenBytes sval.bytes.length 1 + 5) 1 :=
        write_accounts sval.bytes (by rw [limit, char]; omega) (by rw [char]; omega)
      exact (count.andThen chars).change rfl rfl (Nat.zero_add _).symm (Nat.le_refl 2)
    · rename_i whole
      rw [Nat.min_eq_left (not_lt.mp whole)]
      have chars : Accounts (naClSrpcImcWrite size sval.bytes : Put δ) (sval.bytes.length, 0)
          (if sval.bytes.length % 2 ^ 32 = imcFailure then 1 else 0) 1 := by
        refine write_accounts sval.bytes ?_ (by split <;> omega)
        unfold writtenBytes
        rw [failure, char]
        split <;> omega
      have wide : (4 + sval.bytes.length) % (size.max + 1) % 2 ^ 32 = (4 + sval.bytes.length) % 2 ^ 32 :=
        Nat.mod_mod_of_dvd _ (by cases size <;> decide)
      exact (count.andThen chars).change wide rfl (Nat.zero_add _).symm (Nat.le_refl 2)
  | false => exact done_accounts.more (Nat.zero_le _)

theorem elt_accounts (values : Bool) (arg : Arg δ) :
    Accounts (eltPut size values arg) (eltLength size values arg) (arg.missed size values) 2 := by
  have none_missed : (if values = true then 0 else 0) = 0 := ite_self 0
  cases arg with
  | bool bval => exact (basic_accounts values bval.toUInt8).change rfl rfl none_missed (by decide)
  | charArray caval =>
    exact (arr_accounts caval values).change rfl rfl (ite_and _ _ _ _).symm (by decide)
  | double dval => exact (basic_accounts values dval).change rfl rfl none_missed (by decide)
  | doubleArray daval =>
    exact (arr_accounts daval values).change rfl rfl (ite_and _ _ _ _).symm (by decide)
  | int ival => exact (basic_accounts values ival).change rfl rfl none_missed (by decide)
  | intArray iaval =>
    exact (arr_accounts iaval values).change rfl rfl (ite_and _ _ _ _).symm (by decide)
  | string sval => exact string_accounts values sval
  | handle hval => exact (handle_accounts values hval).change rfl rfl none_missed (by decide)
  | invalid => exact fun _ sent => nomatch sent
  | object => exact fun _ sent => nomatch sent
  | variantArray => exact fun _ sent => nomatch sent

def vectorLengths (size : SizeT) (values : Bool) (argvec : List (Arg δ)) : Nat × Nat :=
  ((argvec.map fun arg => 1 + (eltLength size values arg).1).sum,
    (argvec.map fun arg => (eltLength size values arg).2).sum)

theorem allLengths_sums (values : Bool) (argvec : List (Arg δ)) (sums : Nat × Nat) :
    (allLengths size values argvec sums).1 % 2 ^ 32 = (sums.1 + (vectorLengths size values argvec).1) % 2 ^ 32 ∧
      (allLengths size values argvec sums).2 = sums.2 + (vectorLengths size values argvec).2 := by
  induction argvec generalizing sums with
  | nil => exact ⟨rfl, rfl⟩
  | cons arg rest ih =>
    obtain ⟨bytes, handles⟩ := ih
      ((sums.1 + (1 + (eltLength size values arg).1)) % 2 ^ 32, sums.2 + (eltLength size values arg).2)
    simp only [allLengths, vectorLengths, map_cons, sum_cons] at *
    omega

theorem putAll_accounts (values : Bool) (argvec : List (Arg δ)) :
    Accounts (putAll size values argvec) (vectorLengths size values argvec)
      (argvec.map (Arg.missed size values)).sum (3 * argvec.length) := by
  induction argvec with
  | nil => exact done_accounts
  | cons arg rest ih =>
    have all := (@one_accounts δ size _ _ arg.tag).andThen ((@elt_accounts δ size values arg).andThen ih)
    have tag : WireType.size UInt8 = 1 := rfl
    refine all.change ?_ ?_ ?_ ?_ <;>
      simp only [vectorLengths, map_cons, sum_cons, length_cons, tag] <;> omega

theorem args_accounts {argvec : List (Arg δ)} (found : argsLengths size values argvec = some counted) :
    Accounts (argsPut size values argvec) counted (argvec.map (Arg.missed size values)).sum 382 := by
  unfold argsLengths argsLength at found
  obtain ⟨short, summed⟩ := Option.ite_none_right_eq_some.mp found
  have few := of_decide_eq_true short
  cases summed
  have limit : naclSrpcMaxArgs = 128 := rfl
  obtain ⟨bytes, handles⟩ := @allLengths_sums δ size values argvec (4, 0)
  have all := (@one_accounts δ size _ _ (UInt32.ofNat argvec.length)).andThen
    (@putAll_accounts δ size values argvec)
  rw [argsPut, if_neg (by omega)]
  exact all.change bytes handles (Nat.zero_add _).symm (by omega)

theorem args_counted {argvec : List (Arg δ)} {buffer : SendBuffer δ}
    (sent : (argsPut size values argvec buffer).2 = true) :
    ∃ counted, argsLengths size values argvec = some counted := by
  unfold argsPut at sent
  split at sent
  · cases sent
  · rename_i few
    exact ⟨_, if_pos (decide_eq_true (by omega))⟩

theorem rpc_accounts (rpc : NaClSrpcRpc) :
    Accounts (rpcWrite size rpc : Put δ) (if rpc.isRequest = 0 then 21 else 17, 0) 0 5 := by
  have last : Accounts (if rpc.isRequest = 0 then naClSrpcImcWrite size [rpc.appError]
      else Put.done : Put δ) (if rpc.isRequest = 0 then 4 else 0, 0) 0 1 := by
    split
    · exact one_accounts _
    · exact done_accounts.more (Nat.zero_le _)
  have all := (@one_accounts δ size _ _ rpc.protocolVersion).andThen <|
    (@one_accounts δ size _ _ rpc.requestId).andThen <|
    (@one_accounts δ size _ _ rpc.isRequest).andThen <|
    (@one_accounts δ size _ _ rpc.rpcNumber).andThen last
  refine all.change ?_ rfl rfl (Nat.le_refl 5)
  simp only
  split <;> rfl

end Accounts

section Agreement

variable {rpc : NaClSrpcRpc} {buffer : SendBuffer δ}

theorem andThen_sent {first second : Put δ} (sent : (first.andThen second buffer).2 = true) :
    ∃ between, first buffer = (between, true) ∧ (second between).2 = true := by
  unfold Put.andThen at sent
  split at sent
  · exact ⟨_, ‹_›, sent⟩
  · cases sent

theorem agree_iff {message : Message δ} {sums counted : Nat × Nat} {missed writes : Nat}
    (length : message.length size (0, 0) = (sums, true))
    (accounts : Accounts (message.put size rpc) counted missed writes) (few : writes < 2 ^ 10)
    (sent : (message.put size rpc buffer).2 = true) (word : sums.1 < 2 ^ 32) (handles : sums.2 = counted.2) :
    LengthsAgree size rpc message buffer ↔ sums.1 % 2 ^ 32 = (counted.1 + missed) % 2 ^ 32 := by
  obtain ⟨bytes, grown, descs, count, most⟩ := accounts buffer sent
  rw [LengthsAgree, length, Prod.mk.injEq, and_iff_left rfl, grown, descs, Prod.ext_iff]
  simp only
  omega

theorem missed_small {put : Put δ} {missed : Nat}
    (accounts : Accounts put counted missed writes) (sent : (put buffer).2 = true) :
    missed ≤ writes * 2 ^ 20 := by
  obtain ⟨bytes, -, -, -, most⟩ := accounts buffer sent
  omega

theorem missed_templates (rets : List (Arg δ)) : (rets.map (Arg.missed size false)).sum = 0 := by
  induction rets with
  | nil => rfl
  | cons ret rest ih => exact (Nat.zero_add _).trans ih

theorem request_agrees_iff {args rets : List (Arg δ)} (sent : (requestPut size rpc args rets buffer).2 = true) :
    LengthsAgree size rpc (.request args rets) buffer ↔ (args.map (Arg.shortfall size)).sum = 4 := by
  obtain ⟨_, -, vectors⟩ := andThen_sent sent
  obtain ⟨between, ran, template⟩ := andThen_sent vectors
  obtain ⟨arguments, counted⟩ := args_counted (congrArg Prod.snd ran)
  obtain ⟨results, counted'⟩ := args_counted template
  have header := @rpc_accounts δ size { rpc with isRequest := 1, appError := naclSrpcResultOk }
  have all := header.andThen ((args_accounts counted).andThen (args_accounts counted'))
  rw [missed_templates] at all
  have small := missed_small all sent
  have length : requestLength size args rets (0, 0) =
      ((((21 + arguments.1) % 2 ^ 32 + results.1) % 2 ^ 32, arguments.2 + results.2), true) := by
    simp [requestLength, counted, counted', addLengths, rpcLength]
  refine (@agree_iff δ size rpc buffer (.request args rets) _ _ _ _ length all (by decide) sent
    (Nat.mod_lt _ (by decide)) (Nat.zero_add _).symm).trans ?_
  have missed : (args.map (Arg.missed size true)).sum = (args.map (Arg.shortfall size)).sum := rfl
  rw [missed] at small ⊢
  have request : (if (1 : UInt8) = 0 then 21 else 17) = 17 := rfl
  simp only [request]
  omega

theorem response_disagrees {rets : List (Arg δ)} (sent : (responsePut size rpc rets buffer).2 = true) :
    ¬ LengthsAgree size rpc (.response rets) buffer := by
  obtain ⟨header, -, vector⟩ := andThen_sent sent
  obtain ⟨results, counted⟩ := args_counted vector
  have all := (@rpc_accounts δ size { rpc with isRequest := 0 }).andThen (args_accounts counted)
  have small := missed_small all sent
  have length : responseLength size rets (0, 0) = (((17 + results.1) % 2 ^ 32, results.2), true) := by
    simp [responseLength, counted, addLengths, rpcLength]
  refine (not_congr (@agree_iff δ size rpc buffer (.response rets) _ _ _ _ length all (by decide)
    sent (Nat.mod_lt _ (by decide)) (Nat.zero_add _).symm)).mpr ?_
  simp only [if_true]
  omega

end Agreement

/-- Where a message is sent, its lengths agree with what was appended just for the requests whose
arguments make up for the four bytes counted too many. -/
theorem lengths_agree_iff {size : SizeT} {rpc : NaClSrpcRpc} {message : Message δ}
    {buffer : SendBuffer δ} (sent : (message.put size rpc buffer).2 = true) :
    LengthsAgree size rpc message buffer ↔ message.MakesUp size := by
  cases message with
  | request args rets => exact request_agrees_iff sent
  | response rets => exact iff_false_intro (response_disagrees sent)

def emptyRpc : NaClSrpcRpc where
  protocolVersion := 0
  requestId := 0
  isRequest := 0
  rpcNumber := 0
  appError := 0

theorem lengths_agree_iff_empty : ¬ LengthsAgree (δ := Unit) .bits64 emptyRpc (.response []) ⟨[], []⟩ := by
  rw [lengths_agree_iff (by decide)]
  exact id

/-- A request without arguments and results: 25 bytes are appended, 29 are computed. -/
theorem empty_request_length : (requestPut .bits64 emptyRpc ([] : List (Arg Unit)) [] ⟨[], []⟩).2 = true ∧
      (requestPut .bits64 emptyRpc ([] : List (Arg Unit)) [] ⟨[], []⟩).1.bytes.length = 25 ∧
      requestLength .bits64 ([] : List (Arg Unit)) [] (0, 0) = ((29, 0), true) ∧
      ¬ LengthsAgree .bits64 emptyRpc (.request ([] : List (Arg Unit)) []) ⟨[], []⟩ := by
  unfold LengthsAgree
  decide

end Glopen.Srpc
