import Glopen.Srpc.Args

/-! Argument vectors, message headers, requests and responses. -/
namespace Glopen.Srpc

open Wire

/-- The serialized part of `NaClSrpcRpc`. -/
structure NaClSrpcRpc where
  protocolVersion : UInt32
  requestId : UInt64
  isRequest : UInt8
  rpcNumber : UInt32
  appError : UInt32
deriving DecidableEq

def naclSrpcResultOk : UInt32 := 256
def naclSrpcResultInternal : UInt32 := 267

section Writing

variable {δ : Type} (size : SizeT)

def putAll (writeValue : Bool) : List (Arg δ) → Put δ
  | [] => Put.done
  | arg :: rest =>
    (naClSrpcImcWrite size [arg.tag]).andThen
      ((eltPut size writeValue arg).andThen (putAll writeValue rest))

def argsPut (writeValue : Bool) (argvec : List (Arg δ)) : Put δ :=
  if naclSrpcMaxArgs ≤ argvec.length then Put.fail
  else (naClSrpcImcWrite size [UInt32.ofNat argvec.length]).andThen (putAll size writeValue argvec)

/-- `ArgsLength`, of which only the result is used. -/
def argsLength (argvec : List (Arg δ)) : Bool := argvec.length < naclSrpcMaxArgs

def rpcWrite (rpc : NaClSrpcRpc) : Put δ :=
  (naClSrpcImcWrite size [rpc.protocolVersion]).andThen <|
  (naClSrpcImcWrite size [rpc.requestId]).andThen <|
  (naClSrpcImcWrite size [rpc.isRequest]).andThen <|
  (naClSrpcImcWrite size [rpc.rpcNumber]).andThen <|
  if rpc.isRequest = 0 then naClSrpcImcWrite size [rpc.appError] else Put.done

def requestPut (rpc : NaClSrpcRpc) (args rets : List (Arg δ)) : Put δ :=
  (rpcWrite size { rpc with isRequest := 1, appError := naclSrpcResultOk }).andThen
    ((argsPut size true args).andThen (argsPut size false rets))

def responsePut (rpc : NaClSrpcRpc) (rets : List (Arg δ)) : Put δ :=
  (rpcWrite size { rpc with isRequest := 0 }).andThen (argsPut size true rets)

end Writing

section Reading

variable {δ : Type}

def naClSrpcRpcGet : Get δ NaClSrpcRpc := do
  let protocolVersion ← readOne UInt32
  let requestId ← readOne UInt64
  let isRequest ← readOne UInt8
  let rpcNumber ← readOne UInt32
  let appError ← if isRequest = 0 then readOne UInt32 else pure naclSrpcResultOk
  pure { protocolVersion, requestId, isRequest, rpcNumber, appError }

variable [Inhabited δ] (host : Host)

/-- An argument of zeroed memory with a declared type. A type without an interface is
represented by `invalid`: neither can be got. -/
def Arg.blank : UInt8 → Arg δ
  | 98 => .bool 0
  | 67 => .charArray (CArray.fresh 0)
  | 100 => .double 0
  | 68 => .doubleArray (CArray.fresh 0)
  | 104 => .handle default
  | 105 => .int 0
  | 73 => .intArray (CArray.fresh 0)
  | 115 => .string (CString.ofBytes [])
  | 111 => .object
  | 65 => .variantArray
  | _ => .invalid

/-- The character `':'`, which ends the types of a declaration like the end of the string. -/
def colon : UInt8 := 58

/-- Type tags as declared, for a vector of `length` arguments. -/
def declaredArgs (argTypes : List UInt8) (length : Nat) : Option (List (Arg δ)) :=
  if argTypes.length < length ∨ colon ∈ argTypes.take length then none
  else if argTypes[length]?.all (· = colon) then some ((argTypes.take length).map Arg.blank)
  else none

def getAll (allocateArgs readValues : Bool) : Nat → List (Arg δ) → Get δ (List (Arg δ))
  | 0, _ => pure []
  | _ + 1, [] => failure
  | count + 1, arg :: rest => do
    let readType ← readOne UInt8
    if arg.tag ≠ readType then failure
    else do
      let arg ← eltGet host allocateArgs readValues arg
      (arg :: ·) <$> getAll allocateArgs readValues count rest

/-- The vector that `ArgsGet` fills. -/
def argsTarget (allocateArgs : Bool) (argvec : List (Arg δ)) (argTypes : List UInt8)
    (length : Nat) : Option (List (Arg δ)) :=
  if allocateArgs ∧ 0 < length then
    if host.size.max / host.size.argSize ≤ length then none
    else if !host.malloc (length * host.size.argSize) then none
    else declaredArgs argTypes length
  else if length ≠ argTypes.length then none
  else some argvec

def argsGet (allocateArgs readValues : Bool) (argvec : List (Arg δ)) (argTypes : List UInt8) :
    Get δ (List (Arg δ)) := do
  let lenu32 ← readOne UInt32
  if naclSrpcMaxArgs ≤ lenu32.toNat then failure
  else do
    let args ← StateT.lift (argsTarget host allocateArgs argvec argTypes lenu32.toNat)
    getAll host allocateArgs readValues lenu32.toNat args

def naClSrpcRequestGet (argTypes retTypes : List UInt8) : Get δ (List (Arg δ) × List (Arg δ)) := do
  let args ← argsGet host true true [] argTypes
  (args, ·) <$> argsGet host true false [] retTypes

def naClSrpcResponseGet (rpc : NaClSrpcRpc) (retTypes : List UInt8) (rets : List (Arg δ)) :
    Get δ (List (Arg δ)) :=
  if rpc.appError ≠ naclSrpcResultOk then pure rets
  else argsGet host false true rets retTypes

end Reading

end Glopen.Srpc
