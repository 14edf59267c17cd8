import Glopen.Srpc.Serialize

/-! Service descriptions of rpc_service.c: the table of methods, the service-discovery string that
is printed from it, and the table that is read back from such a string. -/
namespace Glopen.Srpc

def newline : UInt8 := 10

def intMax : Nat := 2 ^ 31 - 1

def kNaClSrpcInvalidMethodIndex : Nat := 2 ^ 32 - 1

/-- `NaClSrpcMethodDesc` without its handler, which strings do not describe. -/
structure MethodDesc where
  name : CString
  inputTypes : CString
  outputTypes : CString

/-- `sizeof(NaClSrpcMethodDesc)`. -/
def SizeT.methodSize : SizeT → Nat
  | bits32 => 16
  | bits64 => 32

section Parsing

variable (host : Host)

def inElement (c : UInt8) : Bool := c ≠ colon ∧ c ≠ newline ∧ c ≠ 0

def getOneElement (string : List UInt8) : Option CString :=
  let element := string.takeWhile inElement
  if host.malloc (element.length + 1) then some (CString.ofBytes element) else none

def skip (delimiter : UInt8) : List UInt8 → Option (List UInt8)
  | [] => none
  | c :: rest => if c = delimiter then some rest else none

def parseOneEntry (entryFmt : List UInt8) : Option (MethodDesc × List UInt8) := do
  let name ← getOneElement host entryFmt
  let entryFmt ← skip colon (entryFmt.drop name.bytes.length)
  let inputTypes ← getOneElement host entryFmt
  let entryFmt ← skip colon (entryFmt.drop inputTypes.bytes.length)
  let outputTypes ← getOneElement host entryFmt
  some (⟨name, inputTypes, outputTypes⟩, entryFmt.drop outputTypes.bytes.length)

/-- What follows the next newline, as found by `strchr`. -/
def afterNewline : List UInt8 → Option (List UInt8)
  | [] => none
  | c :: rest => if c = newline then some rest else afterNewline rest

theorem afterNewline_length {p next : List UInt8} (found : afterNewline p = some next) :
    next.length < p.length := by
  induction p with
  | nil => cases found
  | cons c rest ih =>
    rw [afterNewline] at found
    split at found
    · cases Option.some.inj found
      exact Nat.lt_succ_self _
    · exact Nat.lt_succ_of_lt (ih found)

def countEntries (p : List UInt8) (rpcCount : Nat) : Option Nat :=
  if p = [] then some rpcCount
  else
    match found : afterNewline p with
    | none => none
    | some next =>
      if (rpcCount + 1) % 2 ^ 32 = 0 then none else countEntries next (rpcCount + 1)
termination_by p.length
decreasing_by exact afterNewline_length found

def parseEntries : Nat → List UInt8 → Option (List MethodDesc)
  | 0, _ => some []
  | count + 1, p => do
    let (method, rest) ← parseOneEntry host p
    let p ← skip newline rest
    (method :: ·) <$> parseEntries count p

structure Service where
  serviceString : CString
  rpcDescr : List MethodDesc

def naClSrpcServiceStringCtor (str : CString) : Option Service := do
  let rpcCount ← countEntries str.bytes 0
  if host.size.max / host.size.methodSize ≤ rpcCount then none
  else if !host.malloc (rpcCount * host.size.methodSize) then none
  else (⟨str, ·⟩) <$> parseEntries host rpcCount str.bytes

end Parsing

/-- The format `"%s:%s:%s\n"`. -/
def MethodDesc.text (method : MethodDesc) : List UInt8 :=
  method.name.bytes ++ colon :: (method.inputTypes.bytes ++
    colon :: (method.outputTypes.bytes ++ [newline]))

def naclAbiSizeTSaturate (n : Nat) : Nat := min n naclAbiSizeTMax

def sdLength (size : SizeT) (methods : List MethodDesc) : Nat :=
  methods.foldl (fun length method =>
    (length + naclAbiSizeTSaturate ((method.name.bytes.length + 1 +
      method.inputTypes.bytes.length + 1 + method.outputTypes.bytes.length + 1) %
        (size.max + 1))) % 2 ^ 32) 1

def store (memory : List UInt8) (offset : Nat) (bytes : List UInt8) : Option (List UInt8) :=
  if memory.length < offset + bytes.length then none
  else some (memory.take offset ++ (bytes ++ memory.drop (offset + bytes.length)))

/-- The memory, and the length of the whole text. A text whose length is no `int` is an error,
which leaves the memory unspecified. -/
def snprintf (memory : List UInt8) (offset limit : Nat) (text : List UInt8) : Option (List UInt8 × Nat) :=
  if intMax < text.length then none
  else if limit = 0 then some (memory, text.length)
  else (·, text.length) <$> store memory offset (text.take (limit - 1) ++ [0])

/-- `str + *length - p` as a `size_t`. -/
def bufLimit (size : SizeT) (length p : Nat) : Nat :=
  (((length : Int) - p) % ((size.max : Int) + 1)).toNat

def fillSDString (size : SizeT) (length : Nat) :
    List MethodDesc → List UInt8 → Nat → Option (List UInt8 × Nat)
  | [], memory, p => some (memory, p)
  | method :: rest, memory, p => do
    let (memory, printed) ← snprintf memory p (bufLimit size length p) method.text
    fillSDString size length rest memory (p + printed)

def buildSDString (host : Host) (methods : List MethodDesc) : Option CString := do
  let length := sdLength host.size methods
  let allocated := (length + 1) % 2 ^ 32
  if !host.malloc allocated then none
  else do
    let (memory, p) ← fillSDString host.size length methods (List.replicate allocated 0) 0
    CString.ofBytes <$> store memory p [0]

/-- One field of a signature: `strncmp`, and the character behind it. -/
def fieldMatches (field : CString) (terminator : UInt8) (signature : List UInt8) : Bool :=
  signature.take field.bytes.length = field.bytes ∧ signature.getD field.bytes.length 0 = terminator

def matchAll : List (CString × UInt8) → List UInt8 → Bool
  | [], _ => true
  | (field, terminator) :: rest, signature =>
    fieldMatches field terminator signature && matchAll rest (signature.drop (field.bytes.length + 1))

def signatureMatches (method : MethodDesc) (signature : CString) : Bool :=
  matchAll [(method.name, colon), (method.inputTypes, colon), (method.outputTypes, 0)]
    signature.bytes

def naClSrpcServiceMethodIndex (service : Service) (signature : CString) : Nat :=
  (service.rpcDescr.findIdx? (signatureMatches · signature)).getD kNaClSrpcInvalidMethodIndex

end Glopen.Srpc
