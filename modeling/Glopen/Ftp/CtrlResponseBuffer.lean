import Mathlib.Algebra.Group.Int.Defs
import Mathlib.Algebra.Group.Nat.Defs
import Mathlib.Data.List.Basic

/-! `net/ftp/ftp_ctrl_response_buffer.cc`: the responses of the control connection. -/
namespace Glopen.Ftp

abbrev Text := List UInt8

def cr : UInt8 := 13
def lf : UInt8 := 10
def blank : UInt8 := 32
def dash : UInt8 := 45

def isSpace (c : UInt8) : Bool := c = 32 || (9 ≤ c && c ≤ 13)

def isDigit (c : UInt8) : Bool := 48 ≤ c && c ≤ 57

def decimal (digits : Text) : Nat := digits.foldl (fun value c => value * 10 + (c.toNat - 48)) 0

/-- `strtol` to the base ten, with the number of bytes read. -/
def strtol (input : Text) : Int × Nat :=
  let spaces := (input.takeWhile isSpace).length
  let rest := input.drop spaces
  let sign := if rest.head? = some 45 || rest.head? = some 43 then 1 else 0
  let digits := (rest.drop sign).takeWhile isDigit
  if digits = [] then (0, 0)
  else (if rest.head? = some 45 then -(decimal digits : Int) else decimal digits,
    spaces + sign + digits.length)

def stringToInt (input : Text) : Int × Bool :=
  let (res, read) := strtol input
  let value := max (-2 ^ 31) (min (2 ^ 31 - 1) res)
  (value, value = res && input ≠ [] && read = input.length && !(input.head?.any isSpace))

def kInvalidStatusCode : Int := -1

structure FtpCtrlResponse where
  statusCode : Int
  lines : List Text
deriving DecidableEq

def FtpCtrlResponse.new : FtpCtrlResponse := ⟨kInvalidStatusCode, []⟩

structure ParsedLine where
  hasStatusCode : Bool
  isMultiline : Bool
  isComplete : Bool
  statusCode : Int
  statusText : Text
  rawText : Text
deriving DecidableEq

structure FtpCtrlResponseBuffer where
  buffer : Text
  lines : List ParsedLine
  multiline : Bool
  lineBuf : Text
  responseBuf : FtpCtrlResponse
  responses : List FtpCtrlResponse
deriving DecidableEq

inductive Error where
  | ok | invalidResponse
deriving DecidableEq

def parseLine (line : Text) : ParsedLine :=
  let number := if line.length ≥ 3 then stringToInt (line.take 3) else (kInvalidStatusCode, false)
  let hasStatusCode := number.2 && 100 ≤ number.1 && number.1 ≤ 599
  let isMultiline := hasStatusCode && (line)[3]? = some dash
  let isComplete := hasStatusCode && ((line)[3]? = some blank || (line)[3]? = some dash)
  { hasStatusCode, isMultiline, isComplete
    statusCode := number.1
    statusText := if isComplete then line.drop 4 else line
    rawText := line }

/-- One pass of the loop over the bytes: `cut_pos`, and the lines. -/
def extractStep (buffer : Text) (state : Nat × List ParsedLine) (i : Nat) : Nat × List ParsedLine :=
  if i ≥ 1 && buffer[i - 1]? = some cr && buffer[i]? = some lf then
    (i + 1, state.2 ++ [parseLine ((buffer.drop state.1).take (i - state.1 - 1))])
  else state

namespace FtpCtrlResponseBuffer

def new : FtpCtrlResponseBuffer := ⟨[], [], false, [], .new, []⟩

def extractFullLinesFromBuffer (s : FtpCtrlResponseBuffer) : FtpCtrlResponseBuffer :=
  let (cutPos, lines) := (List.range s.buffer.length).foldl (extractStep s.buffer) (0, s.lines)
  { s with buffer := s.buffer.drop cutPos, lines }

def pushResponse (s : FtpCtrlResponseBuffer) : FtpCtrlResponseBuffer :=
  { s with responses := s.responses ++ [s.responseBuf], responseBuf := .new, lineBuf := [] }

def pushLine (line : Text) (s : FtpCtrlResponseBuffer) : FtpCtrlResponseBuffer :=
  { s with responseBuf := { s.responseBuf with lines := s.responseBuf.lines ++ [line] } }

/-- One pass of the loop over the lines; `none`: `ERR_INVALID_RESPONSE`. -/
def handleLine (s : FtpCtrlResponseBuffer) (line : ParsedLine) : Option FtpCtrlResponseBuffer :=
  if s.multiline then
    if !line.isComplete || line.statusCode ≠ s.responseBuf.statusCode then
      some { s with lineBuf := s.lineBuf ++ line.rawText }
    else
      let s := { s.pushLine s.lineBuf with lineBuf := line.statusText }
      if !line.isMultiline then some { (s.pushLine s.lineBuf).pushResponse with multiline := false }
      else some s
  else if !line.isComplete then none
  else
    let s := { s with responseBuf := { s.responseBuf with statusCode := line.statusCode } }
    if line.isMultiline then some { s with lineBuf := line.statusText, multiline := true }
    else some (s.pushLine line.statusText).pushResponse

/-- `while (!lines_.empty())`, for the lines that the queue holds. -/
def handleLines (s : FtpCtrlResponseBuffer) : List ParsedLine → FtpCtrlResponseBuffer × Error
  | [] => (s, .ok)
  | line :: lines =>
    match s.handleLine line with
    | some s => handleLines s lines
    | none => ({ s with lines }, .invalidResponse)

def consumeData (s : FtpCtrlResponseBuffer) (data : Text) : FtpCtrlResponseBuffer × Error :=
  let s := { s with buffer := s.buffer ++ data }.extractFullLinesFromBuffer
  { s with lines := [] }.handleLines s.lines

def responseAvailable (s : FtpCtrlResponseBuffer) : Bool := !s.responses.isEmpty

/-- `none`: no response is available. -/
def popResponse (s : FtpCtrlResponseBuffer) : Option (FtpCtrlResponse × FtpCtrlResponseBuffer) :=
  match s.responses with
  | [] => none
  | response :: responses => some (response, { s with responses })

end FtpCtrlResponseBuffer

end Glopen.Ftp
