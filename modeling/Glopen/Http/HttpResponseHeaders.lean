import Glopen.Http.HttpUtil

/-! `net/http/http_response_headers.cc`: the parsed headers with where they are in the raw ones, and
the changes that merge raw text and parse it again. -/
namespace Glopen.Http

open Base

structure Span where
  start : Nat
  text : RawText
deriving DecidableEq

def Span.stop (span : Span) : Nat := span.start + span.text.length

def Span.trimLWS (span : Span) : Span :=
  ⟨span.start + (span.text.takeWhile isLWS).length, Http.trimLWS span.text⟩

def slice (text : RawText) (start stop : Nat) : RawText := (text.take stop).drop start

/-- The tokens of the calls of `GetNext`, at most `fuel` of them, with where they are. -/
def spansFrom (t : StringTokenizer) : Nat → Span → List Span
  | 0, _ => []
  | fuel + 1, span =>
    match t.getNext span.text with
    | none => []
    | some (token, behind) =>
      let tokenEnd := span.stop - behind.length
      ⟨tokenEnd - token.text.length, token.text⟩ :: spansFrom t fuel ⟨tokenEnd, behind⟩

def spans (t : StringTokenizer) (span : Span) : List Span := spansFrom t span.text.length span

def ascii (text : String) : RawText := text.toList.map fun c => c.toNat.toUInt8

def kNonCoalescingHeaders : List RawText :=
  ["date", "expires", "last-modified", "location", "retry-after", "set-cookie", "www-authenticate",
    "proxy-authenticate"].map ascii

def isNonCoalescingHeader (name : RawText) : Bool :=
  kNonCoalescingHeaders.any fun header => lowerCaseEqualsASCII name header

/-- The lines of `HeadersIterator` end at NULs. -/
def linesTokenizer : StringTokenizer := ⟨[0], [], false⟩

/-- The name and the values of a line, if `HeadersIterator::GetNext` stops at it. -/
def headerSpans (line : Span) : Option (Span × Span) :=
  let name := line.text.takeWhile (· ≠ 58)
  if name.length = line.text.length then none
  else if name = [] || name.head?.any isLWS then none
  else
    let nameSpan := Span.trimLWS ⟨line.start, name⟩
    if nameSpan.text = [] then none
    else
      some (nameSpan, Span.trimLWS ⟨line.start + name.length + 1, line.text.drop (name.length + 1)⟩)

/-- The values that the calls of `ValuesIterator::GetNext` stop at, with where they are. -/
def valueSpans (values : Span) : List Span :=
  ((spans (valuesTokenizer 44) values).map Span.trimLWS).filter (·.text ≠ [])

structure HttpVersion where
  major : Nat
  minor : Nat
deriving DecidableEq

/-- The order of the versions is that of `(major << 16) | minor`. -/
def HttpVersion.atLeast (version other : HttpVersion) : Bool :=
  other.major * 65536 + other.minor ≤ version.major * 65536 + version.minor

structure ParsedHeader where
  name : Span
  value : Span
deriving DecidableEq

def ParsedHeader.isContinuation (header : ParsedHeader) : Bool := header.name.text = []

structure HttpResponseHeaders where
  parsed : List ParsedHeader
  rawHeaders : RawText
  responseCode : Int
  httpVersion : HttpVersion
  parsedHttpVersion : HttpVersion
deriving DecidableEq

def parseVersion (line : RawText) : HttpVersion :=
  let p := line.drop 4
  if line.length < 4 || !lowerCaseEqualsASCII (line.take 4) (ascii "http") then ⟨0, 0⟩
  else if p.head? ≠ some 47 then ⟨0, 0⟩
  else
    let dot := p.dropWhile (· ≠ 46)
    if dot = [] then ⟨0, 0⟩
    else
      match p[1]?, dot[1]? with
      | some major, some minor =>
        if Ftp.isDigit major && Ftp.isDigit minor then ⟨(major - 48).toNat, (minor - 48).toNat⟩
        else ⟨0, 0⟩
      | _, _ => ⟨0, 0⟩

def clampVersion (version : HttpVersion) (hasHeaders : Bool) : HttpVersion × RawText :=
  if version = ⟨0, 9⟩ && !hasHeaders then (⟨0, 9⟩, ascii "HTTP/0.9")
  else if version.atLeast ⟨1, 1⟩ then (⟨1, 1⟩, ascii "HTTP/1.1")
  else (⟨1, 0⟩, ascii "HTTP/1.0")

/-- The cast to `int`. -/
def castInt (n : Int) : Int := Int.bmod n (2 ^ 32)

def parseStatusLine (line : RawText) (hasHeaders : Bool) : HttpResponseHeaders :=
  let parsedHttpVersion := parseVersion line
  let (httpVersion, rawHeaders) := clampVersion parsedHttpVersion hasHeaders
  let p := line.dropWhile (· ≠ 32)
  if p = [] then
    ⟨[], rawHeaders ++ ascii " 200 OK" ++ [0], 200, httpVersion, parsedHttpVersion⟩
  else
    let p := p.dropWhile (· = 32)
    let code := p.takeWhile Ftp.isDigit
    -- no NUL is put behind the line here
    if code = [] then ⟨[], rawHeaders ++ ascii " 200 OK", 200, httpVersion, parsedHttpVersion⟩
    else
      let text := ((p.dropWhile Ftp.isDigit).dropWhile (· = 32)).rdropWhile (· = 32)
      ⟨[], rawHeaders ++ 32 :: code ++ 32 :: (if text = [] then ascii "OK" else text) ++ [0],
        castInt (stringToInt64 code).1, httpVersion, parsedHttpVersion⟩

/-- The values of a header that can be coalesced are split up, and all but the first are continuations:
their names begin and end where the raw headers end. -/
def addHeader (rawEnd : Nat) (name values : Span) : List ParsedHeader :=
  if values.text = [] || isNonCoalescingHeader name.text then [⟨name, values⟩]
  else
    match valueSpans values with
    | [] => []
    | first :: rest => ⟨name, first⟩ :: rest.map fun value => ⟨⟨rawEnd, []⟩, value⟩

def parseLines (rawEnd : Nat) (headers : Span) : List ParsedHeader :=
  (spans linesTokenizer headers).flatMap fun line =>
    (headerSpans line).elim [] fun (name, values) => addHeader rawEnd name values

def HttpResponseHeaders.parse (rawInput : RawText) : HttpResponseHeaders :=
  let line := rawInput.takeWhile (· ≠ 0)
  let hasHeaders := match rawInput.dropWhile (· ≠ 0) with
    | _ :: c :: _ => c ≠ 0
    | _ => false
  let headers := parseStatusLine line hasHeaders
  match rawInput.dropWhile (· ≠ 0) with
  | [] => { headers with rawHeaders := headers.rawHeaders ++ [0] }
  | _ :: rest =>
    let rawHeaders := headers.rawHeaders ++ rest
    { headers with
      rawHeaders
      parsed := parseLines rawHeaders.length ⟨headers.rawHeaders.length, rest⟩ }

structure HeaderLine where
  name : Span
  value : Span
  more : List Span
deriving DecidableEq

def HeaderLine.valueEnd (line : HeaderLine) : Nat := (line.more.getLastD line.value).stop

def headerLinesFrom (line : HeaderLine) : List ParsedHeader → List HeaderLine
  | [] => [line]
  | header :: rest =>
    if header.isContinuation then
      headerLinesFrom { line with more := line.more ++ [header.value] } rest
    else line :: headerLinesFrom ⟨header.name, header.value, []⟩ rest

def headerLines : List ParsedHeader → List HeaderLine
  | [] => []
  | header :: rest => headerLinesFrom ⟨header.name, header.value, []⟩ rest

def kNonUpdatedHeaders : List RawText :=
  ["connection", "proxy-connection", "keep-alive", "www-authenticate", "proxy-authenticate", "trailer",
    "transfer-encoding", "upgrade", "content-location", "content-md5", "etag", "content-encoding",
    "content-range", "content-type", "content-length"].map ascii

def shouldUpdateHeader (name : RawText) : Bool :=
  !kNonUpdatedHeaders.any fun header => lowerCaseEqualsASCII name header

namespace HttpResponseHeaders

variable (headers : HttpResponseHeaders)

def lines : List HeaderLine := headerLines headers.parsed

def copy (line : HeaderLine) : RawText :=
  slice headers.rawHeaders line.name.start line.valueEnd ++ [0]

/-- `GetStatusLine` copies up to the first NUL. -/
def statusLine : RawText := headers.rawHeaders.takeWhile (· ≠ 0)

def mergeWithHeaders (rawHeaders : RawText) (headersToRemove : List RawText) : HttpResponseHeaders :=
  parse (rawHeaders ++ (headers.lines.filter fun line =>
    line.name.text.map toLowerASCII ∉ headersToRemove).flatMap headers.copy ++ [0])

def update (newHeaders : HttpResponseHeaders) : HttpResponseHeaders :=
  let updated := newHeaders.lines.filter fun line => shouldUpdateHeader line.name.text
  headers.mergeWithHeaders (headers.statusLine ++ [0] ++ updated.flatMap newHeaders.copy)
    (updated.map fun line => line.name.text.map toLowerASCII)

def removeHeader (name : RawText) : HttpResponseHeaders :=
  headers.mergeWithHeaders (headers.statusLine ++ [0]) [name.map toLowerASCII]

def addHeader (header : RawText) : HttpResponseHeaders :=
  parse (headers.rawHeaders.take (headers.rawHeaders.length - 1) ++ header ++ [0, 0])

def findHeader (start : Nat) (search : RawText) : Option Nat :=
  ((headers.parsed.drop start).findIdx? fun header => !header.isContinuation &&
    header.name.text.map toLowerASCII = search.map toLowerASCII).map (start + ·)

/-- Where `EnumerateHeader` goes on. `iter` is 0 at first. -/
def position (iter : Nat) (name : RawText) : Option Nat :=
  if iter = 0 then headers.findHeader 0 name
  else
    match headers.parsed[iter]? with
    | none => none
    | some header => if header.isContinuation then some iter else headers.findHeader iter name

def enumerateHeader (iter : Nat) (name : RawText) : Option (Nat × RawText) :=
  (headers.position iter name).bind fun i =>
    headers.parsed[i]?.map fun header => (i + 1, header.value.text)

/-- The values that the calls of `EnumerateHeader` give, at most `fuel` of them. -/
def enumerateFrom (name : RawText) : Nat → Nat → List RawText
  | 0, _ => []
  | fuel + 1, iter =>
    match headers.enumerateHeader iter name with
    | none => []
    | some (iter, value) => value :: enumerateFrom name fuel iter

def valuesOf (name : RawText) : List RawText := headers.enumerateFrom name (headers.parsed.length + 1) 0

end HttpResponseHeaders

end Glopen.Http
