import Glopen.Ftp.ControlLines

/-! Runs of the buffer: the responses depend on the bytes that were received and not on the calls that
brought them, and well-formed responses come out as they are. -/
namespace Glopen.Ftp

open Glopen.Lines List
variable {s next : FtpCtrlResponseBuffer}

namespace FtpCtrlResponseBuffer

def behind (front : List FtpCtrlResponse) (buffer : Text) (lines : List ParsedLine)
    (s : FtpCtrlResponseBuffer) : FtpCtrlResponseBuffer :=
  { s with buffer, lines, responses := front ++ s.responses }

section Line

variable {line : ParsedLine}

theorem handleLine_goes_on (multi : s.multiline = true)
    (other : line.isComplete = true → line.statusCode ≠ s.responseBuf.statusCode) :
    s.handleLine line = some { s with lineBuf := s.lineBuf ++ line.rawText } := by
  have waits : (!line.isComplete || decide (line.statusCode ≠ s.responseBuf.statusCode)) = true := by
    cases complete : line.isComplete with
    | false => rfl
    | true => simp [other complete]
  rw [handleLine, if_pos multi, if_pos waits]

section

variable (multi : s.multiline = true) (complete : line.isComplete = true)
  (same : line.statusCode = s.responseBuf.statusCode)
include multi complete same

theorem handleLine_marked (marked : line.isMultiline = true) :
    s.handleLine line = some { s.pushLine s.lineBuf with lineBuf := line.statusText } := by
  simp [handleLine, multi, complete, same, marked]

theorem handleLine_last (last : line.isMultiline = false) :
    s.handleLine line = some { ((s.pushLine s.lineBuf).pushLine line.statusText).pushResponse with
      multiline := false } := by
  simp [handleLine, multi, complete, same, last, pushLine, pushResponse]

end

theorem handleLine_malformed (single : s.multiline = false) (malformed : line.isComplete = false) :
    s.handleLine line = none := by
  simp [handleLine, single, malformed]

theorem handleLine_opens (single : s.multiline = false) (complete : line.isComplete = true)
    (marked : line.isMultiline = true) : s.handleLine line = some { s with
      responseBuf := { s.responseBuf with statusCode := line.statusCode }
      lineBuf := line.statusText
      multiline := true } := by
  simp [handleLine, single, complete, marked]

theorem handleLine_single (single : s.multiline = false) (complete : line.isComplete = true)
    (last : line.isMultiline = false) : s.handleLine line = some (({ s with
      responseBuf := { s.responseBuf with statusCode := line.statusCode } }).pushLine
        line.statusText).pushResponse := by
  simp [handleLine, single, complete, last]

theorem handleLine_cases (s : FtpCtrlResponseBuffer) (line : ParsedLine) : (s.multiline = true ∧
      ((line.isComplete = true → line.statusCode ≠ s.responseBuf.statusCode) ∨
        line.isComplete = true ∧ line.statusCode = s.responseBuf.statusCode ∧
          (line.isMultiline = true ∨ line.isMultiline = false))) ∨
    (s.multiline = false ∧ (line.isComplete = false ∨
        line.isComplete = true ∧ (line.isMultiline = true ∨ line.isMultiline = false))) := by
  by_cases same : line.statusCode = s.responseBuf.statusCode <;>
    cases s.multiline <;> cases line.isComplete <;> cases line.isMultiline <;> simp [same]

end Line

theorem handleLine_behind (front : List FtpCtrlResponse) (buffer : Text) (lines : List ParsedLine)
    (s : FtpCtrlResponseBuffer) (line : ParsedLine) : (s.behind front buffer lines).handleLine line =
      (s.handleLine line).map (behind front buffer lines) := by
  obtain ⟨multi, other | ⟨complete, same, marked | last⟩⟩ | ⟨single, malformed | ⟨complete, marked | last⟩⟩ :=
    handleLine_cases s line
  · rw [handleLine_goes_on multi other]
    exact handleLine_goes_on (s := s.behind front buffer lines) multi other
  · rw [handleLine_marked multi complete same marked]
    exact handleLine_marked (s := s.behind front buffer lines) multi complete same marked
  · rw [handleLine_last multi complete same last,
      handleLine_last (s := s.behind front buffer lines) multi complete same last]
    simp [behind, pushLine, pushResponse]
  · rw [handleLine_malformed single malformed]
    exact handleLine_malformed (s := s.behind front buffer lines) single malformed
  · rw [handleLine_opens single complete marked]
    exact handleLine_opens (s := s.behind front buffer lines) single complete marked
  · rw [handleLine_single single complete last,
      handleLine_single (s := s.behind front buffer lines) single complete last]
    simp [behind, pushLine, pushResponse]

theorem handleLines_behind (front : List FtpCtrlResponse) (buffer : Text) (lines : List ParsedLine)
    (s : FtpCtrlResponseBuffer) (todo : List ParsedLine) :
    ((s.behind front buffer lines).handleLines todo).1.responses = front ++ (s.handleLines todo).1.responses ∧
      ((s.behind front buffer lines).handleLines todo).2 = (s.handleLines todo).2 := by
  induction todo generalizing s with
  | nil => exact ⟨rfl, rfl⟩
  | cons line todo ih =>
    rw [handleLines, handleLines, handleLine_behind]
    cases handled : s.handleLine line with
    | none => exact ⟨rfl, rfl⟩
    | some next => exact ih next

theorem handleLine_unread {line : ParsedLine}
    (handled : s.handleLine line = some next) : next.buffer = s.buffer ∧ next.lines = s.lines := by
  obtain ⟨multi, other | ⟨complete, same, marked | last⟩⟩ | ⟨single, malformed | ⟨complete, marked | last⟩⟩ :=
    handleLine_cases s line
  · rw [handleLine_goes_on multi other] at handled
    cases handled
    exact ⟨rfl, rfl⟩
  · rw [handleLine_marked multi complete same marked] at handled
    cases handled
    exact ⟨rfl, rfl⟩
  · rw [handleLine_last multi complete same last] at handled
    cases handled
    exact ⟨rfl, rfl⟩
  · rw [handleLine_malformed single malformed] at handled
    cases handled
  · rw [handleLine_opens single complete marked] at handled
    cases handled
    exact ⟨rfl, rfl⟩
  · rw [handleLine_single single complete last] at handled
    cases handled
    exact ⟨rfl, rfl⟩

theorem handleLines_unread (s : FtpCtrlResponseBuffer) (todo : List ParsedLine) :
    (s.handleLines todo).1.buffer = s.buffer ∧
      ((s.handleLines todo).2 = .ok → (s.handleLines todo).1.lines = s.lines) := by
  induction todo generalizing s with
  | nil => exact ⟨rfl, fun _ => rfl⟩
  | cons line todo ih =>
    rw [handleLines]
    cases handled : s.handleLine line with
    | none => exact ⟨rfl, nofun⟩
    | some next =>
      obtain ⟨buffer, lines⟩ := ih next
      obtain ⟨same_buffer, same_lines⟩ := handleLine_unread handled
      exact ⟨buffer.trans same_buffer, fun ok => (lines ok).trans same_lines⟩

variable {first : List ParsedLine}

theorem handleLines_append_ok (ok : (s.handleLines first).2 = .ok) (second : List ParsedLine) :
    s.handleLines (first ++ second) = (s.handleLines first).1.handleLines second := by
  induction first generalizing s with
  | nil => rfl
  | cons line first ih =>
    rw [handleLines] at ok
    rw [cons_append, handleLines, handleLines]
    cases handled : s.handleLine line with
    | none =>
      rw [handled] at ok
      cases ok
    | some next =>
      rw [handled] at ok
      exact ih ok

theorem handleLines_append_error
    (error : (s.handleLines first).2 = .invalidResponse) (second : List ParsedLine) :
    (s.handleLines (first ++ second)).2 = .invalidResponse ∧
      (s.handleLines (first ++ second)).1.responses = (s.handleLines first).1.responses := by
  induction first generalizing s with
  | nil => cases error
  | cons line first ih =>
    rw [handleLines] at error
    rw [cons_append, handleLines, handleLines]
    cases handled : s.handleLine line with
    | none => exact ⟨rfl, rfl⟩
    | some next =>
      rw [handled] at error
      exact ih error

theorem consumeData_eq (idle : s.lines = []) (data : Text) : s.consumeData data =
      ({ s with buffer := (cut cr lf (s.buffer ++ data)).2 }).handleLines
        ((cut cr lf (s.buffer ++ data)).1.map parseLine) := by
  unfold consumeData
  rw [extractFullLinesFromBuffer_eq]
  simp only [idle, nil_append]

end FtpCtrlResponseBuffer

inductive ControlCall where
  | consumeData (data : Text)
  | popResponse

def received : List ControlCall → Text
  | [] => []
  | .consumeData data :: calls => data ++ received calls
  | .popResponse :: calls => received calls

/-- Calls up to the first error, and the responses that were popped: `popResponse` only follows
`responseAvailable`. -/
def runCalls (s : FtpCtrlResponseBuffer) :
    List ControlCall → FtpCtrlResponseBuffer × List FtpCtrlResponse × Error
  | [] => (s, [], .ok)
  | .consumeData data :: calls =>
    match s.consumeData data with
    | (s, .ok) => runCalls s calls
    | (s, .invalidResponse) => (s, [], .invalidResponse)
  | .popResponse :: calls =>
    match s.popResponse with
    | none => runCalls s calls
    | some (response, s) =>
      let (s, popped, error) := runCalls s calls
      (s, response :: popped, error)

def yielded (s : FtpCtrlResponseBuffer) (calls : List ControlCall) : List FtpCtrlResponse × Error :=
  let finished := runCalls s calls
  (finished.2.1 ++ finished.1.responses, finished.2.2)

def lineByLine (s : FtpCtrlResponseBuffer) (stream : Text) : List FtpCtrlResponse × Error :=
  let finished := s.handleLines ((cut cr lf stream).1.map parseLine)
  (finished.1.responses, finished.2)

theorem lineByLine_behind (front : List FtpCtrlResponse) (buffer : Text) (lines : List ParsedLine)
    (s : FtpCtrlResponseBuffer) (stream : Text) : lineByLine (s.behind front buffer lines) stream =
      (front ++ (lineByLine s stream).1, (lineByLine s stream).2) := by
  obtain ⟨responses, error⟩ := FtpCtrlResponseBuffer.handleLines_behind front buffer lines s
    ((cut cr lf stream).1.map parseLine)
  simp only [lineByLine, responses, error]

structure Idle (s : FtpCtrlResponseBuffer) : Prop where
  lines : s.lines = []
  unread : Plain cr lf s.buffer

theorem yielded_eq (idle : Idle s) (calls : List ControlCall) :
    yielded s calls = lineByLine s (s.buffer ++ received calls) := by
  induction calls generalizing s with
  | nil =>
    rw [received, append_nil]
    simp only [yielded, runCalls, lineByLine, cut_plain idle.unread]
    rfl
  | cons call calls ih =>
    cases call with
    | consumeData data =>
      have cut_all := @cut_append _ _ cr lf (s.buffer ++ data) (received calls)
      have plain := @cut_rest_plain _ _ cr lf (s.buffer ++ data)
      rw [append_assoc] at cut_all
      rw [received]
      simp only [yielded, runCalls, FtpCtrlResponseBuffer.consumeData_eq idle.lines data]
      generalize cut cr lf (s.buffer ++ data) = first at cut_all plain
      -- the unread bytes do not matter for the lines of the whole stream
      have other_buffer : lineByLine s (s.buffer ++ (data ++ received calls)) =
          lineByLine { s with buffer := first.2 } (s.buffer ++ (data ++ received calls)) := by
        have moved := lineByLine_behind [] first.2 s.lines s (s.buffer ++ (data ++ received calls))
        exact moved.symm
      rw [other_buffer]
      unfold lineByLine
      rw [cut_all, map_append]
      obtain ⟨buffer, lines⟩ := FtpCtrlResponseBuffer.handleLines_unread
        { s with buffer := first.2 } (first.1.map parseLine)
      cases handled : FtpCtrlResponseBuffer.handleLines { s with buffer := first.2 }
          (first.1.map parseLine) with
      | mk next error =>
        rw [handled] at buffer lines
        cases error with
        | ok =>
          have ok : (FtpCtrlResponseBuffer.handleLines { s with buffer := first.2 }
            (first.1.map parseLine)).2 = .ok := by rw [handled]
          have idle_next : Idle next := ⟨(lines rfl).trans idle.lines, buffer ▸ plain⟩
          have later := ih idle_next
          rw [FtpCtrlResponseBuffer.handleLines_append_ok ok, handled]
          simp only at buffer
          rw [yielded, lineByLine, buffer] at later
          exact later
        | invalidResponse =>
          have error : (FtpCtrlResponseBuffer.handleLines { s with buffer := first.2 }
            (first.1.map parseLine)).2 = .invalidResponse := by rw [handled]
          obtain ⟨same_error, same⟩ := FtpCtrlResponseBuffer.handleLines_append_error error
            ((cut cr lf (first.2 ++ received calls)).1.map parseLine)
          simp only [same_error, same, handled, nil_append]
    | popResponse =>
      rw [received]
      cases queued : s.responses with
      | nil =>
        simp only [yielded, runCalls, FtpCtrlResponseBuffer.popResponse, queued]
        exact ih idle
      | cons response responses =>
        have popped := @ih { s with responses } ⟨idle.lines, idle.unread⟩
        have moved := lineByLine_behind [response] s.buffer s.lines { s with responses }
          (s.buffer ++ received calls)
        have same : ({ s with responses } : FtpCtrlResponseBuffer).behind [response] s.buffer s.lines =
            s := by
          simp [FtpCtrlResponseBuffer.behind, ← queued]
        rw [same] at moved
        simp only [yielded, runCalls, FtpCtrlResponseBuffer.popResponse, queued] at popped ⊢
        rw [moved, ← popped]
        rfl

section Responses

/-- A line between the first and the last one of a response: one with the code and a dash, or one that
goes on with the line before it. -/
inductive InnerLine where
  | marked (text : Text)
  | continuation (raw : Text)

inductive WireResponse where
  | single (code : Nat) (text : Text)
  | multi (code : Nat) (first : Text) (inner : List InnerLine) (last : Text)

def InnerLine.line (code : Nat) : InnerLine → Text
  | .marked text => codeText code ++ dash :: text
  | .continuation raw => raw

def HasCode (code : Nat) (line : Text) : Prop :=
  ∃ mark text, (mark = blank ∨ mark = dash) ∧ line = codeText code ++ mark :: text

namespace WireResponse

def code : WireResponse → Nat
  | single code _ => code
  | multi code _ _ _ => code

def lines : WireResponse → List Text
  | single code text => [codeText code ++ blank :: text]
  | multi code first inner last =>
    (codeText code ++ dash :: first) :: inner.map (InnerLine.line code) ++
      [codeText code ++ blank :: last]

def wire (response : WireResponse) : Text := response.lines.flatMap fun line => line ++ [cr, lf]

/-- The code is in range, no line has a line end inside, and a continuation does not begin with the
code. -/
structure WellFormed (response : WireResponse) : Prop where
  low : 100 ≤ response.code
  high : response.code ≤ 599
  plain : ∀ line ∈ response.lines, Plain cr lf line
  continuation : ∀ code first inner last raw, response = multi code first inner last →
    .continuation raw ∈ inner → ¬ HasCode code raw

def joined (current : Text) (last : Text) : List InnerLine → List Text
  | [] => [current, last]
  | .marked text :: inner => current :: joined text last inner
  | .continuation raw :: inner => joined (current ++ raw) last inner

def response : WireResponse → FtpCtrlResponse
  | single code text => ⟨code, [text]⟩
  | multi code first inner last => ⟨code, joined first last inner⟩

end WireResponse

variable {code : Nat}

theorem parseLine_continuation {raw : Text} (other : ¬ HasCode code raw)
    (complete : (parseLine raw).isComplete = true) : (parseLine raw).statusCode ≠ code := by
  obtain ⟨found, mark, text, low, high, is_mark, rfl⟩ := parseLine_complete complete
  rw [parseLine_status low high is_mark]
  intro same
  obtain rfl := Int.ofNat_inj.mp same
  exact other ⟨mark, text, is_mark, rfl⟩

theorem handleLines_inner (low : 100 ≤ code) (high : code ≤ 599) (inner : List InnerLine) (last : Text)
    (other : ∀ raw, .continuation raw ∈ inner → ¬ HasCode code raw)
    (multi : s.multiline = true) (same : s.responseBuf.statusCode = code) :
    s.handleLines ((inner.map (InnerLine.line code) ++ [codeText code ++ blank :: last]).map parseLine) =
      ({ s with
        multiline := false
        lineBuf := []
        responseBuf := .new
        responses := s.responses ++
          [⟨code, s.responseBuf.lines ++ WireResponse.joined s.lineBuf last inner⟩] }, .ok) := by
  induction inner generalizing s with
  | nil =>
    have parsed := parseLine_status low high (.inl rfl : blank = blank ∨ blank = dash) last
    simp only [map_nil, nil_append, map_cons, FtpCtrlResponseBuffer.handleLines, parsed]
    rw [FtpCtrlResponseBuffer.handleLine_last multi rfl same.symm rfl]
    simp [FtpCtrlResponseBuffer.pushLine, FtpCtrlResponseBuffer.pushResponse, WireResponse.joined, same]
  | cons line inner ih =>
    have others : ∀ raw, .continuation raw ∈ inner → ¬ HasCode code raw :=
      fun raw isIn => other raw (mem_cons_of_mem line isIn)
    simp only [map_cons, cons_append, FtpCtrlResponseBuffer.handleLines]
    cases line with
    | marked text =>
      have parsed := parseLine_status low high (.inr rfl : dash = blank ∨ dash = dash) text
      simp only [InnerLine.line, parsed]
      rw [FtpCtrlResponseBuffer.handleLine_marked multi rfl same.symm rfl]
      refine (ih others ?_ ?_).trans ?_
      · exact multi
      · exact same
      · simp [FtpCtrlResponseBuffer.pushLine, WireResponse.joined]
    | continuation raw =>
      have not_code := parseLine_continuation (other raw (mem_cons_self ..))
      simp only [InnerLine.line]
      rw [FtpCtrlResponseBuffer.handleLine_goes_on multi (fun complete => same ▸ not_code complete)]
      refine (ih others ?_ ?_).trans ?_
      · exact multi
      · exact same
      · rfl

structure Ready (s : FtpCtrlResponseBuffer) : Prop where
  single : s.multiline = false
  lineBuf : s.lineBuf = []
  responseBuf : s.responseBuf = .new

theorem handleLines_response (ready : Ready s) {response : WireResponse} (wellFormed : response.WellFormed) :
    s.handleLines (response.lines.map parseLine) =
      ({ s with responses := s.responses ++ [response.response] }, .ok) := by
  obtain ⟨low, high, -, continuation⟩ := wellFormed
  cases response with
  | single code text =>
    have parsed := parseLine_status low high (.inl rfl : blank = blank ∨ blank = dash) text
    simp only [WireResponse.code] at parsed
    simp only [WireResponse.lines, map_cons, map_nil, FtpCtrlResponseBuffer.handleLines, parsed]
    rw [FtpCtrlResponseBuffer.handleLine_single ready.single rfl rfl]
    simp [FtpCtrlResponseBuffer.pushLine, FtpCtrlResponseBuffer.pushResponse, ready.responseBuf,
      ready.lineBuf, FtpCtrlResponse.new, WireResponse.response]
  | multi code first inner last =>
    have parsed := parseLine_status low high (.inr rfl : dash = blank ∨ dash = dash) first
    simp only [WireResponse.code] at parsed low high
    simp only [WireResponse.lines, cons_append, map_cons, FtpCtrlResponseBuffer.handleLines, parsed]
    rw [FtpCtrlResponseBuffer.handleLine_opens ready.single rfl rfl]
    simp only
    rw [handleLines_inner low high inner last (fun raw isIn => continuation code first inner last raw rfl
      isIn) rfl rfl]
    simp [ready.single, ready.lineBuf, ready.responseBuf, FtpCtrlResponse.new, WireResponse.response]

theorem handleLines_responses (ready : Ready s) (responses : List WireResponse)
    (wellFormed : ∀ response ∈ responses, response.WellFormed) :
    s.handleLines ((responses.flatMap WireResponse.lines).map parseLine) =
      ({ s with responses := s.responses ++ responses.map WireResponse.response }, .ok) := by
  induction responses generalizing s with
  | nil => simp [FtpCtrlResponseBuffer.handleLines]
  | cons response responses ih =>
    obtain ⟨first, rest⟩ := forall_mem_cons.mp wellFormed
    have handled := handleLines_response ready first
    rw [flatMap_cons, map_append,
      FtpCtrlResponseBuffer.handleLines_append_ok (by rw [handled]), handled, map_cons]
    refine (ih ?_ rest).trans ?_
    · exact ⟨ready.single, ready.lineBuf, ready.responseBuf⟩
    · simp

theorem ends_with_code {line : Text} (multi : s.multiline = true)
    (handled : s.handleLine (parseLine line) = some next) (ended : next.multiline = false) :
    ∃ code text, s.responseBuf.statusCode = (code : Nat) ∧ line = codeText code ++ blank :: text := by
  obtain ⟨-, other | ⟨complete, same, marked | last⟩⟩ | ⟨single, -⟩ :=
    FtpCtrlResponseBuffer.handleLine_cases s (parseLine line)
  · rw [FtpCtrlResponseBuffer.handleLine_goes_on multi other] at handled
    rw [← Option.some.inj handled, multi] at ended
    cases ended
  · rw [FtpCtrlResponseBuffer.handleLine_marked multi complete same marked] at handled
    rw [← Option.some.inj handled] at ended
    rw [FtpCtrlResponseBuffer.pushLine, multi] at ended
    cases ended
  · obtain ⟨code, mark, text, low, high, is_mark, rfl⟩ := parseLine_complete complete
    rw [parseLine_status low high is_mark] at same last
    obtain rfl | rfl := is_mark
    · exact ⟨code, text, same.symm, rfl⟩
    · cases last
  · rw [multi] at single
    cases single

/-- The responses are those of the stream, however it is split; well-formed responses come out as they
are, and only their own last lines end them. -/
theorem control_responses : (∀ calls others, received calls = received others →
      yielded .new calls = yielded .new others) ∧
    (∀ responses : List WireResponse, (∀ response ∈ responses, response.WellFormed) →
      ∀ calls, received calls = responses.flatMap WireResponse.wire →
        yielded .new calls = (responses.map WireResponse.response, .ok)) ∧
    ∀ (s next : FtpCtrlResponseBuffer) (line : Text), s.multiline = true →
      s.handleLine (parseLine line) = some next → next.multiline = false →
        ∃ code text, s.responseBuf.statusCode = (code : Nat) ∧ line = codeText code ++ blank :: text := by
  have idle : Idle .new := ⟨rfl, plain_nil⟩
  refine ⟨?_, ?_, fun s next line multi handled ended => ends_with_code multi handled ended⟩
  · intro calls others same
    rw [yielded_eq idle, yielded_eq idle, same]
  · intro responses wellFormed calls same
    have lines : responses.flatMap WireResponse.wire =
        (responses.flatMap WireResponse.lines).flatMap fun line => line ++ [cr, lf] := by
      rw [List.flatMap_assoc]
      rfl
    have plain (line : Text) (isIn : line ∈ responses.flatMap WireResponse.lines) : Plain cr lf line := by
      obtain ⟨response, isResponse, isLine⟩ := List.mem_flatMap.mp isIn
      exact (wellFormed response isResponse).plain line isLine
    rw [yielded_eq idle, same, lines]
    simp only [FtpCtrlResponseBuffer.new, List.nil_append, lineByLine, cut_lines cr_ne_lf plain]
    rw [handleLines_responses ⟨rfl, rfl, rfl⟩ responses wellFormed]
    rfl

/-- `230-a`, `b`, `230 c` and `200 d`, with a line end in two of the pieces. -/
theorem control_responses_two :
    yielded .new [.consumeData [50, 51, 48, 45, 97, 13], .consumeData [10, 98, 13, 10, 50, 51, 48, 32, 99],
        .popResponse, .consumeData [13, 10, 50, 48, 48, 32, 100, 13, 10], .popResponse] =
      ([⟨230, [[97, 98], [99]]⟩, ⟨200, [[100]]⟩], .ok) := by
  refine control_responses.2.1 [.multi 230 [97] [.continuation [98]] [99], .single 200 [100]] ?_ _ rfl
  have plain (line : Text) (isIn : line ∈ [[50, 51, 48, 45, 97], [98], [50, 51, 48, 32, 99],
      [50, 48, 48, 32, 100]]) : Plain cr lf line := by
    intro isInfix
    have is_lf : lf ∈ line := isInfix.subset (List.mem_cons_of_mem cr (List.mem_singleton.mpr rfl))
    revert line
    decide
  intro response isIn
  obtain rfl | isIn := List.mem_cons.mp isIn
  · refine ⟨by decide, by decide, ?_, ?_⟩
    · intro line isLine
      exact plain line (List.mem_append_left [[50, 48, 48, 32, 100]] isLine)
    · rintro code first inner last raw eq isRaw ⟨mark, text, -, rfl⟩
      cases eq
      cases isRaw with
      | tail _ isRaw => cases isRaw
  · obtain rfl := List.mem_singleton.mp isIn
    refine ⟨by decide, by decide, ?_, nofun⟩
    intro line isLine
    exact plain line (List.mem_append_right [[50, 51, 48, 45, 97], [98], [50, 51, 48, 32, 99]] isLine)

end Responses

end Glopen.Ftp
