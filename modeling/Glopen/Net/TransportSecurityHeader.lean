import Glopen.Base.Strings

/-! `net/base/transport_security_state.cc`: `ParseHeader`, against the grammar of its comment. -/
namespace Glopen.Net.TransportSecurity

open Base List Option

/-- `"max-age"` -/
def maxAgeLabel : Text := [109, 97, 120, 45, 97, 103, 101]

/-- `"includesubdomains"` -/
def includeSubDomainsLabel : Text :=
  [105, 110, 99, 108, 117, 100, 101, 115, 117, 98, 100, 111, 109, 97, 105, 110, 115]

def isAsciiWhitespace (c : UInt8) : Bool := c = 32 || c = 13 || c = 10 || c = 9

def headerTokenizer : StringTokenizer := ⟨[32, 9, 61, 59], [], true⟩

inductive ParserState where
  | start
  | afterMaxAgeLabel
  | afterMaxAgeEquals
  | afterMaxAge (maxAgeCandidate : Int)
  | afterMaxAgeIncludeSubDomainsDelimiter (maxAgeCandidate : Int)
  | afterIncludeSubdomains (maxAgeCandidate : Int)
deriving DecidableEq

/-- The pass over one token, `none` where the header is refused. -/
def parseToken (state : ParserState) (token : Text) : Option ParserState :=
  if token.head?.any isAsciiWhitespace then some state
  else
    match state with
    | .start => if lowerCaseEqualsASCII token maxAgeLabel then some .afterMaxAgeLabel else none
    | .afterMaxAgeLabel => if token.head? = some 61 then some .afterMaxAgeEquals else none
    | .afterMaxAgeEquals =>
      match Ftp.stringToInt token with
      | (maxAgeCandidate, true) =>
        if maxAgeCandidate < 0 then none else some (.afterMaxAge maxAgeCandidate)
      | (_, false) => none
    | .afterMaxAge maxAgeCandidate =>
      if token.head? = some 59 then some (.afterMaxAgeIncludeSubDomainsDelimiter maxAgeCandidate)
      else none
    | .afterMaxAgeIncludeSubDomainsDelimiter maxAgeCandidate =>
      if lowerCaseEqualsASCII token includeSubDomainsLabel then
        some (.afterIncludeSubdomains maxAgeCandidate)
      else none
    | .afterIncludeSubdomains _ => none

/-- `*max_age` and `*include_subdomains`, when the state at the end accepts. -/
def ParserState.result : ParserState → Option (Int × Bool)
  | .start | .afterMaxAgeLabel | .afterMaxAgeEquals => none
  | .afterMaxAge maxAgeCandidate => some (maxAgeCandidate, false)
  | .afterMaxAgeIncludeSubDomainsDelimiter _ => none
  | .afterIncludeSubdomains maxAgeCandidate => some (maxAgeCandidate, true)

def headerTokens (value : Text) : List Text := (headerTokenizer.tokens value).map Token.text

def accepts (state : ParserState) (tokens : List Text) : Option (Int × Bool) :=
  (tokens.foldlM parseToken state).bind ParserState.result

def parseHeader (value : Text) : Option (Int × Bool) := accepts .start (headerTokens value)

def Blank (text : Text) : Prop := ∀ c ∈ text, c = 32 ∨ c = 9

def Tail (includeSubdomains : Bool) (tail : Text) : Prop :=
  if includeSubdomains then
    ∃ before name after, tail = 59 :: before ++ name ++ after ∧ Blank before ∧ Blank after ∧
      name.map Http.toLowerASCII = includeSubDomainsLabel
  else tail = []

/-- `max-age = 1*DIGIT [; includeSubDomains]`, in any case and with optional white space. -/
def Header (value : Text) (maxAge : Int) (includeSubdomains : Bool) : Prop :=
  ∃ w₀ label w₁ w₂ digits w₃ tail, value = w₀ ++ label ++ w₁ ++ 61 :: w₂ ++ digits ++ w₃ ++ tail ∧
    Blank w₀ ∧ Blank w₁ ∧ Blank w₂ ∧ Blank w₃ ∧ label.map Http.toLowerASCII = maxAgeLabel ∧
    IsDigits digits ∧ maxAge = Ftp.decimal digits ∧ maxAge ≤ 2 ^ 31 - 1 ∧
    Tail includeSubdomains tail

variable {tokens : List Text} {maxAge : Int} {includeSubdomains : Bool} {c : UInt8} {word blank : Text}

section Significant

def significant (tokens : List Text) : List Text :=
  tokens.filter fun token => !token.head?.any isAsciiWhitespace

def ReadsTail (includeSubdomains : Bool) (tokens : List Text) : Prop :=
  if includeSubdomains then
    ∃ delimiter name, tokens = [delimiter, name] ∧ delimiter.head? = some 59 ∧
      name.map Http.toLowerASCII = includeSubDomainsLabel
  else tokens = []

/-- The tokens `max-age`, `=`, a signed number and the tail. -/
def Reads (tokens : List Text) (maxAge : Int) (includeSubdomains : Bool) : Prop :=
  ∃ label equals number tail, tokens = label :: equals :: number :: tail ∧
    label.map Http.toLowerASCII = maxAgeLabel ∧ equals.head? = some 61 ∧
    Ftp.stringToInt number = (maxAge, true) ∧ 0 ≤ maxAge ∧ ReadsTail includeSubdomains tail

theorem accepts_cons (state : ParserState) (token : Text) (tokens : List Text) :
    accepts state (token :: tokens) = (parseToken state token).bind (accepts · tokens) := by
  rw [accepts, foldlM_cons]
  exact bind_assoc ..

theorem accepts_significant (state : ParserState) (tokens : List Text) :
    accepts state tokens = accepts state (significant tokens) := by
  induction tokens generalizing state with
  | nil => rfl
  | cons token tokens ih =>
    rw [significant, filter_cons]
    by_cases white : token.head?.any isAsciiWhitespace = true
    · have skipped : parseToken state token = some state := if_pos white
      rw [accepts_cons, skipped, white, bind_some, ih]
      rfl
    · rw [Bool.not_eq_true] at white
      rw [white, if_pos (by rfl), accepts_cons, accepts_cons]
      congr 1
      funext next
      exact ih next

variable (bare : ∀ token ∈ tokens, token.head?.any isAsciiWhitespace = false) {candidate : Int}
include bare

theorem accepts_afterIncludeSubdomains :
    accepts (.afterIncludeSubdomains candidate) tokens = some (maxAge, includeSubdomains) ↔
      tokens = [] ∧ maxAge = candidate ∧ includeSubdomains = true := by
  cases tokens with
  | nil => simp [accepts, ParserState.result, @eq_comm _ candidate, @eq_comm _ true]
  | cons token tokens =>
    rw [forall_mem_cons] at bare
    simp [accepts_cons, parseToken, bare.1]

theorem accepts_delimiter : accepts (.afterMaxAgeIncludeSubDomainsDelimiter candidate) tokens =
        some (maxAge, includeSubdomains) ↔
      ∃ name, tokens = [name] ∧ name.map Http.toLowerASCII = includeSubDomainsLabel ∧
        maxAge = candidate ∧ includeSubdomains = true := by
  cases tokens with
  | nil => simp [accepts, ParserState.result]
  | cons token tokens =>
    rw [forall_mem_cons] at bare
    rw [accepts_cons, parseToken, bare.1]
    by_cases label : lowerCaseEqualsASCII token includeSubDomainsLabel = true
    · simp only [label, if_true, Bool.false_eq_true, if_false, bind_some,
        accepts_afterIncludeSubdomains bare.2, List.cons.injEq, ← lowerCaseEqualsASCII_iff]
      exact ⟨fun ⟨last, rest⟩ => ⟨token, ⟨rfl, last⟩, label, rest⟩, fun ⟨_, ⟨_, last⟩, _, rest⟩ => ⟨last, rest⟩⟩
    · simp only [label, if_false, Bool.false_eq_true, bind_none, reduceCtorEq, false_iff,
        List.cons.injEq, ← lowerCaseEqualsASCII_iff]
      rintro ⟨name, ⟨rfl, -⟩, isLabel, -⟩
      exact label isLabel

theorem accepts_afterMaxAge : accepts (.afterMaxAge candidate) tokens = some (maxAge, includeSubdomains) ↔
      maxAge = candidate ∧ ReadsTail includeSubdomains tokens := by
  cases tokens with
  | nil =>
    cases includeSubdomains <;>
      simp [accepts, ParserState.result, ReadsTail, @eq_comm _ candidate]
  | cons token tokens =>
    rw [forall_mem_cons] at bare
    rw [accepts_cons, parseToken, bare.1]
    by_cases delimiter : token.head? = some 59
    · simp only [delimiter, if_true, Bool.false_eq_true, if_false, bind_some, accepts_delimiter bare.2]
      cases includeSubdomains with
      | false => simp [ReadsTail]
      | true =>
        simp only [ReadsTail, if_true, List.cons.injEq, and_true]
        constructor
        · rintro ⟨name, rfl, label, rfl⟩
          exact ⟨rfl, token, name, ⟨rfl, rfl⟩, delimiter, label⟩
        · rintro ⟨rfl, _, name, ⟨rfl, rfl⟩, -, label⟩
          exact ⟨name, rfl, label, rfl⟩
    · simp only [delimiter, if_false, Bool.false_eq_true, bind_none, reduceCtorEq, false_iff]
      rintro ⟨-, tail⟩
      cases includeSubdomains with
      | false => exact cons_ne_nil _ _ tail
      | true =>
        obtain ⟨_, _, eq, isDelimiter, -⟩ := tail
        cases eq
        exact delimiter isDelimiter

theorem accepts_afterMaxAgeEquals : accepts .afterMaxAgeEquals tokens = some (maxAge, includeSubdomains) ↔
      ∃ number tail, tokens = number :: tail ∧ Ftp.stringToInt number = (maxAge, true) ∧
        0 ≤ maxAge ∧ ReadsTail includeSubdomains tail := by
  cases tokens with
  | nil => simp [accepts, ParserState.result]
  | cons token tokens =>
    rw [forall_mem_cons] at bare
    rw [accepts_cons, parseToken, bare.1]
    simp only [Bool.false_eq_true, if_false, List.cons.injEq]
    obtain ⟨n, read⟩ : ∃ n, Ftp.stringToInt token = n := ⟨_, rfl⟩
    obtain ⟨n, valid⟩ := n
    simp only [read]
    constructor
    · intro accepted
      cases valid with
      | false => cases accepted
      | true =>
        by_cases negative : n < 0
        · simp only [if_pos negative] at accepted
          cases accepted
        · simp only [if_neg negative, bind_some, accepts_afterMaxAge bare.2] at accepted
          obtain ⟨rfl, tail⟩ := accepted
          exact ⟨token, tokens, ⟨rfl, rfl⟩, read, Int.not_lt.mp negative, tail⟩
    · rintro ⟨_, _, ⟨rfl, rfl⟩, again, positive, tail⟩
      cases read.symm.trans again
      simp only [if_neg (Int.not_lt.mpr positive), bind_some, accepts_afterMaxAge bare.2]
      exact ⟨trivial, tail⟩

theorem accepts_start : accepts .start tokens = some (maxAge, includeSubdomains) ↔
    Reads tokens maxAge includeSubdomains := by
  match tokens with
  | [] => simp [accepts, ParserState.result, Reads]
  | [label] =>
    rw [forall_mem_cons] at bare
    rw [accepts_cons, parseToken, bare.1]
    refine iff_of_false ?_ ?_
    · simp only [Bool.false_eq_true, if_false]
      split <;> simp [accepts, ParserState.result]
    · rintro ⟨_, _, _, _, eq, -⟩
      cases eq
  | label :: equals :: rest =>
    rw [forall_mem_cons, forall_mem_cons] at bare
    rw [accepts_cons, parseToken, bare.1]
    simp only [Bool.false_eq_true, if_false]
    by_cases isLabel : lowerCaseEqualsASCII label maxAgeLabel = true
    · rw [if_pos isLabel, bind_some, accepts_cons, parseToken, bare.2.1]
      simp only [Bool.false_eq_true, if_false]
      by_cases isEquals : equals.head? = some 61
      · rw [if_pos isEquals, bind_some, accepts_afterMaxAgeEquals bare.2.2]
        constructor
        · rintro ⟨number, tail, rfl, number_ok⟩
          exact ⟨label, equals, number, tail, rfl, lowerCaseEqualsASCII_iff.mp isLabel, isEquals, number_ok⟩
        · rintro ⟨_, _, number, tail, eq, -, -, number_ok⟩
          cases eq
          exact ⟨number, tail, rfl, number_ok⟩
      · rw [if_neg isEquals]
        refine iff_of_false (by simp) ?_
        rintro ⟨_, _, _, _, eq, -, equal, -⟩
        cases eq
        exact isEquals equal
    · rw [if_neg isLabel]
      refine iff_of_false (by simp) ?_
      rintro ⟨_, _, _, _, eq, same, -⟩
      cases eq
      exact isLabel (lowerCaseEqualsASCII_iff.mpr same)

omit bare in
theorem parseHeader_iff (value : Text) : parseHeader value = some (maxAge, includeSubdomains) ↔
    Reads (significant (headerTokens value)) maxAge includeSubdomains := by
  rw [parseHeader, accepts_significant]
  refine accepts_start fun token member => ?_
  simpa using (mem_filter.mp member).2

end Significant

section Words

def WordChar (c : UInt8) : Prop := c ∉ headerTokenizer.delims ∧ c ≠ 13 ∧ c ≠ 10

theorem wordChar_of_digit (digit : Ftp.isDigit c = true) : WordChar c := by
  refine ⟨fun delim => ?_, ?_, ?_⟩
  · simp only [headerTokenizer, mem_cons, not_mem_nil, or_false] at delim
    rcases delim with rfl | rfl | rfl | rfl <;> revert digit <;> decide
  all_goals
    rintro rfl
    revert digit
    decide

theorem wordChar_of_label {label name : Text} (isLabel : name.map Http.toLowerASCII = label)
    (plain : ∀ c ∈ headerTokenizer.delims ++ [13, 10], c ∉ label) : ∀ c ∈ name, WordChar c := by
  intro c inName
  have inLabel : Http.toLowerASCII c ∈ label := isLabel ▸ List.mem_map_of_mem inName
  have same : ∀ d ∈ headerTokenizer.delims ++ [13, 10], Http.toLowerASCII d = d := by
    intro d member
    simp only [headerTokenizer, cons_append, nil_append, mem_cons, not_mem_nil, or_false] at member
    rcases member with rfl | rfl | rfl | rfl | rfl | rfl <;> rfl
  have none : c ∉ headerTokenizer.delims ++ [13, 10] := fun member =>
    plain c member (same c member ▸ inLabel)
  simp only [mem_append, mem_cons, not_mem_nil, or_false, not_or] at none
  exact none

theorem maxAgeLabel_plain : ∀ c ∈ headerTokenizer.delims ++ [13, 10], c ∉ maxAgeLabel := by
  simp [headerTokenizer, maxAgeLabel]

theorem includeSubDomainsLabel_plain : ∀ c ∈ headerTokenizer.delims ++ [13, 10], c ∉ includeSubDomainsLabel := by
  simp [headerTokenizer, includeSubDomainsLabel]

theorem not_white_of_wordChar (plain : WordChar c) : isAsciiWhitespace c = false := by
  obtain ⟨delim, cr, lf⟩ := plain
  simp only [headerTokenizer, mem_cons, not_mem_nil, or_false, not_or] at delim
  simp [isAsciiWhitespace, delim.1, delim.2.1, cr, lf]

theorem headerTokens_delim (delim : c ∈ headerTokenizer.delims) (rest : Text) :
    headerTokens (c :: rest) = [c] :: headerTokens rest := by
  rw [headerTokens, tokens_some (getNext_delim rfl delim rest)]
  rfl

variable {rest : Text}

theorem headerTokens_word (some_word : word ≠ []) (plain : ∀ c ∈ word, WordChar c)
    (stops : headerTokenizer.Stops rest) : headerTokens (word ++ rest) = word :: headerTokens rest := by
  have found := getNext_word some_word (fun c here => (plain c here).1) (fun _ _ => not_mem_nil) stops
  rw [headerTokens, tokens_some found]
  rfl

theorem headerTokens_flatten (value : Text) : (headerTokens value).flatten = value := by
  rw [headerTokens, ← flatMap_def]
  exact tokens_join rfl rfl value

theorem significant_blank (isBlank : Blank blank) (rest : Text) :
    significant (headerTokens (blank ++ rest)) = significant (headerTokens rest) := by
  induction blank with
  | nil => rfl
  | cons c blank ih =>
    rw [Blank, forall_mem_cons] at isBlank
    have delim : c ∈ headerTokenizer.delims := by
      rcases isBlank.1 with rfl | rfl <;> decide
    have white : isAsciiWhitespace c = true := by
      rcases isBlank.1 with rfl | rfl <;> decide
    rw [cons_append, headerTokens_delim delim, ← ih isBlank.2]
    exact filter_cons_of_neg (by simp [white])

theorem significant_delim (delim : c = 61 ∨ c = 59) (rest : Text) :
    significant (headerTokens (c :: rest)) = [c] :: significant (headerTokens rest) := by
  rcases delim with rfl | rfl <;> exact (congrArg significant (headerTokens_delim (by decide) rest)).trans
      (filter_cons_of_pos (by decide))

theorem significant_word (some_word : word ≠ []) (plain : ∀ c ∈ word, WordChar c)
    (stops : headerTokenizer.Stops rest) :
    significant (headerTokens (word ++ rest)) = word :: significant (headerTokens rest) := by
  rw [headerTokens_word some_word plain stops]
  refine filter_cons_of_pos ?_
  cases word with
  | nil => exact absurd rfl some_word
  | cons c word => simp [not_white_of_wordChar (plain c mem_cons_self)]

theorem stops_blank (isBlank : Blank blank) (stops : headerTokenizer.Stops rest) :
    headerTokenizer.Stops (blank ++ rest) := by
  cases blank with
  | nil => exact stops
  | cons c blank =>
    intro d first
    cases first
    rcases isBlank _ mem_cons_self with rfl | rfl <;> decide

theorem stops_delim (delim : c = 61 ∨ c = 59) (rest : Text) : headerTokenizer.Stops (c :: rest) := by
  intro d first
  cases first
  rcases delim with rfl | rfl <;> decide

theorem stops_nil : headerTokenizer.Stops [] := by
  rintro c ⟨⟩

end Words

section Exact

variable {value : Text}

def PlainTokens (value : Text) : Prop :=
  (∀ token ∈ headerTokens value, ∀ c ∈ token.head?, c ≠ 13 ∧ c ≠ 10) ∧
    ∀ c ∈ ((significant (headerTokens value)).getD 2 []).head?, Ftp.isDigit c = true

theorem blank_plain (isBlank : Blank blank) : ∀ c ∈ blank, c ≠ 13 ∧ c ≠ 10 := by
  intro c inBlank
  rcases isBlank c inBlank with rfl | rfl <;> decide

theorem word_plain (plain : ∀ c ∈ word, WordChar c) : ∀ c ∈ word, c ≠ 13 ∧ c ≠ 10 :=
  fun c inWord => (plain c inWord).2

theorem tail_tokens {tail : Text} (isTail : Tail includeSubdomains tail) :
    ReadsTail includeSubdomains (significant (headerTokens tail)) ∧
      headerTokenizer.Stops tail ∧ ∀ c ∈ tail, c ≠ 13 ∧ c ≠ 10 := by
  cases includeSubdomains with
  | false =>
    cases (show tail = [] from isTail)
    exact ⟨rfl, stops_nil, by simp⟩
  | true =>
    obtain ⟨before, name, after, rfl, blankBefore, blankAfter, label⟩ := isTail
    have plain := wordChar_of_label label includeSubDomainsLabel_plain
    have some_name : name ≠ [] := by rintro rfl; cases label
    refine ⟨⟨[59], name, ?_, rfl, label⟩, ?_, ?_⟩
    · have rest := significant_blank blankAfter []
      rw [append_nil] at rest
      rw [cons_append, cons_append, significant_delim (.inr rfl), append_assoc,
        significant_blank blankBefore, significant_word some_name plain, rest]
      · rfl
      · rw [← append_nil after]
        exact stops_blank blankAfter stops_nil
    · exact stops_delim (.inr rfl) _
    · simp only [mem_append, mem_cons]
      rintro c (((rfl | here) | here) | here)
      · decide
      · exact blank_plain blankBefore c here
      · exact word_plain plain c here
      · exact blank_plain blankAfter c here

theorem header_tokens (header : Header value maxAge includeSubdomains) :
    Reads (significant (headerTokens value)) maxAge includeSubdomains ∧ PlainTokens value := by
  obtain ⟨w₀, label, w₁, w₂, digits, w₃, tail, rfl, blank₀, blank₁, blank₂, blank₃, isLabel, number,
    isNumber, fits, isTail⟩ := header
  obtain ⟨readsTail, stopsTail, plainTail⟩ := tail_tokens isTail
  have plain := wordChar_of_label isLabel maxAgeLabel_plain
  have some_label : label ≠ [] := by rintro rfl; cases isLabel
  have plainDigits : ∀ c ∈ digits, WordChar c := fun c here => wordChar_of_digit (number.all c here)
  have positive : 0 ≤ maxAge := isNumber ▸ Int.natCast_nonneg _
  have tokens : significant (headerTokens (w₀ ++ label ++ w₁ ++ 61 :: w₂ ++ digits ++ w₃ ++ tail)) =
      label :: [61] :: digits :: significant (headerTokens tail) := by
    simp only [append_assoc, cons_append]
    rw [significant_blank blank₀, significant_word some_label plain, significant_blank blank₁,
      significant_delim (.inl rfl), significant_blank blank₂, significant_word number.some_digits
        plainDigits (stops_blank blank₃ stopsTail), significant_blank blank₃]
    exact stops_blank blank₁ (stops_delim (.inl rfl) _)
  refine ⟨⟨label, [61], digits, _, tokens, isLabel, rfl, ?_, positive, readsTail⟩, ?_, ?_⟩
  · rw [stringToInt_eq, stringToNumber_iff (by decide)]
    exact ⟨by omega, fits, digits, number, isNumber ▸ .unsigned⟩
  · intro token member c first
    have inText : c ∈ (headerTokens (w₀ ++ label ++ w₁ ++ 61 :: w₂ ++ digits ++ w₃ ++ tail)).flatten :=
      mem_flatten_of_mem member (List.mem_of_mem_head? first)
    rw [headerTokens_flatten] at inText
    simp only [mem_append, mem_cons] at inText
    rcases inText with (((((here | here) | here) | rfl | here) | here) | here) | here
    · exact blank_plain blank₀ c here
    · exact word_plain plain c here
    · exact blank_plain blank₁ c here
    · decide
    · exact blank_plain blank₂ c here
    · exact word_plain plainDigits c here
    · exact blank_plain blank₃ c here
    · exact plainTail c here
  · rw [tokens]
    obtain ⟨c, rest, rfl, digit⟩ := number.head
    intro d first
    cases first
    exact digit

variable {token : Text}

theorem token_delim (member : token ∈ headerTokens value)
    (first : token.head? = some c) (delim : c ∈ headerTokenizer.delims) : token = [c] := by
  obtain ⟨read, inTokens, rfl⟩ := List.mem_map.mp member
  rcases tokens_cases rfl inTokens with ⟨d, -, rfl⟩ | word
  · cases first
    rfl
  · exact absurd delim (word c (List.mem_of_mem_head? first))

theorem skipped_blank {skipped : List Text} (sub : ∀ token ∈ skipped, token ∈ headerTokens value)
    (plain : ∀ token ∈ headerTokens value, ∀ c ∈ token.head?, c ≠ 13 ∧ c ≠ 10)
    (white : ∀ token ∈ skipped, token.head?.any isAsciiWhitespace = true) : Blank skipped.flatten := by
  intro c inText
  obtain ⟨token, member, inToken⟩ := mem_flatten.mp inText
  have isWhite := white token member
  cases first : token.head? with
  | none =>
    rw [first] at isWhite
    cases isWhite
  | some d =>
    rw [first] at isWhite
    have breaks := plain token (sub token member) d first
    have blank : d = 32 ∨ d = 9 := by
      have cases_white : ((d = 32 ∨ d = 13) ∨ d = 10) ∨ d = 9 := by
        simpa [isAsciiWhitespace] using isWhite
      rcases cases_white with ((blank | cr) | lf) | tab
      · exact .inl blank
      · exact absurd cr breaks.1
      · exact absurd lf breaks.2
      · exact .inr tab
    have delim : d ∈ headerTokenizer.delims := by rcases blank with rfl | rfl <;> decide
    rw [token_delim (sub token member) first delim, mem_singleton] at inToken
    rwa [inToken]

theorem significant_cons {rest : List Text}
    (read : significant tokens = token :: rest) (sub : ∀ token ∈ tokens, token ∈ headerTokens value)
    (plain : ∀ token ∈ headerTokens value, ∀ c ∈ token.head?, c ≠ 13 ∧ c ≠ 10) :
    ∃ blank behind, tokens.flatten = blank ++ token ++ behind.flatten ∧ Blank blank ∧
      token ∈ headerTokens value ∧ significant behind = rest ∧
      ∀ token ∈ behind, token ∈ headerTokens value := by
  obtain ⟨skipped, behind, rfl, white, -, later⟩ := filter_eq_cons_iff.mp read
  refine ⟨skipped.flatten, behind, ?_, ?_, ?_, later, ?_⟩
  · rw [flatten_append, flatten_cons, append_assoc]
  · refine skipped_blank (fun t member => sub t (mem_append_left _ member)) plain ?_
    intro t member
    simpa using white t member
  · exact sub token (mem_append_right _ mem_cons_self)
  · exact fun t member => sub t (mem_append_right _ (mem_cons_of_mem _ member))

theorem significant_nil (read : significant tokens = []) (sub : ∀ token ∈ tokens, token ∈ headerTokens value)
    (plain : ∀ token ∈ headerTokens value, ∀ c ∈ token.head?, c ≠ 13 ∧ c ≠ 10) : Blank tokens.flatten := by
  refine skipped_blank sub plain fun token member => ?_
  simpa using filter_eq_nil_iff.mp read token member

theorem number_digits {number : Text} (read : Ftp.stringToInt number = (maxAge, true))
    (plain : ∀ c ∈ number.head?, Ftp.isDigit c = true) :
    IsDigits number ∧ maxAge = Ftp.decimal number ∧ maxAge ≤ 2 ^ 31 - 1 := by
  rw [stringToInt_eq, stringToNumber_iff (by decide)] at read
  obtain ⟨-, fits, digits, isDigits, signed⟩ := read
  cases signed with
  | unsigned => exact ⟨isDigits, rfl, fits⟩
  | plus => exact absurd (plain 43 rfl) (by decide)
  | minus => exact absurd (plain 45 rfl) (by decide)

theorem header_of_tokens (reads : Reads (significant (headerTokens value)) maxAge includeSubdomains)
    (plainTokens : PlainTokens value) : Header value maxAge includeSubdomains := by
  obtain ⟨plain, plainNumber⟩ := plainTokens
  obtain ⟨label, equals, number, rest, tokens, isLabel, isEquals, isNumber, -, readsTail⟩ := reads
  rw [tokens] at plainNumber
  obtain ⟨digits, value_eq, fits⟩ := number_digits isNumber plainNumber
  obtain ⟨w₀, behind, eq, blank₀, -, tokens, sub⟩ := significant_cons tokens (fun _ h => h) plain
  obtain ⟨w₁, behind₁, eq₁, blank₁, member, tokens₁, sub₁⟩ := significant_cons tokens sub plain
  obtain ⟨w₂, behind₂, eq₂, blank₂, -, tokens₂, sub₂⟩ := significant_cons tokens₁ sub₁ plain
  have isSingle := token_delim member isEquals (by decide)
  rw [headerTokens_flatten, eq₁, eq₂, isSingle] at eq
  cases includeSubdomains with
  | false =>
    cases (show rest = [] from readsTail)
    have blank₃ := significant_nil tokens₂ sub₂ plain
    refine ⟨w₀, label, w₁, w₂, number, behind₂.flatten, [], ?_, blank₀, blank₁, blank₂, blank₃,
      isLabel, digits, value_eq, fits, rfl⟩
    rw [eq]
    simp
  | true =>
    obtain ⟨delimiter, name, tail, isDelimiter, isName⟩ := readsTail
    rw [tail] at tokens₂
    obtain ⟨w₃, behind₃, eq₃, blank₃, member₃, tokens₃, sub₃⟩ := significant_cons tokens₂ sub₂ plain
    obtain ⟨w₄, behind₄, eq₄, blank₄, -, tokens₄, sub₄⟩ := significant_cons tokens₃ sub₃ plain
    have blank₅ := significant_nil tokens₄ sub₄ plain
    rw [eq₃, eq₄, token_delim member₃ isDelimiter (by decide)] at eq
    refine ⟨w₀, label, w₁, w₂, number, w₃, 59 :: w₄ ++ name ++ behind₄.flatten, ?_, blank₀, blank₁,
      blank₂, blank₃, isLabel, digits, value_eq, fits, w₄, name, _, rfl, blank₄, blank₅, isName⟩
    rw [eq]
    simp

end Exact

/-- The parser accepts the headers of the grammar with their number and flag, exactly when a value
that reads as one has no token that begins with a line break and no sign before the number. -/
theorem parse_header_iff (value : Text) :
    (∀ maxAge includeSubdomains, parseHeader value = some (maxAge, includeSubdomains) ↔
      Header value maxAge includeSubdomains) ↔
    ∀ maxAge includeSubdomains,
      Reads (significant (headerTokens value)) maxAge includeSubdomains → PlainTokens value := by
  constructor
  · intro exact_parse maxAge includeSubdomains reads
    have header := (exact_parse _ _).mp ((parseHeader_iff value).mpr reads)
    exact (header_tokens header).2
  · intro plain maxAge includeSubdomains
    rw [parseHeader_iff]
    exact ⟨fun reads => header_of_tokens reads (plain _ _ reads), fun header => (header_tokens header).1⟩

/-- `max-age=+5` -/
theorem signed_age_accepted : ¬ ∀ maxAge includeSubdomains,
      parseHeader (maxAgeLabel ++ [61, 43, 53]) = some (maxAge, includeSubdomains) ↔
        Header (maxAgeLabel ++ [61, 43, 53]) maxAge includeSubdomains := by
  intro exact_parse
  have accepted : parseHeader (maxAgeLabel ++ [61, 43, 53]) = some (5, false) := by decide
  have plain := (header_tokens ((exact_parse 5 false).mp accepted)).2.2
  exact absurd (plain 43 rfl) (by decide)

end Glopen.Net.TransportSecurity
