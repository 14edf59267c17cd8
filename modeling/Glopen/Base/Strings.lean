import Mathlib.Data.List.TakeWhile
import Glopen.Ftp.ControlLines
import Glopen.Http.HeaderBlock

/-! `base/string_tokenizer.h`, and the comparisons and numbers of `base/string_util.cc`. -/
namespace Glopen.Base

open List Bool

abbrev Text := List UInt8

structure StringTokenizer where
  delims : Text
  quotes : Text
  returnDelims : Bool

structure Token where
  text : Text
  isDelim : Bool
deriving DecidableEq

structure AdvanceState where
  inQuote : Bool
  inEscape : Bool
  quoteChar : UInt8

def AdvanceState.new : AdvanceState := ⟨false, false, 0⟩

section Tokenizer

variable (t : StringTokenizer)

/-- The state after a character, or `none` at a delimiter. -/
def StringTokenizer.advanceOne (state : AdvanceState) (c : UInt8) : Option AdvanceState :=
  if state.inQuote then
    if state.inEscape then some { state with inEscape := false }
    else if c = 92 then some { state with inEscape := true }
    else if c = state.quoteChar then some { state with inQuote := false }
    else some state
  else if c ∈ t.delims then none
  else some { state with inQuote := c ∈ t.quotes, quoteChar := c }

def StringTokenizer.advance : AdvanceState → Text → Text × Text
  | _, [] => ([], [])
  | state, c :: rest =>
    match t.advanceOne state c with
    | none => ([], c :: rest)
    | some state =>
      let (token, behind) := advance state rest
      (c :: token, behind)

def StringTokenizer.quickGetNext : Text → Option (Token × Text)
  | [] => none
  | c :: rest =>
    if c ∈ t.delims then quickGetNext rest
    else some (⟨c :: rest.takeWhile (· ∉ t.delims), false⟩, rest.dropWhile (· ∉ t.delims))

def StringTokenizer.fullGetNext : Text → Option (Token × Text)
  | [] => none
  | c :: rest =>
    match t.advanceOne .new c with
    | some state =>
      let (token, behind) := t.advance state rest
      some (⟨c :: token, false⟩, behind)
    | none => if t.returnDelims then some (⟨[c], true⟩, rest) else fullGetNext rest

def StringTokenizer.getNext (text : Text) : Option (Token × Text) :=
  if t.quotes = [] && !t.returnDelims then t.quickGetNext text else t.fullGetNext text

/-- The tokens of the calls of `GetNext`, at most `fuel` of them. -/
def StringTokenizer.tokensFrom : Nat → Text → List Token
  | 0, _ => []
  | fuel + 1, text =>
    match t.getNext text with
    | none => []
    | some (token, behind) => token :: tokensFrom fuel behind

def StringTokenizer.tokens (text : Text) : List Token := t.tokensFrom text.length text

end Tokenizer

def lowerCaseEqualsASCII : Text → Text → Bool
  | [], b => b = []
  | _ :: _, [] => false
  | c :: a, d :: b => Http.toLowerASCII c = d && lowerCaseEqualsASCII a b

theorem lowerCaseEqualsASCII_iff {a b : Text} :
    lowerCaseEqualsASCII a b = true ↔ a.map Http.toLowerASCII = b := by
  induction a generalizing b with
  | nil => simp [lowerCaseEqualsASCII, eq_comm]
  | cons c a ih =>
    cases b with
    | nil => simp [lowerCaseEqualsASCII]
    | cons d b => simp [lowerCaseEqualsASCII, ih]

section Tokens

variable {t : StringTokenizer} {text : Text}
variable (t) (text) in
theorem advance_join (state : AdvanceState) : (t.advance state text).1 ++ (t.advance state text).2 = text := by
  induction text generalizing state with
  | nil => rfl
  | cons c rest ih =>
    rw [StringTokenizer.advance]
    cases t.advanceOne state c with
    | none => rfl
    | some state => simp [ih state]

theorem advance_shorter (state : AdvanceState) : (t.advance state text).2.length ≤ text.length := by
  have join := congrArg List.length (advance_join t text state)
  rw [length_append] at join
  omega

variable {token : Token} {behind : Text} {c : UInt8}

theorem getNext_shorter (found : t.getNext text = some (token, behind)) : behind.length < text.length := by
  unfold StringTokenizer.getNext at found
  split at found
  next =>
    induction text with
    | nil => cases found
    | cons c rest ih =>
      rw [StringTokenizer.quickGetNext] at found
      split at found
      next => exact Nat.lt_succ_of_lt (ih found)
      next =>
        cases found
        exact Nat.lt_succ_of_le (dropWhile_suffix _).length_le
  next =>
    induction text with
    | nil => cases found
    | cons c rest ih =>
      rw [StringTokenizer.fullGetNext] at found
      cases first : t.advanceOne .new c with
      | some state =>
        rw [first] at found
        cases found
        exact Nat.lt_succ_of_le (advance_shorter state)
      | none =>
        simp only [first] at found
        split at found
        next =>
          cases found
          exact Nat.lt_succ_self _
        next => exact Nat.lt_succ_of_lt (ih found)

theorem tokensFrom_enough {fuel more : Nat} (enough : text.length ≤ fuel) (larger : fuel ≤ more) :
    t.tokensFrom more text = t.tokensFrom fuel text := by
  induction fuel generalizing text more with
  | zero =>
    cases eq_nil_of_length_eq_zero (Nat.le_zero.mp enough)
    cases more with
    | zero => rfl
    | succ more =>
      have none : t.getNext [] = none := by
        unfold StringTokenizer.getNext
        split <;> rfl
      simp only [StringTokenizer.tokensFrom, none]
  | succ fuel ih =>
    cases more with
    | zero => cases larger
    | succ more =>
      rw [StringTokenizer.tokensFrom, StringTokenizer.tokensFrom]
      cases found : t.getNext text with
      | none => rfl
      | some read =>
        obtain ⟨token, behind⟩ := read
        have shorter := getNext_shorter found
        have next : t.tokensFrom more behind = t.tokensFrom fuel behind := ih (by omega) (by omega)
        simp only [next]

theorem tokens_none (none : t.getNext text = none) : t.tokens text = [] := by
  rw [StringTokenizer.tokens]
  cases text.length with
  | zero => rfl
  | succ fuel => rw [StringTokenizer.tokensFrom, none]

theorem tokens_some (found : t.getNext text = some (token, behind)) :
    t.tokens text = token :: t.tokens behind := by
  have shorter := getNext_shorter found
  cases text with
  | nil => cases shorter
  | cons c rest =>
    have enough := tokensFrom_enough (t := t) le_rfl (Nat.le_of_lt_succ (length_cons ▸ shorter))
    rw [StringTokenizer.tokens, length_cons, StringTokenizer.tokensFrom, found]
    exact congrArg _ enough

theorem tokens_skip (dropped : t.returnDelims = false) (delim : c ∈ t.delims) (text : Text) :
    t.tokens (c :: text) = t.tokens text := by
  have skip : t.getNext (c :: text) = t.getNext text := by
    simp [StringTokenizer.getNext, StringTokenizer.quickGetNext, StringTokenizer.fullGetNext,
      StringTokenizer.advanceOne, AdvanceState.new, delim, dropped]
  cases found : t.getNext text with
  | none => rw [tokens_none found, tokens_none (skip.trans found)]
  | some read => rw [tokens_some found, tokens_some (skip.trans found)]

theorem advance_unquoted {state : AdvanceState} (outside : state.inQuote = false)
    (unquoted : ∀ c ∈ (t.advance state text).1, c ∉ t.quotes) :
    t.advance state text = (text.takeWhile (· ∉ t.delims), text.dropWhile (· ∉ t.delims)) := by
  induction text generalizing state with
  | nil => rfl
  | cons c rest ih =>
    by_cases delim : c ∈ t.delims
    · simp [StringTokenizer.advance, StringTokenizer.advanceOne, outside, delim]
    · have one : t.advanceOne state c = some { state with inQuote := c ∈ t.quotes, quoteChar := c } := by
        simp [StringTokenizer.advanceOne, outside, delim]
      simp only [StringTokenizer.advance, one, mem_cons, forall_eq_or_imp] at unquoted ⊢
      have next := ih (decide_eq_false unquoted.1) unquoted.2
      simp only [next, delim, not_false_eq_true, decide_true, takeWhile_cons_of_pos, dropWhile_cons_of_pos]

theorem advance_plain {state : AdvanceState} (outside : state.inQuote = false)
    (plain : ∀ c ∈ text, c ∉ t.quotes) :
    t.advance state text = (text.takeWhile (· ∉ t.delims), text.dropWhile (· ∉ t.delims)) := by
  refine advance_unquoted outside fun c inToken => plain c ?_
  rw [← advance_join t text state]
  exact mem_append_left _ inToken

def StringTokenizer.Stops (t : StringTokenizer) (text : Text) : Prop := ∀ c ∈ text.head?, c ∈ t.delims

variable (t) (text) in
theorem stops_dropWhile : t.Stops (text.dropWhile (· ∉ t.delims)) := by
  intro c first
  have stopped := List.head?_dropWhile_not (· ∉ t.delims) text
  rw [Option.mem_def.mp first] at stopped
  simpa using stopped

theorem span_word {word rest : Text} (inWord : ∀ c ∈ word, c ∉ t.delims) (stops : t.Stops rest) :
    (word ++ rest).takeWhile (· ∉ t.delims) = word ∧ (word ++ rest).dropWhile (· ∉ t.delims) = rest := by
  have holds : ∀ c ∈ word, decide (c ∉ t.delims) = true := fun c here => decide_eq_true (inWord c here)
  rw [takeWhile_append_of_pos holds, dropWhile_append_of_pos holds]
  cases rest with
  | nil => exact ⟨append_nil word, rfl⟩
  | cons c rest =>
    have delim : c ∈ t.delims := stops c rfl
    simp [delim]

theorem getNext_delim (returned : t.returnDelims = true) (delim : c ∈ t.delims)
    (rest : Text) : t.getNext (c :: rest) = some (⟨[c], true⟩, rest) := by
  have stop : t.advanceOne .new c = none := by
    simp [StringTokenizer.advanceOne, AdvanceState.new, delim]
  simp [StringTokenizer.getNext, returned, StringTokenizer.fullGetNext, stop]

theorem advance_word {word rest : Text} {state : AdvanceState} (outside : state.inQuote = false)
    (inWord : ∀ c ∈ word, c ∉ t.delims) (unquoted : ∀ c ∈ word, c ∉ t.quotes)
    (stops : t.Stops rest) : t.advance state (word ++ rest) = (word, rest) := by
  induction word generalizing state with
  | nil =>
    cases rest with
    | nil => rfl
    | cons d rest => simp [StringTokenizer.advance, StringTokenizer.advanceOne, outside, stops d rfl]
  | cons d word ih =>
    rw [forall_mem_cons] at inWord unquoted
    have next : t.advanceOne state d = some { state with inQuote := false, quoteChar := d } := by
      simp [StringTokenizer.advanceOne, outside, inWord.1, unquoted.1]
    rw [cons_append, StringTokenizer.advance, next]
    simp only [@ih ⟨false, state.inEscape, d⟩ rfl inWord.2 unquoted.2]

theorem getNext_word {word rest : Text} (some_word : word ≠ []) (inWord : ∀ c ∈ word, c ∉ t.delims)
    (unquoted : ∀ c ∈ word, c ∉ t.quotes) (stops : t.Stops rest) :
    t.getNext (word ++ rest) = some (⟨word, false⟩, rest) := by
  cases word with
  | nil => exact absurd rfl some_word
  | cons c word =>
    rw [forall_mem_cons] at inWord unquoted
    obtain ⟨taken, left⟩ := span_word inWord.2 stops
    unfold StringTokenizer.getNext
    split
    next =>
      rw [cons_append, StringTokenizer.quickGetNext, if_neg inWord.1, taken, left]
    next =>
      have one : t.advanceOne .new c = some ⟨false, false, c⟩ := by
        simp [StringTokenizer.advanceOne, AdvanceState.new, inWord.1, unquoted.1]
      rw [cons_append, StringTokenizer.fullGetNext, one]
      simp only [@advance_word t word rest ⟨false, false, c⟩ rfl inWord.2 unquoted.2 stops]

inductive StringTokenizer.Next (t : StringTokenizer) : Text → Token → Text → Prop where
  | delim {c : UInt8} {behind : Text} (returned : t.returnDelims = true) (isDelim : c ∈ t.delims) :
      Next t (c :: behind) ⟨[c], true⟩ behind
  | word {skipped word behind : Text} (skips : ∀ c ∈ skipped, c ∈ t.delims)
      (kept : t.returnDelims = true → skipped = []) (some_word : word ≠ [])
      (inWord : ∀ c ∈ word, c ∉ t.delims) (stops : t.Stops behind) :
      Next t (skipped ++ word ++ behind) ⟨word, false⟩ behind

theorem next_skip (delim : c ∈ t.delims) (dropped : t.returnDelims = false) (next : t.Next text token behind) :
    t.Next (c :: text) token behind := by
  cases next with
  | delim returned => exact absurd returned (by simp [dropped])
  | @word skipped word _ skips kept some_word inWord stops =>
    have skips' : ∀ d ∈ c :: skipped, d ∈ t.delims := forall_mem_cons.mpr ⟨delim, skips⟩
    exact .word skips' (fun returned => absurd returned (by simp [dropped])) some_word inWord stops

variable (text) in
theorem inWord_takeWhile (word : c ∉ t.delims) : ∀ d ∈ c :: text.takeWhile (· ∉ t.delims), d ∉ t.delims := by
  refine forall_mem_cons.mpr ⟨word, fun d taken => ?_⟩
  have holds : decide (d ∉ t.delims) = true := mem_takeWhile_imp (p := (· ∉ t.delims)) taken
  exact of_decide_eq_true holds

theorem next_word (word : c ∉ t.delims) : t.Next (c :: text)
    ⟨c :: text.takeWhile (· ∉ t.delims), false⟩ (text.dropWhile (· ∉ t.delims)) := by
  have next : t.Next ([] ++ (c :: text.takeWhile (· ∉ t.delims)) ++ text.dropWhile (· ∉ t.delims))
      ⟨c :: text.takeWhile (· ∉ t.delims), false⟩ (text.dropWhile (· ∉ t.delims)) :=
    .word (by simp) (fun _ => rfl) (cons_ne_nil _ _) (inWord_takeWhile text word) (stops_dropWhile t text)
  rwa [nil_append, cons_append, takeWhile_append_dropWhile] at next

theorem next_of_getNext
    (found : t.getNext text = some (token, behind)) (unquoted : ∀ c ∈ token.text, c ∉ t.quotes) :
    t.Next text token behind := by
  unfold StringTokenizer.getNext at found
  split at found
  next quick =>
    simp only [and_eq_true, not_eq_true'] at quick
    induction text with
    | nil => cases found
    | cons c rest ih =>
      rw [StringTokenizer.quickGetNext] at found
      split at found
      next delim => exact next_skip delim quick.2 (ih found)
      next word =>
        cases found
        exact next_word word
  next =>
    induction text with
    | nil => cases found
    | cons c rest ih =>
      rw [StringTokenizer.fullGetNext] at found
      by_cases delim : c ∈ t.delims
      · have stop : t.advanceOne .new c = none := by
          simp [StringTokenizer.advanceOne, AdvanceState.new, delim]
        simp only [stop] at found
        split at found
        next returned =>
          cases found
          exact .delim returned delim
        next dropped => exact next_skip delim (by simpa using dropped) (ih found)
      · have one : t.advanceOne .new c = some ⟨c ∈ t.quotes, false, c⟩ := by
          simp [StringTokenizer.advanceOne, AdvanceState.new, delim]
        simp only [one] at found
        cases found
        rw [forall_mem_cons] at unquoted
        rw [advance_unquoted (decide_eq_false unquoted.1) unquoted.2]
        exact next_word delim

theorem tokens_join (returned : t.returnDelims = true) (plain : t.quotes = []) (text : Text) :
    (t.tokens text).flatMap Token.text = text := by
  induction size : text.length using Nat.strongRecOn generalizing text with
  | _ n ih =>
    cases found : t.getNext text with
    | none =>
      rw [tokens_none found]
      cases text with
      | nil => rfl
      | cons c rest =>
        by_cases delim : c ∈ t.delims
        · rw [getNext_delim returned delim] at found
          cases found
        · have word := getNext_word (cons_ne_nil c _) (inWord_takeWhile rest delim)
            (by simp [plain]) (stops_dropWhile t rest)
          rw [cons_append, takeWhile_append_dropWhile, found] at word
          cases word
    | some read =>
      obtain ⟨token, behind⟩ := read
      have rest := ih _ (size ▸ getNext_shorter found) behind rfl
      rw [tokens_some found, flatMap_cons, rest]
      cases next_of_getNext found (by simp [plain]) with
      | delim => rfl
      | word _ kept => simp [kept returned]

theorem tokens_cases (plain : t.quotes = []) {text : Text} (member : token ∈ t.tokens text) :
    (∃ c ∈ t.delims, token = ⟨[c], true⟩) ∨ ∀ c ∈ token.text, c ∉ t.delims := by
  induction size : text.length using Nat.strongRecOn generalizing text with
  | _ n ih =>
    cases found : t.getNext text with
    | none =>
      rw [tokens_none found] at member
      cases member
    | some read =>
      obtain ⟨first, behind⟩ := read
      rw [tokens_some found, mem_cons] at member
      rcases member with rfl | later
      · cases next_of_getNext found (by simp [plain]) with
        | delim _ isDelim => exact .inl ⟨_, isDelim, rfl⟩
        | word _ _ _ inWord => exact .inr inWord
      · exact ih _ (size ▸ getNext_shorter found) later rfl

theorem getNext_split (found : t.getNext text = some (token, behind)) :
    ∃ skipped, text = skipped ++ token.text ++ behind := by
  unfold StringTokenizer.getNext at found
  split at found
  next =>
    induction text with
    | nil => cases found
    | cons c rest ih =>
      rw [StringTokenizer.quickGetNext] at found
      split at found
      next =>
        obtain ⟨skipped, rfl⟩ := ih found
        exact ⟨c :: skipped, rfl⟩
      next =>
        cases found
        exact ⟨[], by simp⟩
  next =>
    induction text with
    | nil => cases found
    | cons c rest ih =>
      rw [StringTokenizer.fullGetNext] at found
      cases first : t.advanceOne .new c with
      | some state =>
        rw [first] at found
        cases found
        exact ⟨[], by simp [advance_join]⟩
      | none =>
        simp only [first] at found
        split at found
        next =>
          cases found
          exact ⟨[], rfl⟩
        next =>
          obtain ⟨skipped, rfl⟩ := ih found
          exact ⟨c :: skipped, rfl⟩

theorem advance_take (state : AdvanceState) (k : Nat) : t.advance state (text.take k) =
    ((t.advance state text).1.take k, (t.advance state text).2.take (k - (t.advance state text).1.length)) := by
  induction text generalizing state k with
  | nil => simp [StringTokenizer.advance]
  | cons c rest ih =>
    cases k with
    | zero => simp [StringTokenizer.advance]
    | succ k =>
      rw [take_succ_cons, StringTokenizer.advance, StringTokenizer.advance]
      cases t.advanceOne state c with
      | none => simp
      | some state => simp [ih state k]

theorem getNext_take (quoted : t.quotes ≠ []) (dropped : t.returnDelims = false)
    (found : t.getNext text = some (token, behind)) :
    ∃ skipped, text = skipped ++ token.text ++ behind ∧ ∀ k, 0 < k →
      t.getNext (skipped ++ (token.text ++ behind).take k) =
        some (⟨token.text.take k, false⟩, behind.take (k - token.text.length)) := by
  have full : ∀ text, t.getNext text = t.fullGetNext text := fun text => by
    rw [StringTokenizer.getNext, if_neg (by simp [quoted])]
  rw [full] at found
  induction text with
  | nil => cases found
  | cons c rest ih =>
    rw [StringTokenizer.fullGetNext] at found
    cases first : t.advanceOne .new c with
    | some state =>
      rw [first] at found
      cases found
      refine ⟨[], by simp [advance_join], fun k positive => ?_⟩
      cases k with
      | zero => cases positive
      | succ k =>
        rw [nil_append, cons_append, take_succ_cons, advance_join, full, StringTokenizer.fullGetNext, first]
        simp [advance_take]
    | none =>
      simp only [first, dropped, false_eq_true, if_false] at found
      obtain ⟨skipped, rfl, cut⟩ := ih found
      refine ⟨c :: skipped, rfl, fun k positive => ?_⟩
      rw [cons_append, full, StringTokenizer.fullGetNext, first]
      simp only [dropped, false_eq_true, if_false]
      rw [← full]
      exact cut k positive

theorem mem_of_mem_tokens (member : token ∈ t.tokens text) (inToken : c ∈ token.text) : c ∈ text := by
  induction size : text.length using Nat.strongRecOn generalizing text with
  | _ n ih =>
    cases found : t.getNext text with
    | none =>
      rw [tokens_none found] at member
      cases member
    | some read =>
      obtain ⟨first, behind⟩ := read
      obtain ⟨skipped, split⟩ := getNext_split found
      rw [split, append_assoc]
      rw [tokens_some found, mem_cons] at member
      rcases member with rfl | later
      · exact mem_append_right _ (mem_append_left _ inToken)
      · exact mem_append_right _ (mem_append_right _ (ih _ (size ▸ getNext_shorter found) later rfl))

theorem splitOnP_skipped {p : UInt8 → Bool} {skipped : Text} (skips : ∀ c ∈ skipped, p c = true)
    (rest : Text) : ((skipped ++ rest).splitOnP p).filter (· ≠ []) = (rest.splitOnP p).filter (· ≠ []) := by
  induction skipped with
  | nil => rfl
  | cons c skipped ih =>
    rw [forall_mem_cons] at skips
    rw [cons_append, splitOnP_cons_eq_if_modifyHead, if_pos skips.1, ← ih skips.2]
    rfl

theorem delims_of_getNext (dropped : t.returnDelims = false) (none : t.getNext text = none) :
    ∀ c ∈ text, c ∈ t.delims := by
  unfold StringTokenizer.getNext at none
  induction text with
  | nil => simp
  | cons c rest ih =>
    have delim : c ∈ t.delims := by
      by_contra word
      split at none
      next =>
        rw [StringTokenizer.quickGetNext, if_neg word] at none
        cases none
      next =>
        simp [StringTokenizer.fullGetNext, StringTokenizer.advanceOne, AdvanceState.new, word] at none
    refine forall_mem_cons.mpr ⟨delim, ih ?_⟩
    split at none
    next quick =>
      rw [StringTokenizer.quickGetNext, if_pos delim] at none
      rwa [if_pos quick]
    next full =>
      rw [if_neg full]
      simpa [StringTokenizer.fullGetNext, StringTokenizer.advanceOne, AdvanceState.new, delim,
        dropped] using none

theorem tokens_splitOnP (dropped : t.returnDelims = false) (text : Text)
    (unquoted : ∀ token ∈ t.tokens text, ∀ c ∈ token.text, c ∉ t.quotes) :
    (t.tokens text).map Token.text = (text.splitOnP (· ∈ t.delims)).filter (· ≠ []) := by
  induction size : text.length using Nat.strongRecOn generalizing text with
  | _ n ih =>
    cases found : t.getNext text with
    | none =>
      have all := delims_of_getNext dropped found
      have none := splitOnP_skipped (p := (· ∈ t.delims)) (fun c here => decide_eq_true (all c here)) []
      rw [append_nil] at none
      rw [tokens_none found, none]
      rfl
    | some read =>
      obtain ⟨token, behind⟩ := read
      rw [tokens_some found, forall_mem_cons] at unquoted
      have rest := ih _ (size ▸ getNext_shorter found) behind unquoted.2 rfl
      rw [tokens_some found, map_cons, rest]
      cases next_of_getNext found unquoted.1 with
      | delim returned => exact absurd returned (by simp [dropped])
      | @word skipped word _ skips _ some_word inWord stops =>
        have plain : ∀ c ∈ word, decide (c ∈ t.delims) = false :=
          fun c here => decide_eq_false (inWord c here)
        rw [append_assoc, splitOnP_skipped (p := (· ∈ t.delims)) fun c here => decide_eq_true (skips c here)]
        cases behind with
        | nil =>
          rw [append_nil, splitOnP_eq_singleton plain]
          simp [some_word]
        | cons d behind =>
          have delim : d ∈ t.delims := stops d rfl
          rw [splitOnP_append_cons_of_forall_mem plain d (decide_eq_true delim),
            splitOnP_cons_eq_if_modifyHead, if_pos (decide_eq_true delim)]
          simp [some_word]

end Tokens

section Numbers

def stringToNumber (least greatest : Int) (input : Text) : Int × Bool :=
  let (res, read) := Ftp.strtol input
  let value := max least (min greatest res)
  (value, value = res && input ≠ [] && read = input.length && !(input.head?.any Ftp.isSpace))

theorem stringToInt_eq (input : Text) :
    Ftp.stringToInt input = stringToNumber (-2 ^ 31) (2 ^ 31 - 1) input := rfl

def stringToInt64 (input : Text) : Int × Bool := stringToNumber (-2 ^ 63) (2 ^ 63 - 1) input

/-- What `strtol` takes for a number when it reads the whole text. -/
inductive Signed (digits : Text) : Text → Int → Prop where
  | unsigned : Signed digits digits (Ftp.decimal digits)
  | plus : Signed digits (43 :: digits) (Ftp.decimal digits)
  | minus : Signed digits (45 :: digits) (-(Ftp.decimal digits : Int))

structure IsDigits (digits : Text) : Prop where
  some_digits : digits ≠ []
  all : ∀ c ∈ digits, Ftp.isDigit c = true

variable {digits input : Text}

theorem IsDigits.taken (number : IsDigits digits) :
    digits.takeWhile Ftp.isDigit = digits := takeWhile_eq_self_iff.mpr number.all

theorem IsDigits.head (number : IsDigits digits) : ∃ c rest, digits = c :: rest ∧ Ftp.isDigit c = true := by
  cases digits with
  | nil => exact absurd rfl number.some_digits
  | cons c rest => exact ⟨c, rest, rfl, number.all c mem_cons_self⟩

theorem strtol_minus (rest : Text) : Ftp.strtol (45 :: rest) = if rest.takeWhile Ftp.isDigit = [] then (0, 0)
    else (-(Ftp.decimal (rest.takeWhile Ftp.isDigit) : Int), 1 + (rest.takeWhile Ftp.isDigit).length) := by
  have bare : (45 :: rest).takeWhile Ftp.isSpace = [] := rfl
  simp [Ftp.strtol, bare]

theorem strtol_plus (rest : Text) : Ftp.strtol (43 :: rest) = if rest.takeWhile Ftp.isDigit = [] then (0, 0)
    else ((Ftp.decimal (rest.takeWhile Ftp.isDigit) : Int), 1 + (rest.takeWhile Ftp.isDigit).length) := by
  have bare : (43 :: rest).takeWhile Ftp.isSpace = [] := rfl
  simp [Ftp.strtol, bare]

theorem strtol_bare {c : UInt8} (space : Ftp.isSpace c = false) (minus : c ≠ 45) (plus : c ≠ 43)
    (rest : Text) : Ftp.strtol (c :: rest) = if (c :: rest).takeWhile Ftp.isDigit = [] then (0, 0)
    else ((Ftp.decimal ((c :: rest).takeWhile Ftp.isDigit) : Int),
      ((c :: rest).takeWhile Ftp.isDigit).length) := by
  have bare : (c :: rest).takeWhile Ftp.isSpace = [] := by simp [space]
  simp [Ftp.strtol, bare, minus, plus]

theorem strtol_signed {n : Int} (number : IsDigits digits) (signed : Signed digits input n) :
    Ftp.strtol input = (n, input.length) ∧ input ≠ [] ∧ input.head?.any Ftp.isSpace = false := by
  cases signed with
  | unsigned =>
    obtain ⟨c, rest, rfl, digit⟩ := number.head
    have space := Ftp.digit_not_space digit
    have minus : c ≠ 45 := by rintro rfl; revert digit; decide
    have plus : c ≠ 43 := by rintro rfl; revert digit; decide
    refine ⟨?_, number.some_digits, space⟩
    rw [strtol_bare space minus plus, number.taken, if_neg number.some_digits]
  | plus =>
    refine ⟨?_, cons_ne_nil _ _, rfl⟩
    rw [strtol_plus, number.taken, if_neg number.some_digits, length_cons, Nat.add_comm]
  | minus =>
    refine ⟨?_, cons_ne_nil _ _, rfl⟩
    rw [strtol_minus, number.taken, if_neg number.some_digits, length_cons, Nat.add_comm]

theorem all_digits (text : Text) (whole : (text.takeWhile Ftp.isDigit).length = text.length) :
    ∀ c ∈ text, Ftp.isDigit c = true :=
  takeWhile_eq_self_iff.mp ((List.takeWhile_prefix _).eq_of_length whole)

theorem signed_of_strtol (whole : (Ftp.strtol input).2 = input.length)
    (some_input : input ≠ []) (bare : input.head?.any Ftp.isSpace = false) :
    ∃ digits, IsDigits digits ∧ Signed digits input (Ftp.strtol input).1 := by
  cases input with
  | nil => exact absurd rfl some_input
  | cons c rest =>
    by_cases minus : c = 45
    · subst minus
      rw [strtol_minus] at whole ⊢
      split at whole
      next => cases whole
      next found =>
        have digits := all_digits rest (by simp only [length_cons] at whole; omega)
        rw [takeWhile_eq_self_iff.mpr digits] at found ⊢
        exact ⟨rest, ⟨found, digits⟩, if_neg found ▸ .minus⟩
    by_cases plus : c = 43
    · subst plus
      rw [strtol_plus] at whole ⊢
      split at whole
      next => cases whole
      next found =>
        have digits := all_digits rest (by simp only [length_cons] at whole; omega)
        rw [takeWhile_eq_self_iff.mpr digits] at found ⊢
        exact ⟨rest, ⟨found, digits⟩, if_neg found ▸ .plus⟩
    · rw [strtol_bare bare minus plus] at whole ⊢
      split at whole
      next => cases whole
      next found =>
        have digits := all_digits (c :: rest) whole
        rw [takeWhile_eq_self_iff.mpr digits] at found ⊢
        exact ⟨c :: rest, ⟨found, digits⟩, if_neg found ▸ .unsigned⟩

theorem stringToNumber_iff {least greatest : Int} (ordered : least ≤ greatest)
    {n : Int} : stringToNumber least greatest input = (n, true) ↔
      least ≤ n ∧ n ≤ greatest ∧ ∃ digits, IsDigits digits ∧ Signed digits input n := by
  constructor
  · intro read
    simp only [stringToNumber, Prod.mk.injEq, and_eq_true, decide_eq_true_eq, not_eq_true'] at read
    obtain ⟨value, ⟨⟨⟨same, some_input⟩, whole⟩, bare⟩⟩ := read
    have signed := signed_of_strtol whole some_input bare
    rw [← same, value] at signed
    exact ⟨by omega, by omega, signed⟩
  · rintro ⟨low, high, digits, number, signed⟩
    obtain ⟨read, some_input, bare⟩ := strtol_signed number signed
    have inside : max least (min greatest n) = n := by omega
    simp [stringToNumber, read, inside, some_input, bare]

end Numbers

end Glopen.Base
