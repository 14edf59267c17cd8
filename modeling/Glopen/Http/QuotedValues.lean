import Glopen.Http.HttpUtil

/-! `Quote` and `Unquote` of http_util.cc, and lists of quoted values. -/
namespace Glopen.Http

open Base List StringTokenizer

def isQuote (c : UInt8) : Bool := c = 34 || c = 39

/-- The loop of `Unquote`. -/
def unescape : Bool → RawText → RawText
  | _, [] => []
  | prevEscape, c :: rest => if c = 92 && !prevEscape then unescape true rest else c :: unescape false rest

def unquote (text : RawText) : RawText :=
  match text with
  | [] => []
  | c :: rest =>
    if !isQuote c then text
    else if text.length < 2 || some c ≠ text.getLast? then text
    else unescape false rest.dropLast

/-- The loop of `Quote`. -/
def escaped (text : RawText) : RawText := text.flatMap fun c => if c = 34 || c = 92 then [92, c] else [c]

def quote (text : RawText) : RawText := 34 :: escaped text ++ [34]

section Quoted

variable {t : StringTokenizer} {state next last : AdvanceState} {word more text : RawText}

/-- The tokenizer goes over the whole word, to the state `next`. -/
def Passes (t : StringTokenizer) (state : AdvanceState) (word : RawText) (next : AdvanceState) : Prop :=
  ∀ rest, t.advance state (word ++ rest) = (word ++ (t.advance next rest).1, (t.advance next rest).2)

theorem Passes.nil : Passes t state [] state := fun _ => rfl

theorem Passes.cons {c : UInt8} (one : t.advanceOne state c = some next) (passes : Passes t next word last) :
    Passes t state (c :: word) last := by
  intro rest
  rw [cons_append, StringTokenizer.advance, one]
  simp only [passes rest, cons_append]

theorem Passes.append (first : Passes t state word next) (second : Passes t next more last) :
    Passes t state (word ++ more) last := by
  intro rest
  rw [append_assoc, first, second]
  simp only [append_assoc]

theorem white_passes (outside : state.inQuote = false) (white : White word) :
    ∃ next, next.inQuote = false ∧ next.inEscape = state.inEscape ∧
      Passes (valuesTokenizer 44) state word next := by
  induction word generalizing state with
  | nil => exact ⟨state, outside, rfl, .nil⟩
  | cons c word ih =>
    rw [White, forall_mem_cons] at white
    have plain : c ≠ 44 ∧ c ≠ 39 ∧ c ≠ 34 := by
      refine ⟨?_, ?_, ?_⟩ <;> rintro rfl <;> exact absurd white.1 (by decide)
    have one : (valuesTokenizer 44).advanceOne state c = some ⟨false, state.inEscape, c⟩ := by
      simp [advanceOne, valuesTokenizer, outside, plain]
    obtain ⟨next, out, escape, passes⟩ := @ih ⟨false, state.inEscape, c⟩ rfl white.2
    exact ⟨next, out, escape, passes.cons one⟩

theorem escaped_passes (text : RawText) :
    Passes (valuesTokenizer 44) ⟨true, false, 34⟩ (escaped text) ⟨true, false, 34⟩ := by
  induction text with
  | nil => exact .nil
  | cons c text ih =>
    rw [escaped, flatMap_cons, ← escaped]
    refine Passes.append ?_ ih
    split
    · have slash : (valuesTokenizer 44).advanceOne ⟨true, false, 34⟩ 92 = some ⟨true, true, 34⟩ := rfl
      have behind : (valuesTokenizer 44).advanceOne ⟨true, true, 34⟩ c = some ⟨true, false, 34⟩ := rfl
      exact .cons slash (.cons behind .nil)
    · rename_i plain
      rw [Bool.or_eq_true, decide_eq_true_eq, decide_eq_true_eq, not_or] at plain
      have one : (valuesTokenizer 44).advanceOne ⟨true, false, 34⟩ c = some ⟨true, false, 34⟩ := by
        simp [advanceOne, plain]
      exact .cons one .nil

theorem quote_passes (outside : state.inQuote = false) (unescaped : state.inEscape = false)
    (text : RawText) : Passes (valuesTokenizer 44) state (quote text) ⟨false, false, 34⟩ := by
  have opens : (valuesTokenizer 44).advanceOne state 34 = some ⟨true, false, 34⟩ := by
    simp [advanceOne, valuesTokenizer, outside, unescaped]
  have closes : (valuesTokenizer 44).advanceOne ⟨true, false, 34⟩ 34 = some ⟨false, false, 34⟩ := rfl
  exact .cons opens ((escaped_passes text).append (.cons closes .nil))

theorem padded_passes {before behind : RawText} (whiteBefore : White before) (whiteBehind : White behind)
    (text : RawText) : ∃ next, next.inQuote = false ∧
      Passes (valuesTokenizer 44) .new (before ++ quote text ++ behind) next := by
  obtain ⟨front, outside, escape, first⟩ := @white_passes .new before rfl whiteBefore
  obtain ⟨next, out, -, last⟩ := @white_passes ⟨false, false, 34⟩ behind rfl whiteBehind
  exact ⟨next, out, (first.append (quote_passes outside escape text)).append last⟩

theorem getNext_passes {behind : RawText} (passes : Passes (valuesTokenizer 44) .new word next)
    (outside : next.inQuote = false) (some_word : word ≠ []) (stops : ∀ c ∈ behind.head?, c = 44) :
    (valuesTokenizer 44).getNext (word ++ behind) = some (⟨word, false⟩, behind) := by
  have stop : (valuesTokenizer 44).advance next behind = ([], behind) := by
    cases behind with
    | nil => rfl
    | cons c behind =>
      simp [StringTokenizer.advance, advanceOne, outside, valuesTokenizer, stops c rfl]
  have whole := passes behind
  rw [stop, append_nil] at whole
  obtain ⟨c, rest, rfl⟩ := exists_cons_of_ne_nil some_word
  rw [cons_append, StringTokenizer.advance] at whole
  rw [getNext, if_neg (by decide), cons_append, fullGetNext]
  cases one : (valuesTokenizer 44).advanceOne .new c with
  | none =>
    rw [one] at whole
    cases congrArg Prod.fst whole
  | some state =>
    rw [one] at whole
    obtain ⟨word_eq, behind_eq⟩ := Prod.mk.inj whole
    rw [Option.some.injEq, Prod.mk.injEq, Token.mk.injEq]
    exact ⟨⟨word_eq, rfl⟩, behind_eq⟩

theorem quote_ends (text : RawText) : ∃ body, quote text = 34 :: body ++ [34] := ⟨_, rfl⟩

theorem padded_some (before behind text : RawText) : before ++ quote text ++ behind ≠ [] := by
  obtain ⟨body, quoted⟩ := quote_ends text
  simp [quoted]

theorem trimLWS_quote (text : RawText) : trimLWS (quote text) = quote text := by
  obtain ⟨body, quoted⟩ := quote_ends text
  have front : (quote text).dropWhile isLWS = quote text := by
    rw [quoted]
    rfl
  rw [trimLWS, front, quoted, rdropWhile_concat_neg _ _ _ (by decide)]

theorem unescape_escaped (text : RawText) : unescape false (escaped text) = text := by
  induction text with
  | nil => rfl
  | cons c text ih =>
    rw [escaped, flatMap_cons, ← escaped]
    split
    · rw [cons_append, unescape, if_pos (by rfl), cons_append, unescape, if_neg (by simp)]
      exact congrArg _ ih
    · rename_i plain
      rw [Bool.or_eq_true, decide_eq_true_eq, decide_eq_true_eq, not_or] at plain
      rw [cons_append, unescape, if_neg (by simp [plain.2])]
      exact congrArg _ ih

theorem unquote_quote (text : RawText) : unquote (quote text) = text := by
  have long : ¬ (34 :: (escaped text ++ [34])).length < 2 := by
    simp only [length_cons, length_append, length_nil]
    omega
  have ends : (34 :: (escaped text ++ [34])).getLast? = some 34 := by
    rw [← cons_append, List.getLast?_concat]
  rw [quote, cons_append, unquote, ends, if_neg (by decide), decide_eq_false long, if_neg (by decide),
    dropLast_concat, unescape_escaped]

theorem tokens_quoted {items : List (RawText × RawText × RawText)}
    (white : ∀ item ∈ items, White item.1 ∧ White item.2.2) : (valuesTokenizer 44).tokens
        ([44].intercalate (items.map fun (before, text, behind) => before ++ quote text ++ behind)) =
      items.map fun (before, text, behind) => ⟨before ++ quote text ++ behind, false⟩ := by
  induction items with
  | nil => rfl
  | cons item items ih =>
    rw [forall_mem_cons] at white
    obtain ⟨before, text, behind⟩ := item
    obtain ⟨next, outside, passes⟩ := padded_passes white.1.1 white.1.2 text
    have first := fun rest => @getNext_passes _ _ rest passes outside (padded_some before behind text)
    cases items with
    | nil =>
      have alone := first [] (by simp)
      rw [append_nil] at alone
      simp only [map_cons, map_nil, intercalate_singleton]
      rw [tokens_some alone]
      rfl
    | cons other items =>
      have more := ih white.2
      simp only [map_cons, intercalate_cons_cons] at more ⊢
      rw [append_assoc, singleton_append, tokens_some (first _ (by simp)),
        tokens_skip rfl (by simp [valuesTokenizer]), more]

end Quoted

/-- The values of a list of quoted texts are these, and the quick tokenizer is the general one. -/
theorem quoted_values_round_trip {items : List (RawText × RawText × RawText)}
    (white : ∀ item ∈ items, White item.1 ∧ White item.2.2) :
    let text := [44].intercalate (items.map fun (before, text, behind) => before ++ quote text ++ behind)
    values text 44 = items.map (fun item => quote item.2.1) ∧
      (values text 44).map unquote = items.map (fun item => item.2.1) ∧
      ∀ (t : StringTokenizer) (text : RawText), (∀ c ∈ text, c ∉ t.quotes) → t.returnDelims = false →
        t.quickGetNext text = t.fullGetNext text := by
  have all : values ([44].intercalate
      (items.map fun (before, text, behind) => before ++ quote text ++ behind)) 44 =
        items.map fun item => quote item.2.1 := by
    have trimmed : ∀ item ∈ items, trimLWS (item.1 ++ quote item.2.1 ++ item.2.2) = quote item.2.1 :=
      fun item member => by rw [trimLWS_around (white item member).1 (white item member).2, trimLWS_quote]
    rw [values, tokens_quoted white, List.map_map, List.filter_eq_self.mpr]
    · exact List.map_congr_left trimmed
    · intro value member
      obtain ⟨item, there, rfl⟩ := List.mem_map.mp member
      have its : ((fun token : Token => trimLWS token.text) ∘ fun (before, text, behind) =>
          ⟨before ++ quote text ++ behind, false⟩) item = quote item.2.1 := trimmed item there
      rw [its]
      rfl
  refine ⟨all, ?_, fun t text plain dropped => ?_⟩
  · rw [all, List.map_map]
    exact List.map_congr_left fun item _ => unquote_quote item.2.1
  · induction text with
    | nil => rfl
    | cons c text ih =>
      rw [List.forall_mem_cons] at plain
      by_cases delim : c ∈ t.delims
      · simp [quickGetNext, fullGetNext, advanceOne, AdvanceState.new, delim, dropped, ih plain.2]
      · have outside : (⟨false, false, c⟩ : AdvanceState).inQuote = false := rfl
        simp [quickGetNext, fullGetNext, advanceOne,
          AdvanceState.new, delim, plain.1, advance_plain outside plain.2]

/-- Commas, quotes and a backslash at the end. -/
theorem sample_values_round_trip :
    let text := [44].intercalate ([([32], [97, 44, 34], [9]), ([], [92], [])].map
      fun (before, text, behind) => before ++ quote text ++ behind)
    values text 44 = [quote [97, 44, 34], quote [92]] ∧ (values text 44).map unquote = [[97, 44, 34], [92]] ∧
      ∀ (t : StringTokenizer) (text : RawText), (∀ c ∈ text, c ∉ t.quotes) → t.returnDelims = false →
        t.quickGetNext text = t.fullGetNext text :=
  quoted_values_round_trip (by simp [White, isLWS])

end Glopen.Http
