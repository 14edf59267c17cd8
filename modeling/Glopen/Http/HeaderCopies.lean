import Glopen.Http.HttpResponseHeaders

/-! Headers of http_response_headers.cc that are copied as raw text and parsed again. -/
namespace Glopen.Http

open Base List Option
variable {span : Span} {token : Token} {skipped text rest line : RawText} {its : HeaderLine}

section Spans

variable {t : StringTokenizer}

theorem spansFrom_text (t : StringTokenizer) (fuel : Nat) (span : Span) :
    (spansFrom t fuel span).map Span.text = (t.tokensFrom fuel span.text).map Token.text := by
  induction fuel generalizing span with
  | zero => rfl
  | succ fuel ih =>
    rw [spansFrom, StringTokenizer.tokensFrom]
    cases t.getNext span.text with
    | none => rfl
    | some read =>
      obtain ⟨token, behind⟩ := read
      rw [map_cons, map_cons, ih]

theorem spans_text (t : StringTokenizer) (span : Span) :
    (spans t span).map Span.text = (t.tokens span.text).map Token.text := spansFrom_text ..

theorem spansFrom_enough {fuel more : Nat} (enough : span.text.length ≤ fuel) (larger : fuel ≤ more) :
    spansFrom t more span = spansFrom t fuel span := by
  induction fuel generalizing span more with
  | zero =>
    obtain ⟨start, text⟩ := span
    cases eq_nil_of_length_eq_zero (Nat.le_zero.mp enough)
    cases more with
    | zero => rfl
    | succ more =>
      have none : t.getNext [] = none := by
        unfold StringTokenizer.getNext
        split <;> rfl
      simp only [spansFrom, none]
  | succ fuel ih =>
    cases more with
    | zero => cases larger
    | succ more =>
      rw [spansFrom, spansFrom]
      cases found : t.getNext span.text with
      | none => rfl
      | some read =>
        obtain ⟨token, behind⟩ := read
        have shorter := getNext_shorter found
        have next : ∀ start, spansFrom t more ⟨start, behind⟩ = spansFrom t fuel ⟨start, behind⟩ :=
          fun start => ih (Nat.le_of_lt_succ (shorter.trans_le enough)) (by omega)
        simp only [next]

theorem spans_none (none : t.getNext span.text = none) : spans t span = [] := by
  rw [spans]
  cases span.text.length with
  | zero => rfl
  | succ fuel => rw [spansFrom, none]

theorem spans_some {behind : RawText} (found : t.getNext span.text = some (token, behind))
    (split : span.text = skipped ++ token.text ++ behind) :
    spans t span = ⟨span.start + skipped.length, token.text⟩ ::
      spans t ⟨span.start + skipped.length + token.text.length, behind⟩ := by
  have shorter := getNext_shorter found
  have size := congrArg List.length split
  rw [length_append, length_append] at size
  have tokenEnd : span.stop - behind.length = span.start + skipped.length + token.text.length := by
    rw [Span.stop]
    omega
  rw [spans]
  cases fuel : span.text.length with
  | zero => omega
  | succ fuel =>
    rw [spansFrom, found]
    simp only [tokenEnd, Nat.add_sub_cancel]
    rw [spans, spansFrom_enough le_rfl (by simp only; omega)]

theorem spans_inside {token : Span} (member : token ∈ spans t span) :
    ∃ before behind, span.text = before ++ token.text ++ behind ∧ token.start = span.start + before.length := by
  induction size : span.text.length using Nat.strongRecOn generalizing span with
  | _ n ih =>
    cases found : t.getNext span.text with
    | none =>
      rw [spans_none found] at member
      cases member
    | some read =>
      obtain ⟨first, rest⟩ := read
      obtain ⟨skipped, split⟩ := getNext_split found
      rw [spans_some found split, mem_cons] at member
      rcases member with rfl | later
      · exact ⟨skipped, rest, split, rfl⟩
      · obtain ⟨before, behind, inside, start⟩ := ih _ (size ▸ getNext_shorter found) later rfl
        have inside : rest = before ++ token.text ++ behind := inside
        refine ⟨skipped ++ first.text ++ before, behind, ?_, ?_⟩
        · rw [split, inside]
          simp
        · rw [start]
          simp [Nat.add_assoc]

end Spans

section Values

theorem valueSpans_text (span : Span) : (valueSpans span).map Span.text = values span.text 44 := by
  have trimmed : ∀ list : List Span, ((list.map Span.trimLWS).filter (·.text ≠ [])).map Span.text =
      ((list.map Span.text).map trimLWS).filter (· ≠ []) := by
    intro list
    rw [List.map_map, List.filter_map, List.filter_map, List.map_map]
    rfl
  rw [valueSpans, trimmed, spans_text, values, List.map_map]
  rfl

theorem trimLWS_split (text : RawText) : text =
    text.takeWhile isLWS ++ trimLWS text ++ (text.dropWhile isLWS).rtakeWhile isLWS := by
  rw [append_assoc, trimLWS, rdropWhile_append_rtakeWhile, takeWhile_append_dropWhile]

theorem trimLWS_lead (text rest : RawText) : trimLWS (text.takeWhile isLWS ++ rest) = trimLWS rest := by
  have white : White (text.takeWhile isLWS) := fun c taken => mem_takeWhile_imp taken
  rw [← append_nil (_ ++ _), trimLWS_around white (by simp [White])]

theorem trimLWS_trimLWS (text : RawText) : trimLWS (trimLWS text) = trimLWS text := by
  have white : White (text.takeWhile isLWS) := fun c taken => mem_takeWhile_imp taken
  have behind : White ((text.dropWhile isLWS).rtakeWhile isLWS) := fun c taken =>
    mem_rtakeWhile_imp taken
  conv_rhs => rw [trimLWS_split text, trimLWS_around white behind]

theorem take_lead (text : RawText) {k : Nat} (short : k ≤ (trimLWS text).length) :
    text.take ((text.takeWhile isLWS).length + k) = text.takeWhile isLWS ++ (trimLWS text).take k := by
  have parts := trimLWS_split text
  generalize text.takeWhile isLWS = lead at parts ⊢
  generalize trimLWS text = middle at parts short ⊢
  rw [parts, append_assoc, take_length_add_append, take_append_of_le_length short]

theorem lead_length (text : RawText) : (text.takeWhile isLWS).length + (trimLWS text).length ≤ text.length := by
  have size := congrArg List.length (trimLWS_split text)
  simp only [length_append] at size
  omega

variable {c : UInt8}

theorem trimLWS_first (first : trimLWS text = c :: rest) : isLWS c = false := by
  obtain ⟨behind, whole⟩ := rdropWhile_prefix isLWS (text.dropWhile isLWS)
  rw [← trimLWS, first] at whole
  have stopped := List.head?_dropWhile_not isLWS text
  rw [← whole] at stopped
  simpa using stopped

theorem trimLWS_self {front : RawText} {d : UInt8} (first : text = c :: rest)
    (last : text = front ++ [d]) (black_first : isLWS c = false) (black_last : isLWS d = false) :
    trimLWS text = text := by
  have whole : text.dropWhile isLWS = text := by
    rw [first, dropWhile_cons_of_neg (by simp [black_first])]
  rw [trimLWS, whole]
  conv_lhs => rw [last]
  rw [rdropWhile_concat_neg _ _ _ (by simp [black_last]), last]

theorem trimLWS_last (some_left : trimLWS text ≠ []) :
    ∃ front c, trimLWS text = front ++ [c] ∧ isLWS c = false :=
  ⟨_, _, (dropLast_append_getLast some_left).symm,
    Bool.eq_false_iff.mpr (rdropWhile_last_not isLWS (text.dropWhile isLWS) some_left)⟩

theorem values_some {behind : RawText} (found : (valuesTokenizer 44).getNext text = some (token, behind)) :
    values text 44 = [trimLWS token.text].filter (· ≠ []) ++ values behind 44 := by
  rw [values, tokens_some found, map_cons, ← singleton_append, filter_append]
  rfl

theorem valueSpans_some {behind : RawText}
    (found : (valuesTokenizer 44).getNext span.text = some (token, behind))
    (split : span.text = skipped ++ token.text ++ behind) :
    valueSpans span = [Span.trimLWS ⟨span.start + skipped.length, token.text⟩].filter (·.text ≠ []) ++
      valueSpans ⟨span.start + skipped.length + token.text.length, behind⟩ := by
  rw [valueSpans, spans_some found split, map_cons, ← singleton_append, filter_append]
  rfl

theorem valueSpans_cut {span : Span} (some_values : valueSpans span ≠ []) :
    ∃ k, 0 < k ∧ k ≤ span.text.length ∧ (∀ last ∈ (valueSpans span).getLast?, last.stop = span.start + k) ∧
      values (span.text.take k) 44 = values span.text 44 ∧
      ∃ front c, span.text.take k = front ++ [c] ∧ isLWS c = false := by
  induction size : span.text.length using Nat.strongRecOn generalizing span with
  | _ n ih =>
    cases found : (valuesTokenizer 44).getNext span.text with
    | none => exact absurd (by rw [valueSpans, spans_none found]; rfl) some_values
    | some read =>
      obtain ⟨token, behind⟩ := read
      obtain ⟨skipped, split, cut⟩ := getNext_take (by simp [valuesTokenizer]) rfl found
      have lengths := congrArg List.length split
      rw [length_append, length_append] at lengths
      have taken : ∀ m, span.text.take (skipped.length + m) = skipped ++ (token.text ++ behind).take m := by
        intro m
        rw [split, append_assoc, take_length_add_append]
      have spans := valueSpans_some found split
      by_cases none_behind : valueSpans ⟨span.start + skipped.length + token.text.length, behind⟩ = []
      · -- the token is the last that is not blank
        have some_left : trimLWS token.text ≠ [] := by
          intro blank
          rw [spans, none_behind, append_nil] at some_values
          exact some_values (by simp [Span.trimLWS, blank])
        let m := (token.text.takeWhile isLWS).length + (trimLWS token.text).length
        have within : token.text.take m = token.text.takeWhile isLWS ++ trimLWS token.text := by
          rw [take_lead _ le_rfl, take_length]
        have short : m ≤ token.text.length := lead_length token.text
        have positive : 0 < m := by
          have := length_pos_iff.mpr some_left
          omega
        have reads := cut m positive
        have none_left : values behind 44 = [] := by
          rw [← valueSpans_text ⟨span.start + skipped.length + token.text.length, behind⟩, none_behind]
          rfl
        have same : trimLWS (token.text.take m) = trimLWS token.text := by
          rw [within, trimLWS_lead, trimLWS_trimLWS]
        refine ⟨skipped.length + m, by omega, by omega, ?_, ?_, ?_⟩
        · intro its its_last
          have only : valueSpans span = [Span.trimLWS ⟨span.start + skipped.length, token.text⟩] := by
            rw [spans, none_behind, append_nil]
            simp [Span.trimLWS, some_left]
          rw [only, List.getLast?_singleton] at its_last
          cases its_last
          simp only [Span.stop, Span.trimLWS, m]
          omega
        · rw [taken, values_some reads, values_some found, same, none_left,
            Nat.sub_eq_zero_of_le short, take_zero]
          rfl
        · obtain ⟨front, c, last, black⟩ := trimLWS_last some_left
          refine ⟨skipped ++ token.text.takeWhile isLWS ++ front, c, ?_, black⟩
          rw [taken, take_append_of_le_length short, within, last]
          simp
      · obtain ⟨k, positive, short, stop, same, front, c, last, black⟩ :=
          ih _ (size ▸ getNext_shorter found) none_behind rfl
        have reads := cut (token.text.length + k) (by omega)
        have whole : token.text.take (token.text.length + k) = token.text :=
          take_of_length_le (by omega)
        rw [whole, Nat.add_sub_cancel_left] at reads
        refine ⟨skipped.length + (token.text.length + k), by omega, ?_, ?_, ?_, ?_⟩
        · simp only at short
          omega
        · intro its its_last
          rw [spans, List.getLast?_append] at its_last
          obtain ⟨later, last_later⟩ := ne_none_iff_exists'.mp (mt List.getLast?_eq_none_iff.mp none_behind)
          rw [last_later, some_or] at its_last
          have its_stop := stop its (last_later.trans its_last)
          rw [its_stop]
          simp only
          omega
        · rw [taken, values_some reads, values_some found, same]
        · refine ⟨skipped ++ token.text ++ front, c, ?_, black⟩
          rw [taken, take_length_add_append]
          simp only at last
          rw [last]
          simp

end Values

section Fields

structure Field where
  name : RawText
  values : List RawText
deriving DecidableEq

def fieldValues (name value : RawText) : List RawText :=
  if value = [] || isNonCoalescingHeader name then [value] else values value 44

def field (line : RawText) : Option Field :=
  let name := line.takeWhile (· ≠ 58)
  if name.length = line.length then none
  else if name = [] || name.head?.any isLWS then none
  else
    let values := fieldValues (trimLWS name) (trimLWS (line.drop (name.length + 1)))
    if values = [] then none else some ⟨trimLWS name, values⟩

def HeaderLine.field (line : HeaderLine) : Field :=
  ⟨line.name.text, line.value.text :: line.more.map Span.text⟩

def fieldSpans (name values : Span) : List Span :=
  if values.text = [] || isNonCoalescingHeader name.text then [values] else valueSpans values

def headerLine (line : Span) : Option HeaderLine :=
  (headerSpans line).bind fun (name, values) =>
    match fieldSpans name values with
    | [] => none
    | first :: rest => some ⟨name, first, rest⟩

def HeaderLine.block (rawEnd : Nat) (line : HeaderLine) : List ParsedHeader :=
  ⟨line.name, line.value⟩ :: line.more.map fun value => ⟨⟨rawEnd, []⟩, value⟩

structure Named (line name rest : RawText) : Prop where
  cut : line = name ++ 58 :: rest
  first_colon : ∀ c ∈ name, c ≠ 58
  black : ∃ c name', name = c :: name' ∧ isLWS c = false

variable {name : RawText}

section

variable (named : Named line name rest)
include named

theorem Named.before : line.takeWhile (· ≠ 58) = name := by
  rw [named.cut, takeWhile_append_of_pos fun c here => decide_eq_true (named.first_colon c here)]
  simp

theorem Named.behind : line.drop (name.length + 1) = rest := by
  rw [named.cut, drop_append]
  simp

theorem Named.trimmed : trimLWS name ≠ [] := by
  obtain ⟨c, name', rfl, black⟩ := named.black
  intro blank
  rw [trimLWS_eq_nil_iff.mp blank c (mem_cons_self ..)] at black
  cases black

theorem Named.field_eq : field line = if fieldValues (trimLWS name) (trimLWS rest) = [] then none
    else some ⟨trimLWS name, fieldValues (trimLWS name) (trimLWS rest)⟩ := by
  obtain ⟨c, name', first, black⟩ := named.black
  have shorter : name.length ≠ line.length := by simp [named.cut]
  have begins : ¬ (decide (name = []) || name.head?.any isLWS) = true := by simp [first, black]
  rw [field]
  simp only [named.before, named.behind]
  rw [if_neg shorter, if_neg begins]

end

theorem named_of (shorter : (line.takeWhile (· ≠ 58)).length ≠ line.length)
    (begins : ¬ (decide (line.takeWhile (· ≠ 58) = []) || (line.takeWhile (· ≠ 58)).head?.any isLWS) = true) :
    Named line (line.takeWhile (· ≠ 58)) (line.drop ((line.takeWhile (· ≠ 58)).length + 1)) := by
  have whole := takeWhile_append_dropWhile (p := (· ≠ 58)) (l := line)
  have stopped := List.head?_dropWhile_not (· ≠ 58) line
  have inside : ∀ c ∈ line.takeWhile (· ≠ 58), c ≠ 58 := fun c here => by
    simpa using mem_takeWhile_imp here
  generalize line.takeWhile (· ≠ 58) = name at shorter begins whole inside ⊢
  cases behind : line.dropWhile (· ≠ 58) with
  | nil =>
    rw [behind, append_nil] at whole
    exact absurd (congrArg List.length whole) shorter
  | cons c rest =>
    rw [behind] at whole stopped
    have colon : c = 58 := by simpa using stopped
    have cut : line = name ++ 58 :: rest := by rw [← whole, colon]
    have rest_eq : line.drop (name.length + 1) = rest := by
      rw [cut, drop_append]
      simp
    rw [rest_eq]
    refine ⟨cut, inside, ?_⟩
    cases name with
    | nil => simp at begins
    | cons d name => exact ⟨d, name, rfl, by simpa using begins⟩

theorem headerSpans_some {nameSpan valuesSpan : Span}
    (found : headerSpans span = some (nameSpan, valuesSpan)) : ∃ name rest,
      Named span.text name rest ∧ nameSpan = Span.trimLWS ⟨span.start, name⟩ ∧
        valuesSpan = Span.trimLWS ⟨span.start + name.length + 1, rest⟩ := by
  rw [headerSpans] at found
  simp only at found
  split at found
  · cases found
  · rename_i shorter
    split at found
    · cases found
    · rename_i begins
      split at found
      · cases found
      · cases found
        exact ⟨_, _, named_of shorter begins, rfl, rfl⟩

theorem headerSpans_none (absent : headerSpans span = none) : field span.text = none := by
  rw [headerSpans] at absent
  rw [field]
  simp only at absent ⊢
  split at absent
  · rename_i whole
    rw [if_pos whole]
  · rename_i shorter
    split at absent
    · rename_i begins
      rw [if_neg shorter, if_pos begins]
    · rename_i begins
      split at absent
      · rename_i blank
        exact absurd blank (named_of shorter begins).trimmed
      · cases absent

theorem fieldSpans_text (name values : Span) :
    (fieldSpans name values).map Span.text = fieldValues name.text values.text := by
  rw [fieldSpans, fieldValues]
  split
  · rfl
  · exact valueSpans_text values

theorem headerLine_field (span : Span) : (headerLine span).map HeaderLine.field = field span.text := by
  rw [headerLine]
  cases found : headerSpans span with
  | none => exact (headerSpans_none found).symm
  | some spans =>
    obtain ⟨nameSpan, valuesSpan⟩ := spans
    obtain ⟨name, rest, named, rfl, rfl⟩ := headerSpans_some found
    have texts := fieldSpans_text (Span.trimLWS ⟨span.start, name⟩)
      (Span.trimLWS ⟨span.start + name.length + 1, rest⟩)
    have its_values : fieldValues (trimLWS name) (trimLWS rest) = _ := texts.symm
    rw [named.field_eq, bind_some, its_values]
    simp only
    cases fieldSpans (Span.trimLWS ⟨span.start, name⟩)
      (Span.trimLWS ⟨span.start + name.length + 1, rest⟩) with
    | nil => rfl
    | cons first more => rfl

structure Cut (line : Span) (its : HeaderLine) (n : Nat) : Prop where
  start : its.name.start = line.start
  stop : its.valueEnd = line.start + n
  positive : 0 < n
  within : n ≤ line.text.length
  same : field (line.text.take n) = field line.text

theorem headerLine_cut (found : headerLine span = some its) : ∃ n, Cut span its n := by
  rw [headerLine] at found
  obtain ⟨⟨nameSpan, valuesSpan⟩, spans, found⟩ := bind_eq_some_iff.mp found
  obtain ⟨name, rest, named, rfl, rfl⟩ := headerSpans_some spans
  obtain ⟨c, name', first_name, black_name⟩ := named.black
  let lead := rest.takeWhile isLWS
  have lead_eq : (rest.takeWhile isLWS).length = lead.length := rfl
  have no_lead : (Span.trimLWS ⟨span.start, name⟩).start = span.start := by
    simp [Span.trimLWS, first_name, black_name]
  have size := congrArg List.length named.cut
  have lead_size := lead_length rest
  simp only [length_append, length_cons] at size
  -- the line up to a part of its trimmed value
  have cut : ∀ k, k ≤ (trimLWS rest).length →
      Named (span.text.take (name.length + 1 + lead.length + k)) name (lead ++ (trimLWS rest).take k) := by
    intro k short
    refine ⟨?_, named.first_colon, named.black⟩
    rw [named.cut, ← take_lead rest short, Nat.add_assoc, Nat.add_assoc, take_length_add_append,
      Nat.add_comm 1, take_succ_cons]
  simp only at found
  cases spans_eq : fieldSpans (Span.trimLWS ⟨span.start, name⟩)
      (Span.trimLWS ⟨span.start + name.length + 1, rest⟩) with
  | nil =>
    rw [spans_eq] at found
    cases found
  | cons first more =>
    rw [spans_eq] at found
    cases found
    rw [fieldSpans] at spans_eq
    split at spans_eq
    · cases spans_eq
      have whole := cut (trimLWS rest).length le_rfl
      rw [take_length] at whole
      refine ⟨name.length + 1 + lead.length + (trimLWS rest).length, no_lead, ?_, by omega, by omega, ?_⟩
      · simp only [HeaderLine.valueEnd, getLastD_nil, Span.stop, Span.trimLWS]
        omega
      · rw [whole.field_eq, named.field_eq, trimLWS_lead, trimLWS_trimLWS]
    · rename_i splits
      obtain ⟨k, positive, short, stop, same, front, d, last, black⟩ :=
        @valueSpans_cut (Span.trimLWS ⟨span.start + name.length + 1, rest⟩) (by simp [spans_eq])
      have short : k ≤ (trimLWS rest).length := short
      have same : values ((trimLWS rest).take k) 44 = values (trimLWS rest) 44 := same
      have last : (trimLWS rest).take k = front ++ [d] := last
      have part := cut k short
      obtain ⟨c, value, first_value⟩ := exists_cons_of_length_pos (positive.trans_le short)
      have begins : (trimLWS rest).take k = c :: value.take (k - 1) := by
        rw [first_value, take_cons positive]
      have trimmed : trimLWS ((trimLWS rest).take k) = (trimLWS rest).take k :=
        trimLWS_self begins last (trimLWS_first first_value) black
      rw [Bool.not_eq_true, Bool.or_eq_false_iff] at splits
      have not_single : isNonCoalescingHeader (trimLWS name) = false := splits.2
      have same_values : fieldValues (trimLWS name) ((trimLWS rest).take k) =
          fieldValues (trimLWS name) (trimLWS rest) := by
        rw [fieldValues, fieldValues, same, begins, first_value, not_single]
        simp
      refine ⟨name.length + 1 + lead.length + k, no_lead, ?_, by omega, by omega, ?_⟩
      · have stops := stop (more.getLastD first) (by
          rw [spans_eq, List.getLast?_cons, List.getLastD_eq_getLast?]
          rfl)
        rw [HeaderLine.valueEnd, stops]
        simp only [Span.trimLWS]
        omega
      · rw [part.field_eq, named.field_eq, trimLWS_lead, trimmed, same_values]

end Fields

section Lines

variable {headers : HttpResponseHeaders} {list : List HeaderLine}
variable {rawEnd : Nat}

theorem headerLine_name (found : headerLine span = some its) : its.name.text ≠ [] := by
  rw [headerLine] at found
  obtain ⟨⟨nameSpan, valuesSpan⟩, spans, found⟩ := bind_eq_some_iff.mp found
  obtain ⟨name, rest, named, rfl, rfl⟩ := headerSpans_some spans
  simp only at found
  split at found
  · cases found
  · cases found
    exact named.trimmed

theorem addHeader_block (span : Span) :
    ((headerSpans span).elim [] fun (name, values) => addHeader rawEnd name values) =
      (headerLine span).elim [] (HeaderLine.block rawEnd) := by
  rw [headerLine]
  cases headerSpans span with
  | none => rfl
  | some spans =>
    obtain ⟨name, values⟩ := spans
    simp only [elim_some, bind_some]
    rw [addHeader, fieldSpans]
    split
    · rfl
    · cases valueSpans values <;> rfl

theorem parseLines_blocks (headers : Span) : parseLines rawEnd headers =
    ((spans linesTokenizer headers).filterMap headerLine).flatMap (HeaderLine.block rawEnd) := by
  rw [parseLines]
  simp only [addHeader_block]
  induction spans linesTokenizer headers with
  | nil => rfl
  | cons span list ih =>
    rw [flatMap_cons, filterMap_cons, ih]
    cases headerLine span <;> rfl

theorem headerLinesFrom_more (line : HeaderLine) (more : List Span) (rest : List ParsedHeader) :
    headerLinesFrom line (more.map (fun value => ⟨⟨rawEnd, []⟩, value⟩) ++ rest) =
      headerLinesFrom { line with more := line.more ++ more } rest := by
  induction more generalizing line with
  | nil => simp
  | cons value more ih =>
    rw [map_cons, cons_append, headerLinesFrom, if_pos (by simp [ParsedHeader.isContinuation]), ih, append_assoc]
    rfl

theorem headerLinesFrom_blocks (line : HeaderLine) (named : ∀ its ∈ list, its.name.text ≠ []) :
    headerLinesFrom line (list.flatMap (HeaderLine.block rawEnd)) = line :: list := by
  induction list generalizing line with
  | nil => rfl
  | cons its list ih =>
    rw [forall_mem_cons] at named
    rw [flatMap_cons, HeaderLine.block, cons_append, headerLinesFrom,
      if_neg (by simp [ParsedHeader.isContinuation, named.1]), headerLinesFrom_more, ih _ named.2]
    rfl

theorem headerLines_blocks (named : ∀ its ∈ list, its.name.text ≠ []) :
    headerLines (list.flatMap (HeaderLine.block rawEnd)) = list := by
  cases list with
  | nil => rfl
  | cons its list =>
    rw [forall_mem_cons] at named
    rw [flatMap_cons, HeaderLine.block, cons_append, headerLines, headerLinesFrom_more,
      headerLinesFrom_blocks _ named.2]
    rfl

def nulLines (text : RawText) : List RawText := (text.splitOnP (· = 0)).filter (· ≠ [])

def fields (text : RawText) : List Field := (nulLines text).filterMap field

theorem spans_lines (span : Span) : (spans linesTokenizer span).map Span.text = nulLines span.text := by
  rw [spans_text, tokens_splitOnP rfl _ (by simp [linesTokenizer]), nulLines]
  simp [linesTokenizer]

theorem nulLines_append (text rest : RawText) :
    nulLines (text ++ 0 :: rest) = nulLines text ++ nulLines rest := by
  rw [nulLines, splitOnP_append_cons _ _ (by simp), filter_append]
  rfl

theorem nulLines_line (some_line : line ≠ []) (no_nul : ∀ c ∈ line, c ≠ 0) : nulLines line = [line] := by
  rw [nulLines, splitOnP_eq_singleton fun c here => decide_eq_false (no_nul c here)]
  simp [some_line]

theorem splitOnP_free {p : UInt8 → Bool} {piece : RawText} (member : piece ∈ text.splitOnP p) :
    ∀ c ∈ piece, p c = false := by
  induction text generalizing piece with
  | nil =>
    rw [splitOnP_nil, mem_singleton] at member
    simp [member]
  | cons d text ih =>
    obtain ⟨first, rest, split⟩ := exists_cons_of_ne_nil (splitOnP_ne_nil p text)
    rw [splitOnP_cons_eq_if_modifyHead] at member
    cases sep : p d with
    | true =>
      rw [sep, if_pos (by rfl), mem_cons] at member
      rcases member with rfl | later
      · simp
      · exact ih later
    | false =>
      rw [split] at ih
      rw [sep, if_neg Bool.false_ne_true, split, modifyHead_cons, mem_cons] at member
      rcases member with rfl | later
      · exact forall_mem_cons.mpr ⟨sep, ih mem_cons_self⟩
      · exact ih (mem_cons_of_mem _ later)

def IsLine (line : RawText) : Prop := line ≠ [] ∧ ∀ c ∈ line, c ≠ 0

theorem mem_nulLines {text line : RawText} (member : line ∈ nulLines text) : IsLine line := by
  rw [nulLines, mem_filter, decide_eq_true_eq] at member
  exact ⟨member.2, fun c here => of_decide_eq_false (splitOnP_free member.1 c here)⟩

theorem fields_append (text rest : RawText) : fields (text ++ 0 :: rest) = fields text ++ fields rest := by
  rw [fields, nulLines_append, filterMap_append]
  rfl

theorem fields_line (is_line : IsLine line) : fields line = (field line).toList := by
  rw [fields, nulLines_line is_line.1 is_line.2, filterMap_cons]
  cases field line <;> rfl

/-- An object as it is built by the parser: the headers of the lines of a text, with where they are. -/
structure Parsed (headers : HttpResponseHeaders) (text : RawText) : Prop where
  blocks : ∃ rawEnd, headers.parsed = headers.lines.flatMap (HeaderLine.block rawEnd)
  named : ∀ line ∈ headers.lines, line.name.text ≠ []
  fields_eq : headers.lines.map HeaderLine.field = fields text
  copied : ∀ line ∈ headers.lines, ∃ piece, headers.copy line = piece ++ [0] ∧ IsLine piece ∧
    field piece = some line.field

theorem slice_line (before line behind : RawText) {n : Nat} (within : n ≤ line.length) :
    slice (before ++ line ++ behind) before.length (before.length + n) = line.take n := by
  rw [slice, append_assoc, take_length_add_append, drop_left, take_append_of_le_length within]

theorem parsed_of {start : Nat} {before : RawText}
    (raw : headers.rawHeaders = before ++ text) (size : start = before.length)
    (parsed : headers.parsed = parseLines headers.rawHeaders.length ⟨start, text⟩) : Parsed headers text := by
  let list := (spans linesTokenizer ⟨start, text⟩).filterMap headerLine
  have named : ∀ line ∈ list, line.name.text ≠ [] := by
    intro line member
    obtain ⟨span, -, found⟩ := mem_filterMap.mp member
    exact headerLine_name found
  have blocks : headers.parsed = list.flatMap (HeaderLine.block headers.rawHeaders.length) :=
    parsed.trans (parseLines_blocks _)
  have lines : headers.lines = list := by
    rw [HttpResponseHeaders.lines, blocks, headerLines_blocks named]
  refine ⟨⟨_, by rw [lines]; exact blocks⟩, by rw [lines]; exact named, ?_, fun line member => ?_⟩
  · rw [lines, fields, ← spans_lines ⟨start, text⟩, filterMap_map, map_filterMap]
    simp only [headerLine_field, Function.comp_def]
  · rw [lines] at member
    obtain ⟨span, inside, found⟩ := mem_filterMap.mp member
    obtain ⟨n, cut⟩ := headerLine_cut found
    obtain ⟨front, behind, split, its_start⟩ := spans_inside inside
    have split : text = front ++ span.text ++ behind := split
    have its_line : IsLine span.text := by
      refine @mem_nulLines text _ ?_
      rw [← spans_lines ⟨start, text⟩]
      exact List.mem_map_of_mem inside
    have copy : headers.copy line = span.text.take n ++ [0] := by
      have at_start : span.start = (before ++ front).length := by
        rw [its_start, size, length_append]
      rw [HttpResponseHeaders.copy, cut.start, cut.stop, raw, split, ← append_assoc,
        ← append_assoc, at_start, slice_line _ _ _ cut.within]
    refine ⟨_, copy, ⟨?_, fun c here => its_line.2 c (mem_of_mem_take here)⟩, ?_⟩
    · have size := cut.positive
      rw [Ne, take_eq_nil_iff]
      exact fun either => either.elim (fun zero => by omega) its_line.1
    · rw [cut.same, ← headerLine_field, found]
      rfl

theorem Parsed.copies (its : Parsed headers text)
    (members : ∀ line ∈ list, line ∈ headers.lines) (rest : RawText) :
    fields (list.flatMap headers.copy ++ rest) = list.map HeaderLine.field ++ fields rest := by
  induction list with
  | nil => rfl
  | cons line list ih =>
    rw [forall_mem_cons] at members
    obtain ⟨piece, copy, is_line, same⟩ := its.copied line members.1
    rw [flatMap_cons, copy, append_assoc, append_assoc, singleton_append, fields_append,
      fields_line is_line, same, ih members.2]
    rfl

end Lines

end Glopen.Http
