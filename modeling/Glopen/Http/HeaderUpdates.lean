import Glopen.Http.HeaderCopies

/-! What `Update`, `RemoveHeader` and `AddHeader` of http_response_headers.cc do to the headers and to
the status line. -/
namespace Glopen.Http

open Base List HttpResponseHeaders
variable {name : RawText} {headers : HttpResponseHeaders} {other : RawText} {list : List HeaderLine}
  {text : RawText} {newHeaders : HttpResponseHeaders} {raw newText : RawText}

namespace HttpResponseHeaders

def hasHeader (headers : HttpResponseHeaders) (name : RawText) : Bool := (headers.findHeader 0 name).isSome

def fields (headers : HttpResponseHeaders) : List Field := headers.lines.map HeaderLine.field

end HttpResponseHeaders

def sameName (name other : RawText) : Bool := name.map toLowerASCII = other.map toLowerASCII

def collect (name : RawText) (list : List Field) : List RawText :=
  (list.filter fun field => sameName field.name name).flatMap Field.values

/-- The values that are still to come. `inside` a header of the name, continuations belong to it. -/
def comingValues (name : RawText) : Bool → List ParsedHeader → List RawText
  | _, [] => []
  | inside, header :: rest =>
    if header.isContinuation then
      if inside then header.value.text :: comingValues name true rest else comingValues name false rest
    else if sameName header.name.text name then header.value.text :: comingValues name true rest
    else comingValues name false rest

theorem sameName_iff :
    sameName name other = true ↔ name.map toLowerASCII = other.map toLowerASCII := decide_eq_true_iff

theorem sameName_congr (same : sameName other name = true) (third : RawText) :
    sameName third other = sameName third name := by
  rw [sameName, sameName, sameName_iff.mp same]

theorem collect_cons (field : Field) (list : List Field) : collect name (field :: list) =
    (if sameName field.name name then field.values else []) ++ collect name list := by
  rw [collect, filter_cons]
  split <;> rfl

theorem comingValues_find (list : List ParsedHeader) :
    match list.findIdx? fun header => !header.isContinuation && sameName header.name.text name with
    | none => comingValues name false list = []
    | some k => ∃ header, list[k]? = some header ∧
        comingValues name false list = header.value.text :: comingValues name true (list.drop (k + 1)) := by
  induction list with
  | nil => rfl
  | cons header list ih =>
    rw [List.findIdx?_cons, comingValues]
    cases continuation : header.isContinuation with
    | true =>
      simp only [Bool.not_true, Bool.false_and, Bool.false_eq_true, if_false, if_true]
      cases found : list.findIdx? fun header => !header.isContinuation && sameName header.name.text name with
      | none =>
        rw [found] at ih
        exact ih
      | some k =>
        rw [found] at ih
        exact ih
    | false =>
      cases same : sameName header.name.text name with
      | true => exact ⟨header, rfl, rfl⟩
      | false =>
        simp only [Bool.not_false, Bool.true_and, Bool.false_eq_true, if_false]
        cases found : list.findIdx? fun header =>
            !header.isContinuation && sameName header.name.text name with
        | none =>
          rw [found] at ih
          exact ih
        | some k =>
          rw [found] at ih
          exact ih

theorem findHeader_coming (start : Nat) : match headers.findHeader start name with
    | none => comingValues name false (headers.parsed.drop start) = []
    | some i => start ≤ i ∧ ∃ header, headers.parsed[i]? = some header ∧
        comingValues name false (headers.parsed.drop start) =
          header.value.text :: comingValues name true (headers.parsed.drop (i + 1)) := by
  have finds := @comingValues_find name (headers.parsed.drop start)
  rw [HttpResponseHeaders.findHeader]
  simp only [sameName] at finds
  cases found : (headers.parsed.drop start).findIdx? fun header =>
      !header.isContinuation && decide (header.name.text.map toLowerASCII = name.map toLowerASCII) with
  | none =>
    rw [found] at finds
    exact finds
  | some k =>
    rw [found] at finds
    obtain ⟨header, here, coming⟩ := finds
    rw [List.getElem?_drop] at here
    rw [drop_drop, ← Nat.add_assoc] at coming
    exact ⟨Nat.le_add_right .., header, here, coming⟩

theorem position_coming (iter : Nat) : match headers.position iter name with
    | none => comingValues name (iter ≠ 0) (headers.parsed.drop iter) = []
    | some i => iter ≤ i ∧ ∃ header, headers.parsed[i]? = some header ∧
        comingValues name (iter ≠ 0) (headers.parsed.drop iter) =
          header.value.text :: comingValues name true (headers.parsed.drop (i + 1)) := by
  have finds := @findHeader_coming name headers iter
  rw [HttpResponseHeaders.position]
  by_cases first : iter = 0
  · subst first
    exact finds
  · rw [if_neg first, decide_eq_true first]
    cases here : headers.parsed[iter]? with
    | none =>
      rw [List.getElem?_eq_none_iff] at here
      simp only [drop_eq_nil_iff.mpr here]
      rfl
    | some header =>
      have rest : headers.parsed.drop iter = header :: headers.parsed.drop (iter + 1) := by
        obtain ⟨inside, rfl⟩ := List.getElem?_eq_some_iff.mp here
        exact drop_eq_getElem_cons inside
      simp only
      cases continuation : header.isContinuation with
      | true =>
        refine ⟨Nat.le_refl _, header, here, ?_⟩
        rw [rest, comingValues, if_pos continuation]
        rfl
      | false =>
        have outside : comingValues name true (headers.parsed.drop iter) =
            comingValues name false (headers.parsed.drop iter) := by
          rw [rest, comingValues, comingValues, continuation]
          rfl
        rw [outside]
        exact finds

theorem enumerateFrom_coming {fuel iter : Nat} (enough : headers.parsed.length < fuel + iter) :
    headers.enumerateFrom name fuel iter = comingValues name (iter ≠ 0) (headers.parsed.drop iter) := by
  induction fuel generalizing iter with
  | zero =>
    rw [drop_eq_nil_iff.mpr (by omega)]
    rfl
  | succ fuel ih =>
    have next := @position_coming name headers iter
    rw [HttpResponseHeaders.enumerateFrom, HttpResponseHeaders.enumerateHeader]
    cases found : headers.position iter name with
    | none =>
      rw [found] at next
      exact next.symm
    | some i =>
      rw [found] at next
      obtain ⟨later, header, here, coming⟩ := next
      rw [Option.bind_some, here, Option.map_some, coming]
      simp only
      rw [ih (by omega)]
      rfl

theorem comingValues_more (rawEnd : Nat) (more : List Span) (rest : List ParsedHeader) (inside : Bool) :
    comingValues name inside (more.map (fun value => ⟨⟨rawEnd, []⟩, value⟩) ++ rest) =
      (if inside then more.map Span.text else []) ++ comingValues name inside rest := by
  induction more with
  | nil => cases inside <;> rfl
  | cons value more ih =>
    have continuation : ParsedHeader.isContinuation ⟨⟨rawEnd, []⟩, value⟩ = true := rfl
    rw [map_cons, cons_append, comingValues, if_pos continuation]
    cases inside with
    | true =>
      rw [if_pos rfl, ih]
      rfl
    | false =>
      rw [if_neg Bool.false_ne_true, ih]
      rfl

theorem comingValues_blocks (rawEnd : Nat) (inside : Bool) (named : ∀ line ∈ list, line.name.text ≠ []) :
    comingValues name inside (list.flatMap (HeaderLine.block rawEnd)) =
      collect name (list.map HeaderLine.field) := by
  induction list generalizing inside with
  | nil => rfl
  | cons line list ih =>
    rw [forall_mem_cons] at named
    have header : ParsedHeader.isContinuation ⟨line.name, line.value⟩ = false := by
      simp [ParsedHeader.isContinuation, named.1]
    rw [flatMap_cons, HeaderLine.block, cons_append, comingValues, header,
      if_neg Bool.false_ne_true, comingValues_more, comingValues_more, ih _ named.2, ih _ named.2,
      map_cons, collect_cons]
    cases same : sameName line.name.text name <;> simp [HeaderLine.field, same]

theorem Parsed.valuesOf (its : Parsed headers text) : headers.valuesOf name = collect name headers.fields := by
  obtain ⟨rawEnd, blocks⟩ := its.blocks
  rw [HttpResponseHeaders.valuesOf, enumerateFrom_coming (by omega), drop_zero, blocks,
    comingValues_blocks _ _ its.named]
  rfl

theorem Parsed.hasHeader (its : Parsed headers text) :
    headers.hasHeader name = headers.fields.any fun field => sameName field.name name := by
  obtain ⟨rawEnd, blocks⟩ := its.blocks
  have continuations : ∀ more : List Span,
      ((more.map fun value => (⟨⟨rawEnd, []⟩, value⟩ : ParsedHeader)).any fun header =>
        !header.isContinuation && sameName header.name.text name) = false := by
    intro more
    simp [ParsedHeader.isContinuation]
  have any_block : ∀ line ∈ headers.lines, ((line.block rawEnd).any fun header =>
      !header.isContinuation && sameName header.name.text name) = sameName line.name.text name := by
    intro line member
    rw [HeaderLine.block, any_cons, continuations]
    simp [ParsedHeader.isContinuation, its.named line member]
  rw [HttpResponseHeaders.hasHeader, HttpResponseHeaders.findHeader, Option.isSome_map, drop_zero,
    List.findIdx?_isSome, HttpResponseHeaders.fields, List.any_map, blocks, any_flatMap,
    Bool.eq_iff_iff, List.any_eq_true, List.any_eq_true]
  refine exists_congr fun line => and_congr_right fun member => ?_
  exact iff_of_eq (congrArg (· = true) (any_block line member))

section Merging

variable {line tail : RawText}

theorem parseStatusLine_parsed (line : RawText) (hasHeaders : Bool) :
    (parseStatusLine line hasHeaders).parsed = [] := by
  rw [parseStatusLine]
  simp only
  split
  · rfl
  · split <;> rfl

theorem parse_parsed (raw : RawText) : Parsed (parse raw) ((raw.dropWhile (· ≠ 0)).drop 1) := by
  rw [parse]
  cases raw.dropWhile (· ≠ 0) with
  | nil =>
    refine parsed_of (append_nil _).symm rfl ?_
    rw [parseStatusLine_parsed]
    rfl
  | cons c rest => exact parsed_of rfl rfl rfl

theorem statusLine_free (headers : HttpResponseHeaders) : ∀ c ∈ headers.statusLine, c ≠ 0 :=
  fun c here => by simpa using mem_takeWhile_imp here

theorem takeWhile_nul (free : ∀ c ∈ line, c ≠ 0) : (line ++ 0 :: tail).takeWhile (· ≠ 0) = line := by
  rw [takeWhile_append_of_pos fun c here => decide_eq_true (free c here)]
  simp

theorem dropWhile_nul (free : ∀ c ∈ line, c ≠ 0) : (line ++ 0 :: tail).dropWhile (· ≠ 0) = 0 :: tail := by
  rw [dropWhile_append_of_pos fun c here => decide_eq_true (free c here)]
  simp

theorem parse_fields (free : ∀ c ∈ line, c ≠ 0) : (parse (line ++ 0 :: tail)).fields = fields tail := by
  have its := parse_parsed (line ++ 0 :: tail)
  rw [dropWhile_nul free] at its
  exact its.fields_eq

def isUpdated (field : Field) : Bool := shouldUpdateHeader field.name

def isKept (new : List Field) (field : Field) : Bool :=
  !(new.filter isUpdated).any fun other => sameName other.name field.name

def merged (old new : List Field) : List Field := new.filter isUpdated ++ old.filter (isKept new)

theorem Parsed.kept (its : Parsed headers text) (p : Field → Bool) (rest : RawText) :
    fields ((headers.lines.filter (p ∘ HeaderLine.field)).flatMap headers.copy ++ rest) =
      headers.fields.filter p ++ fields rest := by
  rw [its.copies fun line member => mem_of_mem_filter member, HttpResponseHeaders.fields, List.filter_map]

theorem fields_nul : fields [0] = [] := by decide

theorem update_eq (headers newHeaders : HttpResponseHeaders) :
    headers.update newHeaders = parse (headers.statusLine ++ 0 ::
      ((newHeaders.lines.filter (isUpdated ∘ HeaderLine.field)).flatMap newHeaders.copy ++
        ((headers.lines.filter (isKept newHeaders.fields ∘ HeaderLine.field)).flatMap headers.copy ++
          [0]))) := by
  have remain : (fun line : HeaderLine => decide (line.name.text.map toLowerASCII ∉
      (newHeaders.lines.filter (isUpdated ∘ HeaderLine.field)).map fun line =>
        line.name.text.map toLowerASCII)) = isKept newHeaders.fields ∘ HeaderLine.field := by
    funext line
    rw [Bool.eq_iff_iff]
    simp only [List.mem_map, mem_filter, Function.comp_apply, isUpdated, HeaderLine.field, not_exists,
      not_and, and_imp, decide_eq_true_eq, HttpResponseHeaders.fields, isKept, List.any_filter, List.any_map,
      Bool.not_eq_true', ← Bool.not_eq_true, List.any_eq_true, Bool.and_eq_true, sameName_iff]
  rw [← remain, HttpResponseHeaders.update, HttpResponseHeaders.mergeWithHeaders]
  simp only [append_assoc, singleton_append]
  rfl

theorem update_fields (its : Parsed headers text) (others : Parsed newHeaders newText) :
    (headers.update newHeaders).fields = merged headers.fields newHeaders.fields := by
  rw [update_eq, parse_fields (statusLine_free headers), others.kept, its.kept, fields_nul, append_nil]
  rfl

theorem removeHeader_fields (its : Parsed headers text) :
    (headers.removeHeader name).fields = headers.fields.filter fun field => !sameName field.name name := by
  let keeps : Field → Bool := fun field => !sameName field.name name
  have remain : (fun line : HeaderLine => decide (line.name.text.map toLowerASCII ∉
      [name.map toLowerASCII])) = keeps ∘ HeaderLine.field := by
    funext line
    rw [Bool.eq_iff_iff]
    simp [keeps, Bool.eq_false_iff, sameName_iff, HeaderLine.field]
  have whole : headers.removeHeader name = parse (headers.statusLine ++ 0 ::
      ((headers.lines.filter (keeps ∘ HeaderLine.field)).flatMap headers.copy ++ [0])) := by
    rw [← remain, HttpResponseHeaders.removeHeader, HttpResponseHeaders.mergeWithHeaders]
    simp only [append_assoc, cons_append, nil_append]
  rw [whole, parse_fields (statusLine_free headers), its.kept, fields_nul, append_nil]

theorem shouldUpdateHeader_same (same : sameName other name = true) :
    shouldUpdateHeader other = shouldUpdateHeader name := by
  have same : other.map toLowerASCII = name.map toLowerASCII := of_decide_eq_true same
  have equals : ∀ header, lowerCaseEqualsASCII other header = lowerCaseEqualsASCII name header := by
    intro header
    rw [Bool.eq_iff_iff, lowerCaseEqualsASCII_iff, lowerCaseEqualsASCII_iff, same]
  simp only [shouldUpdateHeader, equals]

theorem collect_append (list rest : List Field) :
    collect name (list ++ rest) = collect name list ++ collect name rest := by
  rw [collect, filter_append, flatMap_append]
  rfl

theorem collect_filter {p : Field → Bool} {passes : Bool} {list : List Field}
    (all : ∀ field ∈ list, sameName field.name name = true → p field = passes) :
    collect name (list.filter p) = if passes then collect name list else [] := by
  have filters : list.filter (fun field => sameName field.name name && p field) =
      if passes then list.filter fun field => sameName field.name name else [] := by
    cases passes with
    | true =>
      refine filter_congr fun field member => ?_
      cases same : sameName field.name name with
      | true => rw [all field member same, Bool.and_true]
      | false => rfl
    | false =>
      refine filter_eq_nil_iff.mpr fun field member both => ?_
      rw [Bool.and_eq_true] at both
      rw [all field member both.1] at both
      cases both.2
  rw [collect, List.filter_filter, filters]
  cases passes <;> rfl

theorem any_updated (new : List Field) : (new.filter isUpdated).any (fun field => sameName field.name name) =
      (new.any (fun field => sameName field.name name) && shouldUpdateHeader name) := by
  rw [List.any_filter]
  induction new with
  | nil => rfl
  | cons field new ih =>
    rw [any_cons, any_cons, ih, Bool.and_or_distrib_right, isUpdated]
    cases same : sameName field.name name with
    | true => rw [shouldUpdateHeader_same same, Bool.and_comm]
    | false => rw [Bool.and_false, Bool.false_and]

theorem collect_merged (old new : List Field) : collect name (merged old new) =
    if new.any (fun field => sameName field.name name) && shouldUpdateHeader name then collect name new
    else collect name old := by
  have updates : collect name (new.filter isUpdated) =
      if shouldUpdateHeader name then collect name new else [] :=
    collect_filter fun field _ same => shouldUpdateHeader_same same
  have keeps : collect name (old.filter (isKept new)) =
      if !(new.any (fun field => sameName field.name name) && shouldUpdateHeader name) then
        collect name old
      else [] := by
    refine collect_filter fun field _ same => ?_
    simp only [isKept, sameName_congr same, any_updated]
  have absent : new.any (fun field => sameName field.name name) = false → collect name new = [] := by
    intro none
    rw [collect, filter_eq_nil_iff.mpr fun field member => ?_]
    · rfl
    · exact List.any_eq_false.mp none field member
  rw [merged, collect_append, updates, keeps]
  cases has : new.any (fun field => sameName field.name name) with
  | true => cases shouldUpdateHeader name <;> simp
  | false => cases shouldUpdateHeader name <;> simp [absent has]

end Merging

section StatusLine

/-- A status line as `ParseStatusLine` leaves it. -/
structure StatusLine where
  version : RawText
  code : RawText
  text : RawText
  supported : version ∈ ["HTTP/0.9", "HTTP/1.0", "HTTP/1.1"].map ascii
  digits : ∀ c ∈ code, Ftp.isDigit c = true
  some_code : code ≠ []
  trimmed : text.dropWhile (· = 32) = text ∧ text.rdropWhile (· = 32) = text
  some_text : text ≠ []
  free : ∀ c ∈ text, c ≠ 0

variable {c : UInt8}

namespace StatusLine

def line (status : StatusLine) : RawText := status.version ++ 32 :: status.code ++ 32 :: status.text

def upgraded (line : RawText) (hasHeaders : Bool) : RawText :=
  if line.take 8 = ascii "HTTP/0.9" && hasHeaders then ascii "HTTP/1.0" ++ line.drop 8 else line

variable {status : StatusLine}

theorem digit_free (digit : Ftp.isDigit c = true) : c ≠ 0 ∧ c ≠ 32 := by
  constructor <;> (rintro rfl; exact absurd digit (by decide))

theorem ne_of_all {d : UInt8} (all : text.all (· ≠ d) = true) : ∀ c ∈ text, c ≠ d :=
  fun c here => of_decide_eq_true (List.all_eq_true.mp all c here)

theorem line_free : ∀ c ∈ status.line, c ≠ 0 := by
  intro c here
  have version : ∀ c ∈ status.version, c ≠ 0 := by
    have all : ∀ version ∈ ["HTTP/0.9", "HTTP/1.0", "HTTP/1.1"].map ascii,
        version.all (· ≠ 0) = true := by decide
    exact ne_of_all (all _ status.supported)
  simp only [line, mem_append, mem_cons] at here
  rcases here with (inside | rfl | inside) | rfl | inside
  · exact version c inside
  · decide
  · exact (digit_free (status.digits c inside)).1
  · decide
  · exact status.free c inside

theorem clamp_version (rest : RawText) (hasHeaders : Bool) :
    (clampVersion (parseVersion (status.version ++ 32 :: rest)) hasHeaders).2 =
      upgraded status.version hasHeaders := by
  have supported := status.supported
  simp only [map_cons, map_nil, mem_cons, not_mem_nil, or_false] at supported
  rcases supported with known | known | known <;> rw [known]
  · have version : parseVersion (ascii "HTTP/0.9" ++ 32 :: rest) = ⟨0, 9⟩ := rfl
    rw [version]
    cases hasHeaders <;> rfl
  · have version : parseVersion (ascii "HTTP/1.0" ++ 32 :: rest) = ⟨1, 0⟩ := rfl
    rw [version]
    cases hasHeaders <;> rfl
  · have version : parseVersion (ascii "HTTP/1.1" ++ 32 :: rest) = ⟨1, 1⟩ := rfl
    rw [version]
    cases hasHeaders <;> rfl

theorem upgraded_line (hasHeaders : Bool) : upgraded status.line hasHeaders =
    upgraded status.version hasHeaders ++ 32 :: status.code ++ 32 :: status.text := by
  have eight : status.version.length = 8 := by
    have all : ∀ version ∈ ["HTTP/0.9", "HTTP/1.0", "HTTP/1.1"].map ascii, version.length = 8 := by decide
    exact all _ status.supported
  rw [upgraded, upgraded, line, append_assoc, take_left' eight, drop_left' eight,
    take_of_length_le (eight.le), drop_of_length_le (eight.le)]
  split <;> simp

theorem behind_version : status.line.dropWhile (· ≠ 32) = 32 :: status.code ++ 32 :: status.text := by
  have all : ∀ version ∈ ["HTTP/0.9", "HTTP/1.0", "HTTP/1.1"].map ascii,
      version.all (· ≠ 32) = true := by decide
  rw [line, append_assoc, dropWhile_append_of_pos fun c here =>
    List.all_eq_true.mp (all _ status.supported) c here]
  rfl

theorem parseStatusLine_line (hasHeaders : Bool) : (parseStatusLine status.line hasHeaders).rawHeaders =
    upgraded status.line hasHeaders ++ [0] := by
  obtain ⟨c, code, first⟩ := exists_cons_of_ne_nil status.some_code
  have digit : Ftp.isDigit c = true := status.digits c (first ▸ mem_cons_self)
  have number : (32 :: status.code ++ 32 :: status.text).dropWhile (· = 32) =
      status.code ++ 32 :: status.text := by
    rw [first]
    simp [(digit_free digit).2]
  have code_eq : (status.code ++ 32 :: status.text).takeWhile Ftp.isDigit = status.code := by
    rw [takeWhile_append_of_pos status.digits, takeWhile_cons_of_neg (by decide), append_nil]
  have text_eq : ((status.code ++ 32 :: status.text).dropWhile Ftp.isDigit).dropWhile (· = 32) =
      status.text := by
    rw [dropWhile_append_of_pos status.digits, dropWhile_cons_of_neg (by decide),
      dropWhile_cons_of_pos (by rfl), status.trimmed.1]
  have version := @clamp_version status (status.code ++ 32 :: status.text) hasHeaders
  have whole : status.version ++ 32 :: (status.code ++ 32 :: status.text) = status.line := by
    simp [line]
  rw [whole] at version
  rw [parseStatusLine]
  simp only [behind_version, number, code_eq, text_eq, version, status.trimmed.2]
  rw [if_neg (by simp), if_neg status.some_code, if_neg status.some_text, upgraded_line]

end StatusLine

def numbered (line : RawText) : Prop :=
  line.dropWhile (· ≠ 32) = [] ∨ ((line.dropWhile (· ≠ 32)).dropWhile (· = 32)).takeWhile Ftp.isDigit ≠ []

instance (line : RawText) : Decidable (numbered line) := inferInstanceAs (Decidable (_ ∨ _))

theorem clampVersion_supported (version : HttpVersion) (hasHeaders : Bool) :
    (clampVersion version hasHeaders).2 ∈ ["HTTP/0.9", "HTTP/1.0", "HTTP/1.1"].map ascii := by
  rw [clampVersion]
  split
  · decide
  · split <;> decide

def okLine (version : RawText) (supported : version ∈ ["HTTP/0.9", "HTTP/1.0", "HTTP/1.1"].map ascii) :
    StatusLine :=
  ⟨version, ascii "200", ascii "OK", supported, List.all_eq_true.mp (by decide), by decide, by decide, by decide,
    StatusLine.ne_of_all (by decide)⟩

theorem spaces_trimmed (text : RawText) {trimmed : RawText}
    (trims : (text.dropWhile (· = 32)).rdropWhile (· = 32) = trimmed) :
    trimmed.dropWhile (· = 32) = trimmed ∧ trimmed.rdropWhile (· = 32) = trimmed := by
  subst trims
  refine ⟨?_, rdropWhile_idempotent ..⟩
  obtain ⟨behind, whole⟩ := rdropWhile_prefix (· = 32) (text.dropWhile (· = 32))
  have stopped := List.head?_dropWhile_not (· = 32) text
  cases first : (text.dropWhile (· = 32)).rdropWhile (· = 32) with
  | nil => rfl
  | cons c rest =>
    rw [first] at whole
    rw [← whole] at stopped
    exact dropWhile_cons_of_neg (by simpa using stopped)

theorem parseStatusLine_raw {line : RawText} (free : ∀ c ∈ line, c ≠ 0) (hasHeaders : Bool) :
    ∃ status : StatusLine, (parseStatusLine line hasHeaders).rawHeaders =
      status.line ++ if numbered line then [0] else [] := by
  have supported := clampVersion_supported (parseVersion line) hasHeaders
  rw [parseStatusLine]
  simp only
  split
  · rename_i no_space
    have its_numbered : numbered line := .inl no_space
    refine ⟨okLine _ supported, ?_⟩
    rw [if_pos its_numbered, okLine, StatusLine.line]
    simp only [append_assoc]
    rfl
  · rename_i space
    split
    · rename_i no_number
      have not_numbered : ¬ numbered line := not_or.mpr ⟨space, not_not_intro no_number⟩
      refine ⟨okLine _ supported, ?_⟩
      rw [if_neg not_numbered, okLine, StatusLine.line]
      simp only [append_assoc]
      rfl
    · rename_i number
      have its_numbered : numbered line := .inr number
      rw [if_pos its_numbered]
      let p := (line.dropWhile (· ≠ 32)).dropWhile (· = 32)
      have suffix : p.dropWhile Ftp.isDigit <:+ line :=
        (dropWhile_suffix _).trans ((dropWhile_suffix _).trans (dropWhile_suffix _))
      have digits : ∀ c ∈ p.takeWhile Ftp.isDigit, Ftp.isDigit c = true := fun c here =>
        mem_takeWhile_imp here
      cases trims : ((p.dropWhile Ftp.isDigit).dropWhile (· = 32)).rdropWhile (· = 32) with
      | nil =>
        refine ⟨{ okLine _ supported with code := p.takeWhile Ftp.isDigit, digits, some_code := number }, ?_⟩
        simp [StatusLine.line, okLine, p]
      | cons c text =>
        have its_free : ∀ d ∈ c :: text, d ≠ 0 := by
          intro d here
          rw [← trims] at here
          exact free d (suffix.mem ((dropWhile_suffix _).mem ((List.rdropWhile_prefix _ _).mem here)))
        refine ⟨⟨_, p.takeWhile Ftp.isDigit, c :: text, supported, digits, number,
          spaces_trimmed _ trims, cons_ne_nil c text, its_free⟩, ?_⟩
        simp [StatusLine.line, p]

def Ended (raw : RawText) : Prop := 0 ∉ raw ∨ numbered (raw.takeWhile (· ≠ 0))

instance (raw : RawText) : Decidable (Ended raw) := inferInstanceAs (Decidable (_ ∨ _))

theorem free_takeWhile (raw : RawText) : ∀ c ∈ raw.takeWhile (· ≠ 0), c ≠ 0 := fun c here => by
  simpa using mem_takeWhile_imp here

theorem parse_rawHeaders {rest : RawText} (behind : raw.dropWhile (· ≠ 0) = c :: rest) :
    (parse raw).rawHeaders =
      (parseStatusLine (raw.takeWhile (· ≠ 0)) (rest.head?.any (· ≠ 0))).rawHeaders ++ rest := by
  rw [parse, behind]
  cases rest <;> rfl

theorem Ended.rawHeaders (ended : Ended raw) : ∃ (status : StatusLine) (tail : RawText),
    (parse raw).rawHeaders = status.line ++ 0 :: tail ∧ (parse raw).fields = fields tail := by
  have its := (parse_parsed raw).fields_eq
  rw [HttpResponseHeaders.fields, its]
  cases behind : raw.dropWhile (· ≠ 0) with
  | nil =>
    obtain ⟨status, line⟩ := parseStatusLine_raw (free_takeWhile raw) false
    refine ⟨status, if numbered (raw.takeWhile (· ≠ 0)) then [0] else [], ?_, ?_⟩
    · rw [parse, behind]
      simp only [line]
      split <;> simp
    · split <;> decide
  | cons c rest =>
    have nul : 0 ∈ raw := by
      have whole := takeWhile_append_dropWhile (p := (· ≠ 0)) (l := raw)
      have stopped := List.head?_dropWhile_not (· ≠ 0) raw
      rw [behind] at whole stopped
      have zero : c = 0 := by simpa using stopped
      rw [← whole, zero]
      simp
    have its_numbered := ended.resolve_left (not_not_intro nul)
    obtain ⟨status, line⟩ := parseStatusLine_raw (free_takeWhile raw) (rest.head?.any (· ≠ 0))
    refine ⟨status, rest, ?_, rfl⟩
    rw [parse_rawHeaders behind, line, if_pos its_numbered, append_assoc, singleton_append]

theorem Ended.statusLine (ended : Ended raw) : ∃ status : StatusLine, (parse raw).statusLine = status.line := by
  obtain ⟨status, tail, raw_eq, -⟩ := ended.rawHeaders
  refine ⟨status, ?_⟩
  rw [HttpResponseHeaders.statusLine, raw_eq, takeWhile_nul status.line_free]

theorem parse_statusLine (status : StatusLine) (tail : RawText) : (parse (status.line ++ 0 :: tail)).statusLine =
      StatusLine.upgraded status.line (tail.head?.any (· ≠ 0)) := by
  have free : ∀ c ∈ StatusLine.upgraded status.line (tail.head?.any (· ≠ 0)), c ≠ 0 := by
    intro c here
    rw [StatusLine.upgraded] at here
    split at here
    · rcases mem_append.mp here with version | rest
      · exact StatusLine.ne_of_all (by decide) c version
      · exact status.line_free c (mem_of_mem_drop rest)
    · exact status.line_free c here
  rw [HttpResponseHeaders.statusLine, parse_rawHeaders (dropWhile_nul status.line_free),
    takeWhile_nul status.line_free, status.parseStatusLine_line, append_assoc, singleton_append,
    takeWhile_nul free]

variable {header : RawText}

theorem Parsed.copies_head (its : Parsed headers text)
    (members : ∀ line ∈ list, line ∈ headers.lines) (rest : RawText) :
    (list.flatMap headers.copy ++ rest).head?.any (· ≠ 0) = (list ≠ [] || rest.head?.any (· ≠ 0)) := by
  cases list with
  | nil => simp
  | cons line list =>
    obtain ⟨piece, copy, is_line, -⟩ := its.copied line (members line mem_cons_self)
    obtain ⟨c, more, first⟩ := exists_cons_of_ne_nil is_line.1
    rw [flatMap_cons, copy, first]
    simp [is_line.2 c (first ▸ mem_cons_self)]

theorem update_statusLine (ended : Ended raw) (others : Parsed newHeaders newText) :
    ((parse raw).update newHeaders).statusLine = StatusLine.upgraded (parse raw).statusLine
        (((parse raw).update newHeaders).fields ≠ []) := by
  have its := parse_parsed raw
  obtain ⟨status, line⟩ := ended.statusLine
  rw [update_fields its others, update_eq, line, parse_statusLine,
    others.copies_head fun line member => mem_of_mem_filter member,
    its.copies_head fun line member => mem_of_mem_filter member]
  congr 1
  rw [merged, HttpResponseHeaders.fields, HttpResponseHeaders.fields, List.filter_map, List.filter_map,
    Bool.eq_iff_iff]
  simp

theorem fields_header (free : ∀ c ∈ header, c ≠ 0) : fields header = (field header).toList := by
  by_cases empty : header = []
  · subst empty
    rfl
  · exact fields_line ⟨empty, free⟩

theorem addHeader_fields (ended : Ended raw)
    (nuls : [0, 0] <:+ (parse raw).rawHeaders) (free : ∀ c ∈ header, c ≠ 0) :
    ((parse raw).addHeader header).fields = (parse raw).fields ++ (field header).toList := by
  obtain ⟨status, tail, raw_eq, fields_eq⟩ := ended.rawHeaders
  obtain ⟨front, whole⟩ := nuls
  have whole : front ++ [0] ++ [0] = status.line ++ 0 :: tail := by
    rw [← raw_eq, ← whole, append_assoc]
    rfl
  rcases eq_nil_or_concat' tail with rfl | ⟨most, c, rfl⟩
  · have line : front ++ [0] = status.line := append_cancel_right whole
    exact absurd rfl (status.line_free 0 (line ▸ mem_append_right _ mem_cons_self))
  · have ends : front ++ [0] ++ [0] = (status.line ++ 0 :: most) ++ [c] := by
      rw [whole, append_assoc, cons_append]
    obtain ⟨most_eq, last⟩ := append_inj' ends rfl
    cases last
    have cut : (status.line ++ 0 :: (most ++ [0])).take
        ((status.line ++ 0 :: (most ++ [0])).length - 1) = status.line ++ 0 :: most := by
      rw [← cons_append, ← append_assoc, length_append, length_singleton, Nat.add_sub_cancel, take_left]
    rw [HttpResponseHeaders.addHeader, fields_eq, raw_eq, cut, append_assoc, append_assoc,
      cons_append, parse_fields status.line_free]
    have added : fields (header ++ [0, 0]) = (field header).toList := by
      rw [fields_append, fields_nul, append_nil, fields_header free]
    rcases eq_nil_or_concat' most with rfl | ⟨more, d, rfl⟩
    · rw [nil_append, nil_append, fields_nul, nil_append, added]
    · have ends : front ++ [0] = (status.line ++ 0 :: more) ++ [d] := by
        rw [most_eq, append_assoc, cons_append]
      cases (append_inj' ends rfl).2
      have before : fields (more ++ [0] ++ [0]) = fields more := by
        rw [append_assoc, singleton_append, fields_append, fields_nul, append_nil]
      rw [before, append_assoc, singleton_append, fields_append, added]

end StatusLine

/-- The updates replace headers by name, and the two other calls change one. Where the status line has no
number, its NUL is missing, and nothing is said about it. -/
theorem update_remove_add (raw newRaw : RawText) :
    let old := parse raw
    let new := parse newRaw
    (∀ name, old.valuesOf name = collect name old.fields) ∧
    (old.update new).fields = merged old.fields new.fields ∧
    (∀ name, (old.update new).valuesOf name =
      if new.hasHeader name && shouldUpdateHeader name then new.valuesOf name else old.valuesOf name) ∧
    (Ended raw → (old.update new).statusLine =
      StatusLine.upgraded old.statusLine ((old.update new).fields ≠ [])) ∧
    (∀ name, (old.removeHeader name).fields = old.fields.filter fun field => !sameName field.name name) ∧
    ∀ header its, Ended raw → [0, 0] <:+ old.rawHeaders → 0 ∉ header → field header = some its →
      (old.addHeader header).fields = old.fields ++ [its] := by
  intro old new
  have its : Parsed old _ := parse_parsed raw
  have others : Parsed new _ := parse_parsed newRaw
  have updated : ∃ text, Parsed (old.update new) text := ⟨_, parse_parsed _⟩
  obtain ⟨text, updates⟩ := updated
  refine ⟨fun name => its.valuesOf, update_fields its others, fun name => ?_,
    fun ended => update_statusLine ended others, fun name => removeHeader_fields its,
    fun header added ended nuls free reads => ?_⟩
  · rw [updates.valuesOf, update_fields its others, collect_merged, others.hasHeader, others.valuesOf,
      its.valuesOf]
  · rw [addHeader_fields ended nuls fun c here zero => free (zero ▸ here), reads]
    rfl

def oldRaw : RawText :=
  ascii "HTTP/1.1 200 OK" ++ 0 :: ascii "A: 1" ++ 0 :: ascii "B: x, y" ++ [0, 0]

def revalidated : RawText :=
  ascii "HTTP/1.1 304 Not Modified" ++ 0 :: ascii "a: 2" ++ 0 :: ascii "ETag: z" ++ [0, 0]

theorem update_remove_add_old : ((parse oldRaw).update (parse revalidated)).statusLine =
        ascii "HTTP/1.1 200 OK" ∧
      ((parse oldRaw).addHeader (ascii "C: 3")).fields =
        (parse oldRaw).fields ++ [⟨ascii "C", [ascii "3"]⟩] := by
  obtain ⟨-, -, -, status, -, add⟩ := update_remove_add oldRaw revalidated
  exact ⟨(status (by decide)).trans (by decide), add _ _ (by decide) (by decide) (by decide) (by decide)⟩

/-- HTTP/0.9 is not believed after an update. -/
theorem update_upgrades : (parse revalidated).responseCode = 304 ∧
      ((parse (ascii "HTTP/0.9 200 OK" ++ [0, 0])).update
        (parse revalidated)).statusLine ≠
      (parse (ascii "HTTP/0.9 200 OK" ++ [0, 0])).statusLine := by
  decide

end Glopen.Http
