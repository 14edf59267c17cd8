import Glopen.Base.Strings

/-! The conversions between Unix and VMS paths of `net/ftp/ftp_util.cc`. -/
namespace Glopen.Ftp

open Base List

def joined (separator : UInt8) (parts : List Text) : Text := parts.flatMap (separator :: ·)

def slashTokens (path : Text) : List Text :=
  ((⟨[47], [], false⟩ : StringTokenizer).tokens path).map Token.text

def masterDirectory : Text := [48, 48, 48, 48, 48, 48]

def unixFilePathToVMS (unixPath : Text) : Text :=
  let tokens := slashTokens unixPath
  let file := tokens.getLastD []
  match unixPath.head? with
  | none => []
  | some 47 =>
    match tokens with
    | [] => [91, 93]
    | [_] => unixPath.drop 1
    | [device, _] => device ++ [58, 91] ++ masterDirectory ++ [93] ++ file
    | device :: first :: rest => device ++ [58, 91] ++ first ++ joined 46 rest.dropLast ++ [93] ++ file
  | some _ =>
    if tokens.length = 1 then unixPath else [91] ++ joined 46 tokens.dropLast ++ [93] ++ file

def unixDirectoryPathToVMS (unixPath : Text) : Text :=
  if unixPath = [] then []
  else
    let path := if unixPath.getLast? = some 47 then unixPath else unixPath ++ [47]
    (unixFilePathToVMS (path ++ [120])).dropLast

/-- `DoReplaceSubstringsAfterOffset` from the start. The number counts characters of a substring that has been
replaced. -/
def replaceSubstrings (findThis replaceWith : Text) (replaceAll : Bool) : Nat → Text → Text
  | _, [] => []
  | skip + 1, _ :: rest => replaceSubstrings findThis replaceWith replaceAll skip rest
  | 0, c :: rest =>
    if findThis.isPrefixOf (c :: rest) then
      replaceWith ++ if replaceAll then
        replaceSubstrings findThis replaceWith replaceAll (findThis.length - 1) rest
      else rest.drop (findThis.length - 1)
    else c :: replaceSubstrings findThis replaceWith replaceAll 0 rest

def slashes (text : Text) : Text := text.map fun c => if c = 46 || c = 93 then 47 else c

def vmsPathToUnix (vmsPath : Text) : Text :=
  if vmsPath = [] then [46]
  else if vmsPath = [91, 93] then [47]
  else
    let result :=
      if vmsPath.head? = some 91 then replaceSubstrings [91, 46] [] false 0 vmsPath
      else
        let result := replaceSubstrings ([58, 91] ++ masterDirectory ++ [93]) [47] true 0 (47 :: vmsPath)
        replaceSubstrings [58, 91] [47] true 0 result
    let result := slashes result
    if result.getLast? = some 47 then result.dropLast else result

def unixPathOf (absolute slash : Bool) (components : List Text) : Text :=
  (joined 47 components).drop (if absolute then 0 else 1) ++ if slash then [47] else []

def Component (component : Text) : Prop := component ≠ [] ∧ ∀ c ∈ component, c ∉ [46, 47, 58, 91, 93]

variable {parts : List Text} {c : UInt8} {text rest front name : Text}

section Joined

variable {separator : UInt8} {part : Text}

theorem joined_cons : joined separator (part :: parts) = separator :: (part ++ joined separator parts) := rfl

theorem joined_append (more : List Text) : joined separator (parts ++ more) =
    joined separator parts ++ joined separator more := flatMap_append

theorem mem_joined (member : c ∈ joined separator parts) : c = separator ∨ ∃ part ∈ parts, c ∈ part := by
  obtain ⟨part, there, inside⟩ := mem_flatMap.mp member
  exact (mem_cons.mp inside).imp_right fun here => ⟨part, there, here⟩

theorem tokens_joined (components : ∀ part ∈ parts, Component part) :
    slashTokens (joined 47 parts) = parts ∧ slashTokens ((joined 47 parts).drop 1) = parts := by
  induction parts with
  | nil => exact ⟨rfl, rfl⟩
  | cons part parts ih =>
    rw [forall_mem_cons] at components
    have skip := tokens_skip (t := ⟨[47], [], false⟩) rfl mem_cons_self (part ++ joined 47 parts)
    have stops : StringTokenizer.Stops ⟨[47], [], false⟩ (joined 47 parts) := by
      cases parts with
      | nil => exact fun c none => by cases none
      | cons other parts => exact fun c first => by cases first; exact mem_cons_self
    have found := getNext_word (t := ⟨[47], [], false⟩) components.1.1
      (fun c here delim => components.1.2 c here (by simp [mem_singleton.mp delim]))
      (fun _ _ none => by cases none) stops
    have tail : slashTokens (part ++ joined 47 parts) = part :: parts := by
      rw [slashTokens, tokens_some found, map_cons, ← slashTokens, (ih components.2).1]
    exact ⟨by rw [joined_cons, slashTokens, skip]; exact tail, tail⟩

theorem slashes_joined (components : ∀ part ∈ parts, Component part) :
    slashes (joined 46 parts) = joined 47 parts := by
  induction parts with
  | nil => rfl
  | cons part parts ih =>
    rw [forall_mem_cons] at components
    have same : slashes part = part := by
      rw [slashes, map_congr_left (g := id), List.map_id]
      intro c here
      have plain := components.1.2 c here
      simp only [mem_cons, not_mem_nil, or_false, not_or] at plain
      simp [plain]
    rw [joined_cons, joined_cons, ← ih components.2]
    simp only [slashes, map_cons, map_append] at same ⊢
    rw [same]
    rfl

end Joined

section Replaced

variable {findThis replaceWith : Text} {all : Bool} {first : UInt8}

theorem replace_none (starts : findThis = first :: rest) (absent : first ∉ text) :
    replaceSubstrings findThis replaceWith all 0 text = text := by
  induction text with
  | nil => rfl
  | cons c text ih =>
    rw [mem_cons, not_or] at absent
    have other : ¬ findThis.isPrefixOf (c :: text) = true := by
      simp [starts, List.isPrefixOf, absent.1]
    rw [replaceSubstrings, if_neg other, ih absent.2]

theorem replace_behind (starts : findThis = first :: rest) (absent : first ∉ front) :
    replaceSubstrings findThis replaceWith all 0 (front ++ text) =
      front ++ replaceSubstrings findThis replaceWith all 0 text := by
  induction front with
  | nil => rfl
  | cons c front ih =>
    rw [mem_cons, not_or] at absent
    have other : ¬ findThis.isPrefixOf (c :: (front ++ text)) = true := by
      simp [starts, List.isPrefixOf, absent.1]
    rw [cons_append, replaceSubstrings, if_neg other, ih absent.2]
    rfl

theorem replace_skip (skip : Nat) : replaceSubstrings findThis replaceWith all skip text =
    replaceSubstrings findThis replaceWith all 0 (text.drop skip) := by
  induction skip generalizing text with
  | zero => rfl
  | succ skip ih =>
    cases text with
    | nil => rfl
    | cons c text => rw [replaceSubstrings, ih, drop_succ_cons]

theorem replace_here (starts : findThis = first :: rest) :
    replaceSubstrings findThis replaceWith all 0 (findThis ++ text) = replaceWith ++
      if all then replaceSubstrings findThis replaceWith all 0 text else text := by
  have matched : findThis.isPrefixOf (first :: (rest ++ text)) = true := by
    rw [starts, isPrefixOf_iff_prefix]
    exact prefix_append _ _
  have behind : (rest ++ text).drop (findThis.length - 1) = text := by
    rw [starts, length_cons, Nat.add_sub_cancel, drop_left]
  conv_lhs => rw [starts, cons_append, ← starts]
  rw [replaceSubstrings, if_pos matched, replace_skip, behind]

end Replaced

theorem master_directory_cut (component : Component name) (ends : c = 46 ∨ c = 93)
    (begins : masterDirectory ++ [93] <+: name ++ c :: rest) : name = masterDirectory ∧ c = 93 := by
  obtain ⟨behind, same⟩ := begins
  rw [append_assoc, singleton_append] at same
  have plain : ∀ d ∈ name, (d != 46 && d != 93) = true := by
    intro d here
    have absent := component.2 d here
    simp only [mem_cons, not_mem_nil, or_false, not_or] at absent
    simp [absent]
  have stop : ((c != 46) && (c != 93)) = false := by rcases ends with rfl | rfl <;> rfl
  have words := congrArg (List.takeWhile fun d => d != 46 && d != 93) same
  rw [takeWhile_append_of_pos plain, takeWhile_cons, stop,
    takeWhile_append_of_pos (List.all_eq_true.mp (by decide)),
    takeWhile_cons_of_neg (by decide), append_nil] at words
  simp only [Bool.false_eq_true, if_false, append_nil] at words
  rw [← words] at same
  exact ⟨words.symm, (List.cons.inj (append_cancel_left same)).1.symm⟩

section RoundTrip

variable {components : List Text} (proper : ∀ component ∈ components, Component component)
include proper

theorem joined_plain (special : c ∈ [58, 91, 93]) : c ∉ joined 46 components := by
  intro member
  rcases mem_joined member with rfl | ⟨component, there, here⟩
  · exact absurd special (by decide)
  · refine (proper component there).2 c here ?_
    simp only [mem_cons, not_mem_nil, or_false] at special ⊢
    rcases special with rfl | rfl | rfl <;> decide

theorem directory_tokens (absolute : Bool) :
    slashTokens (unixPathOf absolute true components ++ [120]) = components ++ [[120]] := by
  have file : ∀ component ∈ components ++ [[120]], Component component := by
    intro component member
    rcases mem_append.mp member with here | last
    · exact proper component here
    · rw [mem_singleton.mp last]
      exact ⟨by decide, forall_mem_singleton.mpr (by decide)⟩
  obtain ⟨whole, dropped⟩ := tokens_joined file
  have path : unixPathOf absolute true components ++ [120] =
      (joined 47 (components ++ [[120]])).drop (if absolute then 0 else 1) ∨ components = [] := by
    cases components with
    | nil => exact .inr rfl
    | cons component components =>
      rw [joined_append]
      cases absolute <;> exact .inl (by simp [unixPathOf, joined])
  rcases path with path | rfl
  · rw [path]
    cases absolute
    · exact dropped
    · exact whole
  · cases absolute <;> rfl

theorem with_slash (absolute : Bool) (some_parts : components ≠ []) :
    (if (unixPathOf absolute false components).getLast? = some 47 then unixPathOf absolute false components
      else unixPathOf absolute false components ++ [47]) = unixPathOf absolute true components := by
  have longer : unixPathOf absolute false components ++ [47] = unixPathOf absolute true components := by
    simp [unixPathOf]
  rw [← longer]
  refine if_neg fun ends => ?_
  obtain ⟨front, last, rfl⟩ := (eq_nil_or_concat components).resolve_left some_parts
  obtain ⟨some_last, plain⟩ := proper last (by simp)
  obtain ⟨start, c, last_eq⟩ := (eq_nil_or_concat last).resolve_left some_last
  subst last_eq
  rw [concat_eq_append, concat_eq_append] at ends
  have split : unixPathOf absolute false (front ++ [start ++ [c]]) =
      ((joined 47 front ++ 47 :: start).drop (if absolute then 0 else 1)) ++ [c] := by
    have positive : (if absolute then 0 else 1) ≤ (joined 47 front ++ 47 :: start).length := by
      rw [length_append, length_cons]
      split <;> omega
    rw [← drop_append_of_le_length positive]
    simp [unixPathOf, joined]
  rw [split, List.getLast?_concat] at ends
  exact absurd (plain c (by simp)) (by rw [Option.some.inj ends]; decide)

theorem directory_to_vms (absolute slash : Bool) (some_parts : components ≠ []) :
    unixDirectoryPathToVMS (unixPathOf absolute slash components) =
      (unixFilePathToVMS (unixPathOf absolute true components ++ [120])).dropLast := by
  obtain ⟨part, parts, rfl⟩ := exists_cons_of_ne_nil some_parts
  obtain ⟨c, tail, part_eq⟩ := exists_cons_of_ne_nil (proper part mem_cons_self).1
  have some_path : unixPathOf absolute slash (part :: parts) ≠ [] := by
    cases absolute <;> simp [unixPathOf, joined_cons, part_eq]
  rw [unixDirectoryPathToVMS, if_neg some_path]
  cases slash with
  | true =>
    have ends : (unixPathOf absolute true (part :: parts)).getLast? = some 47 := List.getLast?_concat
    simp only [ends, if_true]
  | false => simp only [with_slash proper absolute some_parts]

omit proper in
theorem vms_ends (text : Text) :
    (if (text ++ [47]).getLast? = some 47 then (text ++ [47]).dropLast else text ++ [47]) = text := by
  rw [List.getLast?_concat, if_pos rfl, dropLast_concat]

omit proper in
theorem slashes_closed (same : slashes front = joined 47 parts) (n : Nat) :
    slashes (front.drop n ++ [93]) = (joined 47 parts).drop n ++ [47] := by
  rw [slashes, map_append, map_drop, ← slashes, same]
  rfl

theorem vms_relative (some_parts : components ≠ []) :
    vmsPathToUnix ([91] ++ joined 46 components ++ [93]) = (joined 47 components).drop 1 := by
  obtain ⟨part, parts, rfl⟩ := exists_cons_of_ne_nil some_parts
  have replaced : replaceSubstrings [91, 46] [] false 0 ([91, 46] ++ (part ++ joined 46 parts ++ [93])) =
      part ++ joined 46 parts ++ [93] := replace_here rfl
  have whole : [91] ++ joined 46 (part :: parts) ++ [93] = [91, 46] ++ (part ++ joined 46 parts ++ [93]) := by
    simp [joined_cons]
  have closed := slashes_closed (slashes_joined proper) 1
  rw [whole, vmsPathToUnix, if_neg (by simp), if_neg (by simp), replaced]
  simp only [cons_append, nil_append, List.head?_cons, if_true]
  rw [joined_cons, drop_succ_cons, drop_zero] at closed
  rw [closed, vms_ends]

omit proper in
theorem bracketed_master : [58, 91] ++ masterDirectory ++ [93] = 58 :: (91 :: masterDirectory ++ [93]) := rfl

omit proper in
theorem vms_replaced {middle parts : Text} (begins : text.head? = some c) (other : c ≠ 91)
    (first : replaceSubstrings ([58, 91] ++ masterDirectory ++ [93]) [47] true 0 (47 :: text) = middle)
    (second : slashes (replaceSubstrings [58, 91] [47] true 0 middle) = parts ++ [47]) :
    vmsPathToUnix text = parts := by
  obtain ⟨tail, rfl⟩ := List.head?_eq_some_iff.mp begins
  have unlike : c :: tail ≠ [91, 93] := fun same => other (List.cons.inj same).1
  rw [vmsPathToUnix, if_neg (cons_ne_nil _ _), if_neg unlike]
  simp only [List.head?_cons, Option.some.injEq, if_neg other, first, second, vms_ends]

variable {device : Text}

theorem vms_device (parts : components = [device]) :
    vmsPathToUnix (device ++ [58, 91] ++ masterDirectory ++ [93]) = joined 47 components := by
  subst parts
  obtain ⟨some_device, plain⟩ := proper device mem_cons_self
  obtain ⟨c, tail, device_eq⟩ := exists_cons_of_ne_nil some_device
  have colon : 58 ∉ 47 :: device := by
    rw [mem_cons, not_or]
    exact ⟨by decide, fun here => plain 58 here (by decide)⟩
  have master : replaceSubstrings ([58, 91] ++ masterDirectory ++ [93]) [47] true 0
      ([58, 91] ++ masterDirectory ++ [93] ++ []) = [47] ++ replaceSubstrings
        ([58, 91] ++ masterDirectory ++ [93]) [47] true 0 [] := replace_here bracketed_master
  have first : replaceSubstrings ([58, 91] ++ masterDirectory ++ [93]) [47] true 0
      (47 :: (device ++ [58, 91] ++ masterDirectory ++ [93])) = 47 :: device ++ [47] := by
    have whole : 47 :: (device ++ [58, 91] ++ masterDirectory ++ [93]) =
        47 :: device ++ ([58, 91] ++ masterDirectory ++ [93] ++ []) := by simp
    rw [whole, replace_behind bracketed_master colon, master]
    rfl
  have last : 58 ∉ 47 :: device ++ [47] := fun member =>
    (mem_append.mp member).elim colon (by decide)
  refine vms_replaced (c := c) (by simp [device_eq]) ?_ first ?_
  · exact fun same => plain c (by simp [device_eq]) (by simp [same])
  · rw [replace_none rfl last, ← slashes_joined proper]
    simp [slashes, joined]

theorem vms_absolute {names : List Text} (parts : components = device :: name :: names)
    (other : name :: names ≠ [masterDirectory]) :
    vmsPathToUnix (device ++ [58, 91] ++ name ++ joined 46 names ++ [93]) = joined 47 components := by
  subst parts
  obtain ⟨is_device, are_names⟩ := forall_mem_cons.mp proper
  obtain ⟨some_device, plain⟩ := is_device
  obtain ⟨c, tail, device_eq⟩ := exists_cons_of_ne_nil some_device
  have colon : 58 ∉ 47 :: device := by
    rw [mem_cons, not_or]
    exact ⟨by decide, fun here => plain 58 here (by decide)⟩
  have unmarked : 58 ∉ 91 :: (name ++ joined 46 names ++ [93]) := by
    have absent := joined_plain are_names (c := 58) (by decide)
    rw [joined_cons, mem_cons, not_or] at absent
    simp only [mem_cons, mem_append, not_or] at absent ⊢
    exact ⟨by decide, absent.2, by simp⟩
  have unlike : ¬ ([58, 91] ++ masterDirectory ++ [93]).isPrefixOf
      (58 :: 91 :: (name ++ joined 46 names ++ [93])) = true := by
    rw [List.isPrefixOf_iff_prefix]
    intro begins
    have inner := (prefix_cons_inj 91).mp ((prefix_cons_inj 58).mp begins)
    have is_name := are_names name mem_cons_self
    cases names with
    | nil =>
      rw [show joined 46 [] = [] from rfl, append_nil] at inner
      exact other (by rw [(master_directory_cut is_name (.inr rfl) inner).1])
    | cons next rest =>
      rw [joined_cons, append_assoc] at inner
      exact absurd (master_directory_cut is_name (.inl rfl) inner).2 (by decide)
  have whole : 47 :: (device ++ [58, 91] ++ name ++ joined 46 names ++ [93]) =
      47 :: device ++ (58 :: 91 :: (name ++ joined 46 names ++ [93])) := by simp
  have first : replaceSubstrings ([58, 91] ++ masterDirectory ++ [93]) [47] true 0
      (47 :: (device ++ [58, 91] ++ name ++ joined 46 names ++ [93])) =
        47 :: device ++ ([58, 91] ++ (name ++ joined 46 names ++ [93])) := by
    rw [whole, replace_behind bracketed_master colon, replaceSubstrings, if_neg unlike,
      replace_none bracketed_master unmarked]
    rfl
  have bracket : replaceSubstrings [58, 91] [47] true 0 ([58, 91] ++ (name ++ joined 46 names ++ [93])) =
      [47] ++ replaceSubstrings [58, 91] [47] true 0 (name ++ joined 46 names ++ [93]) := replace_here rfl
  refine vms_replaced (c := c) (by simp [device_eq]) ?_ first ?_
  · exact fun same => plain c (by simp [device_eq]) (by simp [same])
  · rw [replace_behind rfl colon, bracket,
      replace_none rfl fun here => unmarked (mem_cons_of_mem _ here), ← slashes_joined proper]
    simp [slashes, joined_cons]

end RoundTrip

/-- A directory's path comes back without the slash behind it. The absolute path of a directory "000000" in a
device is the one exception. -/
theorem vms_round_trip {components : List Text} (some_parts : components ≠ [])
    (proper : ∀ component ∈ components, Component component) (absolute slash : Bool)
    (other : absolute = true → components.tail ≠ [masterDirectory]) :
    vmsPathToUnix (unixDirectoryPathToVMS (unixPathOf absolute slash components)) =
      unixPathOf absolute false components := by
  have tokens := directory_tokens proper absolute
  rw [directory_to_vms proper absolute slash some_parts, unixFilePathToVMS, tokens]
  obtain ⟨part, parts, rfl⟩ := List.exists_cons_of_ne_nil some_parts
  obtain ⟨c, tail, part_eq⟩ := List.exists_cons_of_ne_nil (proper part List.mem_cons_self).1
  have file (front : Text) : (front ++ [93] ++ [120]).dropLast = front ++ [93] := List.dropLast_concat
  have last : (part :: parts ++ [[120]]).getLastD [] = [120] := List.getLastD_concat
  cases absolute with
  | true =>
    have result : unixPathOf true false (part :: parts) = joined 47 (part :: parts) := by simp [unixPathOf]
    rw [result]
    match parts with
    | [] =>
      have back := vms_device proper rfl
      rw [← file] at back
      exact back
    | [name] =>
      have back := vms_absolute proper rfl (other rfl)
      rw [← file] at back
      exact back
    | name :: next :: rest =>
      have init : (next :: rest ++ [[120]]).dropLast = next :: rest := List.dropLast_concat
      refine Eq.trans (congrArg vmsPathToUnix ?_) (vms_absolute proper rfl (other rfl))
      calc
        _ = (part ++ ([58, 91] : Text) ++ name ++ joined 46 (next :: rest ++ [[120]]).dropLast ++ ([93] : Text) ++
            (part :: name :: next :: rest ++ [[120]]).getLastD []).dropLast := rfl
        _ = _ := by rw [last, init, file]
  | false =>
    have back := vms_relative proper some_parts
    have plain := (proper part List.mem_cons_self).2 c (by simp [part_eq])
    have head : (unixPathOf false true (part :: parts) ++ [120]).head? = some c := by
      simp [unixPathOf, joined_cons, part_eq]
    have result : unixPathOf false false (part :: parts) = (joined 47 (part :: parts)).drop 1 := by
      simp [unixPathOf]
    rw [head, result, ← back]
    split
    · rename_i none
      cases none
    · rename_i slash'
      rw [Option.some.inj slash'] at plain
      exact absurd (by decide) plain
    · rw [if_neg (by simp), last, List.dropLast_concat, List.dropLast_concat]

theorem disk_round_trip : vmsPathToUnix (unixDirectoryPathToVMS (unixPathOf true true [[97], [98]])) =
      unixPathOf true false [[97], [98]] :=
  vms_round_trip (by simp) (by simp [Component]) true true (by simp [masterDirectory])

/-- The directory "000000" in a device. -/
theorem master_directory_lost : vmsPathToUnix (unixDirectoryPathToVMS [47, 97, 47, 48, 48, 48, 48, 48, 48]) =
    [47, 97] ∧ [47, 97, 47, 48, 48, 48, 48, 48, 48] = unixPathOf true false [[97], masterDirectory] ∧
      ∀ component ∈ [[97], masterDirectory], Component component := by
  refine ⟨by decide, by decide, by simp [Component, masterDirectory]⟩

end Glopen.Ftp
