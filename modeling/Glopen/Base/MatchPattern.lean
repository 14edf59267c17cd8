import Mathlib.Data.List.Basic

/-! `MatchPatternT` of `base/string_util.cc`. A list is what a pointer has in front of the NUL. -/
namespace Glopen.Base

def isWildcard (c : Nat) : Bool := c = 42 || c = 63

def eatSameChars : Bool → List Nat → List Nat → List Nat × List Nat
  | escaped, p :: pattern, s :: string =>
    if !escaped && isWildcard p then (p :: pattern, s :: string)
    else if !escaped && p = 92 then eatSameChars true pattern (s :: string)
    else if p = s then eatSameChars false pattern string
    -- the pointer goes back to the backslash
    else if escaped then (92 :: p :: pattern, s :: string)
    else (p :: pattern, s :: string)
  | _, pattern, string => (pattern, string)

def eatWildcard (pattern : List Nat) : List Nat := pattern.dropWhile isWildcard

def anySuffix (found : List Nat → Bool) : List Nat → Bool
  | [] => false
  | c :: eval => found (c :: eval) || anySuffix found eval

def kMaxDepth : Nat := 16

/-- `levels` is what is left of the depth. -/
def matchLevels : Nat → List Nat → List Nat → Bool
  | 0, _, _ => false
  | levels + 1, eval, pattern =>
    let (pattern, eval) := eatSameChars false pattern eval
    match eval, pattern with
    | [], pattern => eatWildcard pattern = []
    | _ :: _, [] => false
    | c :: eval, p :: more =>
      if p = 63 then matchLevels levels (c :: eval) more || matchLevels levels eval more
      else if p = 42 then
        anySuffix (fun eval => matchLevels levels eval more) (c :: eval) || eatWildcard (p :: more) = []
      else false

def matchPatternT (eval pattern : List Nat) (depth : Nat) : Bool :=
  matchLevels (kMaxDepth + 1 - depth) eval pattern

def Glob : List Nat → List Nat → Prop
  | [], string => string = []
  | 42 :: pattern, string => ∃ any rest, string = any ++ rest ∧ Glob pattern rest
  | 63 :: pattern, string => Glob pattern string ∨ ∃ c rest, string = c :: rest ∧ Glob pattern rest
  | [92], _ => False
  | 92 :: c :: pattern, string => ∃ rest, string = c :: rest ∧ Glob pattern rest
  | c :: pattern, string => ∃ rest, string = c :: rest ∧ Glob pattern rest

def wildcards : List Nat → Nat
  | [] => 0
  | [92] => 0
  | 92 :: _ :: pattern => wildcards pattern
  | c :: pattern => (if isWildcard c then 1 else 0) + wildcards pattern

section Glob

variable {c p : Nat} {pattern string : List Nat}

theorem glob_plain (wild : isWildcard p = false) (slash : p ≠ 92) :
    (Glob (p :: pattern) string ↔ ∃ rest, string = p :: rest ∧ Glob pattern rest) ∧
      wildcards (p :: pattern) = wildcards pattern := by
  have plain : p ≠ 42 ∧ p ≠ 63 := by simpa [isWildcard] using wild
  constructor
  · rw [Glob]
    · exact plain.1
    · exact plain.2
    · exact fun same => absurd same slash
    · exact fun _ _ same => absurd same slash
  · rw [wildcards, wild]
    · simp
    · exact fun same => absurd same slash
    · exact fun _ _ same => absurd same slash

theorem glob_empty : Glob pattern [] ↔ eatWildcard pattern = [] := by
  induction pattern with
  | nil => simp [Glob, eatWildcard]
  | cons p pattern ih =>
    by_cases star : p = 42
    · subst star
      simpa [Glob, eatWildcard, isWildcard] using ih
    by_cases question : p = 63
    · subst question
      simpa [Glob, eatWildcard, isWildcard] using ih
    have wild : isWildcard p = false := by simp [isWildcard, star, question]
    have stays : eatWildcard (p :: pattern) ≠ [] := by simp [eatWildcard, wild]
    refine iff_of_false ?_ stays
    by_cases slash : p = 92
    · subst slash
      cases pattern <;> simp [Glob]
    · rw [(glob_plain wild slash).1]
      simp

structure Eaten (pattern string : List Nat) (left : List Nat × List Nat) : Prop where
  matched : Glob pattern string ↔ Glob left.1 left.2
  fewer : wildcards left.1 ≤ wildcards pattern
  stuck : left.2 = [] ∨ left.1 = [] ∨ ∃ p more, left.1 = p :: more ∧
    (isWildcard p = true ∨ isWildcard p = false ∧ ¬ Glob left.1 left.2)

theorem glob_escaped : Glob (92 :: c :: pattern) string ↔ ∃ rest, string = c :: rest ∧ Glob pattern rest := by
  rw [Glob]

theorem eatSameChars_eaten : ∀ (pattern string : List Nat),
    Eaten pattern string (eatSameChars false pattern string) ∧
      ∀ s, Eaten (92 :: pattern) (s :: string) (eatSameChars true pattern (s :: string))
  | [], string => by
    refine ⟨⟨Iff.rfl, Nat.le_refl _, .inr (.inl rfl)⟩, fun s => ⟨?_, Nat.zero_le _, .inr (.inl rfl)⟩⟩
    simp [Glob, eatSameChars]
  | p :: pattern, string => by
    constructor
    · cases string with
      | nil => exact ⟨Iff.rfl, Nat.le_refl _, .inl rfl⟩
      | cons s string =>
        rw [eatSameChars]
        by_cases wild : isWildcard p = true
        · rw [if_pos (by simp [wild])]
          exact ⟨Iff.rfl, Nat.le_refl _, .inr (.inr ⟨p, pattern, rfl, .inl wild⟩)⟩
        rw [if_neg (by simp [wild])]
        by_cases slash : p = 92
        · rw [if_pos (by simp [slash]), slash]
          exact (eatSameChars_eaten pattern string).2 s
        rw [if_neg (by simp [slash])]
        have wild : isWildcard p = false := by simpa using wild
        obtain ⟨glob, count⟩ := @glob_plain p pattern (s :: string) wild slash
        by_cases same : p = s
        · rw [if_pos same]
          obtain ⟨matched, fewer, stuck⟩ := (eatSameChars_eaten pattern string).1
          refine ⟨?_, count ▸ fewer, stuck⟩
          rw [glob, ← matched, same]
          simp
        · rw [if_neg same, if_neg (by decide)]
          refine ⟨Iff.rfl, Nat.le_refl _, .inr (.inr ⟨p, pattern, rfl, .inr ⟨by simpa using wild, ?_⟩⟩)⟩
          simp only [glob, List.cons.injEq]
          rintro ⟨rest, ⟨other, -⟩, -⟩
          exact same other.symm
    · intro s
      rw [eatSameChars, if_neg (by simp), if_neg (by simp)]
      by_cases same : p = s
      · rw [if_pos same]
        obtain ⟨matched, fewer, stuck⟩ := (eatSameChars_eaten pattern string).1
        refine ⟨?_, ?_, stuck⟩
        · rw [glob_escaped, ← matched, same]
          simp
        · rw [wildcards]
          exact fewer
      · rw [if_neg same, if_pos rfl]
        refine ⟨Iff.rfl, Nat.le_refl _, .inr (.inr ⟨92, p :: pattern, rfl, .inr ⟨rfl, ?_⟩⟩)⟩
        simp only [glob_escaped, List.cons.injEq]
        rintro ⟨rest, ⟨other, -⟩, -⟩
        exact same other.symm

theorem anySuffix_iff {found : List Nat → Bool} : anySuffix found string = true ↔
    ∃ any c rest, string = any ++ c :: rest ∧ found (c :: rest) = true := by
  induction string with
  | nil => simp [anySuffix]
  | cons s string ih =>
    rw [anySuffix, Bool.or_eq_true, ih]
    constructor
    · rintro (here | ⟨any, c, rest, rfl, there⟩)
      · exact ⟨[], s, string, rfl, here⟩
      · exact ⟨s :: any, c, rest, rfl, there⟩
    · rintro ⟨any, c, rest, split, there⟩
      cases any with
      | nil =>
        cases split
        exact .inl there
      | cons a any =>
        cases split
        exact .inr ⟨any, c, rest, rfl, there⟩

theorem matchLevels_iff {levels : Nat} {eval pattern : List Nat} (enough : wildcards pattern < levels) :
    matchLevels levels eval pattern = true ↔ Glob pattern eval := by
  induction levels generalizing eval pattern with
  | zero => exact absurd enough (Nat.not_lt_zero _)
  | succ levels ih =>
    obtain ⟨matched, fewer, stuck⟩ := (eatSameChars_eaten pattern eval).1
    rw [matched, matchLevels]
    generalize eatSameChars false pattern eval = left at fewer stuck ⊢
    obtain ⟨pattern', eval'⟩ := left
    simp only at fewer stuck ⊢
    cases eval' with
    | nil => simp [glob_empty]
    | cons c eval' =>
      cases pattern' with
      | nil => simp [Glob]
      | cons p more =>
        simp only
        by_cases question : p = 63
        · subst question
          have less : wildcards more < levels := by
            have count : wildcards (63 :: more) = 1 + wildcards more := by simp [wildcards, isWildcard]
            omega
          rw [if_pos rfl, Bool.or_eq_true, ih less, ih less]
          simp [Glob]
        rw [if_neg question]
        by_cases star : p = 42
        · subst star
          have less : wildcards more < levels := by
            have count : wildcards (42 :: more) = 1 + wildcards more := by simp [wildcards, isWildcard]
            omega
          have rest_empty : decide (eatWildcard (42 :: more) = []) = true ↔ Glob more [] := by
            rw [glob_empty, decide_eq_true_eq]
            simp [eatWildcard, isWildcard]
          rw [if_pos rfl, Bool.or_eq_true, anySuffix_iff, rest_empty, Glob]
          constructor
          · rintro (⟨any, d, rest, split, there⟩ | none)
            · exact ⟨any, d :: rest, split, (ih less).mp there⟩
            · exact ⟨c :: eval', [], (List.append_nil _).symm, none⟩
          · rintro ⟨any, rest, split, there⟩
            cases rest with
            | nil => exact .inr there
            | cons d rest => exact .inl ⟨any, d, rest, split, (ih less).mpr there⟩
        · rw [if_neg star]
          have plain : isWildcard p = false := by simp [isWildcard, star, question]
          simp only [List.cons_ne_nil, List.cons.injEq, false_or] at stuck
          obtain ⟨q, rest, ⟨same, -⟩, either⟩ := stuck
          rcases either with wild | ⟨-, unmatched⟩
          · rw [← same, plain] at wild
            cases wild
          · exact iff_of_false (by simp) unmatched

end Glob

/-- Up to 16 wildcards the pattern matches what it stands for. -/
theorem matchPatternT_iff {pattern : List Nat} (few : wildcards pattern ≤ 16) (eval : List Nat) :
    matchPatternT eval pattern 0 = true ↔ Glob pattern eval :=
  matchLevels_iff (Nat.lt_succ_of_le few)

/-- The pattern "H?l*\\*". -/
theorem hello_matches : matchPatternT [72, 101, 108, 108, 111, 42] [72, 63, 108, 42, 92, 42] 0 = true ↔
    Glob [72, 63, 108, 42, 92, 42] [72, 101, 108, 108, 111, 42] :=
  matchPatternT_iff (by decide) _

end Glopen.Base
