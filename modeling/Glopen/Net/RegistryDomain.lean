import Mathlib.Algebra.Group.Nat.Defs
import Mathlib.Data.List.Basic

/-! `net/base/registry_controlled_domain.cc`: the registry of a host. -/
namespace Glopen.Net

abbrev Name := List UInt8

scoped instance lawfulName : LawfulBEq Name := inferInstance

def dot : UInt8 := 46

inductive RuleType where
  | normal | exception | wildcard
deriving DecidableEq

structure DomainRule where
  name : Name
  type : RuleType
deriving DecidableEq

def lowerByte (c : UInt8) : UInt8 := if 65 ≤ c ∧ c ≤ 90 then c + 32 else c

def lowered (name : Name) : Name := name.map lowerByte

/-- `base::strncasecmp`; a string ends with a zero byte. -/
def strncasecmp : Name → Name → Nat → Int
  | _, _, 0 => 0
  | s, t, n + 1 =>
    let a := lowerByte (s.headD 0)
    let b := lowerByte (t.headD 0)
    if a ≠ b then (a.toNat : Int) - b.toNat
    else if a = 0 then 0
    else strncasecmp s.tail t.tail n

/-- A `FindDomainPtr`. -/
abbrev FindDomain := Name → Option DomainRule

structure Decision where
  length : Nat
  rule : Option (Name × DomainRule)
deriving DecidableEq

def findDot (host : Name) (start : Nat) : Option Nat :=
  ((host.drop start).findIdx? (· == dot)).map (· + start)

/-- `next_dot >= host_check_len`; `npos` is above every length. -/
def atOrBehind (position : Option Nat) (checkLen : Nat) : Prop := ∀ p, position = some p → checkLen ≤ p

instance (position : Option Nat) (checkLen : Nat) : Decidable (atOrBehind position checkLen) :=
  match position with
  | none => isTrue fun _ impossible => by cases impossible
  | some p => decidable_of_iff (checkLen ≤ p) ⟨fun h _ same => by cases same; exact h, fun h => h p rfl⟩

section Walk

variable (findDomain : FindDomain) (host : Name) (checkBegin checkLen : Nat)

/-- The length for a rule that matches at `currStart`. -/
def matchedLength (prevStart : Option Nat) (currStart : Nat) (nextDot : Option Nat)
    (type : RuleType) : Nat :=
  match type, prevStart with
  | .wildcard, some prev => if prev = checkBegin then 0 else host.length - prev
  | .exception, _ =>
    match nextDot with
    | none => 0
    | some d => host.length - d - 1
  | _, _ => if currStart = checkBegin then 0 else host.length - currStart

/-- `while (1)`, with a bound on the passes; `none`: the bound was reached. -/
def walk (allowUnknown : Bool) : Nat → Option Nat → Nat → Option Nat → Option Decision
  | 0, _, _, _ => none
  | fuel + 1, prevStart, currStart, nextDot =>
    let domain := (host.drop currStart).take (checkLen - currStart)
    let matched := (findDomain domain).filter fun rule =>
      strncasecmp domain rule.name (checkLen - currStart) = 0
    match matched with
    | some rule =>
      some ⟨matchedLength host checkBegin prevStart currStart nextDot rule.type, some (domain, rule)⟩
    | none =>
      if atOrBehind nextDot checkLen then
        some ⟨if allowUnknown then host.length - currStart else 0, none⟩
      else
        let next := nextDot.getD 0 + 1
        walk allowUnknown fuel (some currStart) next (findDot host next)

end Walk

/-- `host_check_len`, where the host does not end with two dots. -/
def checkLength (host : Name) : Option Nat :=
  if host.getLast? = some dot then
    if host.dropLast.getLast? = some dot then none else some (host.length - 1)
  else some host.length

def getRegistryLengthImpl (findDomain : FindDomain) (host : Name) (allowUnknown : Bool) :
    Option Decision :=
  match host.findIdx? (· != dot) with
  | none => some ⟨0, none⟩
  | some checkBegin =>
    match checkLength host with
    | none => some ⟨0, none⟩
    | some checkLen =>
      let nextDot := findDot host checkBegin
      if atOrBehind nextDot checkLen then some ⟨0, none⟩
      else walk findDomain host checkBegin checkLen allowUnknown (host.length + 1) none checkBegin nextDot

/-- `rfind('.', position)`. -/
def rfindDot (host : Name) (position : Nat) : Option Nat :=
  let front := host.take (position + 1)
  (front.reverse.findIdx? (· == dot)).map fun i => front.length - 1 - i

def getDomainAndRegistryImpl (findDomain : FindDomain) (host : Name) : Option Name :=
  (getRegistryLengthImpl findDomain host true).map fun decision =>
    if decision.length = 0 ∨ decision.length > host.length - 2 then []
    else
      match rfindDot host (host.length - decision.length - 2) with
      | none => host
      | some position => host.drop (position + 1)

structure RuleSet where
  type : Name → Option RuleType
  lower : ∀ name, (type name).isSome → lowered name = name
  noNul : ∀ name, (type name).isSome → 0 ∉ name

structure Finder (rules : RuleSet) where
  find : FindDomain
  right : ∀ name type, rules.type name = some type → find name = some ⟨name, type⟩

section Semantics

variable (rules : RuleSet)

def joined (labels : List Name) : Name := [dot].intercalate labels

def longestMatch : List Name → Option (Nat × DomainRule)
  | [] => none
  | label :: rest =>
    match rules.type (lowered (joined (label :: rest))) with
    | some type => some (0, ⟨lowered (joined (label :: rest)), type⟩)
    | none => (longestMatch rest).map fun (before, rule) => (before + 1, rule)

/-- The number of labels before the registry: a wildcard takes one more label, where there is one,
an exception one less. -/
def registryStart (before : Nat) : RuleType → Nat
  | .normal => before
  | .wildcard => before - 1
  | .exception => before + 1

/-- The length of the registry that starts behind some labels, with the trailing dot. A host that is
a registry has none. -/
def lengthFrom (labels : List Name) (trailing : Name) (start : Nat) : Nat :=
  if start = 0 ∨ labels.length ≤ start then 0 else (joined (labels.drop start)).length + trailing.length

def registry (labels : List Name) (trailing : Name) (allowUnknown : Bool) : Decision :=
  if labels.length ≤ 1 then ⟨0, none⟩
  else
    match longestMatch rules labels with
    | some (before, rule) =>
      ⟨lengthFrom labels trailing (registryStart before rule.type),
        some (joined (labels.drop before), rule)⟩
    | none => ⟨if allowUnknown then lengthFrom labels trailing (labels.length - 1) else 0, none⟩

/-- The answer for a candidate: the rule that it names, or none that the comparison accepts. For a
name in lower case the first is what a perfect hash promises. -/
def Judged (find : FindDomain) (candidate : Name) : Prop :=
  match rules.type (lowered candidate) with
  | some type => lowered candidate = candidate ∨ find candidate = some ⟨lowered candidate, type⟩
  | none => ∀ rule, find candidate = some rule → strncasecmp candidate rule.name candidate.length ≠ 0

def JudgedToMatch (find : FindDomain) : List Name → Prop
  | [] => True
  | label :: rest =>
    Judged rules find (joined (label :: rest)) ∧
      (rules.type (lowered (joined (label :: rest))) = none → JudgedToMatch find rest)

end Semantics

end Glopen.Net
