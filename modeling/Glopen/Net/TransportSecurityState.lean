import Mathlib.Data.List.TakeWhile
import Glopen.Net.RegistryDomain

/-! `net/base/transport_security_state.cc`: the hosts that strict transport security is enabled for,
with the names of `dns_util.cc`. The digest is a parameter. -/
namespace Glopen.Net

open List Option

def hyphen : UInt8 := 45

def appendLabel (label name : Name) : Option Name :=
  if label = [] then some name
  else if name.length + label.length + 1 > 255 then none
  else some (name ++ UInt8.ofNat label.length :: label)

/-- The loop of `DNSDomainFromDot`. The result is read back as a string that ends with a zero. -/
def dnsDomainFrom : Name → Name → Name → Option Name
  | [], label, name => do
    let name ← appendLabel label name
    if name.length + 1 > 255 then none else some (name.takeWhile (· ≠ 0))
  | ch :: rest, label, name =>
    if ch = dot then do
      let name ← appendLabel label name
      dnsDomainFrom rest [] name
    else if label.length ≥ 63 then none
    else dnsDomainFrom rest (label ++ [ch]) name

def dnsDomainFromDot (dotted : Name) : Option Name := dnsDomainFrom dotted [] []

def isSTD3ASCIIValidCharacter (c : UInt8) : Bool :=
  !(c ≤ 0x2c || c ≥ 0x7b || (c ≥ 0x2e && c ≤ 0x2f) || (c ≥ 0x3a && c ≤ 0x40) || (c ≥ 0x5b && c ≤ 0x60))

/-- The loop of `CanonicaliseHost`, with a bound on the labels. A label that is cut short is followed
by the zero at the end, which is not a valid character. -/
def canonicaliseLabels : Nat → Name → Option Name
  | fuel + 1, length :: rest =>
    if length = 0 then some (length :: rest)
    else
      let label := rest.take length.toNat
      if label.length < length.toNat || !label.all isSTD3ASCIIValidCharacter then none
      else
        let label := lowered label
        if label.head? = some hyphen || label.getLast? = some hyphen then none
        else
          (canonicaliseLabels fuel (rest.drop length.toNat)).map fun names => length :: label ++ names
  | _, _ => some []

def canonicaliseHost (host : Name) : Name :=
  match dnsDomainFromDot host with
  | none => []
  | some name => (canonicaliseLabels name.length name).getD []

/-- The positions that the loops over a canonical name stop at, as what follows them, with a bound on
the labels. -/
def domainsFrom : Nat → Name → List Name
  | fuel + 1, length :: rest =>
    if length = 0 then [] else (length :: rest) :: domainsFrom fuel (rest.drop length.toNat)
  | _, _ => []

def domains (name : Name) : List Name := domainsFrom name.length name

structure PreloadedSTS where
  includeSubdomains : Bool
  dnsName : Name

def kPreloadedSTS : List PreloadedSTS :=
  [⟨false, [3, 119, 119, 119, 6, 112, 97, 121, 112, 97, 108, 3, 99, 111, 109]⟩,
    ⟨false, [3, 119, 119, 119, 6, 101, 108, 97, 110, 101, 120, 3, 98, 105, 122]⟩,
    ⟨true, [6, 106, 111, 116, 116, 105, 116, 3, 99, 111, 109]⟩]

/-- `include_subdomains` of the preloaded host, if the name is one or below one. -/
def isPreloadedSTS (canonicalised : Name) : Option Bool :=
  (domains canonicalised).findSome? fun domain =>
    (kPreloadedSTS.find? fun preloaded => domain = preloaded.dnsName &&
      (preloaded.includeSubdomains || domain = canonicalised)).map (·.includeSubdomains)

inductive Mode where
  | strict | opportunistic | spdyOnly
deriving DecidableEq

structure DomainState where
  mode : Mode
  created : Int
  expiry : Int
  includeSubdomains : Bool
deriving DecidableEq

abbrev Digest := Name

/-- `firstEnabled` is not in the code: when an entry came to the map that was not there. -/
structure TransportSecurityState where
  enabledHosts : Digest → Option DomainState
  firstEnabled : Digest → Option Int

namespace TransportSecurityState

def new : TransportSecurityState := ⟨fun _ => none, fun _ => none⟩

def insert (now : Int) (host : Digest) (entry : DomainState) (state : TransportSecurityState) :
    TransportSecurityState where
  enabledHosts x := if x = host then some entry else state.enabledHosts x
  firstEnabled x :=
    if x = host ∧ state.enabledHosts host = none then some now else state.firstEnabled x

def eraseIf (gone : Digest → DomainState → Bool) (state : TransportSecurityState) :
    TransportSecurityState where
  enabledHosts x := (state.enabledHosts x).filter fun entry => !gone x entry
  firstEnabled x := if (state.enabledHosts x).any (gone x) then none else state.firstEnabled x

section Hosts

variable (sha256 : Name → Digest) (now : Int)

/-- The loop of `IsEnabledForHost` from one position on; `first` is `i == 0`. The entry that is found
is written to the result even where the answer is no. -/
def lookup : Bool → List Name → TransportSecurityState →
    TransportSecurityState × Option DomainState × Bool
  | _, [], state => (state, none, false)
  | first, domain :: rest, state =>
    match state.enabledHosts (sha256 domain) with
    | none => lookup false rest state
    | some entry =>
      if now > entry.expiry then
        lookup false rest (state.eraseIf fun x _ => x = sha256 domain)
      else (state, some entry, first || entry.includeSubdomains)

def isEnabledForHost (host : Name) (state : TransportSecurityState) :
    TransportSecurityState × Option DomainState × Bool :=
  let canonicalised := canonicaliseHost host
  if canonicalised = [] then (state, none, false)
  else
    match isPreloadedSTS canonicalised with
    | some includeSubdomains => (state, some ⟨.strict, 0, 0, includeSubdomains⟩, true)
    | none => lookup sha256 now true (domains canonicalised) state

def enableHost (host : Name) (entry : DomainState) (state : TransportSecurityState) :
    TransportSecurityState :=
  let canonicalised := canonicaliseHost host
  if canonicalised = [] then state
  else if (isPreloadedSTS canonicalised).isSome then state
  else
    let (state, existing, enabled) := isEnabledForHost sha256 now host state
    let entry :=
      if enabled then { entry with created := (existing.map (·.created)).getD entry.created } else entry
    state.insert now (sha256 canonicalised) entry

def deleteSince (time : Int) (state : TransportSecurityState) : TransportSecurityState :=
  state.eraseIf fun _ entry => decide (entry.created ≥ time)

end Hosts

end TransportSecurityState

/-! The canonical names of `net/base/transport_security_state.cc`, label by label. -/
def wire (labels : List Name) : Name := labels.flatMap fun label => UInt8.ofNat label.length :: label

def hostLabels (host : Name) : List Name := (host.splitOn dot).filter (· ≠ [])

def ancestry : List Name → List (List Name)
  | [] => []
  | label :: labels => (label :: labels) :: ancestry labels

structure ValidLabel (label : Name) : Prop where
  some_byte : label ≠ []
  short : label.length ≤ 63
  chars : label.all isSTD3ASCIIValidCharacter = true
  front : label.head? ≠ some hyphen
  back : label.getLast? ≠ some hyphen

structure ValidHost (host : Name) : Prop where
  some_label : hostLabels host ≠ []
  labels : ∀ label ∈ hostLabels host, ValidLabel label
  short : (wire (hostLabels host)).length ≤ 254

variable {label : Name}

section Wire

theorem wire_cons (label : Name) (labels : List Name) :
    wire (label :: labels) = UInt8.ofNat label.length :: (label ++ wire labels) := rfl

theorem wire_length (labels : List Name) : labels.length ≤ (wire labels).length := by
  induction labels with
  | nil => exact Nat.le_refl 0
  | cons label labels rest =>
    rw [wire_cons, length_cons, length_cons, length_append]
    omega

theorem lowered_length (label : Name) : (lowered label).length = label.length := length_map ..

theorem length_byte (short : label.length ≤ 63) : (UInt8.ofNat label.length).toNat = label.length := by
  rw [UInt8.toNat_ofNat']
  omega

theorem length_ne_zero (some_byte : label ≠ []) (short : label.length ≤ 63) : UInt8.ofNat label.length ≠ 0 := by
  intro zero
  have its := length_byte short
  rw [zero] at its
  exact some_byte (length_eq_zero_iff.mp its.symm)

variable {labels : List Name}

theorem domainsFrom_wire (fuel : Nat) (enough : labels.length ≤ fuel)
    (valid : ∀ label ∈ labels, label ≠ [] ∧ label.length ≤ 63) :
    domainsFrom fuel (wire labels) = (ancestry labels).map wire := by
  induction labels generalizing fuel with
  | nil =>
    cases fuel <;> rfl
  | cons label labels rest =>
    obtain ⟨some_byte, short⟩ := valid label (mem_cons_self ..)
    cases fuel with
    | zero => cases enough
    | succ fuel =>
      rw [wire_cons, domainsFrom, if_neg (length_ne_zero some_byte short), length_byte short,
        drop_left, rest fuel (Nat.le_of_succ_le_succ enough) fun other there =>
          valid other (mem_cons_of_mem _ there)]
      rfl

theorem ValidLabel.lowered (valid : ValidLabel label) : (lowered label ≠ [] ∧ (lowered label).length ≤ 63) ∧
      (Glopen.Net.lowered label).head? ≠ some hyphen ∧
      (Glopen.Net.lowered label).getLast? ≠ some hyphen := by
  have other : ∀ c : UInt8, lowerByte c = hyphen → c = hyphen := by
    intro c
    rw [lowerByte, hyphen]
    split
    · rename_i upper
      intro same
      have value := congrArg UInt8.toNat same
      rw [UInt8.toNat_add] at value
      have low := UInt8.le_iff_toNat_le.mp upper.1
      have high := UInt8.le_iff_toNat_le.mp upper.2
      simp at value low high
      omega
    · exact id
  refine ⟨⟨?_, ?_⟩, ?_, ?_⟩
  · rw [Glopen.Net.lowered, ne_eq, map_eq_nil_iff]
    exact valid.some_byte
  · rw [lowered_length]
    exact valid.short
  · rw [Glopen.Net.lowered, List.head?_map]
    intro its
    obtain ⟨c, head, low⟩ := map_eq_some_iff.mp its
    exact valid.front (head.trans (congrArg some (other c low)))
  · rw [Glopen.Net.lowered, List.getLast?_map]
    intro its
    obtain ⟨c, last, low⟩ := map_eq_some_iff.mp its
    exact valid.back (last.trans (congrArg some (other c low)))

theorem canonicaliseLabels_wire (fuel : Nat) (enough : labels.length ≤ fuel)
    (valid : ∀ label ∈ labels, ValidLabel label) :
    canonicaliseLabels fuel (wire labels) = some (wire (labels.map lowered)) := by
  induction labels generalizing fuel with
  | nil => cases fuel <;> rfl
  | cons label labels rest =>
    have its := valid label (mem_cons_self ..)
    obtain ⟨-, front, back⟩ := its.lowered
    cases fuel with
    | zero => cases enough
    | succ fuel =>
      rw [wire_cons, canonicaliseLabels, if_neg (length_ne_zero its.some_byte its.short),
        length_byte its.short, take_left, drop_left,
        rest fuel (Nat.le_of_succ_le_succ enough) fun other there =>
          valid other (mem_cons_of_mem _ there)]
      simp [its.chars, front, back, wire_cons, lowered_length]

end Wire

section Split

theorem appendLabel_ok {name : Name} (room : (name ++ wire ([label].filter (· ≠ []))).length ≤ 254) :
    appendLabel label name = some (name ++ wire ([label].filter (· ≠ []))) := by
  rw [appendLabel]
  split
  · rename_i empty
    simp [empty, wire]
  · rename_i some_byte
    have one : [label].filter (· ≠ []) = [label] := by simp [some_byte]
    rw [one] at room ⊢
    rw [wire_cons, length_append, length_cons, length_append] at room
    rw [if_neg (by omega), wire_cons]
    simp [wire]

theorem first_label (rest acc : Name) :
    ∃ label ∈ List.splitOnPPrepend (· == dot) rest acc, acc.length ≤ label.length := by
  induction rest generalizing acc with
  | nil => exact ⟨acc.reverse, mem_singleton_self _, Nat.le_of_eq (length_reverse).symm⟩
  | cons ch rest more =>
    rw [List.splitOnPPrepend]
    split
    · exact ⟨acc.reverse, mem_cons_self .., Nat.le_of_eq (length_reverse).symm⟩
    · obtain ⟨label, there, longer⟩ := more (ch :: acc)
      exact ⟨label, there, Nat.le_of_succ_le longer⟩

theorem dnsDomainFrom_eq (rest acc name : Name)
    (short : ∀ label ∈ (List.splitOnPPrepend (· == dot) rest acc).filter (· ≠ []), label.length ≤ 63)
    (room : (name ++ wire ((List.splitOnPPrepend (· == dot) rest acc).filter (· ≠ []))).length ≤ 254) :
    dnsDomainFrom rest acc.reverse name = some ((name ++ wire
      ((List.splitOnPPrepend (· == dot) rest acc).filter (· ≠ []))).takeWhile (· ≠ 0)) := by
  induction rest generalizing acc name with
  | nil =>
    rw [List.splitOnPPrepend] at room ⊢
    rw [dnsDomainFrom, appendLabel_ok room]
    simp only [bind_eq_bind, bind_some]
    rw [if_neg (by omega)]
  | cons ch rest more =>
    rw [dnsDomainFrom]
    rw [List.splitOnPPrepend] at short room ⊢
    by_cases here : ch = dot
    · have same : (ch == dot) = true := by simpa using here
      rw [if_pos here]
      rw [if_pos same] at short room ⊢
      have parts : (acc.reverse :: List.splitOnPPrepend (· == dot) rest []).filter (· ≠ []) =
          [acc.reverse].filter (· ≠ []) ++ (List.splitOnPPrepend (· == dot) rest []).filter (· ≠ []) := by
        rw [← filter_append]
        rfl
      have wires : ∀ labels labels', wire (labels ++ labels') = wire labels ++ wire labels' :=
        fun _ _ => flatMap_append
      rw [parts] at short room ⊢
      rw [wires, ← append_assoc] at room ⊢
      rw [appendLabel_ok (Nat.le_trans (prefix_append _ _).length_le room)]
      exact more [] _ (fun label there => short label (mem_append_right _ there)) room
    · have other : ¬ (ch == dot) = true := by simpa using here
      rw [if_neg here]
      rw [if_neg other] at short room ⊢
      obtain ⟨label, there, longer⟩ := first_label rest (ch :: acc)
      have some_byte : label ≠ [] := by
        rintro rfl
        cases longer
      have fits := short label (mem_filter.mpr ⟨there, by simpa using some_byte⟩)
      rw [length_cons] at longer
      rw [if_neg (by rw [length_reverse]; omega)]
      have next := more (ch :: acc) name short room
      rw [reverse_cons] at next
      exact next

variable {host : Name}

theorem canonical_name (valid : ValidHost host) :
    canonicaliseHost host = wire ((hostLabels host).map lowered) := by
  have split := dnsDomainFrom_eq host [] [] (fun label there => (valid.labels label there).short) valid.short
  have no_zero : ∀ byte ∈ wire (hostLabels host), decide (byte ≠ 0) = true := by
    intro byte there
    obtain ⟨label, inside, its⟩ := mem_flatMap.mp there
    have valid := valid.labels label inside
    rw [decide_eq_true_eq]
    rcases mem_cons.mp its with rfl | char
    · exact length_ne_zero valid.some_byte valid.short
    · rintro rfl
      have bad := List.all_eq_true.mp valid.chars 0 char
      exact absurd bad (by decide)
  have whole : (wire (hostLabels host)).takeWhile (· ≠ 0) = wire (hostLabels host) :=
    takeWhile_eq_self_iff.mpr no_zero
  have split : dnsDomainFromDot host = some ((wire (hostLabels host)).takeWhile (· ≠ 0)) := split
  rw [canonicaliseHost, split, whole]
  simp only
  rw [ canonicaliseLabels_wire _ (wire_length _) valid.labels]
  rfl

theorem canonical_domains (valid : ValidHost host) :
    domains (canonicaliseHost host) = (ancestry ((hostLabels host).map lowered)).map wire := by
  rw [canonical_name valid, domains]
  refine domainsFrom_wire _ (wire_length _) fun label there => ?_
  obtain ⟨label', inside, rfl⟩ := List.mem_map.mp there
  exact (valid.labels label' inside).lowered.1

end Split

end Glopen.Net
