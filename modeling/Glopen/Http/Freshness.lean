import Glopen.Http.HttpResponseHeaders

/-! When a response is fresh, in 64-bit times and in unbounded ones. -/
namespace Glopen.Http

open Glopen.Base Option

/-- What the getters find in the headers; a date is in microseconds, as `Time::FromString` has it. -/
structure FreshnessValues where
  neverFresh : Bool
  maxAge : Option RawText
  age : Option RawText
  date : Option Int
  expires : Option Int
  lastModified : Option Int
  responseCode : Int
  mustRevalidate : Bool

section Getters

variable (headers : HttpResponseHeaders)

def HttpResponseHeaders.hasHeaderValue (name value : RawText) : Bool :=
  (headers.valuesOf name).any fun temp => temp.map toLowerASCII = value.map toLowerASCII

/-- What is behind `max-age=` in the first value that begins so. -/
def HttpResponseHeaders.getMaxAgeText : Option RawText :=
  let kMaxAgePrefix := ascii "max-age="
  ((headers.valuesOf (ascii "cache-control")).find? fun value =>
    kMaxAgePrefix.length < value.length &&
      lowerCaseEqualsASCII (value.take kMaxAgePrefix.length) kMaxAgePrefix).map
        (List.drop kMaxAgePrefix.length)

def HttpResponseHeaders.getTimeValuedHeader (fromString : RawText → Option Int) (name : RawText) :
    Option Int :=
  (headers.enumerateHeader 0 name).bind fun found => fromString found.2

def HttpResponseHeaders.freshnessValues (fromString : RawText → Option Int) : FreshnessValues where
  neverFresh := headers.hasHeaderValue (ascii "cache-control") (ascii "no-cache") ||
    headers.hasHeaderValue (ascii "cache-control") (ascii "no-store") ||
    headers.hasHeaderValue (ascii "pragma") (ascii "no-cache") ||
    headers.hasHeaderValue (ascii "vary") (ascii "*")
  maxAge := headers.getMaxAgeText
  age := (headers.enumerateHeader 0 (ascii "Age")).map Prod.snd
  date := headers.getTimeValuedHeader fromString (ascii "Date")
  expires := headers.getTimeValuedHeader fromString (ascii "Expires")
  lastModified := headers.getTimeValuedHeader fromString (ascii "Last-Modified")
  responseCode := headers.responseCode
  mustRevalidate := headers.hasHeaderValue (ascii "cache-control") (ascii "must-revalidate")

end Getters

def kMicrosecondsPerSecond : Int := 1000000

def kint64max : Int := 2 ^ 63 - 1

/-- The value fits an `int64`. -/
def IsInt64 (n : Int) : Prop := -2 ^ 63 ≤ n ∧ n ≤ kint64max

instance (n : Int) : Decidable (IsInt64 n) := inferInstanceAs (Decidable (_ ∧ _))

def checked (n : Int) : Option Int := if IsInt64 n then some n else none

def wrapped (n : Int) : Option Int := some (n.bmod (2 ^ 64))

namespace FreshnessValues

section Code

variable (int64 : Int → Option Int) (values : FreshnessValues)

def fromSeconds (secs : Int) : Option Int := int64 (secs * kMicrosecondsPerSecond)

def getFreshnessLifetime (responseTime : Int) : Option Int :=
  if values.neverFresh then some 0
  else
    match values.maxAge with
    | some text => fromSeconds int64 (stringToInt64 text).1
    | none =>
      let dateValue := values.date.getD responseTime
      match values.expires with
      | some expires => if expires > dateValue then int64 (expires - dateValue) else some 0
      | none =>
        let heuristic := if (values.responseCode = 200 ∨ values.responseCode = 203 ∨
            values.responseCode = 206) ∧ values.mustRevalidate = false then
          values.lastModified.filter (· ≤ dateValue) else none
        match heuristic with
        | some lastModified => (int64 (dateValue - lastModified)).map (· / 10)
        | none =>
          if values.responseCode = 300 ∨ values.responseCode = 301 ∨ values.responseCode = 410 then
            some kint64max
          else some 0

/-- `GetAgeValue`, which leaves the age at zero when there is none. -/
def getAgeValue : Option Int :=
  match values.age with
  | some text => fromSeconds int64 (stringToInt64 text).1
  | none => some 0

def getCurrentAge (requestTime responseTime currentTime : Int) : Option Int := do
  let dateValue := values.date.getD responseTime
  let ageValue ← values.getAgeValue int64
  let apparentAge := max 0 (← int64 (responseTime - dateValue))
  let correctedReceivedAge := max apparentAge ageValue
  let responseDelay ← int64 (responseTime - requestTime)
  let correctedInitialAge ← int64 (correctedReceivedAge + responseDelay)
  let residentTime ← int64 (currentTime - responseTime)
  int64 (correctedInitialAge + residentTime)

def requiresValidation (requestTime responseTime currentTime : Int) : Option Bool := do
  let lifetime ← values.getFreshnessLifetime int64 responseTime
  if lifetime = 0 then return true
  return lifetime ≤ (← values.getCurrentAge int64 requestTime responseTime currentTime)

end Code

section Rfc

variable (values : FreshnessValues)

def microseconds (text : RawText) : Int := Ftp.decimal text * kMicrosecondsPerSecond

def lifetime (responseTime : Int) : Option Int :=
  let dateValue := values.date.getD responseTime
  if values.neverFresh then some 0
  else
    match values.maxAge, values.expires with
    | some text, _ => some (microseconds text)
    | none, some expires => some (expires - dateValue)
    | none, none =>
      let heuristic := if (values.responseCode = 200 ∨ values.responseCode = 203 ∨
          values.responseCode = 206) ∧ values.mustRevalidate = false then
        values.lastModified.filter (· ≤ dateValue) else none
      match heuristic with
      | some lastModified => some ((dateValue - lastModified) / 10)
      | none =>
        if values.responseCode = 300 ∨ values.responseCode = 301 ∨ values.responseCode = 410 then
          none
        else some 0

def ageValue : Int := (values.age.map microseconds).getD 0

def correctedReceivedAge (responseTime : Int) : Int :=
  max (max 0 (responseTime - values.date.getD responseTime)) values.ageValue

def currentAge (requestTime responseTime currentTime : Int) : Int :=
  values.correctedReceivedAge responseTime + (responseTime - requestTime) + (currentTime - responseTime)

def fresh (requestTime responseTime currentTime : Int) : Bool :=
  match values.lifetime responseTime with
  | some lifetime =>
    0 < lifetime && values.currentAge requestTime responseTime currentTime < lifetime
  | none => true

end Rfc

section Condition

variable (values : FreshnessValues)

def Digits : Prop :=
  (∀ text, values.maxAge = some text → IsDigits text) ∧ ∀ text, values.age = some text → IsDigits text

def LifetimeFits (responseTime : Int) : Prop :=
  values.neverFresh = true ∨
    match values.maxAge, values.expires with
    | some text, _ => microseconds text ≤ kint64max
    | none, some expires => expires - values.date.getD responseTime ≤ kint64max
    | none, none =>
      (values.responseCode = 200 ∨ values.responseCode = 203 ∨ values.responseCode = 206) →
        values.mustRevalidate = false → ∀ lastModified, values.lastModified = some lastModified →
            values.date.getD responseTime - lastModified ≤ kint64max

def AgeFits (requestTime responseTime currentTime : Int) : Prop :=
  values.ageValue ≤ kint64max ∧ IsInt64 (responseTime - values.date.getD responseTime) ∧
    IsInt64 (responseTime - requestTime) ∧
    IsInt64 (values.correctedReceivedAge responseTime + (responseTime - requestTime)) ∧
    IsInt64 (currentTime - responseTime) ∧
    IsInt64 (values.currentAge requestTime responseTime currentTime)

/-- The lifetime fits, and the age does where it matters: when some lifetime is left. A lifetime
without an end stands for the greatest value, which an age may reach. -/
def Fits (requestTime responseTime currentTime : Int) : Prop :=
  values.LifetimeFits responseTime ∧
    match values.lifetime responseTime with
    | some lifetime =>
      0 < lifetime → values.AgeFits requestTime responseTime currentTime
    | none => values.AgeFits requestTime responseTime currentTime ∧
        values.currentAge requestTime responseTime currentTime < kint64max

end Condition

section Exact

variable {int64 : Int → Option Int} {values : FreshnessValues}
  {requestTime responseTime currentTime : Int}

def Exact (int64 : Int → Option Int) : Prop := ∀ n, IsInt64 n → int64 n = some n

theorem checked_exact : Exact checked := fun _ fits => if_pos fits

theorem wrapped_exact : Exact wrapped := by
  rintro n ⟨low, high⟩
  rw [kint64max] at high
  rw [wrapped, Int.bmod_eq_of_le (by omega) (by omega)]

variable {n : Int} {text : RawText}

theorem checked_some {m : Int} (result : checked n = some m) : IsInt64 n ∧ m = n := by
  rw [checked] at result
  split at result
  · rename_i fits
    exact ⟨fits, (some.inj result).symm⟩
  · cases result

theorem stringToInt64_digits (digits : IsDigits text) :
    (stringToInt64 text).1 = min kint64max (Ftp.decimal text) := by
  have read := (strtol_signed digits (.unsigned)).1
  simp only [stringToInt64, stringToNumber, read, kint64max]
  omega

/-- The digits that are read are exact when their microseconds fit, and only then do they fit. -/
theorem fromSeconds_exact (exact_ : Exact int64) (digits : IsDigits text)
    (fits : microseconds text ≤ kint64max) :
    fromSeconds int64 (stringToInt64 text).1 = some (microseconds text) := by
  rw [microseconds, kMicrosecondsPerSecond, kint64max] at fits
  rw [fromSeconds, stringToInt64_digits digits, microseconds, kMicrosecondsPerSecond, kint64max,
    Int.min_eq_right (by omega)]
  exact exact_ _ ⟨by omega, by rw [kint64max]; omega⟩

theorem fromSeconds_checked (digits : IsDigits text)
    (result : fromSeconds checked (stringToInt64 text).1 = some n) :
    microseconds text ≤ kint64max ∧ n = microseconds text := by
  rw [fromSeconds, stringToInt64_digits digits] at result
  obtain ⟨⟨-, fits⟩, rfl⟩ := checked_some result
  rw [microseconds]
  rw [kMicrosecondsPerSecond, kint64max] at fits ⊢
  omega

/-- The lifetime as the code has it: none below zero, and the greatest value for one without end. -/
def allotted : Option Int → Int
  | some lifetime => max 0 lifetime
  | none => kint64max

theorem lifetime_exact (exact_ : Exact int64) (digits : values.Digits)
    (fits : values.LifetimeFits responseTime) :
    values.getFreshnessLifetime int64 responseTime = some (allotted (values.lifetime responseTime)) := by
  rw [getFreshnessLifetime, lifetime]
  rw [LifetimeFits] at fits
  by_cases never : values.neverFresh = true
  · rw [if_pos never, if_pos never]
    rfl
  · rw [if_neg never, if_neg never]
    have fits := fits.resolve_left never
    cases max_age : values.maxAge with
    | some text =>
      rw [max_age] at fits
      have positive : 0 ≤ microseconds text := by
        rw [microseconds, kMicrosecondsPerSecond]
        omega
      have seconds := fromSeconds_exact exact_ (digits.1 text max_age) fits
      exact seconds.trans (congrArg some (Int.max_eq_right positive).symm)
    | none =>
      rw [max_age] at fits
      cases expires : values.expires with
      | some expires_ =>
        rw [expires] at fits
        simp only [allotted] at fits ⊢
        split
        · rename_i later
          rw [exact_ _ ⟨by omega, fits⟩, Int.max_eq_right (by omega)]
        · rw [Int.max_eq_left (by omega)]
      | none =>
        rw [expires] at fits
        simp only
        split
        · rename_i lastModified heuristic
          split at heuristic
          · rename_i code
            rw [filter_eq_some_iff] at heuristic
            obtain ⟨modified, earlier⟩ := heuristic
            have earlier := of_decide_eq_true earlier
            have small := fits code.1 code.2 lastModified modified
            rw [exact_ _ ⟨by omega, small⟩, map_some, allotted, Int.max_eq_right (by omega)]
          · cases heuristic
        · split
          · rfl
          · rfl

theorem age_exact (exact_ : Exact int64) (digits : values.Digits)
    (fits : values.AgeFits requestTime responseTime currentTime) :
    values.getCurrentAge int64 requestTime responseTime currentTime =
      some (values.currentAge requestTime responseTime currentTime) := by
  obtain ⟨age_fits, apparent, delay, initial, resident, total⟩ := fits
  have age : values.getAgeValue int64 = some values.ageValue := by
    rw [ageValue] at age_fits ⊢
    rw [getAgeValue]
    cases given : values.age with
    | none => rfl
    | some text =>
      rw [given] at age_fits
      exact fromSeconds_exact exact_ (digits.2 text given) age_fits
  rw [getCurrentAge]
  rw [correctedReceivedAge] at initial
  rw [currentAge, correctedReceivedAge] at total ⊢
  simp only [age, bind_eq_bind, bind_some, exact_ _ apparent, exact_ _ delay,
    exact_ _ initial, exact_ _ resident]
  exact exact_ _ total

theorem requiresValidation_exact (exact_ : Exact int64) (digits : values.Digits)
    (fits : values.Fits requestTime responseTime currentTime) :
    values.requiresValidation int64 requestTime responseTime currentTime =
      some (!values.fresh requestTime responseTime currentTime) := by
  obtain ⟨lifetime_fits, age_fits⟩ := fits
  rw [requiresValidation, lifetime_exact exact_ digits lifetime_fits, fresh]
  simp only [bind_eq_bind, bind_some]
  cases left : values.lifetime responseTime with
  | none =>
    rw [left] at age_fits
    rw [allotted, if_neg (by decide), age_exact exact_ digits age_fits.1, bind_some]
    have below := age_fits.2
    simpa using below
  | some lifetime =>
    rw [left] at age_fits
    by_cases some_left : 0 < lifetime
    · have kept : allotted (some lifetime) = lifetime := Int.max_eq_right (by omega)
      simp only
      rw [kept, if_neg (by omega), age_exact exact_ digits (age_fits some_left), bind_some,
        decide_eq_true some_left, Bool.true_and]
      exact congrArg some (Bool.eq_iff_iff.mpr (by simp))
    · have none_left : allotted (some lifetime) = 0 := Int.max_eq_left (by omega)
      simp only
      rw [none_left, if_pos rfl, decide_eq_false some_left]
      rfl

theorem lifetime_checked (digits : values.Digits)
    (result : values.getFreshnessLifetime checked responseTime = some n) : values.LifetimeFits responseTime := by
  rw [getFreshnessLifetime] at result
  rw [LifetimeFits]
  split at result
  · rename_i never
    exact Or.inl never
  · right
    cases max_age : values.maxAge with
    | some text =>
      rw [max_age] at result
      exact (fromSeconds_checked (digits.1 text max_age) result).1
    | none =>
      rw [max_age] at result
      cases expires : values.expires with
      | some expires_ =>
        rw [expires] at result
        simp only at result ⊢
        split at result
        · exact (checked_some result).1.2
        · rw [kint64max]
          omega
      | none =>
        rw [expires] at result
        simp only at result ⊢
        intro code revalidate lastModified modified
        rw [if_pos ⟨code, revalidate⟩, modified] at result
        by_cases earlier : lastModified ≤ values.date.getD responseTime
        · rw [filter_some, if_pos (decide_eq_true earlier), map_eq_some_iff] at result
          obtain ⟨m, result, -⟩ := result
          exact (checked_some result).1.2
        · rw [kint64max]
          omega

theorem age_checked (digits : values.Digits)
    (result : values.getCurrentAge checked requestTime responseTime currentTime = some n) :
    values.AgeFits requestTime responseTime currentTime := by
  rw [getCurrentAge] at result
  simp only [bind_eq_bind, bind_eq_some_iff] at result
  obtain ⟨ageValue_, age, apparent_, apparent, delay_, delay, initial_, initial, resident_,
    resident, total⟩ := result
  obtain ⟨apparent_fits, rfl⟩ := checked_some apparent
  obtain ⟨delay_fits, rfl⟩ := checked_some delay
  obtain ⟨initial_fits, rfl⟩ := checked_some initial
  obtain ⟨resident_fits, rfl⟩ := checked_some resident
  obtain ⟨total_fits, -⟩ := checked_some total
  have same : values.ageValue ≤ kint64max ∧ ageValue_ = values.ageValue := by
    rw [ageValue]
    rw [getAgeValue] at age
    cases given : values.age with
    | none =>
      rw [given] at age
      exact ⟨by decide, (some.inj age).symm⟩
    | some text =>
      rw [given] at age
      exact fromSeconds_checked (digits.2 text given) age
  rw [same.2] at initial_fits total_fits
  exact ⟨same.1, apparent_fits, delay_fits, initial_fits, resident_fits, total_fits⟩

theorem requiresValidation_checked (digits : values.Digits)
    (result : values.requiresValidation checked requestTime responseTime currentTime =
      some (!values.fresh requestTime responseTime currentTime)) :
    values.Fits requestTime responseTime currentTime := by
  have whole := result
  rw [requiresValidation] at result
  simp only [bind_eq_bind, bind_eq_some_iff] at result
  obtain ⟨n, lifetime_result, result⟩ := result
  have lifetime_fits := lifetime_checked digits lifetime_result
  rw [lifetime_exact checked_exact digits lifetime_fits] at lifetime_result
  refine ⟨lifetime_fits, ?_⟩
  rw [fresh] at result
  cases left : values.lifetime responseTime with
  | none =>
    rw [left] at lifetime_result result
    cases lifetime_result
    rw [if_neg (by decide), bind_eq_some_iff] at result
    obtain ⟨age, age_result, later⟩ := result
    have age_fits := age_checked digits age_result
    rw [age_exact checked_exact digits age_fits] at age_result
    cases age_result
    have below := of_decide_eq_false (some.inj later)
    rw [allotted] at below
    exact ⟨age_fits, by omega⟩
  | some lifetime =>
    rw [left] at lifetime_result result
    cases lifetime_result
    intro some_left
    have kept : allotted (some lifetime) = lifetime := Int.max_eq_right (by omega)
    rw [kept, if_neg (by omega), bind_eq_some_iff] at result
    obtain ⟨age, age_result, -⟩ := result
    exact age_checked digits age_result

/-- A greater `max-age` keeps a response fresh. -/
theorem fresh_mono {longer : RawText} (max_age : values.maxAge = some text)
    (more : Ftp.decimal text ≤ Ftp.decimal longer)
    (is_fresh : values.fresh requestTime responseTime currentTime = true) :
    FreshnessValues.fresh { values with maxAge := some longer } requestTime responseTime currentTime =
      true := by
  have longer_micros : microseconds text ≤ microseconds longer := by
    rw [microseconds, microseconds, kMicrosecondsPerSecond]
    omega
  have same_age : currentAge { values with maxAge := some longer } requestTime responseTime
      currentTime = values.currentAge requestTime responseTime currentTime := rfl
  rw [fresh, lifetime] at is_fresh ⊢
  rw [same_age]
  by_cases never : values.neverFresh = true
  · rw [if_pos never] at is_fresh
    simp at is_fresh
  · rw [if_neg never] at is_fresh ⊢
    simp only [max_age, Bool.and_eq_true, decide_eq_true_eq] at is_fresh ⊢
    omega

end Exact

end FreshnessValues

open FreshnessValues

/-- The language gives the decision exactly when what it is computed from fits. The compiled code
gives it then, and keeps a response fresh under every greater `max-age` that fits. -/
theorem freshness_iff (fromString : RawText → Option Int) (headers : HttpResponseHeaders)
    (requestTime responseTime currentTime : Int) (digits : (headers.freshnessValues fromString).Digits) :
    let values := headers.freshnessValues fromString
    (values.requiresValidation checked requestTime responseTime currentTime =
        some (!values.fresh requestTime responseTime currentTime) ↔
      values.Fits requestTime responseTime currentTime) ∧
    (values.Fits requestTime responseTime currentTime →
      values.requiresValidation wrapped requestTime responseTime currentTime =
        some (!values.fresh requestTime responseTime currentTime)) ∧
    ∀ (longer : HttpResponseHeaders) (text text' : RawText), values.maxAge = some text →
      longer.freshnessValues fromString = { values with maxAge := some text' } → IsDigits text' →
      Ftp.decimal text ≤ Ftp.decimal text' →
      values.Fits requestTime responseTime currentTime →
      (longer.freshnessValues fromString).Fits requestTime responseTime currentTime →
      values.requiresValidation wrapped requestTime responseTime currentTime = some false →
        (longer.freshnessValues fromString).requiresValidation wrapped requestTime responseTime
          currentTime = some false := by
  refine ⟨⟨requiresValidation_checked digits, requiresValidation_exact checked_exact digits⟩,
    requiresValidation_exact wrapped_exact digits, ?_⟩
  intro longer text text' max_age same digits' more fits fits' result
  rw [requiresValidation_exact wrapped_exact digits fits] at result
  have is_fresh := Bool.not_eq_eq_eq_not.mp (some.inj result)
  have still := fresh_mono max_age more is_fresh
  rw [← same] at still
  have longer_digits : (longer.freshnessValues fromString).Digits := by
    refine ⟨fun given is_given => ?_, fun given is_given => ?_⟩
    · rw [same] at is_given
      cases is_given
      exact digits'
    · rw [same] at is_given
      exact digits.2 given is_given
  rw [requiresValidation_exact wrapped_exact longer_digits fits', still]
  rfl

def maxAgeResponse (seconds : String) : HttpResponseHeaders :=
  .parse (ascii "HTTP/1.1 200 OK" ++ [0] ++ ascii "Cache-Control: max-age=" ++ ascii seconds ++ [0, 0])

theorem hour_fresh : ((maxAgeResponse "3600").freshnessValues fun _ => none).requiresValidation
    checked 0 0 0 = some false ↔ ((maxAgeResponse "3600").freshnessValues fun _ => none).Fits 0 0 0 := by
  have digits : ((maxAgeResponse "3600").freshnessValues fun _ => none).Digits := by
    have max_age : ((maxAgeResponse "3600").freshnessValues fun _ => none).maxAge =
        some (ascii "3600") := by decide +kernel
    have age : ((maxAgeResponse "3600").freshnessValues fun _ => none).age = none := by
      decide +kernel
    refine ⟨fun text is_text => ?_, fun text is_text => ?_⟩
    · rw [max_age] at is_text
      cases is_text
      exact ⟨by decide, List.all_eq_true.mp (by decide)⟩
    · rw [age] at is_text
      cases is_text
  exact (freshness_iff (fun _ => none) (maxAgeResponse "3600") 0 0 0 digits).1

/-- The greatest number of seconds that fits is fresh, and the next is not. -/
theorem long_max_age_stale : ((maxAgeResponse "9223372036854").freshnessValues fun _ => none).requiresValidation
        wrapped 0 0 0 = some false ∧
      ((maxAgeResponse "9223372036855").freshnessValues fun _ => none).fresh 0 0 0 = true ∧
      ((maxAgeResponse "9223372036855").freshnessValues fun _ => none).requiresValidation
        wrapped 0 0 0 = some true := by
  decide +kernel

end Glopen.Http
