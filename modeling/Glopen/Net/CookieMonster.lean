import Mathlib.Data.List.Dedup
import Glopen.Net.RegistryDomain

/-! `net/base/cookie_monster.cc`: the cookie map, and how cookies are set, found and deleted. Parsed
URLs, the registrable domain and the order that `std::partial_sort` leaves are parameters. -/
namespace Glopen.Net

def slash : UInt8 := 47

structure CanonicalCookie where
  name : Name
  value : Name
  path : Name
  creationDate : Int
  lastAccessDate : Int
  expiryDate : Int
  hasExpires : Bool
  isSecure : Bool
  isHttpOnly : Bool
deriving DecidableEq

namespace CanonicalCookie

def isExpired (cookie : CanonicalCookie) (current : Int) : Bool :=
  cookie.hasExpires && decide (current ≥ cookie.expiryDate)

def isEquivalent (cookie ecc : CanonicalCookie) : Bool :=
  cookie.name = ecc.name && cookie.path = ecc.path

def isOnPath (cookie : CanonicalCookie) (urlPath : Name) : Bool :=
  if cookie.path = [] then false
  else if !cookie.path.isPrefixOf urlPath then false
  else if cookie.path.length ≠ urlPath.length && cookie.path.getLast? ≠ some slash &&
      urlPath[cookie.path.length]? ≠ some slash then false
  else true

end CanonicalCookie

structure CookieItem where
  key : Name
  cookie : CanonicalCookie
deriving DecidableEq

scoped instance lawfulPlace : LawfulBEq (CookieItem × Nat) := inferInstance

/-- A parsed URL. `isSecure` is `SchemeIsSecure`. -/
structure Url where
  scheme : Name
  host : Name
  path : Name
  hostIsIPAddress : Bool
  isSecure : Bool

structure CookieMonster where
  cookies : List CookieItem
  lastTimeSeen : Int
  lastAccessThreshold : Int
  cookieableSchemes : List Name

/-- An insertion into a `CookieList`, which is a set ordered by creation time, the latest first. Its
elements stand for iterators: an item with its place. -/
def insertByCreation (it : CookieItem × Nat) : List (CookieItem × Nat) → List (CookieItem × Nat)
  | [] => [it]
  | head :: list =>
    if it.1.cookie.creationDate > head.1.cookie.creationDate then it :: head :: list
    else if head.1.cookie.creationDate > it.1.cookie.creationDate then
      head :: insertByCreation it list
    else head :: list

def cookieList (its : List (CookieItem × Nat)) : List (CookieItem × Nat) :=
  its.foldl (fun list it => insertByCreation it list) []

def CookieItem.signature (item : CookieItem) : Name × Name := (item.cookie.name, item.cookie.path)

def equivalentCookies (its : List (CookieItem × Nat)) (signature : Name × Name) :
    List (CookieItem × Nat) := cookieList (its.filter fun it => it.1.signature = signature)

def trimDuplicateCookiesForHost (items : List CookieItem) : List CookieItem :=
  let its := items.zipIdx
  let signatures := (items.map CookieItem.signature).dedup
  if items.length - signatures.length = 0 then items
  else
    let dupes := signatures.flatMap fun signature => (equivalentCookies its signature).tail
    (its.filter fun it => it ∉ dupes).map Prod.fst

def ensureCookiesMapIsValid : Nat → List CookieItem → List CookieItem
  | fuel + 1, item :: items =>
    trimDuplicateCookiesForHost ((item :: items).filter fun other => other.key = item.key) ++
      ensureCookiesMapIsValid fuel (items.filter fun other => other.key ≠ item.key)
  | _, items => items

/-- `loaded` is what the backing store has. -/
def CookieMonster.initStore (lastAccessThreshold : Int) (cookieableSchemes : List Name)
    (loaded : List CookieItem) : CookieMonster where
  cookies := ensureCookiesMapIsValid loaded.length loaded
  lastTimeSeen := 0
  lastAccessThreshold
  cookieableSchemes

namespace CookieMonster

def hasCookieableScheme (monster : CookieMonster) (url : Url) : Bool :=
  url.scheme ∈ monster.cookieableSchemes

def equalRange (monster : CookieMonster) (key : Name) : List CookieItem :=
  monster.cookies.filter fun item => item.key = key

def deleteIf (gone : CookieItem → Bool) (monster : CookieMonster) : CookieMonster :=
  { monster with cookies := monster.cookies.filter fun item => !gone item }

def internalDeleteCookie (item : CookieItem) (monster : CookieMonster) : CookieMonster :=
  { monster with cookies := monster.cookies.erase item }

def internalInsertCookie (item : CookieItem) (monster : CookieMonster) : CookieMonster :=
  { monster with cookies := monster.cookies ++ [item] }

def currentTime (monster : CookieMonster) (now : Int) : Int := max now (monster.lastTimeSeen + 1)

section Delete

/-- The loop over the cookies of the key; `none`: the `CHECK` has failed. -/
def deleteEquivalentLoop (ecc : CanonicalCookie) (skipHttponly : Bool) :
    Bool → Bool → List CookieItem → CookieMonster → Option (CookieMonster × Bool)
  | _, skipped, [], monster => some (monster, skipped)
  | found, skipped, item :: items, monster =>
    if ecc.isEquivalent item.cookie then
      if found then none
      else if skipHttponly && item.cookie.isHttpOnly then
        deleteEquivalentLoop ecc skipHttponly true true items monster
      else
        deleteEquivalentLoop ecc skipHttponly true skipped items (monster.internalDeleteCookie item)
    else deleteEquivalentLoop ecc skipHttponly found skipped items monster

def deleteAnyEquivalentCookie (key : Name) (ecc : CanonicalCookie) (skipHttponly : Bool)
    (monster : CookieMonster) : Option (CookieMonster × Bool) :=
  deleteEquivalentLoop ecc skipHttponly false false (monster.equalRange key) monster

def kNumCookiesPerHost : Nat := 70
def kNumCookiesPerHostPurge : Nat := 20
def kNumCookiesTotal : Nat := 3300
def kNumCookiesTotalPurge : Nat := 300

variable (partialSort : Nat → List CookieItem → List CookieItem)

def garbageCollectExpired (current : Int) (inRange : CookieItem → Bool) (monster : CookieMonster) :
    CookieMonster :=
  monster.deleteIf fun item => inRange item && item.cookie.isExpired current

def garbageCollectRange (current : Int) (inRange : CookieItem → Bool) (numMax numPurge : Nat)
    (monster : CookieMonster) : CookieMonster :=
  let monster := monster.garbageCollectExpired current inRange
  let cookieIts := monster.cookies.filter inRange
  if cookieIts.length > numMax then
    let numPurge := numPurge + (cookieIts.length - numMax)
    ((partialSort numPurge cookieIts).take numPurge).foldl
      (fun monster item => monster.internalDeleteCookie item) monster
  else monster

def garbageCollect (current : Int) (key : Name) (monster : CookieMonster) : CookieMonster :=
  let monster :=
    if (monster.equalRange key).length > kNumCookiesPerHost then
      monster.garbageCollectRange partialSort current (fun item => item.key = key) kNumCookiesPerHost
        kNumCookiesPerHostPurge
    else monster
  if monster.cookies.length > kNumCookiesTotal then
    monster.garbageCollectRange partialSort current (fun _ => true) kNumCookiesTotal
      kNumCookiesTotalPurge
  else monster

/-- `none`: a `CHECK` has failed. -/
def setCanonicalCookie (key : Name) (cookie : CanonicalCookie) (creationTime : Int)
    (excludeHttponly : Bool) (monster : CookieMonster) : Option CookieMonster := do
  let (monster, skipped) ← monster.deleteAnyEquivalentCookie key cookie excludeHttponly
  if skipped then return monster
  let monster :=
    if cookie.isExpired creationTime then monster else monster.internalInsertCookie ⟨key, cookie⟩
  return monster.garbageCollect partialSort creationTime key

/-- `accepted` is the key and the cookie that the line gives at its creation time, if it is accepted.
The null time is zero. -/
def setCookieWithCreationTimeAndOptions (accepted : Int → Option (Name × CanonicalCookie)) (url : Url)
    (creationTimeOrNull now : Int) (excludeHttponly : Bool) (monster : CookieMonster) :
    Option CookieMonster :=
  if !monster.hasCookieableScheme url then some monster
  else
    let creationTime := if creationTimeOrNull = 0 then monster.currentTime now else creationTimeOrNull
    let monster :=
      if creationTimeOrNull = 0 then { monster with lastTimeSeen := creationTime } else monster
    match accepted creationTime with
    | none => some monster
    | some (key, cookie) =>
      if excludeHttponly && cookie.isHttpOnly then some monster
      else monster.setCanonicalCookie partialSort key cookie creationTime excludeHttponly

/-- `cookieDomain` is the key for the given domain, `create` is `CanonicalCookie::Create`. -/
def setCookieWithDetails (cookieDomain : Option Name) (create : Int → Option CanonicalCookie)
    (url : Url) (now : Int) (monster : CookieMonster) : Option CookieMonster :=
  match cookieDomain with
  | none => some monster
  | some key =>
    if !monster.hasCookieableScheme url then some monster
    else
      let creationTime := monster.currentTime now
      let monster := { monster with lastTimeSeen := creationTime }
      match create creationTime with
      | none => some monster
      | some cookie => monster.setCanonicalCookie partialSort key cookie creationTime false

def deleteAll (monster : CookieMonster) : CookieMonster := monster.deleteIf fun _ => true

def deleteAllCreatedBetween (deleteBegin deleteEnd : Int) (monster : CookieMonster) : CookieMonster :=
  monster.deleteIf fun item => decide (item.cookie.creationDate ≥ deleteBegin) &&
    (decide (deleteEnd = 0) || decide (item.cookie.creationDate < deleteEnd))

def deleteAllForHost (url : Url) (monster : CookieMonster) : CookieMonster :=
  if !monster.hasCookieableScheme url then monster else monster.deleteIf fun item => item.key = url.host

def deleteCookie (domain : Name) (creationDate : Int) (monster : CookieMonster) : CookieMonster :=
  match (monster.equalRange domain).find? fun item => item.cookie.creationDate = creationDate with
  | some item => monster.internalDeleteCookie item
  | none => monster

def getAllCookies (now : Int) (monster : CookieMonster) : CookieMonster :=
  monster.garbageCollectExpired now fun _ => true

end Delete

section Find

variable (getDomainAndRegistry : Name → Name)

def domainIsHostOnly (domain : Name) : Bool := domain.head? ≠ some dot

def http : Name := [104, 116, 116, 112]

def https : Name := [104, 116, 116, 112, 115]

def getEffectiveDomain (scheme host : Name) : Name :=
  if scheme = http ∨ scheme = https then getDomainAndRegistry host
  else if !domainIsHostOnly host then host.drop 1
  else host

def getCookieDomainKeyWithString (canonicalizeHost : Name → Name) (url : Url) (domainString : Name) :
    Option Name :=
  if domainString = [] || (url.hostIsIPAddress && url.host = domainString) then some url.host
  else
    let cookieDomain := canonicalizeHost domainString
    if cookieDomain = [] then none
    else
      let cookieDomain := if cookieDomain.head? ≠ some dot then dot :: cookieDomain else cookieDomain
      let urlDomainAndRegistry := getEffectiveDomain getDomainAndRegistry url.scheme url.host
      if urlDomainAndRegistry = [] then none
      else if urlDomainAndRegistry ≠ getEffectiveDomain getDomainAndRegistry url.scheme cookieDomain then
        none
      else if (if url.host.length < cookieDomain.length then decide (cookieDomain ≠ dot :: url.host)
        else decide (url.host.drop (url.host.length - cookieDomain.length) ≠ cookieDomain)) then none
      else some cookieDomain

/-- `InternalUpdateCookieAccessTime`. -/
def updateAccessTime (now threshold : Int) (item : CookieItem) : CookieItem :=
  if now - item.cookie.lastAccessDate < threshold then item
  else { item with cookie := { item.cookie with lastAccessDate := now } }

/-- The tests of `FindCookiesForKey` but for the expiry. -/
def wanted (url : Url) (excludeHttponly : Bool) (cookie : CanonicalCookie) : Bool :=
  !(excludeHttponly && cookie.isHttpOnly) && !(!url.isSecure && cookie.isSecure) &&
    cookie.isOnPath url.path

/-- One pass over the cookies of the key: expired ones are deleted, and those that are found are read. -/
def findCookiesForKey (key : Name) (url : Url) (excludeHttponly : Bool) (current now : Int)
    (monster : CookieMonster) : CookieMonster × List CookieItem :=
  let threshold := monster.lastAccessThreshold
  let read := fun item : CookieItem =>
    if item.key = key && wanted url excludeHttponly item.cookie then updateAccessTime now threshold item
    else item
  let kept := monster.cookies.filter fun item => !(item.key = key && item.cookie.isExpired current)
  ({ monster with cookies := kept.map read },
    (kept.filter fun item => item.key = key && wanted url excludeHttponly item.cookie).map read)

def eraseToNextDot (key : Name) : Name :=
  match findDot key 1 with
  | none => []
  | some nextDot => key.drop nextDot

/-- The walk over the domains of the host, with a bound on the passes; `none`: it was reached. -/
def findCookiesForDomains (domain : Name) (url : Url) (excludeHttponly : Bool) (current now : Int) :
    Nat → Name → CookieMonster → Option (CookieMonster × List CookieItem)
  | 0, _, _ => none
  | fuel + 1, key, monster =>
    if key.length > domain.length then do
      let (monster, found) := monster.findCookiesForKey key url excludeHttponly current now
      let (monster, more) ← findCookiesForDomains domain url excludeHttponly current now fuel
        (eraseToNextDot key) monster
      return (monster, found ++ more)
    else some (monster, [])

def findCookiesForHostAndDomain (url : Url) (excludeHttponly : Bool) (now : Int) (fuel : Nat)
    (monster : CookieMonster) : Option (CookieMonster × List CookieItem) := do
  let current := monster.currentTime now
  let (monster, found) := monster.findCookiesForKey url.host url excludeHttponly current now
  let domain := getEffectiveDomain getDomainAndRegistry url.scheme url.host
  if domain = [] then return (monster, found)
  let (monster, more) ← findCookiesForDomains domain url excludeHttponly current now fuel
    (dot :: url.host) monster
  return (monster, found ++ more)

def cookieSorter (item other : CookieItem) : Bool :=
  if item.cookie.path.length = other.cookie.path.length then
    item.cookie.creationDate < other.cookie.creationDate
  else item.cookie.path.length > other.cookie.path.length

def getCookiesWithOptions (url : Url) (excludeHttponly : Bool) (now : Int) (fuel : Nat)
    (monster : CookieMonster) : Option (CookieMonster × List CookieItem) := do
  if !monster.hasCookieableScheme url then return (monster, [])
  let (monster, found) ← monster.findCookiesForHostAndDomain getDomainAndRegistry url excludeHttponly
    now fuel
  return (monster, found.mergeSort fun item other => !cookieSorter other item)

def deleteCookieNamed (url : Url) (name : Name) (now : Int) (fuel : Nat) (monster : CookieMonster) :
    Option CookieMonster := do
  if !monster.hasCookieableScheme url then return monster
  let (monster, found) ← monster.findCookiesForHostAndDomain getDomainAndRegistry url false now fuel
  let matching := found.filter fun item => item.cookie.name = name && item.cookie.path.isPrefixOf url.path
  return monster.deleteIf fun item => item ∈ matching

end Find

end CookieMonster

end Glopen.Net
