import Mathlib.Data.List.Pairwise
import Glopen.Net.CookieKeys

/-! The cookies that the store has loaded, and that no two cookies of a valid map are equivalent under
one key. -/
namespace Glopen.Net

open List

def Same (item other : CookieItem) : Prop :=
  item.key = other.key ∧ item.signature = other.signature

def NoDuplicates (items : List CookieItem) : Prop := items.Pairwise fun item other => ¬ Same item other

def Distinct (items : List CookieItem) : Prop :=
  items.Pairwise fun item other =>
    ¬ (Same item other ∧ item.cookie.creationDate = other.cookie.creationDate)

theorem Same.symm {item other : CookieItem} (same : Same item other) : Same other item :=
  ⟨same.1.symm, same.2.symm⟩

variable {list : List (CookieItem × Nat)} {it other : CookieItem × Nat} {its : List (CookieItem × Nat)}
  {r : CookieItem → CookieItem → Prop}

theorem mem_insertByCreation (isIn : other ∈ insertByCreation it list) : other = it ∨ other ∈ list := by
  induction list with
  | nil => exact .inl (mem_singleton.mp isIn)
  | cons head list ih =>
    rw [insertByCreation] at isIn
    split at isIn
    · exact mem_cons.mp isIn
    · split at isIn
      · obtain rfl | isIn := mem_cons.mp isIn
        · exact .inr (mem_cons_self ..)
        · exact (ih isIn).imp_right (mem_cons_of_mem head)
      · exact .inr isIn

theorem insertByCreation_keeps (it : CookieItem × Nat)
    (isIn : other ∈ list) : other ∈ insertByCreation it list := by
  induction list with
  | nil => cases isIn
  | cons head list ih =>
    rw [insertByCreation]
    split
    · exact mem_cons_of_mem it isIn
    · split
      · obtain rfl | isIn := mem_cons.mp isIn
        · exact mem_cons_self ..
        · exact mem_cons_of_mem head (ih isIn)
      · exact isIn

theorem insertByCreation_covers (it : CookieItem × Nat) (list : List (CookieItem × Nat)) :
    ∃ other ∈ insertByCreation it list,
      other.1.cookie.creationDate = it.1.cookie.creationDate ∧ (other = it ∨ other ∈ list) := by
  induction list with
  | nil => exact ⟨it, mem_singleton.mpr rfl, rfl, .inl rfl⟩
  | cons head list ih =>
    rw [insertByCreation]
    split
    · exact ⟨it, mem_cons_self .., rfl, .inl rfl⟩
    · split
      · obtain ⟨other, isIn, time, whence⟩ := ih
        exact ⟨other, mem_cons_of_mem head isIn, time, whence.imp_right (mem_cons_of_mem head)⟩
      · exact ⟨head, mem_cons_self .., by omega, .inr (mem_cons_self ..)⟩

def Descending (list : List (CookieItem × Nat)) : Prop :=
  list.Pairwise fun it other => it.1.cookie.creationDate > other.1.cookie.creationDate

theorem insertByCreation_descending (it : CookieItem × Nat)
    (descending : Descending list) : Descending (insertByCreation it list) := by
  induction list with
  | nil => exact pairwise_singleton _ _
  | cons head list ih =>
    obtain ⟨first, rest⟩ := pairwise_cons.mp descending
    rw [insertByCreation]
    split
    · rename_i later
      refine pairwise_cons.mpr ⟨fun other isIn => ?_, descending⟩
      obtain rfl | isIn := mem_cons.mp isIn
      · exact later
      · have := first other isIn
        omega
    · split
      · rename_i earlier
        refine pairwise_cons.mpr ⟨fun other isIn => ?_, ih rest⟩
        obtain rfl | isIn := mem_insertByCreation isIn
        · exact earlier
        · exact first other isIn
      · exact descending

/-- What holds of a `CookieList` while the iterators are inserted. -/
structure Listed (its list : List (CookieItem × Nat)) : Prop where
  from_its : ∀ it ∈ list, it ∈ its
  covers : ∀ it ∈ its, ∃ other ∈ list, other.1.cookie.creationDate = it.1.cookie.creationDate
  descending : Descending list

theorem Listed.insert (listed : Listed its list)
    (it : CookieItem × Nat) : Listed (its ++ [it]) (insertByCreation it list) where
  from_its other isIn := by
    obtain rfl | isIn := mem_insertByCreation isIn
    · exact mem_append_right its (mem_singleton.mpr rfl)
    · exact mem_append_left _ (listed.from_its other isIn)
  covers other isIn := by
    obtain isIn | isIn := mem_append.mp isIn
    · obtain ⟨kept, isKept, time⟩ := listed.covers other isIn
      exact ⟨kept, insertByCreation_keeps it isKept, time⟩
    · obtain rfl := mem_singleton.mp isIn
      obtain ⟨kept, isKept, time, -⟩ := insertByCreation_covers other list
      exact ⟨kept, isKept, time⟩
  descending := insertByCreation_descending it listed.descending

theorem listed_foldl (done its list : List (CookieItem × Nat)) (listed : Listed done list) :
    Listed (done ++ its) (its.foldl (fun list it => insertByCreation it list) list) := by
  induction its generalizing done list with
  | nil =>
    rw [append_nil]
    exact listed
  | cons it its ih =>
    have next := ih (done ++ [it]) (insertByCreation it list) (listed.insert it)
    rw [append_assoc, singleton_append] at next
    exact next

theorem cookieList_listed (its : List (CookieItem × Nat)) : Listed its (cookieList its) :=
  listed_foldl [] its [] ⟨nofun, nofun, List.Pairwise.nil⟩

section Trim

variable (items : List CookieItem)

theorem zipIdx_nodup : items.zipIdx.Nodup := by
  have places : (items.zipIdx.map Prod.snd).Nodup := by
    rw [zipIdx_map_snd]
    exact nodup_range'
  exact List.Nodup.of_map Prod.snd places

def dupes : List (CookieItem × Nat) :=
  (items.map CookieItem.signature).dedup.flatMap fun signature =>
    (equivalentCookies items.zipIdx signature).tail

variable {signature : Name × Name}

theorem mem_equivalentCookies (isIn : it ∈ equivalentCookies its signature) :
    it ∈ its ∧ it.1.signature = signature := by
  obtain ⟨isIn, same⟩ := mem_filter.mp ((cookieList_listed _).from_its it isIn)
  exact ⟨isIn, of_decide_eq_true same⟩

theorem mem_dupes (it : CookieItem × Nat) :
    it ∈ dupes items ↔ it ∈ (equivalentCookies items.zipIdx it.1.signature).tail := by
  unfold dupes
  rw [mem_flatMap]
  constructor
  · rintro ⟨signature, -, isIn⟩
    obtain ⟨-, rfl⟩ := mem_equivalentCookies (mem_of_mem_tail isIn)
    exact isIn
  · intro isIn
    obtain ⟨isItem, -⟩ := mem_equivalentCookies (mem_of_mem_tail isIn)
    refine ⟨it.1.signature, mem_dedup.mpr (List.mem_map.mpr ⟨it.1, ?_, rfl⟩), isIn⟩
    have := List.mem_map_of_mem (f := Prod.fst) isItem
    rwa [zipIdx_map_fst] at this

def keptIts : List (CookieItem × Nat) := items.zipIdx.filter fun it => it ∉ dupes items

theorem keptIts_nodup : (keptIts items).Nodup := (zipIdx_nodup items).filter _

theorem mem_keptIts (it : CookieItem × Nat) : it ∈ keptIts items ↔
      it ∈ items.zipIdx ∧ it ∉ (equivalentCookies items.zipIdx it.1.signature).tail := by
  rw [keptIts, mem_filter, decide_eq_true_eq, mem_dupes]

theorem equivalentCookies_listed (signature : Name × Name) :
    Listed (items.zipIdx.filter fun it => it.1.signature = signature)
      (equivalentCookies items.zipIdx signature) :=
  cookieList_listed _

theorem head_of_mem (isIn : it ∈ list) (not_tail : it ∉ list.tail) : list.head? = some it := by
  cases list with
  | nil => cases isIn
  | cons head list =>
    obtain rfl | isIn := mem_cons.mp isIn
    · rfl
    · exact absurd isIn not_tail

theorem kept_unique (distinct : ∀ x ∈ items.zipIdx, ∀ y ∈ items.zipIdx,
      x.1.signature = y.1.signature → x.1.cookie.creationDate = y.1.cookie.creationDate → x = y)
    (kept : it ∈ keptIts items) (kept_other : other ∈ keptIts items)
    (same : it.1.signature = other.1.signature) : it = other := by
  have is_head (x : CookieItem × Nat) (isKept : x ∈ keptIts items) :
      (equivalentCookies items.zipIdx x.1.signature).head? = some x := by
    obtain ⟨isItem, not_tail⟩ := (mem_keptIts items x).mp isKept
    obtain ⟨listed, isListed, time⟩ := (equivalentCookies_listed items x.1.signature).covers x
      (mem_filter.mpr ⟨isItem, decide_eq_true rfl⟩)
    obtain ⟨listed_item, signature⟩ := mem_equivalentCookies isListed
    obtain rfl := distinct listed listed_item x isItem signature time
    exact head_of_mem isListed not_tail
  have first := is_head it kept
  rw [same, is_head other kept_other] at first
  exact (Option.some.inj first).symm

theorem head_kept (first : (equivalentCookies items.zipIdx signature).head? = some it) :
    it ∈ keptIts items ∧ it.1.signature = signature := by
  have isIn := List.mem_of_mem_head? (Option.mem_def.mpr first)
  obtain ⟨isItem, rfl⟩ := mem_equivalentCookies isIn
  refine ⟨(mem_keptIts items it).mpr ⟨isItem, fun isTail => ?_⟩, rfl⟩
  have descending := (equivalentCookies_listed items it.1.signature).descending
  cases list_eq : equivalentCookies items.zipIdx it.1.signature with
  | nil => rw [list_eq] at isIn; cases isIn
  | cons head list =>
    rw [list_eq] at first isTail descending
    obtain rfl := Option.some.inj first
    exact absurd ((pairwise_cons.mp descending).1 head isTail) (Int.lt_irrefl _)

theorem unlisted_twice (isItem : it ∈ items.zipIdx)
    (unlisted : it ∉ equivalentCookies items.zipIdx it.1.signature) :
    ∃ other ∈ keptIts items, it ∈ keptIts items ∧ it ≠ other ∧ it.1.signature = other.1.signature := by
  obtain ⟨listed, isListed, -⟩ := (equivalentCookies_listed items it.1.signature).covers it
    (mem_filter.mpr ⟨isItem, decide_eq_true rfl⟩)
  cases first : (equivalentCookies items.zipIdx it.1.signature).head? with
  | none =>
    rw [List.head?_eq_none_iff] at first
    rw [first] at isListed
    cases isListed
  | some head =>
    obtain ⟨kept, signature⟩ := head_kept items first
    refine ⟨head, kept, (mem_keptIts items it).mpr
      ⟨isItem, fun isTail => unlisted (mem_of_mem_tail isTail)⟩, ?_, signature.symm⟩
    rintro rfl
    exact unlisted (List.mem_of_mem_head? (Option.mem_def.mpr first))

theorem pairwise_apart {r : CookieItem × Nat → CookieItem × Nat → Prop}
    (symm : ∀ x y, r x y → r y x) (pairwise : its.Pairwise r)
    {x y : CookieItem × Nat} (isX : x ∈ its) (isY : y ∈ its) (different : x ≠ y) : r x y :=
  have : Std.Symm r := ⟨symm⟩
  pairwise.forall isX isY different

theorem kept_twice (isItem : it ∈ items.zipIdx) (isOther : other ∈ items.zipIdx) (different : it ≠ other)
    (same : it.1.signature = other.1.signature) (time : it.1.cookie.creationDate = other.1.cookie.creationDate) :
    ∃ x ∈ keptIts items, ∃ y ∈ keptIts items, x ≠ y ∧ x.1.signature = y.1.signature := by
  have not_both : ¬ (it ∈ equivalentCookies items.zipIdx it.1.signature ∧
      other ∈ equivalentCookies items.zipIdx it.1.signature) := by
    rintro ⟨listed, listed_other⟩
    have apart := (equivalentCookies_listed items it.1.signature).descending.imp
      (fun {x y} later => show x.1.cookie.creationDate ≠ y.1.cookie.creationDate from
        (Int.ne_of_lt later).symm)
    exact pairwise_apart (fun _ _ h => h.symm) apart listed listed_other different time
  by_cases listed : it ∈ equivalentCookies items.zipIdx it.1.signature
  · have unlisted : other ∉ equivalentCookies items.zipIdx other.1.signature :=
      fun listed_other => not_both ⟨listed, same ▸ listed_other⟩
    obtain ⟨y, kept_y, kept, apart, signature⟩ := unlisted_twice items isOther unlisted
    exact ⟨other, kept, y, kept_y, apart, signature⟩
  · obtain ⟨y, kept_y, kept, apart, signature⟩ := unlisted_twice items isItem listed
    exact ⟨it, kept, y, kept_y, apart, signature⟩

theorem pairwise_zipIdx : (items.zipIdx.Pairwise fun x y => r x.1 y.1) ↔ items.Pairwise r := by
  conv => rhs; rw [← zipIdx_map_fst 0 items]
  rw [pairwise_map]

theorem trim_signatures : ((trimDuplicateCookiesForHost items).Pairwise fun x y => x.signature ≠ y.signature) ↔
      items.Pairwise fun x y =>
        ¬ (x.signature = y.signature ∧ x.cookie.creationDate = y.cookie.creationDate) := by
  unfold trimDuplicateCookiesForHost
  simp only
  split
  · rename_i none_found
    -- every signature was met once
    have sublist := dedup_sublist (items.map CookieItem.signature)
    have same_length := sublist.length_le
    rw [length_map] at same_length
    have all_kept := sublist.eq_of_length (by rw [length_map]; omega)
    have nodup : (items.map CookieItem.signature).Nodup := all_kept ▸ nodup_dedup _
    have apart : items.Pairwise fun x y => x.signature ≠ y.signature := pairwise_map.mp nodup
    exact ⟨fun _ => apart.imp fun h both => h both.1, fun _ => apart⟩
  · change ((keptIts items).map Prod.fst).Pairwise _ ↔ _
    rw [pairwise_map]
    constructor
    · intro apart
      rw [← pairwise_zipIdx]
      refine (zipIdx_nodup items).pairwise_of_forall_ne fun x isX y isY different => ?_
      rintro ⟨same, time⟩
      obtain ⟨a, kept, b, kept_b, ab, signature⟩ := kept_twice items isX isY different same time
      exact pairwise_apart (fun _ _ h => h.symm) apart kept kept_b ab signature
    · intro distinct
      refine (keptIts_nodup items).pairwise_of_forall_ne fun x kept y kept_y different same => ?_
      rw [← pairwise_zipIdx] at distinct
      refine different (kept_unique items ?_ kept kept_y same)
      intro a isA b isB signature time
      by_contra ab
      exact pairwise_apart (fun _ _ h both => h ⟨both.1.symm, both.2.symm⟩) distinct isA isB ab ⟨signature, time⟩

theorem trim_sublist : (trimDuplicateCookiesForHost items).Sublist items := by
  unfold trimDuplicateCookiesForHost
  simp only
  split
  · exact List.Sublist.refl _
  · conv => rhs; rw [← zipIdx_map_fst 0 items]
    exact filter_sublist.map Prod.fst

end Trim

section Ensure

variable {items : List CookieItem}

theorem noDuplicates_trim {key : Name} (keyed : ∀ item ∈ items, item.key = key) :
    NoDuplicates (trimDuplicateCookiesForHost items) ↔ Distinct items := by
  have kept_keyed (item : CookieItem) (isIn : item ∈ trimDuplicateCookiesForHost items) :
      item.key = key := keyed item ((trim_sublist items).subset isIn)
  constructor
  · intro unique
    have apart := (trim_signatures items).mp (unique.imp_of_mem fun isX isY different same =>
      different ⟨(kept_keyed _ isX).trans (kept_keyed _ isY).symm, same⟩)
    exact apart.imp fun h both => h ⟨both.1.2, both.2⟩
  · intro distinct
    have apart := (trim_signatures items).mpr (distinct.imp_of_mem fun isX isY different both =>
      different ⟨⟨(keyed _ isX).trans (keyed _ isY).symm, both.1⟩, both.2⟩)
    exact apart.imp fun h same => h same.2

theorem pairwise_parts {front back : List CookieItem}
    (keyed : ∀ x ∈ front, ∀ y ∈ back, x.key ≠ y.key) (sameKey : ∀ x y, x.key ≠ y.key → r x y) :
    (front ++ back).Pairwise r ↔ front.Pairwise r ∧ back.Pairwise r := by
  rw [pairwise_append]
  constructor
  · rintro ⟨inFront, inBack, -⟩
    exact ⟨inFront, inBack⟩
  · rintro ⟨inFront, inBack⟩
    exact ⟨inFront, inBack, fun x isX y isY => sameKey x y (keyed x isX y isY)⟩

theorem ensure_subset (fuel : Nat) : ensureCookiesMapIsValid fuel items ⊆ items := by
  induction fuel generalizing items with
  | zero => exact fun _ isIn => isIn
  | succ fuel ih =>
    cases items with
    | nil => exact fun _ isIn => isIn
    | cons item items =>
      rw [ensureCookiesMapIsValid]
      intro other isIn
      obtain isIn | isIn := mem_append.mp isIn
      · exact mem_of_mem_filter ((trim_sublist _).subset isIn)
      · exact mem_cons_of_mem item (mem_of_mem_filter (ih isIn))

theorem noDuplicates_ensure {fuel : Nat} (enough : items.length ≤ fuel) :
    NoDuplicates (ensureCookiesMapIsValid fuel items) ↔ Distinct items := by
  induction fuel generalizing items with
  | zero =>
    obtain rfl := length_eq_zero_iff.mp (Nat.le_zero.mp enough)
    exact ⟨fun _ => List.Pairwise.nil, fun _ => List.Pairwise.nil⟩
  | succ fuel ih =>
    cases items with
    | nil => exact ⟨fun _ => List.Pairwise.nil, fun _ => List.Pairwise.nil⟩
    | cons item items =>
      have shorter : (items.filter fun other => other.key ≠ item.key).length ≤ fuel :=
        Nat.le_trans (length_filter_le _ items) (Nat.le_of_succ_le_succ enough)
      have in_group (other : CookieItem)
          (isIn : other ∈ (item :: items).filter fun other => other.key = item.key) :
          other.key = item.key := of_decide_eq_true (mem_filter.mp isIn).2
      have in_rest (other : CookieItem) (isIn : other ∈ items.filter fun other => other.key ≠ item.key) :
          other.key ≠ item.key := of_decide_eq_true (mem_filter.mp isIn).2
      have perm : (((item :: items).filter fun other => other.key = item.key) ++
          items.filter fun other => other.key ≠ item.key).Perm (item :: items) := by
        have split := filter_append_perm (fun other => decide (other.key = item.key)) (item :: items)
        simpa [filter_cons] using split
      have distinct_iff : Distinct (item :: items) ↔
          Distinct ((item :: items).filter fun other => other.key = item.key) ∧
            Distinct (items.filter fun other => other.key ≠ item.key) := by
        unfold Distinct
        rw [← perm.pairwise_iff fun {_ _} h both => h ⟨both.1.symm, both.2.symm⟩]
        exact pairwise_parts (fun x isX y isY same => in_rest y isY (same ▸ in_group x isX))
          fun x y different both => different both.1.1
      rw [ensureCookiesMapIsValid, distinct_iff, ← noDuplicates_trim in_group, ← ih shorter]
      refine pairwise_parts ?_ fun x y different same => different same.1
      intro x isX y isY same
      exact in_rest y (ensure_subset fuel isY) (same ▸ in_group x ((trim_sublist _).subset isX))

end Ensure

end Glopen.Net
