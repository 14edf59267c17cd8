import Mathlib.Data.List.TakeWhile
import Glopen.WebSockets.WebSocket

/-! The frames of a server, and what `processFrames` does with a part of a stream of frames. -/
namespace Glopen.WebSockets

open WebSocket List

/-- A frame that ends with `0xff`, or one with its length in front. -/
inductive Frame where
  | text (type : UInt8) (payload : Bytes)
  | sized (type : UInt8) (high : Bytes) (last : UInt8) (body : Bytes)

def lengthFrom (length : Nat) (bytes : Bytes) : Nat :=
  bytes.foldl (fun length c => length * 128 + (c &&& 0x7f).toNat) length

namespace Frame

def wire : Frame → Bytes
  | text type payload => type :: (payload ++ [0xff])
  | sized type high last body => type :: (high ++ last :: body)

inductive WellFormed : Frame → Prop
  | text {type : UInt8} {payload : Bytes} (low : type < 0x80) (plain : 0xff ∉ payload) :
    WellFormed (text type payload)
  | sized {type : UInt8} {high : Bytes} {last : UInt8} {body : Bytes} (marked : 0x80 ≤ type)
    (goes_on : ∀ c ∈ high, 0x80 ≤ c) (ends : last < 0x80)
    (length : lengthFrom 0 (high ++ [last]) = body.length) (short : body.length < 2 ^ 24) :
    WellFormed (sized type high last body)

def isSized : Frame → Bool
  | text _ _ => false
  | sized _ _ _ _ => true

def closes (version : ProtocolVersion) : Frame → Bool
  | text _ _ => false
  | sized type _ _ body => version ≠ .draft75 && type = 0xff && body = []

def event : Frame → Event
  | text type payload => if type = 0 then .onMessage payload else .onError
  | sized _ _ _ _ => .onError

theorem wire_length (frame : Frame) : 0 < frame.wire.length := by
  cases frame <;> simp [wire]

end Frame

def wire (frames : List Frame) : Bytes := frames.flatMap Frame.wire

theorem wire_cons (frame : Frame) (frames : List Frame) :
    wire (frame :: frames) = frame.wire ++ wire frames := flatMap_cons

theorem wire_append (front back : List Frame) : wire (front ++ back) = wire front ++ wire back :=
  flatMap_append

theorem marked_iff (c : UInt8) : c &&& 0x80 = 0x80 ↔ 0x80 ≤ c := by
  have bits : ∀ b : BitVec 8, b &&& 0x80#8 = 0x80#8 ↔ 0x80#8 ≤ b := by decide
  rw [UInt8.le_iff_toBitVec_le, ← UInt8.toBitVec_inj]
  exact bits c.toBitVec

theorem lengthFrom_le (length : Nat) (bytes : Bytes) : length ≤ lengthFrom length bytes := by
  induction bytes generalizing length with
  | nil => exact Nat.le_refl _
  | cons c bytes ih =>
    have next := ih (length * 128 + (c &&& 0x7f).toNat)
    unfold lengthFrom at next ⊢
    rw [foldl_cons]
    omega

theorem readLength_whole {high : Bytes} {last : UInt8} (goes_on : ∀ c ∈ high, 0x80 ≤ c)
    (ends : last < 0x80) {length : Nat} (short : lengthFrom length (high ++ [last]) < 2 ^ 24) (behind : Bytes) :
    readLength length (high ++ last :: behind) = some (lengthFrom length (high ++ [last]), behind) := by
  have small := lengthFrom_le length (high ++ [last])
  have in_range : ¬ length > (2 ^ 31 - 1) / 128 := by omega
  induction high generalizing length with
  | nil =>
    have last_unmarked : last &&& 0x80 ≠ 0x80 := by
      rw [Ne, marked_iff, UInt8.not_le]
      exact ends
    rw [nil_append, readLength, if_neg in_range]
    exact if_pos last_unmarked
  | cons c high ih =>
    obtain ⟨first, rest⟩ := forall_mem_cons.mp goes_on
    rw [cons_append, readLength, if_neg in_range]
    have marked : ¬ c &&& 0x80 ≠ 0x80 := not_not.mpr ((marked_iff c).mpr first)
    simp only [if_neg marked]
    have next := lengthFrom_le (length * 128 + (c &&& 0x7f).toNat) (high ++ [last])
    change lengthFrom (length * 128 + (c &&& 0x7f).toNat) (high ++ [last]) < 2 ^ 24 at short
    exact ih rest short next (by omega)

theorem readLength_part {high : Bytes} (goes_on : ∀ c ∈ high, 0x80 ≤ c) {length : Nat}
    (short : lengthFrom length high < 2 ^ 24) : readLength length high = some (lengthFrom length high, []) := by
  have small := lengthFrom_le length high
  induction high generalizing length with
  | nil => rfl
  | cons c high ih =>
    obtain ⟨first, rest⟩ := forall_mem_cons.mp goes_on
    have in_range : ¬ length > (2 ^ 31 - 1) / 128 := by omega
    have marked : ¬ c &&& 0x80 ≠ 0x80 := not_not.mpr ((marked_iff c).mpr first)
    rw [readLength, if_neg in_range]
    simp only [if_neg marked]
    exact ih rest short (lengthFrom_le _ high)

theorem lengthFrom_append (length : Nat) (front back : Bytes) :
    lengthFrom length (front ++ back) = lengthFrom (lengthFrom length front) back :=
  foldl_append ..

section Pass

variable (version : ProtocolVersion) (delegate : Bool) {fuel : Nat}
variable {data : Bytes} {frame : Frame}

theorem processFrames_waits (wellFormed : frame.WellFormed)
    (isPart : data <+: frame.wire) (short : data.length < frame.wire.length ∨ frame.isSized = true) :
    processFrames version delegate fuel data = ([], data, .waits) := by
  cases fuel with
  | zero => rfl
  | succ fuel =>
    cases data with
    | nil => rfl
    | cons frameByte rest =>
      cases wellFormed with
      | @text type payload low plain =>
        obtain ⟨rfl, part⟩ := cons_prefix_cons.mp isPart
        have unmarked : ¬ frameByte &&& 0x80 = 0x80 := by
          rw [marked_iff, UInt8.not_le]
          exact low
        have inside : rest <+: payload := by
          obtain strict | sized := short
          · simp only [Frame.wire, length_cons, length_append, length_nil] at strict
            exact prefix_of_prefix_length_le part (prefix_append ..) (by omega)
          · cases sized
        have all : rest.takeWhile (· ≠ 0xff) = rest := by
          rw [takeWhile_eq_self_iff]
          intro c isIn
          rw [decide_eq_true_eq]
          rintro rfl
          exact plain (inside.subset isIn)
        simp only [processFrames, if_neg unmarked, all, drop_length]
      | @sized type high last body marked goes_on ends length small =>
        obtain ⟨rfl, part⟩ := cons_prefix_cons.mp isPart
        have is_marked : frameByte &&& 0x80 = 0x80 := (marked_iff frameByte).mpr marked
        have in_range : lengthFrom 0 (high ++ [last]) < 2 ^ 24 := by omega
        rw [processFrames, if_pos is_marked]
        obtain before | behind := Nat.lt_or_ge high.length rest.length
        · -- the length is there, and at most the body behind it
          have split : high ++ [last] <+: rest :=
            prefix_of_prefix_length_le ⟨body, by simp⟩ part (by simp; omega)
          obtain ⟨some_body, rfl⟩ := split
          have bound := part.length_le
          simp only [length_append, length_cons, length_nil] at bound
          rw [append_assoc, singleton_append, readLength_whole goes_on ends in_range]
          simp only
          rw [if_neg (by omega)]
        · have inside : rest <+: high :=
            prefix_of_prefix_length_le part (prefix_append ..) behind
          obtain ⟨left, rfl⟩ := inside
          have bound := lengthFrom_le (lengthFrom 0 rest) (left ++ [last])
          rw [← lengthFrom_append, ← append_assoc] at bound
          rw [readLength_part (fun c isIn => goes_on c (mem_append_left left isIn)) (by omega)]
          simp only [length_nil, Nat.not_lt_zero, if_false]

theorem processFrames_frame (wellFormed : frame.WellFormed) (goes_on : frame.closes version = false)
    (more : frame.isSized = true → data ≠ []) : processFrames version delegate (fuel + 1) (frame.wire ++ data) =
      ((if delegate then [frame.event] else []) ++ (processFrames version delegate fuel data).1,
        (processFrames version delegate fuel data).2) := by
  cases wellFormed with
  | @text type payload low plain =>
    have unmarked : ¬ type &&& 0x80 = 0x80 := by
      rw [marked_iff, UInt8.not_le]
      exact low
    have taken : (payload ++ [0xff] ++ data).takeWhile (· ≠ 0xff) = payload := by
      rw [append_assoc, takeWhile_append_of_pos]
      · simp
      · intro c isIn
        rw [decide_eq_true_eq]
        rintro rfl
        exact plain isIn
    have behind : (payload ++ [0xff] ++ data).drop payload.length = 0xff :: data := by
      rw [append_assoc, drop_left]
      rfl
    rw [Frame.wire, cons_append, processFrames, if_neg unmarked]
    simp only [taken, behind]
    rfl
  | @sized type high last body marked continues ends length small =>
    have is_marked : type &&& 0x80 = 0x80 := (marked_iff type).mpr marked
    have in_range : lengthFrom 0 (high ++ [last]) < 2 ^ 24 := by omega
    have longer : lengthFrom 0 (high ++ [last]) < (body ++ data).length := by
      have := length_pos_of_ne_nil (more rfl)
      rw [length_append]
      omega
    have not_closing : ¬ (version ≠ .draft75 && type = 0xff && lengthFrom 0 (high ++ [last]) = 0) = true := by
      rw [length]
      simp only [Frame.closes, Bool.and_eq_false_iff, decide_eq_false_iff_not] at goes_on
      simp only [Bool.and_eq_true, decide_eq_true_eq, length_eq_zero_iff]
      tauto
    have behind : (body ++ data).drop (lengthFrom 0 (high ++ [last])) = data := by
      rw [length, drop_left]
    rw [Frame.wire, cons_append, append_assoc, cons_append, processFrames,
      if_pos is_marked, readLength_whole continues ends in_range]
    simp only [if_pos longer, if_neg not_closing, behind]
    rfl

theorem processFrames_closes (wellFormed : frame.WellFormed)
    (closes : frame.closes version = true) (more : data ≠ []) :
    ∃ left, processFrames version delegate (fuel + 1) (frame.wire ++ data) = ([], left, .closingFrame) := by
  cases wellFormed with
  | text => cases closes
  | @sized type high last body marked continues ends length small =>
    have is_marked : type &&& 0x80 = 0x80 := (marked_iff type).mpr marked
    have in_range : lengthFrom 0 (high ++ [last]) < 2 ^ 24 := by omega
    have longer : lengthFrom 0 (high ++ [last]) < (body ++ data).length := by
      have := length_pos_of_ne_nil more
      rw [length_append]
      omega
    have closing : (version ≠ .draft75 && type = 0xff && lengthFrom 0 (high ++ [last]) = 0) = true := by
      rw [length]
      simpa only [Frame.closes, length_eq_zero_iff] using closes
    refine ⟨(body ++ data).drop (lengthFrom 0 (high ++ [last])), ?_⟩
    rw [Frame.wire, cons_append, append_assoc, cons_append, processFrames,
      if_pos is_marked, readLength_whole continues ends in_range]
    simp only [if_pos longer, if_pos closing]

def readyFrames : List Frame → Nat → List Frame
  | [], _ => []
  | frame :: frames, n =>
    if frame.wire.length < n ∨ frame.wire.length = n ∧ frame.isSized = false then
      frame :: readyFrames frames (n - frame.wire.length)
    else []

def wholeFrames : List Frame → Nat → List Frame
  | [], _ => []
  | frame :: frames, n =>
    if frame.wire.length ≤ n then frame :: wholeFrames frames (n - frame.wire.length) else []

theorem readyFrames_zero (frames : List Frame) : readyFrames frames 0 = [] := by
  cases frames with
  | nil => rfl
  | cons frame frames =>
    have := frame.wire_length
    exact if_neg (by omega)

def beforeClosing (frames : List Frame) : List Frame := frames.takeWhile fun frame => !frame.closes version

theorem processFrames_ready {frames : List Frame} (wellFormed : ∀ frame ∈ frames, frame.WellFormed)
    (isPart : data <+: wire frames) (enough : data.length ≤ fuel) : (processFrames version true fuel data).1 =
        (beforeClosing version (readyFrames frames data.length)).map Frame.event ∧
      if (readyFrames frames data.length).any (Frame.closes version) then
        (processFrames version true fuel data).2.2 = .closingFrame
      else (processFrames version true fuel data).2 =
        (data.drop (wire (readyFrames frames data.length)).length, .waits) := by
  induction frames generalizing data fuel with
  | nil =>
    obtain rfl := prefix_nil.mp isPart
    cases fuel <;> exact ⟨rfl, rfl⟩
  | cons frame frames ih =>
    obtain ⟨first, rest⟩ := forall_mem_cons.mp wellFormed
    by_cases ready : frame.wire.length < data.length ∨ frame.wire.length = data.length ∧ frame.isSized = false
    · -- the frame is handled, and the loop goes on behind it
      rw [readyFrames, if_pos ready]
      have inside : frame.wire <+: data :=
        prefix_of_prefix_length_le (prefix_append ..) isPart (by omega)
      obtain ⟨more, rfl⟩ := inside
      have part : more <+: wire frames := (prefix_append_right_inj frame.wire).mp isPart
      have some_more : frame.isSized = true → more ≠ [] := by
        rintro sized rfl
        rw [sized, append_nil] at ready
        simp at ready
      have positive := frame.wire_length
      rw [length_append] at enough ⊢
      rw [Nat.add_sub_cancel_left]
      obtain ⟨fuel, rfl⟩ : ∃ passes, fuel = passes + 1 := ⟨fuel - 1, by omega⟩
      cases closes : frame.closes version with
      | true =>
        have sized : frame.isSized = true := by
          cases frame with
          | text => cases closes
          | sized => rfl
        obtain ⟨left, ended⟩ := processFrames_closes version true first closes (some_more sized)
        rw [ended]
        simp [beforeClosing, closes]
      | false =>
        have small : more.length ≤ fuel := by omega
        obtain ⟨events, outcome⟩ := ih rest part small
        rw [processFrames_frame version true first closes some_more, events]
        simp only [beforeClosing, takeWhile_cons, closes, any_cons, Bool.not_false, if_true,
          map_cons, Bool.false_or]
        refine ⟨rfl, ?_⟩
        split
        · rename_i closing
          rw [if_pos closing] at outcome
          exact outcome
        · rename_i open_still
          rw [if_neg open_still] at outcome
          rw [outcome, wire_cons, length_append, drop_length_add_append]
    · rw [readyFrames, if_neg ready]
      have part : data <+: frame.wire :=
        prefix_of_prefix_length_le isPart (prefix_append ..) (by omega)
      have waits : data.length < frame.wire.length ∨ frame.isSized = true := by
        cases sized : frame.isSized with
        | false => exact .inl (by simp [sized] at ready; omega)
        | true => exact .inr rfl
      rw [processFrames_waits version true first part waits]
      exact ⟨rfl, rfl⟩

end Pass

end Glopen.WebSockets
