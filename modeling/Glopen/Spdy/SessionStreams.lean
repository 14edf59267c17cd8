import Mathlib.Algebra.Group.Nat.Defs
import Mathlib.Data.List.Induction

/-! The stream identifiers of spdy_session.cc, and the map of active streams. -/
namespace Glopen.Spdy

open List

structure SpdyStream where
  streamId : Nat
  pushed : Bool
deriving DecidableEq

structure SpdySession where
  streamHiWaterMark : Nat
  activeStreams : Nat → Option SpdyStream

def SpdySession.new : SpdySession := ⟨1, fun _ => none⟩

def SpdySession.isStreamActive (session : SpdySession) (id : Nat) : Bool :=
  (session.activeStreams id).isSome

def SpdySession.getNewStreamId (session : SpdySession) : Nat × SpdySession :=
  let mark := session.streamHiWaterMark + 2
  (session.streamHiWaterMark, { session with streamHiWaterMark := if mark > 0x7fff then 1 else mark })

def SpdySession.activateStream (stream : SpdyStream) (session : SpdySession) : SpdySession :=
  { session with activeStreams := fun id =>
      if id = stream.streamId then some stream else session.activeStreams id }

def SpdySession.createStream (session : SpdySession) : SpdySession :=
  let (id, session) := session.getNewStreamId
  session.activateStream ⟨id, false⟩

def SpdySession.deleteStream (id : Nat) (session : SpdySession) : SpdySession :=
  { session with activeStreams := fun x => if x = id then none else session.activeStreams x }

/-- `path` says whether the headers have one, and `responded` whether the stream takes the response. -/
def SpdySession.onSyn (id : Nat) (path responded : Bool) (session : SpdySession) : SpdySession :=
  if id % 2 ≠ 0 || session.isStreamActive id || !path then session
  else
    let session := session.activateStream ⟨id, true⟩
    if responded then session else session.deleteStream id

def SpdySession.closeAllStreams (session : SpdySession) : SpdySession :=
  { session with activeStreams := fun _ => none }

inductive SessionEvent
  | createStream
  | deleteStream (id : Nat)
  | onSyn (id : Nat) (path responded : Bool)
  | closeAllStreams
deriving DecidableEq

def SessionEvent.run (session : SpdySession) : SessionEvent → SpdySession
  | createStream => session.createStream
  | deleteStream id => session.deleteStream id
  | onSyn id path responded => session.onSyn id path responded
  | closeAllStreams => session.closeAllStreams

def sessionAfter (events : List SessionEvent) : SpdySession := events.foldl SessionEvent.run .new

theorem sessionAfter_snoc (events : List SessionEvent) (event : SessionEvent) :
    sessionAfter (events ++ [event]) = event.run (sessionAfter events) := by
  rw [sessionAfter, foldl_append]
  rfl

def creations (events : List SessionEvent) : Nat := events.count .createStream

theorem creations_append (events events' : List SessionEvent) :
    creations (events ++ events') = creations events + creations events' := count_append

theorem creations_cons (event : SessionEvent) (events : List SessionEvent) :
    creations (event :: events) = creations events + if event = .createStream then 1 else 0 := by
  rw [creations, count_cons]
  simp [creations]

def markAt (count : Nat) : Nat := 1 + 2 * (count % 0x4000)

theorem mark_next (count : Nat) :
    (if markAt count + 2 > 0x7fff then 1 else markAt count + 2) = markAt (count + 1) := by
  rw [markAt, markAt]
  split <;> omega

theorem streamHiWaterMark_eq (events : List SessionEvent) :
    (sessionAfter events).streamHiWaterMark = markAt (creations events) := by
  induction events using List.reverseRecOn with
  | nil => rfl
  | append_singleton events event before =>
    rw [sessionAfter_snoc, creations_append]
    cases event with
    | createStream =>
      change (if (sessionAfter events).streamHiWaterMark + 2 > 0x7fff then 1 else _) = _
      rw [before]
      exact mark_next _
    | deleteStream id => exact before
    | onSyn id path responded =>
      refine Eq.trans ?_ before
      rw [SessionEvent.run, SpdySession.onSyn]
      repeat' split
      all_goals rfl
    | closeAllStreams => exact before

theorem markAt_range (count : Nat) : markAt count % 2 = 1 ∧ markAt count ≤ 0x7fff := by
  rw [markAt]
  omega

theorem markAt_eq_iff (count count' : Nat) : markAt count = markAt count' ↔
    count % 0x4000 = count' % 0x4000 := by
  rw [markAt, markAt]
  omega

variable {events : List SessionEvent}

section Active

def SessionEvent.Closes (id : Nat) : SessionEvent → Prop
  | deleteStream id' => id' = id
  | closeAllStreams => True
  | _ => False

variable {session : SpdySession} {id : Nat}
variable {event : SessionEvent}

theorem active_kept (active : session.isStreamActive id = true)
    (odd : id % 2 = 1) (open_still : ¬ event.Closes id) : (event.run session).isStreamActive id = true := by
  cases event with
  | createStream =>
    change (if id = session.streamHiWaterMark then some _ else session.activeStreams id).isSome = true
    split
    · rfl
    · exact active
  | deleteStream id' =>
    change (if id = id' then none else session.activeStreams id).isSome = true
    rw [if_neg fun same => open_still same.symm]
    exact active
  | onSyn id' path responded =>
    rw [SessionEvent.run, SpdySession.onSyn]
    split
    · exact active
    · rename_i taken
      have other : id ≠ id' := by
        rintro rfl
        simp [odd] at taken
      split
      · change (if id = id' then some _ else session.activeStreams id).isSome = true
        rw [if_neg other]
        exact active
      · change (if id = id' then none else if id = id' then some _ else
          session.activeStreams id).isSome = true
        rw [if_neg other, if_neg other]
        exact active
  | closeAllStreams => exact absurd trivial open_still

theorem active_through (active : session.isStreamActive id = true)
    (odd : id % 2 = 1) (open_still : ∀ event ∈ events, ¬ event.Closes id) :
    (events.foldl SessionEvent.run session).isStreamActive id = true := by
  induction events generalizing session with
  | nil => exact active
  | cons event events rest =>
    exact rest (active_kept active odd (open_still event (mem_cons_self ..))) fun later there =>
      open_still later (mem_cons_of_mem _ there)

theorem active_before (odd : id % 2 = 1) (active : (event.run session).isStreamActive id = true) :
    ¬ event.Closes id ∧ (session.isStreamActive id = true ∨
      event = .createStream ∧ session.streamHiWaterMark = id) := by
  cases event with
  | createStream =>
    change (if id = session.streamHiWaterMark then some _ else session.activeStreams id).isSome = true
      at active
    refine ⟨fun closes => closes, ?_⟩
    split at active
    · rename_i here
      exact Or.inr ⟨rfl, here.symm⟩
    · exact Or.inl active
  | deleteStream id' =>
    change (if id = id' then none else session.activeStreams id).isSome = true at active
    split at active
    · cases active
    · rename_i other
      exact ⟨fun same => other same.symm, Or.inl active⟩
  | onSyn id' path responded =>
    refine ⟨fun closes => closes, Or.inl ?_⟩
    rw [SessionEvent.run, SpdySession.onSyn] at active
    split at active
    · exact active
    · rename_i taken
      have other : id ≠ id' := by
        rintro rfl
        simp [odd] at taken
      split at active
      · change (if id = id' then some _ else session.activeStreams id).isSome = true at active
        rw [if_neg other] at active
        exact active
      · change (if id = id' then none else if id = id' then some _ else
          session.activeStreams id).isSome = true at active
        rw [if_neg other, if_neg other] at active
        exact active
  | closeAllStreams => cases active

theorem active_since (odd : id % 2 = 1) (active : (sessionAfter events).isStreamActive id = true) :
    ∃ before between, events = before ++ .createStream :: between ∧ markAt (creations before) = id ∧
      ∀ event ∈ between, ¬ event.Closes id := by
  induction events using List.reverseRecOn with
  | nil => cases active
  | append_singleton events event earlier =>
    rw [sessionAfter_snoc] at active
    obtain ⟨open_still, old | ⟨rfl, mark⟩⟩ := active_before odd active
    · obtain ⟨before, between, split, mark, open_between⟩ := earlier old
      refine ⟨before, between ++ [event], by rw [split, append_assoc]; rfl, mark, fun later there => ?_⟩
      rcases mem_append.mp there with inside | last
      · exact open_between later inside
      · exact mem_singleton.mp last ▸ open_still
    · rw [streamHiWaterMark_eq] at mark
      exact ⟨events, [], rfl, mark, fun _ none => by cases none⟩

end Active

def ClosedInTime (events : List SessionEvent) : Prop :=
  ∀ before between after, events = before ++ .createStream :: (between ++ .createStream :: after) →
    creations between + 1 = 0x4000 → ∃ event ∈ between, event.Closes (markAt (creations before))

theorem creation_split {count : Nat} (more : count < creations events) :
    ∃ before after, events = before ++ .createStream :: after ∧ creations before = count := by
  induction events generalizing count with
  | nil => cases more
  | cons event events rest =>
    rw [creations_cons] at more
    by_cases create : event = .createStream
    · subst create
      cases count with
      | zero => exact ⟨[], events, rfl, rfl⟩
      | succ count =>
        obtain ⟨before, after, split, its⟩ := rest (Nat.lt_of_succ_lt_succ more)
        refine ⟨.createStream :: before, after, by rw [split]; rfl, ?_⟩
        rw [creations_cons, its, if_pos rfl]
    · rw [if_neg create] at more
      obtain ⟨before, after, split, its⟩ := rest more
      refine ⟨event :: before, after, by rw [split]; rfl, ?_⟩
      rw [creations_cons, its, if_neg create, Nat.add_zero]

theorem new_ids_unique_iff (events : List SessionEvent) :
    (∀ before after, events = before ++ .createStream :: after →
      let session := sessionAfter before
      session.getNewStreamId.1 % 2 = 1 ∧ session.getNewStreamId.1 ≤ 0x7fffffff ∧
        session.isStreamActive session.getNewStreamId.1 = false) ↔ ClosedInTime events := by
  constructor
  · intro unique before between after split round
    by_contra open_still
    have open_between : ∀ event ∈ between, ¬ event.Closes (markAt (creations before)) :=
      fun event there closes => open_still ⟨event, there, closes⟩
    obtain ⟨-, -, inactive⟩ := unique (before ++ .createStream :: between) after
      (by rw [split, List.append_assoc]; rfl)
    have same : (sessionAfter (before ++ .createStream :: between)).getNewStreamId.1 =
        markAt (creations before) := by
      refine (streamHiWaterMark_eq _).trans ((markAt_eq_iff _ _).mpr ?_)
      rw [creations_append, creations_cons, if_pos rfl, round, Nat.add_mod_right]
    have created : (SessionEvent.run (sessionAfter before) .createStream).isStreamActive
        (markAt (creations before)) = true := by
      change (if _ = (sessionAfter before).streamHiWaterMark then some _ else _).isSome = true
      rw [if_pos (streamHiWaterMark_eq before).symm]
      rfl
    have active := active_through created (markAt_range _).1 open_between
    rw [same, sessionAfter, List.foldl_append] at inactive
    exact absurd active (Bool.eq_false_iff.mp inactive)
  · intro closed before after split
    simp only
    have its : (sessionAfter before).getNewStreamId.1 = markAt (creations before) :=
      streamHiWaterMark_eq before
    obtain ⟨odd, small⟩ := markAt_range (creations before)
    rw [its]
    refine ⟨odd, by omega, ?_⟩
    by_contra active
    rw [Bool.not_eq_false] at active
    obtain ⟨first, between, split', mark, open_between⟩ := active_since odd active
    have rounds : (creations between + 1) % 0x4000 = 0 := by
      rw [markAt_eq_iff, split', creations_append, creations_cons, if_pos rfl] at mark
      omega
    rw [← mark] at open_between
    -- the counter has come round at least once: where it does so first, the stream is closed
    by_cases once : creations between + 1 = 0x4000
    · obtain ⟨event, there, closes⟩ := closed first between after
        (by rw [split, split', List.append_assoc]; rfl) once
      exact open_between event there closes
    · obtain ⟨early, late, split'', its_count⟩ := creation_split (show 0x3fff < creations between by omega)
      obtain ⟨event, there, closes⟩ := closed first early (late ++ .createStream :: after)
        (by rw [split, split', split'']; simp) (by rw [its_count])
      exact open_between event (by rw [split'']; exact List.mem_append_left _ there) closes

theorem created_only (count : Nat) :
    (sessionAfter (.createStream :: List.replicate count .createStream)).getNewStreamId.1 = markAt (count + 1) ∧
      (sessionAfter (.createStream :: List.replicate count .createStream)).isStreamActive 1 = true := by
  have created : ∀ event ∈ List.replicate count SessionEvent.createStream, ¬ event.Closes 1 := by
    intro event there
    rw [eq_of_mem_replicate there]
    exact fun closes => closes
  have first : (SessionEvent.run .new .createStream).isStreamActive 1 = true := rfl
  have stays := active_through first rfl created
  refine ⟨(streamHiWaterMark_eq _).trans ?_, stays⟩
  rw [creations_cons, creations, count_replicate_self]
  rfl

/-- The first stream stays, and its identifier comes again. -/
theorem first_id_again :
    let session := sessionAfter (.createStream :: List.replicate 0x3fff .createStream)
    session.getNewStreamId.1 = 1 ∧ session.isStreamActive 1 = true :=
  created_only 0x3fff

end Glopen.Spdy
