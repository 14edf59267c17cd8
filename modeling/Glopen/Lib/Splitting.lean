import Mathlib.Data.List.Basic
import Glopen.Lib.Feeding

/-! Machines that do not notice how their input is cut into pieces. It is enough that each pass
either is not changed by more input, or uses up its input and goes on with the next pass. -/
namespace Glopen.Feeding

open List Option
variable {σ β ε ν : Type}

/-- A call that returns, all of whose passes are good. -/
inductive Calls (m : Machine σ β ε) (Good : σ → List β → Prop) : σ → List β → σ → List ε → List β → Prop
  | returns {s : σ} {data : List β} : m.Returns s data → Calls m Good s data s [] data
  | pass {s s' s'' : σ} {data left rest : List β} {new later : List ε} :
    ¬ m.Returns s data → Good s data → m.step s data = (s', new, left) →
    Calls m Good s' left s'' later rest → Calls m Good s data s'' (new ++ later) rest

/-- Calls with one piece of input each, which all return. -/
inductive Feeds (m : Machine σ β ε) (Good : σ → List β → Prop) :
    σ → List β → List (List β) → σ → List ε → List β → Prop
  | done {s : σ} {data : List β} : Feeds m Good s data [] s [] data
  | call {s s' s'' : σ} {data piece left rest : List β} {pieces : List (List β)}
      {new later : List ε} :
    Calls m Good s (data ++ piece) s' new left → Feeds m Good s' left pieces s'' later rest →
    Feeds m Good s data (piece :: pieces) s'' (new ++ later) rest

/-- What a pass does with more input. The events are compared by their atoms. -/
structure Splits (m : Machine σ β ε) (Inv : σ → Prop) (Good : σ → List β → Prop)
    (atoms : ε → List ν) : Prop where
  keeps {s s' : σ} {data left : List β} {new : List ε} : Inv s → ¬ m.Returns s data →
    Good s data → m.step s data = (s', new, left) → Inv s'
  splits {s s' : σ} {data more left : List β} {new : List ε} : Inv s → ¬ m.Returns s data →
    Good s data → m.step s data = (s', new, left) → more ≠ [] →
    (m.step s (data ++ more) = (s', new, left ++ more) ∧ Good s (data ++ more)) ∨
    (left = [] ∧ m.stops s' = false ∧ ∀ {s'' later rest}, Good s' more →
      m.step s' more = (s'', later, rest) →
      ∃ events, m.step s (data ++ more) = (s'', events, rest) ∧ Good s (data ++ more) ∧
        events.flatMap atoms = new.flatMap atoms ++ later.flatMap atoms)

variable {m : Machine σ β ε} {Inv : σ → Prop} {Good : σ → List β → Prop} {atoms : ε → List ν}

theorem calls_returns {s s' : σ} {data left : List β} {events : List ε}
    (calls : Calls m Good s data s' events left) : m.Returns s' left := by
  induction calls with
  | returns returns => exact returns
  | pass _ _ _ _ ih => exact ih

theorem calls_trivial {s s' : σ} {data left : List β} {events : List ε}
    (calls : Calls m Good s data s' events left) (returns : m.Returns s data) :
    s' = s ∧ events = [] ∧ left = data := by
  cases calls with
  | returns _ => exact ⟨rfl, rfl, rfl⟩
  | pass working _ _ _ => exact absurd returns working

theorem calls_keep (splits : Splits m Inv Good atoms) {s s' : σ} {data left : List β}
    {events : List ε} (calls : Calls m Good s data s' events left) (inv : Inv s) : Inv s' := by
  induction calls with
  | returns _ => exact inv
  | pass working good step _ ih => exact ih (splits.keeps inv working good step)

/-- Two calls in a row do what one call does with the whole input. -/
theorem calls_append (splits : Splits m Inv Good atoms) {s s' s'' : σ}
    {data left more rest : List β} {events later : List ε} (inv : Inv s)
    (first : Calls m Good s data s' events left) (second : Calls m Good s' (left ++ more) s'' later rest) :
    ∃ all, Calls m Good s (data ++ more) s'' all rest ∧
      all.flatMap atoms = events.flatMap atoms ++ later.flatMap atoms := by
  by_cases empty : more = []
  · subst empty
    rw [append_nil] at second ⊢
    obtain ⟨same, none_more, used⟩ := calls_trivial second (calls_returns first)
    subst same none_more used
    exact ⟨events, first, (append_nil _).symm⟩
  induction first with
  | returns _ => exact ⟨later, second, rfl⟩
  | @pass s s1 s' data left1 left new events working good step calls ih =>
    have working' : ¬ m.Returns s (data ++ more) := by
      rintro (none_left | stopped)
      · exact empty (append_eq_nil_iff.mp none_left).2
      · exact working (.inr stopped)
    rcases splits.splits inv working good step empty with ⟨step', good'⟩ | ⟨used, runs, joined⟩
    · obtain ⟨all, calls', same⟩ := ih (splits.keeps inv working good step) second
      refine ⟨new ++ all, .pass working' good' step' calls', ?_⟩
      rw [flatMap_append, flatMap_append, same, append_assoc]
    · subst used
      obtain ⟨same, nothing, unread⟩ := calls_trivial calls (.inl rfl)
      subst same nothing unread
      cases second with
      | returns returns =>
        rcases returns with none_left | stopped
        · exact absurd none_left empty
        · rw [runs] at stopped
          cases stopped
      | @pass _ s2 _ _ left2 _ new2 later _ good2 step2 calls2 =>
        obtain ⟨events, step', good', same⟩ := joined good2 step2
        refine ⟨events ++ later, .pass working' good' step' calls2, ?_⟩
        simp only [flatMap_append, same, append_assoc, append_nil]

/-- All calls together do what one call does. -/
theorem feeds_calls (splits : Splits m Inv Good atoms) {s s' : σ} {data rest : List β}
    {pieces : List (List β)} {events : List ε} (inv : Inv s) (returns : m.Returns s data)
    (feeds : Feeds m Good s data pieces s' events rest) :
    ∃ all, Calls m Good s (data ++ pieces.flatten) s' all rest ∧ all.flatMap atoms = events.flatMap atoms := by
  induction feeds with
  | @done s data =>
    rw [flatten_nil, append_nil]
    exact ⟨[], .returns returns, rfl⟩
  | call first _ ih =>
    obtain ⟨later, second, same⟩ := ih (calls_keep splits first inv) (calls_returns first)
    obtain ⟨all, calls, joined⟩ := calls_append splits inv first second
    rw [flatten_cons, ← append_assoc]
    refine ⟨all, calls, ?_⟩
    rw [joined, same, flatMap_append]

theorem feeds_append {s s' : σ} {data rest : List β} {pieces others : List (List β)}
    {events : List ε} (feeds : Feeds m Good s data (pieces ++ others) s' events rest) :
    ∃ middle new left later, Feeds m Good s data pieces middle new left ∧
      Feeds m Good middle left others s' later rest ∧ events = new ++ later := by
  induction pieces generalizing s data events with
  | nil => exact ⟨s, [], data, events, .done, feeds, rfl⟩
  | cons piece pieces ih =>
    cases feeds with
    | @call _ s1 _ _ _ left1 _ _ new1 _ first second =>
      obtain ⟨middle, new, left, later, start, finish, same⟩ := ih second
      refine ⟨middle, new1 ++ new, left, later, .call first start, finish, ?_⟩
      rw [same, append_assoc]

/-- What a machine does with single elements it does with all pieces. -/
theorem feeds_pieces (splits : Splits m Inv Good atoms) {s s' : σ} {data rest : List β}
    {pieces : List (List β)} {events : List ε} (inv : Inv s) (returns : m.Returns s data)
    (feeds : Feeds m Good s data (pieces.flatten.map fun b => [b]) s' events rest) :
    ∃ all, Feeds m Good s data pieces s' all rest ∧ all.flatMap atoms = events.flatMap atoms := by
  induction pieces generalizing s data events with
  | nil => exact ⟨events, feeds, rfl⟩
  | cons piece pieces ih =>
    rw [flatten_cons, map_append] at feeds
    obtain ⟨middle, new, left, later, start, finish, events_eq⟩ := feeds_append feeds
    obtain ⟨all, calls, same⟩ := feeds_calls splits inv returns start
    have whole : (piece.map fun b => [b]).flatten = piece := by
      rw [← flatMap_def, flatMap_singleton']
    rw [whole] at calls
    obtain ⟨rest_events, feeds', same'⟩ := ih (calls_keep splits calls inv) (calls_returns calls) finish
    refine ⟨all ++ rest_events, .call calls feeds', ?_⟩
    rw [events_eq, flatMap_append, flatMap_append, same, same']

theorem take_min_length {α : Type} (n : Nat) (data : List α) :
    (data.take (min n data.length)).length = min n data.length := by
  rw [length_take]
  omega

/-- The first part is used up, and the second part is read as if it were the rest of one. -/
theorem take_both {α : Type} {n : Nat} {data more : List α} (used : data.length ≤ n) :
    (data ++ more).take (min n (data ++ more).length) = data ++ more.take (min (n - data.length) more.length) ∧
    (data ++ more).drop (min n (data ++ more).length) = more.drop (min (n - data.length) more.length) := by
  have count : min n (data ++ more).length = data.length + min (n - data.length) more.length := by
    rw [length_append]
    omega
  rw [count]
  exact ⟨take_length_add_append _, drop_length_add_append _⟩

/-- More input is not looked at. -/
theorem take_first {α : Type} {n : Nat} {data more : List α} (enough : n ≤ data.length) :
    (data ++ more).take (min n (data ++ more).length) = data.take (min n data.length) ∧
    (data ++ more).drop (min n (data ++ more).length) = data.drop (min n data.length) ++ more := by
  have count : min n (data ++ more).length = n := by
    rw [length_append]
    omega
  rw [count, Nat.min_eq_left enough]
  exact ⟨take_append_of_le_length enough, drop_append_of_le_length enough⟩

/-- On this input, a pass takes up to `count` elements and does `take` with them. -/
def TakesOn (m : Machine σ β ε) (s : σ) (count : Nat) (take : List β → σ × List ε)
    (data : List β) : Prop :=
  m.step s data = ((take (data.take (min count data.length))).1,
    (take (data.take (min count data.length))).2, data.drop (min count data.length))

section Takes

variable {s s' s'' : σ} {count : Nat} {take rest : List β → σ × List ε}
  {data more left : List β} {new later : List ε}

theorem takes_enough (enough : count ≤ data.length) (one : TakesOn m s count take data)
    (both : TakesOn m s count take (data ++ more)) (step : m.step s data = (s', new, left)) :
    m.step s (data ++ more) = (s', new, left ++ more) := by
  rw [TakesOn, step] at one
  obtain ⟨taken, dropped⟩ := @take_first _ count data more enough
  rw [TakesOn, taken, dropped] at both
  rw [both]
  simp only [Prod.mk.injEq] at one ⊢
  exact ⟨one.1.symm, one.2.1.symm, congrArg (· ++ more) one.2.2.symm⟩

theorem takes_short (short : data.length < count) (one : TakesOn m s count take data)
    (step : m.step s data = (s', new, left)) : take data = (s', new) ∧ left = [] := by
  rw [TakesOn, step, Nat.min_eq_right (Nat.le_of_lt short), take_length, drop_length,
    Prod.mk.injEq, Prod.mk.injEq] at one
  exact ⟨Prod.ext one.1.symm one.2.1.symm, one.2.2⟩

theorem takes_joined (short : data.length < count) (both : TakesOn m s count take (data ++ more))
    (second : TakesOn m s' (count - data.length) rest more) (step : m.step s' more = (s'', later, left)) :
    let part := more.take (min (count - data.length) more.length)
    rest part = (s'', later) ∧
      m.step s (data ++ more) = ((take (data ++ part)).1, (take (data ++ part)).2, left) := by
  obtain ⟨taken, dropped⟩ := @take_both _ count data more (Nat.le_of_lt short)
  rw [TakesOn, step, Prod.mk.injEq, Prod.mk.injEq] at second
  refine ⟨Prod.ext second.1.symm second.2.1.symm, ?_⟩
  rw [TakesOn, taken, dropped, ← second.2.2] at both
  exact both

end Takes

/-- Passes that leave the input alone lower the rank of the state. -/
def Progress (m : Machine σ β ε) (Inv : σ → Prop) (Good : σ → List β → Prop) (rank : σ → Nat) : Prop :=
  ∀ {s s' data left new}, Inv s → ¬ m.Returns s data → Good s data → m.step s data = (s', new, left) →
    left.length < data.length ∨ left.length = data.length ∧ rank s' < rank s

/-- Every pass of a session is good. -/
def AllGood (m : Machine σ β ε) (Good : σ → List β → Prop) (start : Session σ β ε) : Prop :=
  ∀ session, Run m (fun _ _ => True) start session → ¬ m.Returns session.state session.data →
    Good session.state session.data

/-- With good passes that make progress, a call returns. -/
theorem calls_total {rank : σ → Nat} (splits : Splits m Inv Good atoms)
    (progress : Progress m Inv Good rank) {s : σ} {data : List β} {pieces : List (List β)}
    {events : List ε} (inv : Inv s) (good : AllGood m Good ⟨s, data, pieces, events⟩) :
    ∃ s' new left, Calls m Good s data s' new left ∧
      Run m (fun _ _ => True) ⟨s, data, pieces, events⟩ ⟨s', left, pieces, events ++ new⟩ := by
  by_cases returns : m.Returns s data
  · exact ⟨s, [], data, .returns returns, by rw [append_nil]⟩
  obtain ⟨s1, new1, left1, step⟩ : ∃ s1 new1 left1, m.step s data = (s1, new1, left1) :=
    ⟨_, _, _, rfl⟩
  have fine := good _ .refl returns
  have first : Run m (fun _ _ => True) ⟨s, data, pieces, events⟩
      ⟨s1, left1, pieces, events ++ new1⟩ := .single (.pass returns trivial step)
  have shorter := progress inv returns fine step
  obtain ⟨s', new, left, calls, run⟩ := calls_total splits progress
    (splits.keeps inv returns fine step) (fun session later => good session (first.trans later))
  rw [append_assoc] at run
  exact ⟨s', new1 ++ new, left, .pass returns fine step calls, first.trans run⟩
termination_by (data.length, rank s)
decreasing_by
  rcases shorter with less | ⟨same, lower⟩
  · exact Prod.Lex.left _ _ less
  · rw [← same]
    exact Prod.Lex.right _ lower

theorem feeds_total {rank : σ → Nat} (splits : Splits m Inv Good atoms)
    (progress : Progress m Inv Good rank) {s : σ} {data : List β} {pieces : List (List β)}
    {events : List ε} (inv : Inv s) (returns : m.Returns s data)
    (good : AllGood m Good ⟨s, data, pieces, events⟩) :
    ∃ s' new left, Feeds m Good s data pieces s' new left := by
  induction pieces generalizing s data events with
  | nil => exact ⟨s, [], data, .done⟩
  | cons piece pieces ih =>
    have arrive : Run m (fun _ _ => True) ⟨s, data, piece :: pieces, events⟩
        ⟨s, data ++ piece, pieces, events⟩ := .single (.call returns)
    obtain ⟨s1, new1, left1, calls, run⟩ := calls_total splits progress inv
      (fun session later => good session (arrive.trans later))
    obtain ⟨s', new, left, feeds⟩ := ih (calls_keep splits calls inv) (calls_returns calls)
      (fun session later => good session ((arrive.trans run).trans later))
    exact ⟨s', new1 ++ new, left, .call calls feeds⟩

section Passes

variable [DecidableEq β]

theorem call_more {passes more : Nat} {s : σ} {data : List β} {result : σ × List ε × List β}
    (returned : m.call passes s data = some result) (enough : passes ≤ more) :
    m.call more s data = some result := by
  induction passes generalizing s data result more with
  | zero =>
    rw [Machine.call] at returned
    split at returned
    · rename_i returns
      cases more with
      | zero => rw [Machine.call, if_pos returns, returned]
      | succ more => rw [Machine.call, if_pos returns, returned]
    · cases returned
  | succ passes ih =>
    obtain ⟨more, rfl⟩ : ∃ k, more = k + 1 := ⟨more - 1, by omega⟩
    rw [Machine.call] at returned ⊢
    split at returned
    · rename_i returns
      rw [if_pos returns, returned]
    · rename_i working
      rw [if_neg working]
      obtain ⟨s1, new1, left1, step⟩ : ∃ s1 new1 left1, m.step s data = (s1, new1, left1) :=
        ⟨_, _, _, rfl⟩
      rw [step] at returned ⊢
      obtain ⟨after, later, same⟩ := map_eq_some_iff.mp returned
      have called := ih later (Nat.le_of_succ_le_succ enough)
      simp only at called ⊢
      rw [called, map_some, ← same]

theorem calls_call {s s' : σ} {data left : List β} {events : List ε}
    (calls : Calls m Good s data s' events left) : ∃ passes, m.call passes s data = some (s', events, left) := by
  induction calls with
  | returns returns => exact ⟨0, if_pos returns⟩
  | pass working _ step _ ih =>
    obtain ⟨passes, later⟩ := ih
    refine ⟨passes + 1, ?_⟩
    rw [Machine.call, if_neg working, step]
    simp only [later, map_some]

theorem feed_more {passes more : Nat} {s : σ} {data : List β} {pieces : List (List β)}
    {result : σ × List ε × List β} (returned : m.feed passes s data pieces = some result)
    (enough : passes ≤ more) : m.feed more s data pieces = some result := by
  induction pieces generalizing s data result with
  | nil => exact returned
  | cons piece pieces ih =>
    simp only [Machine.feed, bind_eq_bind, bind_eq_some_iff] at returned ⊢
    obtain ⟨first, called, second, fed, same⟩ := returned
    exact ⟨first, call_more called enough, second, ih fed, same⟩

theorem feeds_feed {s s' : σ} {data left : List β} {pieces : List (List β)} {events : List ε}
    (feeds : Feeds m Good s data pieces s' events left) :
    ∃ passes, m.feed passes s data pieces = some (s', events, left) := by
  induction feeds with
  | done => exact ⟨0, rfl⟩
  | call first _ ih =>
    obtain ⟨passes, later⟩ := ih
    obtain ⟨passes', called⟩ := calls_call first
    refine ⟨max passes passes', ?_⟩
    simp only [Machine.feed, call_more called (Nat.le_max_right _ _), bind_eq_bind,
      bind_some, feed_more later (Nat.le_max_left _ _)]

/-- However the input is cut into pieces, the calls return, and together they do the same as one
call with all of it. -/
theorem feed_pieces {rank : σ → Nat} (splits : Splits m Inv Good atoms)
    (progress : Progress m Inv Good rank) {s : σ} {pieces : List (List β)} (inv : Inv s)
    (good : AllGood m Good ⟨s, [], pieces.flatten.map fun b => [b], []⟩) :
    ∃ passes s' whole events left, m.call passes s pieces.flatten = some (s', whole, left) ∧
      m.feed passes s [] pieces = some (s', events, left) ∧
      events.flatMap atoms = whole.flatMap atoms := by
  obtain ⟨s', single, left, feeds⟩ := feeds_total splits progress inv (.inl rfl) good
  have flatten : (pieces.flatten.map fun b => [b]).flatten = pieces.flatten := by
    rw [← flatMap_def, flatMap_singleton']
  obtain ⟨whole, calls, same⟩ := feeds_calls splits inv (.inl rfl) feeds
  rw [flatten, nil_append] at calls
  obtain ⟨events, feeds', same'⟩ := feeds_pieces splits inv (.inl rfl) feeds
  obtain ⟨passes, called⟩ := calls_call calls
  obtain ⟨passes', fed⟩ := feeds_feed feeds'
  exact ⟨max passes passes', s', whole, events, left, call_more called (Nat.le_max_left _ _),
    feed_more fed (Nat.le_max_right _ _), same'.trans same.symm⟩

/-- A session that comes to its end within a bound, with only good passes. -/
def Machine.finishes (m : Machine σ β ε) (good : σ → List β → Bool) : Nat → Session σ β ε → Bool
  | 0, session => m.Returns session.state session.data ∧ session.pieces = []
  | passes + 1, session =>
    (m.Returns session.state session.data ∨ good session.state session.data = true) ∧
      finishes m good passes (m.advance session)

theorem next_advance {Good : σ → List β → Prop} {session later : Session σ β ε}
    (next : Next m Good session later) : later = m.advance session := by
  cases next with
  | pass working _ step => rw [Machine.advance, if_neg working, step]
  | call returns => rw [Machine.advance, if_pos returns]

theorem finishes_good {good : σ → List β → Bool} {passes : Nat} {session : Session σ β ε}
    (finishes : m.finishes good passes session = true) :
    AllGood m (fun s data => good s data = true) session := by
  induction passes generalizing session with
  | zero =>
    obtain ⟨returns, nothing⟩ := of_decide_eq_true finishes
    intro later run working
    rcases Relation.ReflTransGen.cases_head run with same | ⟨next, first, -⟩
    · rw [← same] at working
      exact absurd returns working
    · cases first with
      | pass busy _ _ => exact absurd returns busy
      | call _ => cases nothing
  | succ passes ih =>
    obtain ⟨fine, rest⟩ := of_decide_eq_true finishes
    intro later run working
    rcases Relation.ReflTransGen.cases_head run with same | ⟨next, first, others⟩
    · rw [← same] at working ⊢
      exact fine.resolve_left working
    · rw [next_advance first] at others
      exact ih rest later others working

end Passes

end Glopen.Feeding
