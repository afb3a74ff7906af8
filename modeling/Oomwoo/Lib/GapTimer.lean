import Mathlib.Data.List.Chain

namespace GapTimer

/-!
# Machines with a gap timer

A machine takes items one at a time and notes the clock at each of them.  At a test it clears
itself if the last item is longer ago than a gap.  Tests come whenever they come, and the clock
may wrap.

* `Clock` says what is asked of the clock: within a period the elapsed time is exact;
* `Timer` says what is asked of the machine, and `Schedule` of the events it sees;
* two neighbouring items have only tests between them (`exists_gap`), and the machine is idle
  when the second one comes exactly if the first one left it so or a test in between came late
  enough (`Timer.idle_closing_iff`);
* where neighbouring events are close together (`Polled`), every gap that is longer by the time
  between them is seen, even one longer than a period of the clock (`Timer.idle_closing_of_polled`),
  and items that come close enough leave no late test between them (`steady_of_isChain`).
-/

variable {α τ σ : Type*}

/-- A clock that may wrap: its reading at a time, and how much later a second reading is. -/
structure Clock (τ : Type*) where
  period : ℕ
  reading : ℕ → τ
  elapsed : τ → τ → ℕ
  elapsed_reading : ∀ {a b}, a ≤ b → b < a + period → elapsed (reading a) (reading b) = b - a

/-! ### Events -/

inductive Event (α : Type*) where
  | item (a : α) (time : ℕ)
  | test (time : ℕ)
  deriving DecidableEq, Repr

namespace Event

def time : Event α → ℕ
  | item _ time => time
  | test time => time

/-- The item that is taken, and when. -/
def item? : Event α → Option (α × ℕ)
  | item a time => some (a, time)
  | test _ => none

end Event

/-- The items of a list of events, in order. -/
def items (events : List (Event α)) : List (α × ℕ) := events.filterMap Event.item?

theorem items_append (a b : List (Event α)) : items (a ++ b) = items a ++ items b :=
  List.filterMap_append

@[simp] theorem items_map_test (tests : List ℕ) :
    items (tests.map (Event.test : ℕ → Event α)) = [] := by
  apply List.filterMap_eq_nil_iff.mpr
  intro event hevent
  obtain ⟨time, _, rfl⟩ := List.mem_map.mp hevent
  rfl

/-- Two items that are taken one after the other, the tests between them, and the events before
    and behind them. -/
structure Gap (α : Type*) where
  before : List (Event α)
  first : α
  start : ℕ
  tests : List ℕ
  second : α
  stop : ℕ
  after : List (Event α)

namespace Gap

variable (gap : Gap α)

/-- The events up to the first item. -/
def opening : List (Event α) := gap.before ++ [.item gap.first gap.start]

/-- The events up to where the second item is due. -/
def closing : List (Event α) := gap.opening ++ gap.tests.map .test

def events : List (Event α) := gap.closing ++ .item gap.second gap.stop :: gap.after

theorem items_closing : items gap.closing = items gap.before ++ [(gap.first, gap.start)] := by
  unfold closing opening
  rw [items_append, items_append, items_map_test, List.append_nil]
  rfl

theorem items_events :
    items gap.events =
      items gap.before ++ (gap.first, gap.start) :: (gap.second, gap.stop) :: items gap.after := by
  unfold events
  rw [items_append, items_closing, List.append_assoc]
  rfl

end Gap

/-- Events without an item are tests. -/
theorem exists_map_test {events : List (Event α)} (h : ∀ event ∈ events, event.item? = none) :
    ∃ tests : List ℕ, events = tests.map .test := by
  induction events with
  | nil => exact ⟨[], rfl⟩
  | cons event events ih =>
    obtain ⟨tests, rfl⟩ := ih fun e he => h e (List.mem_cons_of_mem _ he)
    cases event with
    | item a time => exact absurd (h _ List.mem_cons_self) (by simp [Event.item?])
    | test time => exact ⟨time :: tests, rfl⟩

theorem item?_eq_some_iff {event : Event α} {a : α × ℕ} :
    event.item? = some a ↔ event = .item a.1 a.2 := by
  cases event <;> simp [Event.item?, Prod.ext_iff]

/-- **Neighbouring items** have only tests between them. -/
theorem exists_gap {events : List (Event α)} {l₁ l₂ : List (α × ℕ)} {a b : α × ℕ}
    (h : items events = l₁ ++ a :: b :: l₂) :
    ∃ gap : Gap α, gap.events = events ∧ items gap.before = l₁ ∧
      (gap.first, gap.start) = a ∧ (gap.second, gap.stop) = b := by
  obtain ⟨before, rest, rfl, hbefore, hrest⟩ := List.filterMap_eq_append_iff.mp h
  obtain ⟨quiet, first, rest, rfl, hquiet, hfirst, hrest⟩ := List.filterMap_eq_cons_iff.mp hrest
  obtain ⟨between, second, after, rfl, hbetween, hsecond, _⟩ :=
    List.filterMap_eq_cons_iff.mp hrest
  obtain ⟨tests, rfl⟩ := exists_map_test hbetween
  obtain rfl := item?_eq_some_iff.mp hfirst
  obtain rfl := item?_eq_some_iff.mp hsecond
  refine ⟨⟨before ++ quiet, a.1, a.2, tests, b.1, b.2, after⟩, ?_, ?_, rfl, rfl⟩
  · simp [Gap.events, Gap.closing, Gap.opening]
  · rw [items_append, items, hbefore, items, List.filterMap_eq_nil_iff.mpr hquiet,
      List.append_nil]

/-- What happens over time: nothing goes back, and two neighbouring items are less than a period
    apart. -/
structure Schedule (α : Type*) (period : ℕ) where
  events : List (Event α)
  ordered : events.Pairwise fun a b => a.time ≤ b.time
  close : (items events).IsChain fun a b => b.2 < a.2 + period

namespace Schedule

variable {period : ℕ} {schedule : Schedule α period} {gap : Gap α}

/-- The tests between two items lie between them in time. -/
theorem tests_between (h : gap.events = schedule.events) {time : ℕ} (htime : time ∈ gap.tests) :
    gap.start ≤ time ∧ time ≤ gap.stop := by
  have hordered := schedule.ordered
  have htest : Event.test time ∈ gap.tests.map (Event.test : ℕ → Event α) :=
    List.mem_map_of_mem htime
  rw [← h, Gap.events, Gap.closing, Gap.opening, List.pairwise_append, List.pairwise_append]
    at hordered
  obtain ⟨⟨_, _, hopening⟩, _, hclosing⟩ := hordered
  exact ⟨hopening (.item gap.first gap.start) (by simp) _ htest,
    hclosing _ (List.mem_append_right _ htest) (.item gap.second gap.stop) List.mem_cons_self⟩

theorem stop_lt (h : gap.events = schedule.events) : gap.stop < gap.start + period := by
  have hclose := schedule.close
  rw [← h, gap.items_events] at hclose
  exact (List.isChain_append_cons_cons.mp hclose).2.1

end Schedule

/-! ### Polling -/

/-- Neighbouring events are at most `δ` apart. -/
def Polled (δ : ℕ) (events : List (Event α)) : Prop :=
  events.IsChain fun a b => b.time ≤ a.time + δ

/-- **Polling looks into every window** of length `δ` that closes before the second item comes: the
    first test behind `limit` is made at most `δ` later. -/
theorem Polled.exists_test {δ limit : ℕ} {gap : Gap α} (h : Polled δ gap.events)
    (hstart : gap.start ≤ limit) (hlong : limit + δ < gap.stop) :
    ∃ time ∈ gap.tests, limit < time ∧ time ≤ limit + δ := by
  have hchain : (Event.item gap.first gap.start ::
      (gap.tests.map .test ++ [.item gap.second gap.stop])).IsChain
        fun a b => b.time ≤ a.time + δ := by
    refine h.infix ⟨gap.before, gap.after, ?_⟩
    simp [Gap.events, Gap.closing, Gap.opening]
  generalize gap.tests = tests at hchain ⊢
  -- along the tests, with the event before them at `limit` or earlier
  generalize hlast : Event.item gap.first gap.start = last at hchain
  replace hstart : last.time ≤ limit := by rwa [← hlast]
  clear hlast
  induction tests generalizing last with
  | nil =>
    have hstop : gap.stop ≤ last.time + δ := (List.isChain_cons_cons.mp hchain).1
    omega
  | cons time tests ih =>
    obtain ⟨hsoon, hchain⟩ := List.isChain_cons_cons.mp hchain
    replace hsoon : time ≤ last.time + δ := hsoon
    by_cases hlate : limit < time
    · exact ⟨time, List.mem_cons_self, hlate, by omega⟩
    · obtain ⟨t, ht, hwindow⟩ := ih _ hchain (not_lt.mp hlate)
      exact ⟨t, List.mem_cons_of_mem _ ht, hwindow⟩

/-- Every test comes at most `limit` after the last item, the first of them taken at `last`. -/
def Steady (limit : ℕ) : ℕ → List (Event α) → Prop
  | _, [] => True
  | _, .item _ time :: events => Steady limit time events
  | last, .test time :: events => time ≤ last + limit ∧ Steady limit last events

/-- **Items close together** leave no room for a late test between them. -/
theorem steady_of_isChain {limit last : ℕ} {events : List (Event α)}
    (hordered : events.Pairwise fun a b => a.time ≤ b.time)
    (hclose : (last :: (items events).map Prod.snd).IsChain fun a b => b ≤ a + limit)
    (hend : ∀ event ∈ events.getLast?, event.item?.isSome) : Steady limit last events := by
  induction events generalizing last with
  | nil => trivial
  | cons event events ih =>
    obtain ⟨hbefore, htail⟩ := List.pairwise_cons.mp hordered
    have hend' : ∀ event ∈ events.getLast?, event.item?.isSome := by
      intro e he
      apply hend e
      rw [List.getLast?_cons, Option.mem_def.mp he]
      rfl
    cases event with
    | item a time => exact ih htail (List.isChain_cons_cons.mp hclose).2 hend'
    | test time =>
      refine ⟨?_, ih htail hclose hend'⟩
      -- an item follows, and the test comes before it
      cases hitems : items events with
      | nil =>
        exfalso
        rcases events.eq_nil_or_concat with rfl | ⟨init, final, rfl⟩
        · exact Bool.false_ne_true (hend (.test time) rfl)
        · have hfinal := hend' final (by simp)
          have hnone := List.filterMap_eq_nil_iff.mp hitems final (by simp)
          rw [hnone] at hfinal
          cases hfinal
      | cons next rest =>
        have hnext : Event.item next.1 next.2 ∈ events := by
          have hmem : next ∈ items events := by
            rw [hitems]
            exact List.mem_cons_self
          obtain ⟨e, he, heq⟩ := List.mem_filterMap.mp hmem
          rwa [item?_eq_some_iff.mp heq] at he
        have hsoon : next.2 ≤ last + limit := by
          have hchain : (last :: (next :: rest).map Prod.snd).IsChain fun a b => b ≤ a + limit := by
            rw [← hitems]
            exact hclose
          exact (List.isChain_cons_cons.mp hchain).1
        exact (hbefore _ hnext).trans hsoon

/-- The last item, with the tests behind it set apart. -/
theorem exists_last_item {events : List (Event α)} {l : List (α × ℕ)} {a : α × ℕ}
    (h : items events = l ++ [a]) :
    ∃ (earlier : List (Event α)) (tests : List ℕ),
      events = earlier ++ .item a.1 a.2 :: tests.map .test ∧ items earlier = l := by
  obtain ⟨before, rest, rfl, hbefore, hrest⟩ := List.filterMap_eq_append_iff.mp h
  obtain ⟨quiet, last, rest, rfl, hquiet, hlast, hnone⟩ := List.filterMap_eq_cons_iff.mp hrest
  obtain ⟨tests, rfl⟩ := exists_map_test (List.filterMap_eq_nil_iff.mp hnone)
  obtain rfl := item?_eq_some_iff.mp hlast
  refine ⟨before ++ quiet, tests, by simp, ?_⟩
  rw [items_append, items, hbefore, items, List.filterMap_eq_nil_iff.mpr hquiet, List.append_nil]

/-- **A stretch of the items** is a stretch of the events, from its first item to its last. -/
theorem exists_stretch {events : List (Event α)} {l₁ l₂ xs : List (α × ℕ)} {x : α × ℕ}
    (h : items events = l₁ ++ (x :: xs ++ l₂)) :
    ∃ earlier stretch later, events = earlier ++ (.item x.1 x.2 :: stretch ++ later) ∧
      items earlier = l₁ ∧ items stretch = xs ∧
      ∀ event ∈ stretch.getLast?, event.item?.isSome := by
  obtain ⟨before, rest, rfl, hbefore, hrest⟩ := List.filterMap_eq_append_iff.mp h
  obtain ⟨quiet, first, rest, rfl, hquiet, hfirst, hrest⟩ := List.filterMap_eq_cons_iff.mp hrest
  obtain ⟨inner, later, rfl, hinner, _⟩ := List.filterMap_eq_append_iff.mp hrest
  obtain rfl := item?_eq_some_iff.mp hfirst
  have hearlier : items (before ++ quiet) = l₁ := by
    rw [items_append, items, hbefore, items, List.filterMap_eq_nil_iff.mpr hquiet, List.append_nil]
  rcases xs.eq_nil_or_concat with rfl | ⟨init, last, rfl⟩
  · exact ⟨before ++ quiet, [], inner ++ later, by simp, hearlier, rfl, nofun⟩
  · rw [List.concat_eq_append] at hinner ⊢
    obtain ⟨stretch, tests, rfl, hstretch⟩ := exists_last_item hinner
    refine ⟨before ++ quiet, stretch ++ [.item last.1 last.2], tests.map .test ++ later, by simp,
      hearlier, ?_, by simp [Event.item?]⟩
    rw [items_append, hstretch]
    rfl

/-! ### The machine -/

/-- A machine with a gap timer.  A test leaves it idle exactly if it was so before or the last
    item is longer ago than the gap. -/
structure Timer (σ α τ : Type*) where
  clock : Clock τ
  gap : ℕ
  take : σ → α → τ → σ
  test : σ → τ → σ
  Idle : σ → Prop
  last : σ → τ
  last_take : ∀ s a t, last (take s a t) = t
  last_test : ∀ s t, last (test s t) = last s
  idle_test : ∀ s t, Idle (test s t) ↔ Idle s ∨ gap < clock.elapsed (last s) t

namespace Timer

variable (timer : Timer σ α τ)

def step (s : σ) : Event α → σ
  | .item a time => timer.take s a (timer.clock.reading time)
  | .test time => timer.test s (timer.clock.reading time)

def run (s : σ) (events : List (Event α)) : σ := events.foldl timer.step s

theorem run_append (s : σ) (a b : List (Event α)) :
    timer.run s (a ++ b) = timer.run (timer.run s a) b :=
  List.foldl_append

/-- Within a period the clock tells exactly whether a test comes late. -/
theorem late_iff {s : σ} {start time : ℕ} (hlast : timer.last s = timer.clock.reading start)
    (hstart : start ≤ time) (hperiod : time < start + timer.clock.period) :
    timer.gap < timer.clock.elapsed (timer.last s) (timer.clock.reading time) ↔
      start + timer.gap < time := by
  rw [hlast, timer.clock.elapsed_reading hstart hperiod]
  omega

/-- What the tests behind the first item of a gap look at. -/
theorem last_opening (s : σ) (gap : Gap α) :
    timer.last (timer.run s gap.opening) = timer.clock.reading gap.start := by
  rw [Gap.opening, run_append]
  exact timer.last_take _ _ _

/-- **Tests after an item**: one of them clears the machine exactly if it comes late enough. -/
theorem idle_tests_iff {s : σ} {start : ℕ} (hlast : timer.last s = timer.clock.reading start)
    {tests : List ℕ} (htests : ∀ time ∈ tests, start ≤ time ∧ time < start + timer.clock.period) :
    timer.Idle (timer.run s (tests.map .test)) ↔
      timer.Idle s ∨ ∃ time ∈ tests, start + timer.gap < time := by
  induction tests generalizing s with
  | nil => simp [run]
  | cons time tests ih =>
    obtain ⟨hstart, hperiod⟩ := htests time List.mem_cons_self
    have hlate := timer.late_iff hlast hstart hperiod
    have hnext : timer.last (timer.test s (timer.clock.reading time)) =
        timer.clock.reading start := (timer.last_test _ _).trans hlast
    have hrest := ih hnext fun t ht => htests t (List.mem_cons_of_mem _ ht)
    rw [timer.idle_test, hlate, or_assoc, ← List.exists_mem_cons_iff] at hrest
    exact hrest

/-- **When the second of two items comes**, the machine is idle exactly if the first one left it
    idle or some test in between came more than the gap after the first. -/
theorem idle_closing_iff (s : σ) (schedule : Schedule α timer.clock.period) {gap : Gap α}
    (h : gap.events = schedule.events) :
    timer.Idle (timer.run s gap.closing) ↔
      timer.Idle (timer.run s gap.opening) ∨
        ∃ time ∈ gap.tests, gap.start + timer.gap < time := by
  rw [Gap.closing, run_append]
  apply timer.idle_tests_iff (timer.last_opening s gap)
  intro time htime
  obtain ⟨hstart, hstop⟩ := Schedule.tests_between h htime
  exact ⟨hstart, hstop.trans_lt (Schedule.stop_lt h)⟩

/-- An idle machine stays idle over tests. -/
theorem idle_tests_of_idle {s : σ} (h : timer.Idle s) (tests : List ℕ) :
    timer.Idle (timer.run s (tests.map .test)) := by
  induction tests generalizing s with
  | nil => exact h
  | cons time tests ih => exact ih ((timer.idle_test s _).mpr (.inl h))

/-- **A test that sees the gap** clears the machine for good, however far apart in time the other
    tests are. -/
theorem idle_tests_of_seen {s : σ} {start time : ℕ}
    (hlast : timer.last s = timer.clock.reading start) {tests : List ℕ} (hmem : time ∈ tests)
    (hlate : start + timer.gap < time) (hperiod : time < start + timer.clock.period) :
    timer.Idle (timer.run s (tests.map .test)) := by
  induction tests generalizing s with
  | nil => cases hmem
  | cons t tests ih =>
    rcases List.mem_cons.mp hmem with rfl | hmem
    · have hseen := (timer.late_iff hlast (by omega) hperiod).mpr hlate
      exact timer.idle_tests_of_idle ((timer.idle_test s _).mpr (.inr hseen)) tests
    · exact ih ((timer.last_test s _).trans hlast) hmem

/-- **Polling sees every gap that is longer by the polling time**, also one that is longer than a
    period of the clock. -/
theorem idle_closing_of_polled (s : σ) {δ : ℕ} (hperiod : timer.gap + δ < timer.clock.period)
    {gap : Gap α} (hpolled : Polled δ gap.events)
    (hlong : gap.start + (timer.gap + δ) < gap.stop) : timer.Idle (timer.run s gap.closing) := by
  obtain ⟨time, htime, hlate, hsoon⟩ :=
    hpolled.exists_test (Nat.le_add_right gap.start timer.gap) (by omega)
  rw [Gap.closing, run_append]
  exact timer.idle_tests_of_seen (timer.last_opening s gap) htime hlate (by omega)

end Timer

end GapTimer
