import FleetSync.Control.Sweep
import FleetSync.Program.World
import Mathlib.Tactic.IntervalCases

/-!
# How far back a sweep may look

The calendar has a first day, and a sweep whose cutoff would be before it ends neither with a count
nor with an error. All instants of the calendar lie between its first and its last second
(`Instant.seconds_mem_calendar`), so a clock can go back just as far as to the first one
(`Instant.back?_seconds`). An age is refused only if it exceeds the range of durations, which is far
wider. So a turn of the worker concludes just if the age that it is set to does not lie between the
two (`ControlPlane.staleTurn_concludes_iff`), and settings with an age that does are accepted
(`ControlPlane.staleTurn_outsideCalendar`).
-/

namespace FleetSync

/-! ## The calendar -/

namespace Date

/-- The days of a year. -/
def daysInYear (year : Int) : Nat := if isLeapYear year then 366 else 365

theorem daysBeforeYear_succ (year : Int) :
    daysBeforeYear (year + 1) = daysBeforeYear year + daysInYear year := by
  simp only [daysBeforeYear, daysInYear, isLeapYear, Bool.and_eq_true, Bool.or_eq_true, beq_iff_eq,
    bne_iff_ne]
  split <;> omega

theorem daysBeforeYear_mono {a b : Int} (h : a ≤ b) : daysBeforeYear a ≤ daysBeforeYear b := by
  simp only [daysBeforeYear]
  omega

/-- A day of the calendar is in its year. -/
theorem dayOfYear_lt {d : Date} (h : d.valid = true) :
    daysBeforeMonth d.year d.month + (d.day - 1) < daysInYear d.year := by
  obtain ⟨year, month, day⟩ := d
  obtain ⟨-, -, hmonth, hmonths, hday, hdays⟩ := of_decide_eq_true h
  dsimp only at *
  have hyear : daysBeforeMonth year month + daysInMonth year month ≤ daysInYear year := by
    cases hleap : isLeapYear year <;> interval_cases month <;>
      simp [daysBeforeMonth, daysInMonth, daysInYear, List.range_succ, hleap]
  omega

/-- The days of the calendar lie between its first and its last one. -/
theorem number_mem_calendar {d : Date} (h : d.valid = true) :
    number ⟨minYear, 1, 1⟩ ≤ d.number ∧ d.number < number ⟨maxYear + 1, 1, 1⟩ := by
  have hday := dayOfYear_lt h
  obtain ⟨hmin, hmax, -⟩ := of_decide_eq_true h
  have first : ∀ year, number ⟨year, 1, 1⟩ = daysBeforeYear year - daysBeforeYear 1970 := by
    intro year
    simp [number, daysBeforeMonth]
  have hstart := daysBeforeYear_mono hmin
  have hend := daysBeforeYear_mono (show d.year + 1 ≤ maxYear + 1 by omega)
  rw [daysBeforeYear_succ] at hend
  rw [first, first, number]
  omega

end Date

namespace Instant

theorem time_seconds_lt (t : Instant) : t.time.seconds < secondsPerDay := by
  obtain ⟨hhour, hminute, hsecond, -⟩ := of_decide_eq_true t.time_valid
  rw [TimeOfDay.seconds, secondsPerDay]
  omega

/-- The seconds of the calendar lie between its first and its last one. -/
theorem seconds_mem_calendar (t : Instant) :
    Cutoff.minSeconds ≤ t.seconds ∧ t.seconds < Cutoff.endSeconds := by
  obtain ⟨hmin, hmax⟩ := Date.number_mem_calendar t.date_valid
  have htime := t.time_seconds_lt
  rw [Cutoff.minSeconds, Cutoff.endSeconds, seconds]
  rw [secondsPerDay] at *
  omega

/-- A clock, which shows no leap seconds, can go back to where the calendar begins. -/
theorem back?_seconds {t : Instant} (clock : t.time.nanos < nanosPerSecond) (age : Nat) :
    t.back? (age * nanosPerSecond) = if Cutoff.minSeconds + age ≤ t.seconds then
      some ⟨t.seconds - age, t.time.nanos⟩ else none := by
  obtain ⟨-, hend⟩ := t.seconds_mem_calendar
  have hquot : (t.seconds * nanosPerSecond + t.time.nanos - (age * nanosPerSecond : Nat)) /
      (nanosPerSecond : Int) = t.seconds - age := by
    rw [nanosPerSecond] at *
    omega
  have hrem : (t.seconds * nanosPerSecond + t.time.nanos - (age * nanosPerSecond : Nat)) %
      (nanosPerSecond : Int) = t.time.nanos := by
    rw [nanosPerSecond] at *
    omega
  have hcalendar : Cutoff.minSeconds ≤ t.seconds - age ∧ t.seconds - age < Cutoff.endSeconds ↔
      Cutoff.minSeconds + age ≤ t.seconds := by omega
  simp only [back?, hquot, hrem, hcalendar, Int.toNat_natCast]

end Instant

/-! ## Settings -/

namespace Config

variable {env : Environment} {c : Config}

theorem bind_eq_ok {ε α β : Type} {r : Except ε α} {f : α → Except ε β} {b : β}
    (h : r >>= f = .ok b) : ∃ a, r = .ok a ∧ f a = .ok b := by
  cases r with
  | error e => cases h
  | ok a => exact ⟨a, rfl, h⟩

/-- The age of settings that are accepted is what its variable says, or five minutes. -/
theorem staleAfter_of_accepted (h : ofEnvironment env = .ok c) :
    wordOf env "STRATO_STALE_SYNC_AFTER_SECS" 300 secondsHint = .ok c.staleAfterSeconds := by
  rw [ofEnvironment] at h
  split at h
  · dsimp only at h
    split at h
    · cases h
    obtain ⟨poll, -, h⟩ := bind_eq_ok h
    obtain ⟨staleAfter, hstale, h⟩ := bind_eq_ok h
    obtain ⟨stalePoll, -, h⟩ := bind_eq_ok h
    obtain ⟨capacity, -, h⟩ := bind_eq_ok h
    obtain ⟨retention, -, h⟩ := bind_eq_ok h
    obtain ⟨cleanupPoll, -, h⟩ := bind_eq_ok h
    -- What is left are the checks that numbers are positive.
    obtain ⟨-, -, h⟩ := bind_eq_ok h
    obtain ⟨-, -, h⟩ := bind_eq_ok h
    obtain ⟨-, -, h⟩ := bind_eq_ok h
    obtain ⟨-, -, h⟩ := bind_eq_ok h
    rw [← Except.ok.inj h]
    exact hstale
  · cases h

end Config

/-! ## Sweeps -/

namespace Program

variable {α β σ : Type} {answer : (c : Call) → σ → c.Answer × σ}

theorem run_bind_of_ok {p : Program α} {f : α → Program β} {a : α} {world : σ}
    (h : (p.run answer world).1 = .ok a) :
    (p >>= f).run answer world = (f a).run answer (p.run answer world).2 := by
  rw [run_bind]
  generalize p.run answer world = result at h
  obtain ⟨r, world'⟩ := result
  obtain rfl : r = .ok a := h
  rfl

/-- What cannot fail adds up to something that cannot fail. -/
theorem run_total {count : α → Program Nat}
    (h : ∀ a world, ∃ n, ((count a).run answer world).1 = .ok n) (items : List α) (world : σ) :
    ∃ n, ((total count items).run answer world).1 = .ok n := by
  induction items generalizing world with
  | nil => exact ⟨0, rfl⟩
  | cons a rest ih =>
    obtain ⟨n, hn⟩ := h a world
    obtain ⟨m, hm⟩ := ih ((count a).run answer world).2
    refine ⟨n + m, ?_⟩
    rw [total, run_bind_of_ok hn, run_bind_of_ok hm]
    rfl

end Program

namespace ControlPlane

variable {σ : Type} {answer : (c : Call) → σ → c.Answer × σ}

/-- What fails while it counts is not counted. -/
theorem run_countOrZero (count : Program Nat) (world : σ) :
    ∃ n, ((countOrZero count).run answer world).1 = .ok n := by
  rw [countOrZero, Program.run_bind, Program.run_attempt]
  exact ⟨_, rfl⟩

/-- The time that a program is told if it asks for it first. -/
def timeTold (answer : (c : Call) → σ → c.Answer × σ) (world : σ) : Instant := (answer .now world).1

/-- The ways in which a sweep is to end: it counts what it sent, or it refuses the age. -/
def Concludes (r : Except OpError Sweep) : Prop :=
  (∃ n, r = .ok (.swept n)) ∨ ∃ e, r = .error e ∧ e.code = "VALIDATION_ERROR"

theorem not_concludes : ¬ Concludes (.ok .outsideCalendar) := by
  rintro (⟨n, h⟩ | ⟨e, h, -⟩) <;> cases h

/-- An age beyond the range of durations is refused before the clock is read. -/
theorem resyncStale_of_long (p : ControlPlane) (answer : (c : Call) → σ → c.Answer × σ) (world : σ)
    {age : Nat} (long : maxAge < age) :
    Concludes ((p.resyncStale age).run answer world).1 := by
  rw [resyncStale, if_pos long]
  exact .inr ⟨_, rfl, rfl⟩

/-- A sweep counts if its cutoff is in the calendar, whatever fails on the way. -/
theorem resyncStale_of_short (p : ControlPlane) (answer : (c : Call) → σ → c.Answer × σ)
    (world : σ) {age : Nat} (short : ¬ maxAge < age) :
    if ((timeTold answer world).back? age).isSome then
      ∃ n, ((p.resyncStale age).run answer world).1 = .ok (.swept n)
    else ((p.resyncStale age).run answer world).1 = .ok .outsideCalendar := by
  rw [resyncStale, if_neg short, Program.now, Program.call_bind, Program.run_call, timeTold]
  generalize answer .now world = told
  obtain ⟨now, world'⟩ := told
  simp only [Program.pure_eq, Program.done_ok_bind]
  cases now.back? age with
  | none => rfl
  | some cutoff =>
    have counts : ∀ kind w, ∃ n, ((countOrZero (p.resyncStaleOf cutoff kind)).run answer w).1 =
        .ok n := fun _ => run_countOrZero _
    obtain ⟨n, hn⟩ := Program.run_total counts p.kinds world'
    refine ⟨n, ?_⟩
    dsimp only
    rw [Program.run_bind_of_ok hn]
    rfl

/-- A turn of the worker concludes, whatever its calls are answered, just if the age that the
settings ask for exceeds the range of durations, or the calendar goes back as far from the time that
the clock shows. If it does not conclude, the cutoff has left the calendar. -/
theorem staleTurn_concludes_iff {env : Environment} {c : Config}
    (accepted : Config.ofEnvironment env = .ok c) (p : ControlPlane)
    (answer : (c : Call) → σ → c.Answer × σ) (world : σ)
    (clock : (timeTold answer world).time.nanos < nanosPerSecond) :
    ∃ age, Config.wordOf env "STRATO_STALE_SYNC_AFTER_SECS" 300 Config.secondsHint = .ok age ∧
      (Concludes ((p.staleTurn c.staleWorker).run answer world).1 ↔
        maxAge < age * nanosPerSecond ∨
          Cutoff.minSeconds + age ≤ (timeTold answer world).seconds) ∧
      (¬ Concludes ((p.staleTurn c.staleWorker).run answer world).1 →
        ((p.staleTurn c.staleWorker).run answer world).1 = .ok .outsideCalendar) := by
  refine ⟨c.staleAfterSeconds, Config.staleAfter_of_accepted accepted, ?_⟩
  have turn : p.staleTurn c.staleWorker = p.resyncStale (c.staleAfterSeconds * nanosPerSecond) := rfl
  rw [turn]
  by_cases long : maxAge < c.staleAfterSeconds * nanosPerSecond
  · have refused := resyncStale_of_long p answer world long
    exact ⟨iff_of_true refused (.inl long), fun h => absurd refused h⟩
  have ends := resyncStale_of_short p answer world long
  rw [Instant.back?_seconds clock] at ends
  by_cases back : Cutoff.minSeconds + c.staleAfterSeconds ≤ (timeTold answer world).seconds
  · rw [if_pos back, Option.isSome_some, if_pos rfl] at ends
    exact ⟨iff_of_true (.inl ends) (.inr back), fun h => absurd (.inl ends) h⟩
  · rw [if_neg back, Option.isSome_none, if_neg Bool.false_ne_true] at ends
    rw [ends]
    exact ⟨iff_of_false not_concludes fun h => h.elim long back, fun _ => rfl⟩

/-! ### Settings -/

/-- Settings that give the database and the age of stale resources only. -/
def ageSetting (seconds : String) : Environment := fun key =>
  if key = "STRATO_DATABASE_URL" then some "sqlite::memory:"
  else if key = "STRATO_STALE_SYNC_AFTER_SECS" then some seconds
  else none

/-- A world in which nothing has happened yet, at the beginning of 1970. -/
def blankWorld : World := .empty Inhabited.default

/-- In 1970 a sweep can go back to the first second of the calendar. -/
theorem staleTurn_concludes_first : ∃ c, Config.ofEnvironment (ageSetting "8334601228800") = .ok c ∧
    Concludes ((ControlPlane.default.staleTurn c.staleWorker).run (World.answer .allowAll)
      blankWorld).1 := by
  obtain ⟨c, accepted, hage⟩ : ∃ c, Config.ofEnvironment (ageSetting "8334601228800") = .ok c ∧
      c.staleAfterSeconds = 8334601228800 := by
    refine ⟨_, rfl, ?_⟩
    decide +kernel
  obtain ⟨age, hword, concludes, -⟩ := staleTurn_concludes_iff accepted .default
    (World.answer .allowAll) blankWorld (by decide)
  rw [Config.staleAfter_of_accepted accepted, hage] at hword
  obtain rfl := Except.ok.inj hword
  exact ⟨c, accepted, concludes.2 (.inr (by decide +kernel))⟩

/-- The longest age that is a duration is accepted, and leaves the calendar. -/
theorem staleTurn_outsideCalendar :
    ∃ c, Config.ofEnvironment (ageSetting "9223372036854775") = .ok c ∧
      ((ControlPlane.default.staleTurn c.staleWorker).run (World.answer .allowAll)
        blankWorld).1 = .ok .outsideCalendar ∧
      ¬ Concludes ((ControlPlane.default.staleTurn c.staleWorker).run (World.answer .allowAll)
        blankWorld).1 := by
  have left : ∀ c : Config, c.staleAfterSeconds = 9223372036854775 →
      ((ControlPlane.default.staleTurn c.staleWorker).run (World.answer .allowAll)
        blankWorld).1 = .ok .outsideCalendar := by
    intro c hage
    have short : ¬ maxAge < 9223372036854775 * nanosPerSecond := by decide +kernel
    have ends := resyncStale_of_short .default (World.answer .allowAll) blankWorld short
    rw [if_neg (by decide +kernel)] at ends
    rw [staleTurn, Config.staleWorker, hage]
    exact ends
  refine ⟨_, rfl, left _ ?_, ?_⟩
  · decide +kernel
  · rw [left _ (by decide +kernel)]
    exact not_concludes

end ControlPlane

end FleetSync
