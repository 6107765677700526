import Invoicing.Clock
import Invoicing.Proofs.Calendar.DayNumber

/-!
# Clocks that are advanced

Advancing a clock moves its reading by so many seconds (`Clock.reading_advance`), and the instant shown
is what the reading stands for at the clock's place (`Clock.nowUtc_eq_ok_iff`). So the instant moves by
the seconds that have passed just where the reading is read with the same offset before and after
(`Clock.run_passes`): always on a clock that keeps one offset, and not over a change of the offset, where
a clock that is advanced can even come to show an earlier day (`Clock.advanced_back`).
-/

namespace Invoicing

theorem Timestamp.micros_utc (w : WallTime) : (Timestamp.utc w).micros = w.count := by
  simp [micros, instant?, offset?, utc, Place.utc, Place.offsetAtWall]

theorem Timestamp.move_eq_ok_iff {t u : Timestamp} {n : Int} : t.move n = .ok u ↔
    ∃ w : WallTime, w.count = t.wall.count + n ∧ u = ⟨w, t.place, false⟩ := by
  simp only [← WallTime.ofCount?_eq_some_iff]
  unfold move
  cases WallTime.ofCount? (t.wall.count + n) <;> simp [eq_comm]

theorem Timestamp.readingAt_utc_eq_ok_iff {t : Timestamp} {offset : Int} {w : WallTime} :
    t.readingAt offset .utc = .ok w ↔ w.count = t.wall.count - offset * 1000000 := by
  unfold readingAt
  dsimp only
  generalize t.wall.count - offset * 1000000 = n
  have hzero : n + Place.utc.offsetAt (n / 1000000) * 1000000 = n := by
    show n + 0 * 1000000 = n
    omega
  rw [hzero, ← WallTime.ofCount?_eq_some_iff]
  cases WallTime.ofCount? n <;> simp

namespace Clock

variable {c : Clock} {n : Int} {u v : Timestamp}

/-! ## What a clock shows -/

/-- The position of the clock's reading. -/
def reading (c : Clock) : Int := c.fixed.wall.count + c.advanced * 1000000

/-- The offset that the clock's reading is read with; of two instants with this reading the first is
meant. -/
def offset (c : Clock) : Int := (c.fixed.place.get c.placed).offsetAtWall (c.reading / 1000000) false

/-- The instant that the clock's reading stands for, in microseconds of UTC. -/
def instant (c : Clock) : Int := c.reading - c.offset * 1000000

theorem now_eq_ok_iff : c.now = .ok u ↔
    ∃ w : WallTime, w.count = c.reading ∧ u = ⟨w, c.fixed.place, false⟩ := by
  rw [now, mapError_eq_ok_iff, Timestamp.move_eq_ok_iff, reading]

theorem toUtc?_eq_ok_iff {w : WallTime} (hw : w.count = c.reading) :
    (⟨w, c.fixed.place, false⟩ : Timestamp).toUtc? = some (.ok u) ↔
      ∃ w : WallTime, w.count = c.instant ∧ u = .utc w := by
  obtain ⟨p, hp⟩ := Option.isSome_iff_exists.1 c.placed
  have hoffset : c.offset = p.offsetAtWall (c.reading / 1000000) false := by simp [offset, hp]
  have hread : (⟨w, c.fixed.place, false⟩ : Timestamp).offset? = some c.offset := by
    rw [Timestamp.offset?, hp, hoffset, ← hw]
    rfl
  rw [Timestamp.toUtc?, hread, Option.map_some, Option.some_inj]
  split
  case isTrue hutc =>
    -- a clock that shows UTC is not read anew
    obtain rfl : p = .utc := Option.some.inj (hp.symm.trans hutc)
    have hinstant : c.instant = w.count := by
      rw [instant, hoffset, hw]
      show c.reading - 0 * 1000000 = c.reading
      omega
    rw [hinstant, hp]
    constructor
    · intro h
      exact ⟨w, rfl, (Except.ok.inj h).symm⟩
    · rintro ⟨w', hw', rfl⟩
      rw [WallTime.count_injective hw']
      rfl
  case isFalse =>
    rw [map_eq_ok_iff, instant, ← hw]
    exact exists_congr fun v => and_congr Timestamp.readingAt_utc_eq_ok_iff eq_comm

/-- A clock shows its instant as long as this and its reading lie in the years 1 to 9999. -/
theorem nowUtc_eq_ok_iff : c.nowUtc = .ok u ↔
    (∃ w : WallTime, w.count = c.reading) ∧ ∃ w : WallTime, w.count = c.instant ∧ u = .utc w := by
  have hshown : c.nowUtc = .ok u ↔ ∃ t, c.now = .ok t ∧ t.toUtc? = some (.ok u) := by
    rw [nowUtc, bind_eq_ok_iff]
    refine exists_congr fun t => and_congr_right fun _ => ?_
    cases t.toUtc? with
    | none => simp [throw, throwThe, MonadExceptOf.throw]
    | some r => simp [mapError_eq_ok_iff]
  simp only [hshown, now_eq_ok_iff]
  constructor
  · rintro ⟨t, ⟨w, hw, rfl⟩, ht⟩
    exact ⟨⟨w, hw⟩, (toUtc?_eq_ok_iff hw).1 ht⟩
  · rintro ⟨⟨w, hw⟩, hu⟩
    exact ⟨_, ⟨w, hw, rfl⟩, (toUtc?_eq_ok_iff hw).2 hu⟩

theorem micros_of_nowUtc (h : c.nowUtc = .ok u) : u.micros = c.instant := by
  obtain ⟨-, w, hw, rfl⟩ := nowUtc_eq_ok_iff.1 h
  rw [Timestamp.micros_utc, hw]

theorem nowUtc_isOk_iff : (∃ u, c.nowUtc = .ok u) ↔
    (∃ w : WallTime, w.count = c.reading) ∧ ∃ w : WallTime, w.count = c.instant := by
  simp only [nowUtc_eq_ok_iff]
  constructor
  · rintro ⟨u, hw, w, hw', -⟩
    exact ⟨hw, w, hw'⟩
  · rintro ⟨hw, w, hw'⟩
    exact ⟨.utc w, hw, w, hw', rfl⟩

theorem today_le {d : Clock} (h : c.instant ≤ d.instant) {a b : Date} (ha : c.today = .ok a)
    (hb : d.today = .ok b) : a ≤ b := by
  obtain ⟨u, hu, rfl⟩ := map_eq_ok_iff.1 ha
  obtain ⟨v, hv, rfl⟩ := map_eq_ok_iff.1 hb
  obtain ⟨-, w, hw, rfl⟩ := nowUtc_eq_ok_iff.1 hu
  obtain ⟨-, w', hw', rfl⟩ := nowUtc_eq_ok_iff.1 hv
  have hday := w.micros_mem
  have hday' := w'.micros_mem
  show w.date.dayNumber ≤ w'.date.dayNumber
  unfold WallTime.count at hw hw'
  omega

/-! ## Advancing -/

theorem reading_advance (c : Clock) (n : Int) : (c.advance n).reading = c.reading + n * 1000000 := by
  simp only [reading, advance]
  omega

theorem instant_advance (c : Clock) (n : Int) :
    (c.advance n).instant = c.instant + (n - ((c.advance n).offset - c.offset)) * 1000000 := by
  rw [instant, instant, reading_advance]
  omega

theorem offset_of_steady (h : c.fixed.Steady) (n : Int) : (c.advance n).offset = c.offset := by
  obtain ⟨p, seconds, hp, -, hwall⟩ := h
  simp [offset, advance, hp, hwall]

theorem instant_of_set (t : Timestamp) (ht : t.place.isSome) :
    (⟨t, 0, ht⟩ : Clock).instant = ({ t with later := false } : Timestamp).micros := by
  obtain ⟨p, hp⟩ := Option.isSome_iff_exists.1 ht
  simp [instant, offset, reading, Timestamp.micros, Timestamp.instant?, Timestamp.offset?, hp]

/-! ## Runs -/

/-- What can be done to a clock. -/
inductive Step where
  | advance (seconds : Int)
  | advanceDays (days : Int)
  | set (t : Timestamp)

namespace Step

def perform (c : Clock) : Step → Except Fault Clock
  | .advance seconds => .ok (c.advance seconds)
  | .advanceDays days => .ok (c.advanceDays days)
  | .set t => c.set t

/-- The seconds that a step lets pass. -/
def seconds : Step → Int
  | .advance seconds => seconds
  | .advanceDays days => days * 86400
  | .set _ => 0

/-- Whether a step lets time pass; so does one that cannot be performed. -/
def Passes : Step → Prop
  | .advance seconds => 0 ≤ seconds
  | .advanceDays days => 0 ≤ days
  | .set t => t.place = none

end Step

/-- The clock after a step; a step that fails leaves it as it is. -/
def after (c : Clock) (s : Step) : Clock := (s.perform c).toOption.getD c

def run (c : Clock) (steps : List Step) : Clock := steps.foldl after c

/-- The seconds that some steps let pass. -/
def elapsed (steps : List Step) : Int := (steps.map Step.seconds).sum

theorem set_of_placeless {t : Timestamp} (ht : t.place = none) :
    c.set t = .error .placelessClock := by
  simp [set, at?, ht]

theorem after_set {t : Timestamp} (ht : t.place.isSome) : c.after (.set t) = ⟨t, 0, ht⟩ := by
  simp [after, Step.perform, set, at?, ht, Except.toOption]

theorem after_of_passes {s : Step} (h : s.Passes) : c.after s = c.advance s.seconds := by
  cases s with
  | advance seconds => rfl
  | advanceDays days => rfl
  | set t =>
    have hstays : c.advance 0 = c := by simp [advance]
    rw [Step.seconds, hstays, after, Step.perform, set_of_placeless h]
    rfl

theorem seconds_nonneg {s : Step} (h : s.Passes) : 0 ≤ s.seconds := by
  cases s with
  | advance seconds => exact h
  | advanceDays days =>
    have : 0 ≤ days := h
    show 0 ≤ days * 86400
    omega
  | set t => exact le_rfl

theorem run_append (c : Clock) (xs ys : List Step) : c.run (xs ++ ys) = (c.run xs).run ys :=
  List.foldl_append

theorem run_of_passes {steps : List Step} (h : ∀ s ∈ steps, s.Passes) :
    c.run steps = c.advance (elapsed steps) ∧ 0 ≤ elapsed steps := by
  induction steps generalizing c with
  | nil => exact ⟨by simp [run, elapsed, advance], le_rfl⟩
  | cons s steps ih =>
    have hs := h s (by simp)
    obtain ⟨hrun, hrest⟩ := ih (c := c.after s) fun x hx => h x (by simp [hx])
    have hsum : elapsed (s :: steps) = s.seconds + elapsed steps := by simp [elapsed]
    refine ⟨?_, ?_⟩
    · show (c.after s).run steps = _
      rw [hrun, after_of_passes hs, hsum]
      simp only [advance, add_assoc]
    · have := seconds_nonneg hs
      omega

/-- What a clock shows before and after some seconds have passed. -/
structure Passage (b d : Clock) (seconds : Int) : Prop where
  /-- The later instant is shown as long as it and the reading lie in the years 1 to 9999. -/
  isOk_iff : (∃ v, d.nowUtc = .ok v) ↔ (∃ w : WallTime, w.count = b.reading + seconds * 1000000) ∧
    ∃ w : WallTime, w.count = b.instant + (seconds - (d.offset - b.offset)) * 1000000
  micros_eq : ∀ u v, b.nowUtc = .ok u → d.nowUtc = .ok v →
    v.micros = u.micros + (seconds - (d.offset - b.offset)) * 1000000
  /-- The instant moves by the seconds just if the offset is the same in the end. -/
  exact_iff : ∀ u v, b.nowUtc = .ok u → d.nowUtc = .ok v →
    (v.micros = u.micros + seconds * 1000000 ↔ d.offset = b.offset)
  /-- The instant goes back just if the offset grows by more than the seconds. -/
  le_iff : ∀ u v, b.nowUtc = .ok u → d.nowUtc = .ok v →
    (u.micros ≤ v.micros ↔ d.offset - b.offset ≤ seconds)
  today_le : d.offset - b.offset ≤ seconds → ∀ x y, b.today = .ok x → d.today = .ok y → x ≤ y
  /-- A clock that keeps one offset moves by the seconds and does not go back. -/
  steady : b.fixed.Steady → d.offset = b.offset ∧ d.offset - b.offset ≤ seconds

theorem passage_advance (c : Clock) (hn : 0 ≤ n) : Passage c (c.advance n) n := by
  have hinstant := c.instant_advance n
  have hmicros : ∀ u v, c.nowUtc = .ok u → (c.advance n).nowUtc = .ok v →
      v.micros = u.micros + (n - ((c.advance n).offset - c.offset)) * 1000000 := by
    intro u v hu hv
    rw [micros_of_nowUtc hu, micros_of_nowUtc hv, hinstant]
  refine ⟨?_, hmicros, fun u v hu hv => ?_, fun u v hu hv => ?_, fun h x y hx hy => ?_, fun h => ?_⟩
  · rw [nowUtc_isOk_iff, reading_advance, hinstant]
  · have := hmicros u v hu hv
    omega
  · have := hmicros u v hu hv
    omega
  · exact today_le (by omega) hx hy
  · have := offset_of_steady h n
    omega

/-- Over steps that let time pass, a clock shows instants as its offset has it. A step that sets the
clock makes it start anew, and one that cannot is refused and changes nothing. -/
theorem run_passes (c : Clock) (earlier : List Step) {moves : List Step} (h : ∀ s ∈ moves, s.Passes) :
    Passage (c.run earlier) (c.run (earlier ++ moves)) (elapsed moves) ∧
      (∀ t, t.place = none → (c.run earlier).set t = .error .placelessClock ∧
        c.run (earlier ++ [.set t]) = c.run earlier) ∧
      ∀ t, t.place.isSome → ∃ d, (c.run earlier).set t = .ok d ∧ c.run (earlier ++ [.set t]) = d ∧
        d.fixed = t ∧ d.instant = ({ t with later := false } : Timestamp).micros := by
  obtain ⟨hrun, hn⟩ := run_of_passes (c := c.run earlier) h
  refine ⟨?_, fun t ht => ⟨set_of_placeless ht, ?_⟩, fun t ht => ⟨⟨t, 0, ht⟩, ?_, ?_, rfl, ?_⟩⟩
  · rw [run_append, hrun]
    exact passage_advance _ hn
  · rw [run_append]
    show (c.run earlier).after (.set t) = c.run earlier
    rw [after, Step.perform, set_of_placeless ht]
    rfl
  · simp [set, at?, ht]
  · rw [run_append]
    exact after_set ht
  · exact instant_of_set t ht

/-! ## Clocks in Tokyo and in Samoa -/

/-- Half past midnight in Tokyo, where the offset does not change. -/
def tokyo : Clock :=
  ⟨⟨⟨(Date.of? 2013 8 7).get rfl, 1800000000, by decide⟩,
    some (.zone { Zone.utc with name := "Asia/Tokyo", first := 32400 }), false⟩, 0, rfl⟩

/-- Half an hour, a setting that is refused, and a day. -/
def tokyoMoves : List Step := [.advance 1800, .set ⟨.noon firstDay, none, false⟩, .advanceDays 1]

/-- The clock in Tokyo moves by the seconds that have passed. -/
theorem run_passes_tokyo : (∀ s ∈ tokyoMoves, s.Passes) ∧ tokyo.fixed.Steady ∧
    ∃ u v, tokyo.nowUtc = .ok u ∧ (tokyo.run ([] ++ tokyoMoves)).nowUtc = .ok v ∧
      v.micros = u.micros + 88200 * 1000000 := by
  have hmoves : ∀ s ∈ tokyoMoves, s.Passes := by
    simp [tokyoMoves, Step.Passes]
  have hsteady : tokyo.fixed.Steady := ⟨_, 32400, rfl, fun _ => rfl, fun _ _ => rfl⟩
  obtain ⟨u, hu⟩ := isOk_iff.1 (by decide +kernel : tokyo.nowUtc.isOk = true)
  obtain ⟨v, hv⟩ := isOk_iff.1 (by decide +kernel : (tokyo.run ([] ++ tokyoMoves)).nowUtc.isOk = true)
  have hpassage := (run_passes tokyo [] hmoves).1
  exact ⟨hmoves, hsteady, u, v, hu, hv, (hpassage.exact_iff u v hu hv).2 (hpassage.steady hsteady).1⟩

/-- The offsets of Samoa in 2011, when summer time began in September and a day was left out at the end of
the year. -/
def samoaOffsets : List OffsetChange :=
  [⟨86400 * dayCount 2011 9 24 + 50400, -36000⟩, ⟨86400 * dayCount 2011 12 30 + 36000, 50400⟩]

/-- The beginning of 29 December 2011 in Samoa, where the 31st came next. -/
def samoa : Clock :=
  ⟨⟨.midnight ((Date.of? 2011 12 29).get rfl),
    some (.zone ⟨"Pacific/Apia", -39600, samoaOffsets, by decide⟩), false⟩, 0, rfl⟩

/-- Two days later, but for a second. -/
def samoaMoves : List Step := [.advanceDays 1, .advance 86399]

/-- With one second more the clock in Samoa goes back: it shows the instant of a day before, which falls on
an earlier day in UTC. -/
theorem advanced_back : ∃ u v, (samoa.run samoaMoves).nowUtc = .ok u ∧
    (samoa.run (samoaMoves ++ [.advance 1])).nowUtc = .ok v ∧
    v.micros = u.micros + 1 * 1000000 - 86400 * 1000000 ∧ v.date < u.date :=
  ⟨.utc ⟨(Date.of? 2011 12 31).get rfl, 35999000000, by decide⟩,
    .utc ⟨(Date.of? 2011 12 30).get rfl, 36000000000, by decide⟩, rfl, rfl, by decide, by decide⟩

end Clock

end Invoicing
