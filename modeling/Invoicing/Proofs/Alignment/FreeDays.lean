import Invoicing.Alignment
import Invoicing.Proofs.Alongside
import Invoicing.Proofs.Calendar.DayNumber

/-!
# The days before the first charge

A duration moves a clock to another date and leaves its time of day and its place; which date that is
follows from the date it is added to (`Duration.addTo_alongside`). So the free phases of a plan last a
number of days that follows from the date on the subscriber's own clock (`Plan.freeDays`), and the day
of the first charge is that of the instant so many days after the start (`Subscription.chargeDay_eq`).
Phases in days last as long from any date on (`Plan.freeDays_eq_of_days`).
-/

namespace Invoicing

variable {a b t u : Timestamp}

theorem WallTime.ofCount?_add_days (w : WallTime) (n : Int) :
    ofCount? (w.count + n * 86400000000) =
      (Date.ofDayNumber? (w.date.dayNumber + n)).map fun d => { w with date := d } := by
  have hw := w.micros_mem
  have hday : (w.count + n * 86400000000) / 86400000000 = w.date.dayNumber + n := by
    rw [count]
    omega
  have htime : (w.count + n * 86400000000) % 86400000000 = w.micros := by
    rw [count]
    omega
  simp only [ofCount?, hday, htime]

namespace Timestamp

/-- Whether a timestamp has the time of day and the place of another. -/
def SameTime (u a : Timestamp) : Prop := u.wall.micros = a.wall.micros ∧ u.place = a.place

theorem SameTime.trans {v : Timestamp} (h : v.SameTime u) (h' : u.SameTime a) : v.SameTime a :=
  ⟨h.1.trans h'.1, h.2.trans h'.2⟩

theorem SameTime.steady (h : u.SameTime a) (ha : a.Steady) : u.Steady := by
  obtain ⟨p, seconds, hp, hat, hwall⟩ := ha
  exact ⟨p, seconds, h.2.trans hp, hat, hwall⟩

theorem SameTime.micros_eq (h : u.SameTime a) (ha : a.Steady) :
    u.micros = a.micros + a.date.daysUntil u.date * 86400000000 := by
  have hmicros := Timestamp.micros_eq (h.steady ha) h.2
  have htime := h.1
  simp only [WallTime.count, Date.daysUntil, date] at *
  omega

end Timestamp

theorem Duration.addTo_alongside (d : Duration) (h : a.date = b.date) :
    Alongside (fun u v => u.date = v.date ∧ u.SameTime a) (d.addTo a) (d.addTo b) := by
  have hmonths : ∀ months, Alongside (fun u v : Timestamp => u.date = v.date ∧ u.SameTime a)
      (shiftMonths a months) (shiftMonths b months) := by
    intro months
    rw [shiftMonths, shiftMonths, h]
    exact (Alongside.refl (R := (· = ·)) (fun _ => rfl) _).map fun d e hde => ⟨hde, rfl, rfl⟩
  unfold addTo
  split
  case h_1 =>
    refine Alongside.mapError _ ?_
    unfold Timestamp.move
    rw [WallTime.ofCount?_add_days, WallTime.ofCount?_add_days, ← Timestamp.date, ← Timestamp.date, h]
    cases Date.ofDayNumber? (b.date.dayNumber + d.number) with
    | none => exact .error _
    | some e => exact .ok ⟨rfl, rfl, rfl⟩
  case h_2 => exact (hmonths _).mapError _
  case h_3 => exact (hmonths _).mapError _
  case h_4 => exact .error _

namespace Plan

theorem firstChargeFrom_alongside (h : a.date = b.date) (phases : List PlanPhase) :
    Alongside (Option.Rel fun u v => u.date = v.date ∧ u.SameTime a)
      (firstChargeFrom a phases) (firstChargeFrom b phases) := by
  induction phases generalizing a b with
  | nil => exact .ok .none
  | cons phase rest ih =>
    unfold firstChargeFrom
    split
    case h_1 => exact .error _
    case h_2 => exact .ok (.some ⟨h, rfl, rfl⟩)
    case h_3 =>
    split
    case isTrue => exact .ok .none
    case isFalse =>
    have hnext := phase.duration.addTo_alongside h
    rcases hnext.error_or_ok with ⟨e, ha, hb⟩ | ⟨u, v, ha, hb, hdate, htime⟩
    · rw [ha, hb]
      exact .error e
    · rw [ha, hb]
      refine (ih hdate).mono fun x y hxy => ?_
      cases hxy with
      | none => exact .none
      | some hxy => exact .some ⟨hxy.1, hxy.2.trans htime⟩

theorem firstCharge_alongside (p : Plan) (h : a.date = b.date) :
    Alongside (fun u v => u.date = v.date ∧ u.SameTime a) (p.firstCharge a) (p.firstCharge b) := by
  refine (firstChargeFrom_alongside h p.phases).map fun x y hxy => ?_
  cases hxy with
  | some h => exact h
  | none => exact ⟨h, rfl, rfl⟩

/-- The days from a date to the first recurring charge of a subscriber who begins on it. -/
def freeDays (p : Plan) (d : Date) : Except Fault Int :=
  (p.firstCharge (.utc (.noon d))).map fun t => d.daysUntil t.date

/-! ## Phases in days -/

theorem firstChargeFrom_cases {phase : PlanPhase} {rest : List PlanPhase} {x : Option Timestamp}
    (h : firstChargeFrom t (phase :: rest) = .ok x) :
    charges? phase = .ok true ∧ x = some t ∨
    charges? phase = .ok false ∧ (phase.duration.unit = .unlimited ∧ x = none ∨
      phase.duration.unit ≠ .unlimited ∧
        ∃ next, phase.duration.addTo t = .ok next ∧ firstChargeFrom next rest = .ok x) := by
  unfold firstChargeFrom at h
  split at h
  case h_1 => cases h
  case h_2 hcharges => exact .inl ⟨hcharges, (Except.ok.inj h).symm⟩
  case h_3 hcharges =>
  refine .inr ⟨hcharges, ?_⟩
  split at h
  case isTrue hunit => exact .inl ⟨hunit, (Except.ok.inj h).symm⟩
  case isFalse hunit =>
  split at h
  case h_1 => cases h
  case h_2 next hnext => exact .inr ⟨hunit, next, hnext, h⟩

theorem daysUntil_addTo {d : Duration} (hd : d.unit = .days) (h : d.addTo t = .ok u) :
    t.date.daysUntil u.date = d.number := by
  unfold Duration.addTo at h
  rw [hd] at h
  replace h := mapError_eq_ok_iff.1 h
  unfold Timestamp.move at h
  rw [WallTime.ofCount?_add_days, ← Timestamp.date] at h
  cases hdate : Date.ofDayNumber? (t.date.dayNumber + d.number) with
  | none => simp [hdate] at h
  | some e =>
    rw [hdate] at h
    obtain rfl := Except.ok.inj h
    show e.dayNumber - t.date.dayNumber = d.number
    rw [Date.dayNumber_ofDayNumber? hdate, add_sub_cancel_left]

theorem firstChargeFrom_days {phases : List PlanPhase} {x y : Option Timestamp}
    (hdays : ∀ phase ∈ phases, phase.duration.unit = .days ∨ phase.duration.unit = .unlimited)
    (ha : firstChargeFrom a phases = .ok x) (hb : firstChargeFrom b phases = .ok y) :
    Option.Rel (fun u v => a.date.daysUntil u.date = b.date.daysUntil v.date) x y := by
  induction phases generalizing a b with
  | nil =>
    cases ha
    cases hb
    exact .none
  | cons phase rest ih =>
    obtain ⟨hphase, hdays⟩ := List.forall_mem_cons.1 hdays
    rcases firstChargeFrom_cases ha with ⟨hcharges, rfl⟩ | ⟨hcharges, ha⟩ <;>
      rcases firstChargeFrom_cases hb with ⟨hcharges', rfl⟩ | ⟨hcharges', hb⟩
    case inl.inl => exact .some (by rw [Date.daysUntil, Date.daysUntil, sub_self, sub_self])
    case inl.inr => cases hcharges.symm.trans hcharges'
    case inr.inl => cases hcharges.symm.trans hcharges'
    case inr.inr =>
    rcases ha with ⟨hunit, rfl⟩ | ⟨hunit, a', hnext, ha⟩ <;>
      rcases hb with ⟨hunit', rfl⟩ | ⟨hunit', b', hnext', hb⟩
    case inl.inl => exact .none
    case inl.inr => exact absurd hunit hunit'
    case inr.inl => exact absurd hunit' hunit
    case inr.inr =>
    have hphase := hphase.resolve_right hunit
    have hsame := (daysUntil_addTo hphase hnext).trans (daysUntil_addTo hphase hnext').symm
    cases ih hdays ha hb with
    | none => exact .none
    | some h =>
      unfold Date.daysUntil at *
      exact .some (by omega)

theorem freeDays_eq_of_days {p : Plan} {d e : Date} {m n : Int}
    (hdays : ∀ phase ∈ p.phases, phase.duration.unit = .days ∨ phase.duration.unit = .unlimited)
    (hd : p.freeDays d = .ok m) (he : p.freeDays e = .ok n) : m = n := by
  obtain ⟨u, hu, rfl⟩ := map_eq_ok_iff.1 hd
  obtain ⟨v, hv, rfl⟩ := map_eq_ok_iff.1 he
  obtain ⟨x, hx, rfl⟩ := map_eq_ok_iff.1 hu
  obtain ⟨y, hy, rfl⟩ := map_eq_ok_iff.1 hv
  cases firstChargeFrom_days hdays hx hy with
  | some h => exact h
  | none => exact (sub_self d.dayNumber).trans (sub_self e.dayNumber).symm

end Plan

/-- The day of month in UTC of an instant, which is given in microseconds. -/
def utcDayAt (micros : Int) : Except Fault Int :=
  match WallTime.ofCount? micros with
  | some w => .ok w.date.day
  | none => .error (.calendar .outOfRange)

theorem utcDate_eq (h : t.Steady) : (utcDate t).map (·.day) = utcDayAt t.micros := by
  obtain ⟨p, seconds, hp, hat, hwall⟩ := h
  have hoffset : t.offset? = some seconds := by simp [Timestamp.offset?, hp, hwall]
  have hmicros : t.micros = t.wall.count - seconds * 1000000 := by
    simp [Timestamp.micros, Timestamp.instant?, hoffset]
  by_cases hutc : t.place = some .utc
  case pos =>
    -- the clock shows UTC, and its reading is taken as it stands
    obtain rfl : p = .utc := Option.some.inj (hp.symm.trans hutc)
    have hzero : seconds = 0 := (hat 0).symm
    have hread : utcDate t = .ok t.date := by
      rw [utcDate, Timestamp.dateAt?, hoffset, Option.map_some, if_pos hutc]
      rfl
    have hcount : WallTime.ofCount? t.micros = some t.wall := by
      rw [WallTime.ofCount?_eq_some_iff, hmicros, hzero]
      omega
    unfold utcDayAt
    rw [hread, hcount]
    rfl
  case neg =>
    have hread : utcDate t = ((t.readingAt seconds .utc).map (·.date)).mapError .calendar := by
      rw [utcDate, Timestamp.dateAt?, hoffset, Option.map_some, if_neg hutc]
    have hzero : t.micros + Place.utc.offsetAt (t.micros / 1000000) * 1000000 = t.micros := by
      rw [Place.utc, Place.offsetAt, zero_mul, add_zero]
    rw [hread]
    unfold utcDayAt Timestamp.readingAt
    dsimp only
    rw [← hmicros, hzero]
    cases WallTime.ofCount? t.micros with
    | none => rfl
    | some w => rfl

namespace Subscription

variable {s : Subscription} {p : Plan}

/-- The day of the first charge is that of an instant whole days after the start, as many as the plan is
free for on the subscriber's own date. -/
theorem chargeDay_eq (h : s.start.Steady) : s.chargeDay p =
    (p.freeDays s.start.date).bind fun n => utcDayAt (s.start.micros + n * 86400000000) := by
  have hcharge := p.firstCharge_alongside (a := s.start) (b := .utc (.noon s.start.date)) rfl
  unfold chargeDay Plan.freeDays
  rcases hcharge.error_or_ok with ⟨e, hx, hy⟩ | ⟨u, v, hx, hy, hdate, htime⟩
  · rw [hx, hy]
    rfl
  · rw [hx, hy]
    show (utcDate u).map (·.day) =
      utcDayAt (s.start.micros + s.start.date.daysUntil v.date * 86400000000)
    rw [utcDate_eq (htime.steady h), htime.micros_eq h, hdate]

end Subscription

end Invoicing
