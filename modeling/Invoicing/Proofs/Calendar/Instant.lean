import Invoicing.Fault
import Invoicing.Proofs.Calendar.Order
import Invoicing.Proofs.Calendar.SetBack
import Invoicing.Proofs.Outcome

/-!
# Instants and their days

Timestamps whose clocks keep one offset are compared by the instants that they denote (`same_iff`,
`before?_eq`), whichever clocks show them. The day of an instant in a zone is what the zone's clocks
show then (`dayNumber_localDate`), so days come in the order of instants, except around the changes
that set the clocks back over midnight (`localDate_le`).
-/

namespace Invoicing

theorem Date.dayNumber_ofDayNumber? {n : Int} {d : Date} (h : ofDayNumber? n = some d) :
    d.dayNumber = n := by
  obtain ⟨hyear, hmonth, hday⟩ := of?_eq_some_iff.1 h
  rw [dayNumber, hyear, hmonth, hday, dayCount]
  omega

namespace WallTime

theorem count_injective : Function.Injective count := by
  rintro ⟨a, m, hm⟩ ⟨b, n, hn⟩ h
  simp only [count] at h
  obtain rfl : a = b := Date.dayNumber_injective (by omega)
  obtain rfl : m = n := by omega
  rfl

theorem dayNumber_ofCount? {n : Int} {w : WallTime} (h : ofCount? n = some w) :
    w.date.dayNumber = n / 86400000000 := by
  obtain ⟨d, hd, rfl⟩ := Option.map_eq_some_iff.1 h
  exact Date.dayNumber_ofDayNumber? hd

end WallTime

namespace Timestamp

/-- Whether the place of a timestamp is a fixed offset. -/
def HasOffset (t : Timestamp) : Prop := ∃ seconds, t.place = some (.offset seconds)

/-- The instant denoted, in microseconds of UTC. -/
def micros (t : Timestamp) : Int := t.instant?.getD 0

/-- Whether the clock of a timestamp keeps one offset at all times, like one that shows UTC. -/
def Steady (t : Timestamp) : Prop :=
  ∃ p seconds, t.place = some p ∧ (∀ instant, p.offsetAt instant = seconds) ∧
    ∀ wall later, p.offsetAtWall wall later = seconds

variable {a b t : Timestamp}

theorem HasOffset.steady (h : t.HasOffset) : t.Steady := by
  obtain ⟨seconds, hs⟩ := h
  exact ⟨_, seconds, hs, fun _ => rfl, fun _ _ => rfl⟩

theorem steady_utc (w : WallTime) : (utc w).Steady := HasOffset.steady ⟨0, rfl⟩

theorem Steady.offset?_eq (h : t.Steady) : ∃ seconds, t.offset? = some seconds ∧
    { t with later := !t.later }.offset? = some seconds ∧
    t.micros = t.wall.count - seconds * 1000000 := by
  obtain ⟨p, seconds, hp, -, hwall⟩ := h
  have hoffset : t.offset? = some seconds := by simp [offset?, hp, hwall]
  exact ⟨seconds, hoffset, by simp [offset?, hp, hwall], by simp [micros, instant?, hoffset]⟩

theorem Steady.instant?_eq (h : t.Steady) : t.instant? = some t.micros := by
  obtain ⟨seconds, hs, -, hm⟩ := h.offset?_eq
  rw [instant?, hs, hm, Option.map_some]

theorem Steady.isAmbiguous_eq (h : t.Steady) : t.isAmbiguous = false := by
  obtain ⟨seconds, hs, hs', -⟩ := h.offset?_eq
  rw [isAmbiguous, hs, hs', bne_self_eq_false]

theorem micros_eq (ha : a.Steady) (hp : a.place = b.place) :
    a.micros - b.micros = a.wall.count - b.wall.count := by
  obtain ⟨p, seconds, ha, -, hwall⟩ := ha
  have hmicros : ∀ t : Timestamp, t.place = some p → t.micros = t.wall.count - seconds * 1000000 :=
    fun t ht => by simp [micros, instant?, offset?, ht, hwall]
  rw [hmicros a ha, hmicros b (hp ▸ ha)]
  omega

theorem same_iff (ha : a.Steady) (hb : b.Steady) : a.same b ↔ a.micros = b.micros := by
  unfold same
  split
  case isTrue hp =>
    have hcount := micros_eq ha hp
    rw [decide_eq_true_iff]
    constructor
    · intro hw
      rw [hw] at hcount
      omega
    · exact fun h => WallTime.count_injective (by omega)
  case isFalse =>
    simp [ha.instant?_eq, hb.instant?_eq, ha.isAmbiguous_eq, hb.isAmbiguous_eq]

theorem before?_eq (ha : a.Steady) (hb : b.Steady) :
    a.before? b = some (decide (a.micros < b.micros)) := by
  unfold before?
  split
  case isTrue hp =>
    have hcount := micros_eq ha hp
    congr 2
    rw [eq_iff_iff]
    omega
  case isFalse => rw [ha.instant?_eq, hb.instant?_eq]

theorem date_of_readingAt {offset : Int} {p : Place} {w : WallTime}
    (h : t.readingAt offset p = .ok w) :
    w.date.dayNumber = (t.wall.count - offset * 1000000 +
      p.offsetAt ((t.wall.count - offset * 1000000) / 1000000) * 1000000) / 86400000000 := by
  unfold readingAt at h
  dsimp only at h
  split at h
  · simp at h
  · split at h
    · simp at h
    case h_2 w' hw' =>
      obtain rfl := Except.ok.inj h
      exact WallTime.dayNumber_ofCount? hw'

variable [TimeZones]

theorem dayNumber_localDate (h : t.Steady) {name : String} {z : Zone}
    (hz : TimeZones.named? name = some z) {d : Date} (hd : localDate t name = .ok d) :
    d.dayNumber = z.dayAt (t.micros / 1000000) := by
  obtain ⟨p, seconds, hp, hat, hwall⟩ := h
  have hoffset : t.offset? = some seconds := by simp [offset?, hp, hwall]
  have hmicros : t.micros = t.wall.count - seconds * 1000000 := by
    simp [micros, instant?, hoffset]
  unfold localDate at hd
  rw [hz] at hd
  simp only [hp, Option.isNone_some, Bool.false_eq_true, if_false, dateAt?, hoffset,
    Option.map_some, Option.getD_some] at hd
  replace hd := mapError_eq_ok_iff.1 hd
  unfold Zone.dayAt
  split at hd
  case isTrue hzone =>
    -- the clock is one of the zone, and its reading is taken as it stands
    obtain rfl := Option.some.inj hzone
    obtain rfl := Except.ok.inj hd
    have hday := t.wall.micros_mem
    have hoff : z.offsetAt (t.micros / 1000000) = seconds := hat _
    rw [hoff, hmicros, WallTime.count, Timestamp.date]
    omega
  case isFalse =>
    obtain ⟨w, hw, rfl⟩ := map_eq_ok_iff.1 hd
    rw [date_of_readingAt hw, hmicros]
    simp only [Place.offsetAt]
    omega

/-- Days in a zone come in the order of the instants, unless its clocks are set back over midnight
in between. -/
theorem localDate_le (ha : a.Steady) (hb : b.Steady)
    (h : a.micros ≤ b.micros) {name : String} {z : Zone} (hz : TimeZones.named? name = some z)
    (hback : ¬ z.SetBackBetween (a.micros / 1000000) (b.micros / 1000000)) {d e : Date}
    (hd : localDate a name = .ok d) (he : localDate b name = .ok e) : d ≤ e := by
  rw [Date.le_iff, dayNumber_localDate ha hz hd, dayNumber_localDate hb hz he]
  exact Zone.dayAt_le (by omega) hback

end Timestamp

end Invoicing
