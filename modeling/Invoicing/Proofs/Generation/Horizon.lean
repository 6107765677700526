import Invoicing.Proofs.Generation.Plan

/-!
# The horizon of target dates

A target date is refused just if today, moved by one month more than the limit, is a date that is not
past it (`Invoicer.validate_eq_error_iff`). Since whole months grow with the second date and shrink
with the first, a target date that is accepted stays so for every earlier one and on every later day
(`Invoicer.Accepts.mono`).
-/

namespace Invoicing

namespace Date

/-- A number of months between two dates to which moving by months is adjoint, ahead and back. -/
structure AdjointMonths (a b : Date) (m : Int) : Prop where
  ahead : ∀ n, 1 ≤ n → (n ≤ m ↔ ∃ d, a.addMonths n = .ok d ∧ d ≤ b)
  back : ∀ n, n ≤ -1 → (m ≤ n ↔ ∃ d, a.addMonths n = .ok d ∧ b ≤ d)

theorem adjointMonths (a b : Date) : AdjointMonths a b (a.monthsBetween b) :=
  ⟨fun _ hn => le_monthsBetween_iff hn, fun _ hn => monthsBetween_le_iff hn⟩

end Date

namespace Invoicer

variable {v : Invoicer} {today today' target target' : Date} {s : Session}

/-- Whether today, moved by one month more than the limit, does not pass a target date. -/
def BeyondHorizon (v : Invoicer) (today target : Date) : Prop :=
  ∃ d, today.addMonths (v.config.maxMonths + 1) = .ok d ∧ d ≤ target

/-- Whether a target date is accepted, whatever came before. -/
def Accepts (v : Invoicer) (today target : Date) : Prop :=
  ∀ s, ((v.validate today target).from_ s).1 = .ok ()

theorem beyondHorizon_iff :
    v.BeyondHorizon today target ↔ v.config.maxMonths < today.monthsBetween target := by
  have hlimit : (1 : Int) ≤ v.config.maxMonths + 1 := by omega
  rw [BeyondHorizon, ← Date.le_monthsBetween_iff hlimit]
  exact Int.add_one_le_iff

theorem validate_of_beyond (h : v.BeyondHorizon today target) (s : Session) :
    ((v.validate today target).from_ s).1 = .error (.targetTooFar target v.config.maxMonths) := by
  obtain ⟨s', hrun, -⟩ := quiet_validate (v := v) today target s
  rw [hrun, if_pos (beyondHorizon_iff.1 h)]

theorem validate_of_within (h : ¬ v.BeyondHorizon today target) (s : Session) :
    ((v.validate today target).from_ s).1 = .ok () := by
  obtain ⟨s', hrun, -⟩ := quiet_validate (v := v) today target s
  rw [hrun, if_neg (mt beyondHorizon_iff.2 h)]

theorem validate_eq_error_iff : ((v.validate today target).from_ s).1 =
    .error (.targetTooFar target v.config.maxMonths) ↔ v.BeyondHorizon today target := by
  refine ⟨fun h => ?_, fun h => validate_of_beyond h s⟩
  by_contra hwithin
  rw [validate_of_within hwithin] at h
  cases h

theorem accepts_iff : v.Accepts today target ↔ ¬ v.BeyondHorizon today target := by
  constructor
  · intro h hbeyond
    have hfail := validate_of_beyond hbeyond .start
    rw [h] at hfail
    cases hfail
  · exact validate_of_within

theorem Accepts.mono (h : v.Accepts today target) (htoday : today ≤ today')
    (htarget : target' ≤ target) : v.Accepts today' target' := by
  rw [accepts_iff, beyondHorizon_iff, not_lt] at h ⊢
  calc today'.monthsBetween target'
      ≤ today.monthsBetween target' := Date.monthsBetween_antitone target' htoday
    _ ≤ today.monthsBetween target := Date.monthsBetween_le today htarget
    _ ≤ v.config.maxMonths := h

/-- Months are counted without fail, adjoint to moving by months and in the order of the dates. The
horizon follows: just the target dates are refused that today, moved by one month more than the limit,
does not pass, and what is accepted stays accepted for earlier target dates and on later days. -/
theorem months_and_horizon :
    (∀ a b : Date, ∃ m, a.monthsBetween? b = .ok m ∧ Date.AdjointMonths a b m) ∧
    (∀ (a a' b b' : Date) (m m' : Int), a.monthsBetween? b = .ok m → a'.monthsBetween? b' = .ok m' →
      a' ≤ a → b ≤ b' → m ≤ m') ∧
    (∀ (v : Invoicer) (today target : Date) (s : Session),
      (((v.validate today target).from_ s).1 = .error (.targetTooFar target v.config.maxMonths) ↔
        v.BeyondHorizon today target) ∧
      (((v.validate today target).from_ s).1 = .ok () ↔ ¬ v.BeyondHorizon today target)) ∧
    ∀ (v : Invoicer) (today today' target target' : Date), v.Accepts today target →
      today ≤ today' → target' ≤ target → v.Accepts today' target' := by
  refine ⟨fun a b => ?_, fun a a' b b' m m' hm hm' ha hb => ?_, fun v today target s => ⟨?_, ?_⟩,
    fun v _ _ _ _ h => h.mono⟩
  · exact ⟨_, Date.monthsBetween?_eq a b, Date.adjointMonths a b⟩
  · rw [Date.monthsBetween?_eq] at hm hm'
    obtain rfl := Except.ok.inj hm
    obtain rfl := Except.ok.inj hm'
    exact (Date.monthsBetween_antitone b ha).trans (Date.monthsBetween_le a' hb)
  · exact validate_eq_error_iff
  · constructor
    · intro h hbeyond
      rw [validate_of_beyond hbeyond] at h
      cases h
    · intro h
      exact validate_of_within h s

/-- The last day of February is a whole month after that of January, and the limit of 36 months is
passed on the last day of the 37th. -/
theorem months_and_horizon_lastDay :
    let january : Date := ⟨2024, 1, 31, by decide, by decide, by decide⟩
    let february : Date := ⟨2024, 2, 29, by decide, by decide, by decide⟩
    let tooFar : Date := ⟨2027, 2, 28, by decide, by decide, by decide⟩
    (∃ m, january.monthsBetween? february = .ok m ∧ 1 ≤ m) ∧
      ∀ s, (((ofConfig .initial .initial .initial).validate january tooFar).from_ s).1 =
        .error (.targetTooFar tooFar 36) := by
  obtain ⟨hcount, -, hvalidate, -⟩ := months_and_horizon
  intro january february tooFar
  refine ⟨?_, fun s => ?_⟩
  · obtain ⟨m, hm, hadjoint⟩ := hcount january february
    exact ⟨m, hm, (hadjoint.ahead 1 (by decide)).2 ⟨february, by rfl, by decide⟩⟩
  · exact ((hvalidate _ january tooFar s).1).2 ⟨tooFar, by rfl, by decide⟩

end Invoicer

end Invoicing
