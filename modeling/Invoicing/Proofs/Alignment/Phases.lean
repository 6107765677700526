import Invoicing.Alignment
import Invoicing.Proofs.Outcome
import Mathlib.Data.List.Nodup

/-!
# Phases by name

A plan finds a phase by its name among its own phases and takes the first one (`Plan.findPhase?`). A
catalog looks through the phases of all its plans and takes the last one
(`Catalog.findPhase_eq_ok_iff`). So the alignment of a change is looked up with the last phase of that
name in the whole catalog (`Catalog.resolve_last_phase`), and where plans share the names of phases, it
may be one of another plan (`Catalog.resolve_foreign_phase`).
-/

namespace Invoicing

variable {plans stored : List Plan} {p : Plan} {name : String} {phase own : PlanPhase}

/-- What the alignment of a change is looked up by if it is one to a phase of a plan. -/
def Plan.specifier (p : Plan) (t : Transition) (phase : PlanPhase) : PhaseSpecifier :=
  ⟨p.product, p.category, phase.period, t.nextPriceList, phase.kind⟩

/-- Whether a phase is the last one with a name. -/
def PlanPhase.IsLast (phase : PlanPhase) (name : String) (phases : List PlanPhase) : Prop :=
  phase.name = name ∧ ∃ before after, phases = before ++ phase :: after ∧ ∀ q ∈ after, q.name ≠ name

theorem PlanPhase.IsLast.mem {phases : List PlanPhase} (h : phase.IsLast name phases) :
    phase ∈ phases := by
  obtain ⟨-, before, after, rfl, -⟩ := h
  simp

namespace Catalog

/-! ## Plans under their names -/

theorem foldl_putPlan (h : ((stored ++ plans).map (·.name)).Nodup) :
    plans.foldl putPlan stored = stored ++ plans := by
  induction plans generalizing stored with
  | nil => simp
  | cons p plans ih =>
    have hnew : stored.any (·.name = p.name) = false := by
      rw [List.map_append, List.nodup_append] at h
      simp only [List.any_eq_false, decide_eq_true_eq]
      exact fun q hq => h.2.2 _ (List.mem_map_of_mem hq) _ (by simp)
    have hput : putPlan stored p = stored ++ [p] := by
      rw [putPlan, hnew]
      rfl
    rw [List.foldl_cons, hput, ih (by simpa using h), List.append_assoc]
    rfl

variable {rules : List AlignmentRule} {otherwise : Option BillingAlignment}

theorem plans_ofPlans (h : (plans.map (·.name)).Nodup) :
    (ofPlans plans rules otherwise).plans = plans :=
  @foldl_putPlan plans [] h

theorem findPlan_ofPlans (h : (plans.map (·.name)).Nodup) (hp : p ∈ plans) :
    (ofPlans plans rules otherwise).findPlan p.name = .ok p := by
  unfold findPlan
  rw [plans_ofPlans h]
  cases hfind : plans.find? (·.name = p.name) with
  | none => simpa using List.find?_eq_none.1 hfind p hp
  | some q =>
    have hname : q.name = p.name := by simpa using List.find?_some hfind
    rw [List.inj_on_of_nodup_map h (List.mem_of_find?_eq_some hfind) hp hname]

/-! ## The last phase with a name -/

theorem findPhase_eq_ok_iff {c : Catalog} :
    c.findPhase name = .ok phase ↔ phase.IsLast name c.phases := by
  have hfind : c.findPhase name = .ok phase ↔ c.phases.reverse.find? (·.name = name) = some phase := by
    unfold findPhase
    cases c.phases.reverse.find? (·.name = name) <;> simp
  rw [hfind, List.find?_eq_some_iff_append, PlanPhase.IsLast]
  simp only [decide_eq_true_eq, Bool.not_eq_true', decide_eq_false_iff_not]
  refine and_congr_right fun _ => ⟨?_, ?_⟩
  · rintro ⟨after, before, hphases, hafter⟩
    refine ⟨before.reverse, after.reverse, ?_, by simpa using hafter⟩
    rw [← List.reverse_reverse c.phases, hphases]
    simp
  · rintro ⟨before, after, hphases, hafter⟩
    exact ⟨after.reverse, before.reverse, by simp [hphases], by simpa using hafter⟩

theorem findPhase_isOk {c : Catalog} (h : phase ∈ c.phases) : ∃ last, c.findPhase phase.name = .ok last := by
  unfold findPhase
  split
  case h_1 last _ => exact ⟨last, rfl⟩
  case h_2 hnone => simpa using List.find?_eq_none.1 hnone phase (List.mem_reverse.2 h)

theorem resolve_eq {c : Catalog} {t : Transition} (ht : t.planAndPhase? = some (p.name, name))
    (hp : c.findPlan p.name = .ok p) (hphase : c.findPhase name = .ok phase) :
    c.resolve t = .ok (p, c.alignment? (p.specifier t phase)) := by
  unfold resolve
  rw [ht]
  exact bind_eq_ok_iff.2 ⟨p, hp, bind_eq_ok_iff.2 ⟨phase, hphase, rfl⟩⟩

theorem alignment?_single {rule : AlignmentRule} {s : PhaseSpecifier} :
    (ofPlans plans [rule] none).alignment? s =
      if rule.matchesWith s then some rule.alignment else none := by
  unfold alignment? ofPlans
  dsimp only
  rw [List.find?_singleton]
  cases rule.matchesWith s <;> rfl

theorem forall_alignment?_eq_iff {t : Transition} :
    (∀ rules otherwise, (ofPlans plans rules otherwise).alignment? (p.specifier t phase) =
      (ofPlans plans rules otherwise).alignment? (p.specifier t own)) ↔
    phase.period = own.period ∧ phase.kind = own.kind := by
  constructor
  · intro h
    -- one rule, for the period and the kind of the plan's own phase
    let rule : AlignmentRule := ⟨.bundle, none, some own.period, none, some own.kind⟩
    have hmatch : ∀ r : PlanPhase, rule.matchesWith (p.specifier t r) = true ↔
        own.period = r.period ∧ own.kind = r.kind := by
      intro r
      simp only [rule, AlignmentRule.matchesWith, Plan.specifier, Option.all_none, Option.all_some,
        Bool.true_and, Bool.and_true, Bool.and_eq_true]
      exact and_congr decide_eq_true_iff decide_eq_true_iff
    have hrule := h [rule] none
    rw [alignment?_single, alignment?_single, if_pos ((hmatch own).2 ⟨rfl, rfl⟩)] at hrule
    split at hrule
    case isTrue hphase => exact ⟨((hmatch phase).1 hphase).1.symm, ((hmatch phase).1 hphase).2.symm⟩
    case isFalse => cases hrule
  · rintro ⟨hperiod, hkind⟩ rules otherwise
    rw [Plan.specifier, Plan.specifier, hperiod, hkind]

/-- In a catalog of plans with distinct names, the alignment of a change to a phase is looked up with the
last phase of that name among those of all plans. With any rules it is the alignment of the plan's own
phase just if the two agree in period and kind, as they do where all phases of that name agree. -/
theorem resolve_last_phase (hplans : (plans.map (·.name)).Nodup) (hp : p ∈ plans) {t : Transition}
    (ht : t.planAndPhase? = some (p.name, name)) (hown : p.findPhase? name = some own) :
    ∃ phase, phase.IsLast name (plans.flatMap (·.phases)) ∧
      (∀ rules otherwise, (ofPlans plans rules otherwise).findPhase name = .ok phase ∧
        (ofPlans plans rules otherwise).resolve t =
          .ok (p, (ofPlans plans rules otherwise).alignment? (p.specifier t phase))) ∧
      ((∀ rules otherwise, (ofPlans plans rules otherwise).resolve t =
          .ok (p, (ofPlans plans rules otherwise).alignment? (p.specifier t own))) ↔
        phase.period = own.period ∧ phase.kind = own.kind) ∧
      ((∀ q ∈ plans, ∀ r ∈ q.phases, r.name = name → r.period = own.period ∧ r.kind = own.kind) →
        phase.period = own.period ∧ phase.kind = own.kind) := by
  have hphases : ∀ rules otherwise,
      (ofPlans plans rules otherwise).phases = plans.flatMap (·.phases) :=
    fun _ _ => by rw [phases, plans_ofPlans hplans]
  have hmem : own ∈ plans.flatMap (·.phases) :=
    List.mem_flatMap.2 ⟨p, hp, List.mem_of_find?_eq_some hown⟩
  have hname : own.name = name := by simpa using List.find?_some hown
  obtain ⟨phase, hphase⟩ := findPhase_isOk (c := ofPlans plans [] none) (by rwa [hphases])
  have hlast : phase.IsLast name (plans.flatMap (·.phases)) := by
    rwa [hname, findPhase_eq_ok_iff, hphases] at hphase
  have hfound : ∀ rules otherwise, (ofPlans plans rules otherwise).findPhase name = .ok phase :=
    fun rules otherwise => by rwa [findPhase_eq_ok_iff, hphases]
  have hresolve : ∀ rules otherwise, (ofPlans plans rules otherwise).resolve t =
      .ok (p, (ofPlans plans rules otherwise).alignment? (p.specifier t phase)) :=
    fun rules otherwise => resolve_eq ht (findPlan_ofPlans hplans hp) (hfound rules otherwise)
  refine ⟨phase, hlast, fun rules otherwise => ⟨hfound rules otherwise, hresolve rules otherwise⟩,
    ?_, ?_⟩
  · have hrules := @forall_alignment?_eq_iff plans p phase own t
    simp only [hresolve, Except.ok.injEq, Prod.mk.injEq, true_and, hrules]
  · intro hagree
    obtain ⟨q, hq, hmem⟩ := List.mem_flatMap.1 hlast.mem
    exact hagree q hq phase hmem hlast.1

end Catalog

/-! ## Two plans with a phase of one name -/

namespace SharedName

/-- A plan with one phase, which is called the same in all of them. -/
def plan (name : String) (period : BillingPeriod) : Plan :=
  ⟨name, "Sports", .base,
    [⟨"evergreen", .evergreen, period, .unlimited, none, some (.finite false 25000 (-2))⟩], rfl⟩

def offers : List Plan := [plan "sports-monthly" .monthly, plan "sports-annual" .annual]

/-- Phases that are paid monthly are aligned with the subscription, all others with the account. -/
def catalog : Catalog :=
  .ofPlans offers [⟨.subscription, none, some .monthly, none, none⟩] (some .account)

def newYear : Timestamp := .utc (.midnight ((Date.of? 2013 1 1).get rfl))

def creation : Transition :=
  ⟨.known 1, .known 2, .create, newYear, newYear, newYear, none, none, some "sports-monthly",
    some "evergreen", none⟩

end SharedName

open SharedName

/-- The monthly plan is aligned as the annual one would be, whose phase has the same name. -/
theorem Catalog.resolve_foreign_phase :
    (offers.map (·.name)).Nodup ∧ plan "sports-monthly" .monthly ∈ offers ∧
      creation.planAndPhase? = some ("sports-monthly", "evergreen") ∧
      (∃ own, (plan "sports-monthly" .monthly).findPhase? "evergreen" = some own ∧
        catalog.alignment? ((plan "sports-monthly" .monthly).specifier creation own) =
          some .subscription) ∧
      catalog.resolve creation = .ok (plan "sports-monthly" .monthly, some .account) :=
  ⟨by decide, by decide, rfl, ⟨_, rfl, rfl⟩, rfl⟩

/-- The last phase with the name that both plans use is the one that is paid every year. -/
theorem Catalog.resolve_last_phase_shared :
    (offers.map (·.name)).Nodup ∧ plan "sports-monthly" .monthly ∈ offers ∧
      creation.planAndPhase? = some ("sports-monthly", "evergreen") ∧
      ((plan "sports-monthly" .monthly).findPhase? "evergreen").isSome ∧
      ∃ phase : PlanPhase, phase.IsLast "evergreen" (offers.flatMap (·.phases)) ∧ phase.period = .annual := by
  refine ⟨by decide, by decide, rfl, rfl, ?_⟩
  obtain ⟨phase, hlast, hfound, -⟩ := Catalog.resolve_last_phase
    (show (offers.map (·.name)).Nodup by decide) (show plan "sports-monthly" .monthly ∈ offers by decide)
    (show creation.planAndPhase? = some ("sports-monthly", "evergreen") from rfl) rfl
  have hannual : (Catalog.ofPlans offers [] none).findPhase "evergreen" =
      (plan "sports-annual" .annual).phases.head?.elim (.error .wrongKind) .ok := rfl
  refine ⟨phase, hlast, ?_⟩
  obtain rfl := Except.ok.inj (hannual.symm.trans (hfound [] none).1)
  rfl

end Invoicing
