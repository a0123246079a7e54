import LinkAdaptation.Radio

/-! The groups under which statistics and expectations are filed. A group is a
mode together with width, guard interval and aggregation. All legacy rates
share one group, so there are 33 of them with 15 rate indices each. -/

namespace LinkAdaptation

def groupCount : Nat := 33

def ratesPerGroup : Nat := 15

structure RateGroup where
  mode : Mode
  width : Width
  guard : GuardInterval
  aggregation : Aggregation
  deriving DecidableEq, Repr

namespace RateGroup

/-- The place of a group among all groups: the legacy group first, then SISO
and MIMO by width, each width without aggregation before with it, each of
these with the long guard interval before the short one. -/
def slot (g : RateGroup) : Nat :=
  let within := g.width.ordinal * 4 + g.aggregation.isOn.toNat * 2 + g.guard.isShort.toNat
  match g.mode with
  | .legacy => 0
  | .siso => 1 + within
  | .mimo => 17 + within

theorem slot_lt (g : RateGroup) : g.slot < groupCount := by
  obtain ⟨mode, width, guard, aggregation⟩ := g
  have h := width.ordinal_lt
  have hg := guard.isShort.toNat_lt
  have ha := aggregation.isOn.toNat_lt
  cases mode <;> simp only [slot, groupCount] <;> omega

theorem slot_legacy (w : Width) (gi : GuardInterval) (agg : Aggregation) :
    slot ⟨.legacy, w, gi, agg⟩ = 0 := rfl

theorem mode_of_slot_eq {g g' : RateGroup} (h : g.slot = g'.slot) : g.mode = g'.mode := by
  obtain ⟨mode, width, guard, aggregation⟩ := g
  obtain ⟨mode', width', guard', aggregation'⟩ := g'
  have hw := width.ordinal_lt
  have hg := guard.isShort.toNat_lt
  have ha := aggregation.isOn.toNat_lt
  have hw' := width'.ordinal_lt
  have hg' := guard'.isShort.toNat_lt
  have ha' := aggregation'.isOn.toNat_lt
  cases mode <;> cases mode' <;> simp only [slot] at h ⊢ <;> omega

/-- The legacy group alone has no guard interval of its own. -/
theorem guard_of_slot_eq {g g' : RateGroup} (hg : g.mode.isLegacy = false)
    (h : g.slot = g'.slot) : g.guard = g'.guard := by
  have hmode := mode_of_slot_eq h
  obtain ⟨mode, width, guard, aggregation⟩ := g
  obtain ⟨mode', width', guard', aggregation'⟩ := g'
  subst hmode
  cases mode with
  | legacy => cases hg
  | siso | mimo =>
    cases guard <;> cases guard' <;>
      simp only [slot, GuardInterval.isShort, Bool.toNat_true, Bool.toNat_false] at h ⊢ <;> omega

end RateGroup

end LinkAdaptation
