import LinkAdaptation.Proofs.UsablePositions
import Mathlib.Data.List.Chain

/-! A run moment by moment. One report can do several things in turn: record its
outcomes, take a step, end a stay, begin a trial, settle. What is said of a run
as a whole, and not only of the states between events, is said of all these
moments. -/

namespace LinkAdaptation

namespace Controller

/-- The states that a report takes a controller through, in order. It is left in the last one. -/
def moments (c : Controller) (r : Report) (now : Nat) : List Controller :=
  let o := c.observe r
  match o.window.throughput? with
  | none => [o, o.supervise now]
  | some rate =>
    match o.trial? with
    | some trial => [o, o.resolve trial rate]
    | none =>
      match o.step? rate with
      | some index => [o, o.stepTo index, (o.stepTo index).supervise now]
      | none =>
        let s := o.supervise now
        [o, s, s.search rate, (s.search rate).settle now]

def momentsOf (c : Controller) : Event → List Controller
  | .report r now => c.moments r now
  | .setAggregation aggregation => [c.setAggregation aggregation]

def laterMoments (c : Controller) : List Event → List Controller
  | [] => []
  | e :: es => c.momentsOf e ++ (c.apply e).laterMoments es

/-- All moments of a run, from the state it starts in to the state it ends in. -/
def course (c : Controller) (events : List Event) : List Controller := c :: c.laterMoments events

/-- What a search does. Outside one, it does nothing. -/
inductive Searched (c : Controller) (rate : Nat) : Controller → Prop where
  | idle (hphase : c.phase ≠ .searching none) : Searched c rate c
  | tries {next : Column} (hphase : c.phase = .searching none)
      (hnext : c.nextColumn? rate = some next) : Searched c rate (c.beginTrial next rate)
  | ends (hphase : c.phase = .searching none) (hnext : c.nextColumn? rate = none) :
      Searched c rate { c with phase := .ended }

theorem searched (c : Controller) (rate : Nat) : Searched c rate (c.search rate) := by
  unfold search
  split
  · rename_i hphase
    split
    · exact .tries hphase ‹_›
    · exact .ends hphase ‹_›
  all_goals exact .idle (by simp [*])

inductive Settled (c : Controller) (now : Nat) : Controller → Prop where
  | idle (hphase : c.phase ≠ .ended) : Settled c now c
  | ends (hphase : c.phase = .ended) :
      Settled c now { c with phase := .staying (.start now), visited := .only c.column }

theorem settled (c : Controller) (now : Nat) : Settled c now (c.settle now) := by
  unfold settle
  split
  · exact .ends ‹_›
  all_goals exact .idle (by simp [*])

/-- What one moment can be to the one before it. -/
inductive Stage (a : Controller) : Controller → Prop where
  | observes (r : Report) : Stage a (a.observe r)
  | steps {rate index : Nat} (hstep : a.step? rate = some index) : Stage a (a.stepTo index)
  | supervises (now : Nat) : Stage a (a.supervise now)
  | resolves {t : Trial} (htrial : a.trial? = some t) (rate : Nat) : Stage a (a.resolve t rate)
  | searches (rate : Nat) : Stage a (a.search rate)
  | settles (now : Nat) : Stage a (a.settle now)
  | flips (aggregation : Aggregation) : Stage a (a.setAggregation aggregation)

theorem isChain_moments (c : Controller) (r : Report) (now : Nat) :
    (c :: c.moments r now).IsChain Stage := by
  have hobserve : Stage c (c.observe r) := .observes r
  unfold moments
  dsimp only
  cases (c.observe r).window.throughput? with
  | none => simp [hobserve, Stage.supervises]
  | some rate =>
    dsimp only
    cases htrial : (c.observe r).trial? with
    | some t => simp [hobserve, Stage.resolves htrial]
    | none =>
      dsimp only
      cases hstep : (c.observe r).step? rate with
      | some index => simp [hobserve, Stage.steps hstep, Stage.supervises]
      | none => simp [hobserve, Stage.supervises, Stage.searches, Stage.settles]

theorem getLast?_moments (c : Controller) (r : Report) (now : Nat) :
    (c.moments r now).getLast? = some (c.report r now) := by
  unfold moments report act
  dsimp only
  cases (c.observe r).window.throughput? with
  | none => rfl
  | some rate =>
    dsimp only
    cases (c.observe r).trial? with
    | some t => rfl
    | none =>
      dsimp only
      cases (c.observe r).step? rate <;> rfl

theorem isChain_momentsOf (c : Controller) (e : Event) : (c :: c.momentsOf e).IsChain Stage := by
  cases e with
  | report r now => exact c.isChain_moments r now
  | setAggregation aggregation => simp [momentsOf, Stage.flips]

theorem getLast?_momentsOf (c : Controller) (e : Event) :
    (c.momentsOf e).getLast? = some (c.apply e) := by
  cases e with
  | report r now => exact c.getLast?_moments r now
  | setAggregation aggregation => rfl

theorem getLast?_course (c : Controller) (events : List Event) :
    (c.course events).getLast? = some (c.run events) := by
  induction events generalizing c with
  | nil => rfl
  | cons e es ih =>
    have hrest : ((c.apply e).laterMoments es).getLast?.or (some (c.apply e)) =
        some ((c.apply e).run es) := by
      rw [← ih, course, List.getLast?_cons, Option.or_some]
    rw [course, laterMoments, List.getLast?_cons, List.getLast?_append, getLast?_momentsOf, hrest]
    rfl

theorem isChain_course (c : Controller) (events : List Event) :
    (c.course events).IsChain Stage := by
  induction events generalizing c with
  | nil => exact .singleton c
  | cons e es ih =>
    have hall : ((c :: c.momentsOf e) ++ (c.apply e).laterMoments es).IsChain Stage := by
      refine List.isChain_append.mpr ⟨c.isChain_momentsOf e, (ih (c.apply e)).tail, ?_⟩
      intro a ha b hb
      -- the last moment of an event is the state that the next one finds
      obtain rfl : c.apply e = a := by
        simpa [List.getLast?_cons, getLast?_momentsOf] using ha
      exact (List.isChain_cons.mp (ih (c.apply e))).1 b hb
    exact hall

theorem Stage.caps {a b : Controller} (hstage : Stage a b) : b.caps = a.caps := by
  cases hstage with
  | observes | steps | resolves => rfl
  | supervises now => simp
  | searches rate =>
    have hs := a.searched rate
    generalize a.search rate = s at hs ⊢
    cases hs <;> rfl
  | settles now =>
    have hs := a.settled now
    generalize a.settle now = s at hs ⊢
    cases hs <;> rfl
  | flips aggregation => exact a.apply_caps (.setAggregation aggregation)

theorem Sound.stage {a b : Controller} (h : a.Sound) (hstage : Stage a b) : b.Sound := by
  cases hstage with
  | observes r => exact h.observe r
  | steps hstep => exact h.stepTo hstep
  | supervises now => exact h.supervise now
  | resolves htrial rate => exact h.resolve htrial rate
  | searches rate =>
    have hs := a.searched rate
    generalize a.search rate = s at hs ⊢
    cases hs with
    | idle => exact h
    | tries _ hnext => exact h.beginTrial hnext
    | ends => exact h.of_no_trial rfl rfl rfl rfl
  | settles now =>
    have hs := a.settled now
    generalize a.settle now = s at hs ⊢
    cases hs with
    | idle => exact h
    | ends => exact h.of_no_trial rfl rfl rfl rfl
  | flips aggregation => exact h.setAggregation aggregation

/-- What holds at first and is kept from each moment to the next holds at all of them. -/
theorem forall_mem_course {P : Controller → Prop} (hstage : ∀ a b, P a → Stage a b → P b)
    {c : Controller} (h : P c) (events : List Event) : ∀ m ∈ c.course events, P m :=
  (c.isChain_course events).induction P _ (fun a b hab ha => hstage a b ha hab) (by simpa [course])

end Controller

end LinkAdaptation
