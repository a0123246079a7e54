import LinkAdaptation.Proofs.TrialCourse
import LinkAdaptation.Proofs.WindowOutcomes

/-! The evidence of a trial as a list of outcomes. While the aggregation setting
stays as it is, the window of the rate on trial holds the newest of all the
outcomes reported since the trial began. A trial that sees equal outcomes only
ends with the report that supplies enough of them, and its verdict is known. -/

namespace LinkAdaptation

/-- The outcomes that a report stands for, oldest first. -/
def Report.outcomes (r : Report) : List Bool :=
  List.replicate r.acked true ++ List.replicate r.failures false

namespace Event

def report? : Event → Option Report
  | .report r _ => some r
  | .setAggregation _ => none

/-- The event does not change the aggregation setting. -/
def Keeps (aggregation : Aggregation) : Event → Prop
  | .report _ _ => True
  | .setAggregation other => other = aggregation

theorem keeps_append_report {aggregation : Aggregation} {events : List Event}
    (h : ∀ e ∈ events, e.Keeps aggregation) (r : Report) (now : Nat) :
    ∀ e ∈ events ++ [.report r now], e.Keeps aggregation := by
  intro e he
  rcases List.mem_append.mp he with he | he
  · exact h e he
  · obtain rfl := List.mem_singleton.mp he
    trivial

end Event

def reportsOf (events : List Event) : List Report := events.filterMap Event.report?

def outcomesOf (events : List Event) : List Bool := (reportsOf events).flatMap Report.outcomes

theorem outcomesOf_append (es fs : List Event) :
    outcomesOf (es ++ fs) = outcomesOf es ++ outcomesOf fs := by
  simp [outcomesOf, reportsOf, List.filterMap_append, List.flatMap_append]

theorem Window.outcomes_absorb {w : Window} (h : w.Clean) (r : Report) :
    (w.absorb r).outcomes = (r.outcomes.reverse ++ w.outcomes).take windowLength := by
  rw [absorb, outcomes_pushMany (h.pushMany true r.acked), outcomes_pushMany h, take_append_take]
  simp [Report.outcomes, List.append_assoc]

/-- The number of equal outcomes that decides a trial. -/
def Window.enough : Bool → Nat
  | true => minSuccesses
  | false => minFailures

namespace Evidence

theorem addAll_concat (v : Evidence) (events : List Event) (e : Event) :
    v.addAll (events ++ [e]) = (v.addAll events).add e :=
  List.foldl_append

theorem addAll_of_keeps {v : Evidence} {events : List Event}
    (h : ∀ e ∈ events, e.Keeps v.aggregation) :
    v.addAll events = ⟨v.aggregation, v.reports ++ reportsOf events⟩ := by
  induction events generalizing v with
  | nil => simp [addAll, reportsOf]
  | cons e es ih =>
    have he := h e (by simp)
    have hes : ∀ x ∈ es, x.Keeps v.aggregation := fun x hx => h x (by simp [hx])
    cases e with
    | report r now =>
      have hrest := ih (v := v.add (.report r now)) hes
      simpa [addAll, reportsOf, Event.report?, add] using hrest
    | setAggregation aggregation =>
      have hsame : v.add (.setAggregation aggregation) = v := if_pos he
      have hrest := ih (v := v) hes
      simpa [addAll, reportsOf, List.filterMap_cons, Event.report?, hsame] using hrest

theorem outcomes_window (v : Evidence) (p : Position) :
    (v.window p).outcomes = ((v.reports.flatMap Report.outcomes).reverse).take windowLength := by
  have hfold (reports : List Report) (w : Window) (hw : w.Clean) :
      (reports.foldl Window.absorb w).outcomes =
        ((reports.flatMap Report.outcomes).reverse ++ w.outcomes).take windowLength := by
    induction reports generalizing w with
    | nil =>
      have hlen : w.outcomes.length ≤ windowLength := w.length_outcomes ▸ hw.size_le
      exact (List.take_of_length_le hlen).symm
    | cons r rs ih =>
      rw [List.foldl_cons, ih _ (hw.absorb r), Window.outcomes_absorb hw, take_append_take,
        List.flatMap_cons, List.reverse_append, List.append_assoc]
  rw [window, hfold _ _ (Window.clean_new _), Window.outcomes_new, List.append_nil]

theorem ceiling_window (v : Evidence) (p : Position) :
    (v.window p).ceiling = CeilingTable.expected.ceiling (p.group v.aggregation) p.index := by
  have hfold (reports : List Report) (w : Window) :
      (reports.foldl Window.absorb w).ceiling = w.ceiling := by
    induction reports generalizing w with
    | nil => rfl
    | cons r rs ih =>
      rw [List.foldl_cons, ih, Window.absorb_ceiling]
  exact hfold _ _

theorem outcomes_window_of_keeps {aggregation : Aggregation} {events : List Event}
    (h : ∀ e ∈ events, e.Keeps aggregation) (p : Position) :
    (((empty aggregation).addAll events).window p).outcomes =
      ((outcomesOf events).reverse).take windowLength := by
  rw [outcomes_window, addAll_of_keeps h]
  rfl

section Uniform

variable {aggregation : Aggregation} {events : List Event} {b : Bool}
  (hkeeps : ∀ e ∈ events, e.Keeps aggregation) (hequal : ∀ x ∈ outcomesOf events, x = b)
  (p : Position)

include hkeeps hequal

theorem outcomes_window_of_equal :
    (((empty aggregation).addAll events).window p).outcomes =
      List.replicate (min windowLength (outcomesOf events).length) b := by
  have hall : outcomesOf events = List.replicate (outcomesOf events).length b :=
    List.eq_replicate_iff.mpr ⟨rfl, hequal⟩
  rw [outcomes_window_of_keeps hkeeps, hall, List.reverse_replicate, List.take_replicate,
    List.length_replicate]

theorem decides_iff_of_equal :
    ((empty aggregation).addAll events).Decides p ↔
      Window.enough b ≤ (outcomesOf events).length := by
  have hclean := ((empty aggregation).addAll events).clean_window p
  rw [Decides, Window.failures_eq_count hclean, Window.successes_eq_count hclean,
    outcomes_window_of_equal hkeeps hequal, List.count_replicate, List.count_replicate]
  cases b <;> simp [Window.enough, Window.minSuccesses, Window.minFailures, windowLength]

/-- A rate at which every frame arrived measures all that is expected of it, and one at which none
did measures nothing. -/
theorem rate_of_equal {rate : Nat}
    (hrate : (((empty aggregation).addAll events).window p).throughput? = some rate) :
    rate = if b then 100 * CeilingTable.expected.ceiling (p.group aggregation) p.index else 0 := by
  have hclean := ((empty aggregation).addAll events).clean_window p
  have houtcomes := outcomes_window_of_equal hkeeps hequal p
  cases b with
  | true =>
    have hf : (((empty aggregation).addAll events).window p).failures = 0 := by
      simp [Window.failures_eq_count hclean, houtcomes, List.count_replicate]
    rw [Window.throughput?_of_no_failures hclean hf hrate, ceiling_window, addAll_of_keeps hkeeps]
    rfl
  | false =>
    have hs : (((empty aggregation).addAll events).window p).successes = 0 := by
      simp [Window.successes_eq_count hclean, houtcomes, List.count_replicate]
    exact Window.throughput?_of_no_successes hs hrate

end Uniform

end Evidence

namespace Controller

theorem OnTrial.run_of_equal {start : Controller} {t : Trial}
    (h : OnTrial start (.empty start.aggregation) start) (hs : start.Sound)
    (ht : start.phase = .searching (some t)) {events : List Event} {b : Bool}
    (hkeeps : ∀ e ∈ events, e.Keeps start.aggregation) (hequal : ∀ x ∈ outcomesOf events, x = b)
    (hfew : (outcomesOf events).length < Window.enough b) :
    OnTrial start ((Evidence.empty start.aggregation).addAll events) (start.run events) := by
  refine h.run hs ht fun pre hpre => ?_
  obtain ⟨post, rfl⟩ := hpre
  have hpreKeeps : ∀ e ∈ pre, e.Keeps start.aggregation := fun e he => hkeeps e (by simp [he])
  rw [outcomesOf_append] at hequal hfew
  have hpreEqual : ∀ x ∈ outcomesOf pre, x = b := fun x hx => hequal x (by simp [hx])
  rw [Evidence.decides_iff_of_equal hpreKeeps hpreEqual]
  rw [List.length_append] at hfew
  omega

/-- A trial that sees equal outcomes only goes on until enough of them have come in, and is then
decided by what such outcomes measure. -/
theorem OnTrial.verdict_of_equal {start : Controller} {t : Trial}
    (h : OnTrial start (.empty start.aggregation) start) (hs : start.Sound)
    (ht : start.phase = .searching (some t)) {events : List Event} {b : Bool} {r : Report} {now : Nat}
    (hkeeps : ∀ e ∈ events, e.Keeps start.aggregation)
    (hequal : ∀ x ∈ outcomesOf (events ++ [.report r now]), x = b)
    (hfew : (outcomesOf events).length < Window.enough b)
    (hmany : Window.enough b ≤ (outcomesOf (events ++ [.report r now])).length) :
    (start.run events).trial? = some t ∧
      ((start.run events).report r now).phase = .searching none ∧
      ((start.run events).report r now).position =
        if t.baseline <
            (if b then 100 * CeilingTable.expected.ceiling start.group start.index else 0) then
          start.position
        else t.rollback := by
  have hequal' : ∀ x ∈ outcomesOf events, x = b := fun x hx =>
    hequal x (by rw [outcomesOf_append]; exact List.mem_append_left _ hx)
  have hrun := h.run_of_equal hs ht hkeeps hequal' hfew
  have hsound : (start.run events).Sound := run_induction (fun _ e hc => hc.apply e) hs events
  have hall := Event.keeps_append_report hkeeps r now
  have hdecides := (Evidence.decides_iff_of_equal hall hequal start.position).mpr hmany
  rw [Evidence.addAll_concat] at hdecides
  obtain ⟨rate, hrate, hreport⟩ := hrun.report_decided hsound ht hdecides
  rw [hrun.window_observe hsound r now, ← Evidence.addAll_concat] at hrate
  have hrate' := Evidence.rate_of_equal hall hequal start.position hrate
  have hposition : ((start.run events).observe r).position = start.position := hrun.position
  have hverdict : (((start.run events).observe r).resolve t rate).position =
      if t.baseline < rate then start.position else t.rollback := by
    rw [resolve, hposition]
  rw [hreport, hverdict, hrate']
  exact ⟨hrun.trial? ht, rfl, rfl⟩

end Controller

end LinkAdaptation
