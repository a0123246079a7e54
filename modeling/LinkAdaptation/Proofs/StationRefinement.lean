import LinkAdaptation.Proofs.ConfigurationCheck
import LinkAdaptation.Registry
import Mathlib.Data.List.Induction
import Mathlib.Tactic.Common

/-! A registry is nothing but its stations side by side. Each address goes its
own way from one addition to the next removal, whatever happens to the others,
and a request that is refused leaves no trace. -/

namespace LinkAdaptation

theorem Address.compare_eq_lt (a b : Address) : compare a b = .lt ↔ a.toList < b.toList := by
  have hlist (xs ys : List UInt8) : List.compareLex compare xs ys = .lt ↔ xs < ys := by
    induction xs generalizing ys with
    | nil => cases ys <;> simp [List.compareLex_nil_nil, List.compareLex_nil_cons]
    | cons x xs ih =>
      cases ys with
      | nil => simp [List.compareLex_cons_nil]
      | cons y ys =>
        rw [List.compareLex_cons_cons, Ordering.then_eq_lt, ih, List.cons_lt_cons_iff,
          Std.compare_eq_lt, Std.LawfulEqOrd.compare_eq_iff_eq]
  rw [Vector.compare_eq_compare_toList, List.compare_eq_compareLex]
  exact hlist a.toList b.toList

/-- A request as it reaches the registry, with the clock reading at that moment. -/
structure Call where
  address : Address
  request : Request
  now : Nat

/-- What a request tells the controller of its station, if it tells it anything. -/
def Request.event? (q : Request) (now : Nat) : Option Event :=
  match q with
  | .dataAcked => some (.report ⟨1, 0, false⟩ now)
  | .dataLost => some (.report ⟨0, 1, false⟩ now)
  | .blockAck acked lost => some (.report ⟨acked, lost, true⟩ now)
  | .setAggregation aggregation => some (.setAggregation aggregation)
  | .add | .remove | .rtsAcked | .rtsLost | .dataAbandoned => none

/-- What a sequence of calls tells the controller of one station. -/
def eventsOf (a : Address) (calls : List Call) : List Event :=
  calls.filterMap fun x => if x.address = a then x.request.event? x.now else none

theorem eventsOf_append (a : Address) (xs ys : List Call) :
    eventsOf a (xs ++ ys) = eventsOf a xs ++ eventsOf a ys :=
  List.filterMap_append

namespace Registry

def serve (r : Registry) (x : Call) : Registry × Except Fault Unit :=
  r.handle x.address x.request x.now

def serveAll (r : Registry) (calls : List Call) : Registry :=
  calls.foldl (fun r x => (r.serve x).1) r

theorem ofProfile_ok (profile : Profile) : ofProfile profile = .ok ⟨profile, ∅⟩ := by
  simp only [ofProfile, checkConfiguration_ok]
  rfl

theorem serveAll_append (r : Registry) (xs ys : List Call) :
    r.serveAll (xs ++ ys) = (r.serveAll xs).serveAll ys :=
  List.foldl_append

theorem contains_eq (r : Registry) (a : Address) : r.contains a = (r.controller? a).isSome :=
  Std.TreeMap.contains_eq_isSome_getElem?

theorem controller?_insert (r : Registry) (a b : Address) (c : Controller) :
    controller? { r with controllers := r.controllers.insert a c } b =
      if a = b then some c else r.controller? b := by
  simp [controller?, Std.TreeMap.getElem?_insert, Std.LawfulEqCmp.compare_eq_iff_eq]

theorem controller?_erase (r : Registry) (a b : Address) :
    controller? { r with controllers := r.controllers.erase a } b =
      if a = b then none else r.controller? b := by
  simp [controller?, Std.TreeMap.getElem?_erase, Std.LawfulEqCmp.compare_eq_iff_eq]

theorem serve_profile (r : Registry) (x : Call) : (r.serve x).1.profile = r.profile := by
  obtain ⟨a, q, now⟩ := x
  cases q <;> simp only [serve, handle, add, remove, deliver] <;> split <;> rfl

theorem serveAll_profile (r : Registry) (calls : List Call) :
    (r.serveAll calls).profile = r.profile := by
  induction calls generalizing r with
  | nil => rfl
  | cons x xs ih => exact (ih _).trans (r.serve_profile x)

/-- A station has to be new to be added, and known for all else that concerns it. -/
theorem serve_result (r : Registry) (x : Call) :
    (r.serve x).2 = match x.request with
      | .add => if r.contains x.address then .error .duplicateStation else .ok ()
      | .rtsAcked | .rtsLost | .dataAbandoned => .ok ()
      | _ => if r.contains x.address then .ok () else .error .unknownStation := by
  obtain ⟨a, q, now⟩ := x
  cases hc : r.controller? a <;> cases q <;>
    simp [serve, handle, add, remove, deliver, contains_eq, hc]

theorem serve_refused {r : Registry} {x : Call} {f : Fault} (h : (r.serve x).2 = .error f) :
    (r.serve x).1 = r := by
  obtain ⟨a, q, now⟩ := x
  cases hc : r.controller? a <;> cases q <;>
    simp_all [serve, handle, add, remove, deliver, contains_eq]

theorem serve_of_ne {r : Registry} {x : Call} {a : Address} (h : x.address ≠ a) :
    (r.serve x).1.controller? a = r.controller? a := by
  obtain ⟨b, q, now⟩ := x
  have hb : b ≠ a := h
  cases hc : r.controller? b <;> cases q <;>
    simp [serve, handle, add, remove, deliver, contains_eq, hc, controller?_insert,
      controller?_erase, hb]

/-- A call leaves a tracked station with its own events, unless it removes the station. -/
theorem serve_of_tracked {r : Registry} {x : Call} {a : Address} {c : Controller}
    (h : r.controller? a = some c) (hx : x.address = a → x.request ≠ .remove) :
    (r.serve x).1.controller? a = some (c.run (eventsOf a [x])) := by
  by_cases ha : x.address = a
  · obtain ⟨b, q, now⟩ := x
    obtain rfl : b = a := ha
    cases q <;> simp_all [serve, handle, add, deliver, contains_eq, eventsOf, Request.event?,
      controller?_insert, Controller.run]
  · simp [serve_of_ne ha, h, eventsOf, ha, Controller.run]

theorem serve_of_untracked {r : Registry} {x : Call} {a : Address} (h : r.controller? a = none)
    (hx : x.address = a → x.request ≠ .add) : (r.serve x).1.controller? a = none := by
  by_cases ha : x.address = a
  · obtain ⟨b, q, now⟩ := x
    obtain rfl : b = a := ha
    cases q <;> simp_all [serve, handle, remove, deliver, contains_eq]
  · rw [serve_of_ne ha, h]

theorem serve_add {r : Registry} {a : Address} (h : r.controller? a = none) (now : Nat) :
    (r.serve ⟨a, .add, now⟩).1.controller? a = some (.new r.profile.caps) := by
  simp [serve, handle, add, contains_eq, h, controller?_insert]

theorem serve_remove (r : Registry) (a : Address) (now : Nat) :
    (r.serve ⟨a, .remove, now⟩).1.controller? a = none := by
  cases h : r.controller? a <;> simp [serve, handle, remove, contains_eq, h, controller?_erase]

/-- Whatever calls add or remove the station are refused. -/
def Keeps (r : Registry) (a : Address) (calls : List Call) : Prop :=
  ∀ mid x rest, calls = mid ++ x :: rest → x.address = a →
    x.request = .add ∨ x.request = .remove → ((r.serveAll mid).serve x).2 ≠ .ok ()

/-- The calls `since` follow the last addition of the station that was accepted, and no removal
has been accepted among them. -/
def TrackedSince (r : Registry) (a : Address) (calls since : List Call) : Prop :=
  ∃ pre now, calls = pre ++ ⟨a, .add, now⟩ :: since ∧
    ((r.serveAll pre).serve ⟨a, .add, now⟩).2 = .ok () ∧
    ((r.serveAll pre).serve ⟨a, .add, now⟩).1.Keeps a since

theorem Keeps.tail {r : Registry} {a : Address} {x : Call} {calls : List Call}
    (h : r.Keeps a (x :: calls)) : (r.serve x).1.Keeps a calls :=
  fun mid y rest hcalls => h (x :: mid) y rest (by simp [hcalls])

theorem Keeps.concat {r : Registry} {a : Address} {x : Call} {calls : List Call}
    (h : r.Keeps a calls) (hx : x.address = a → x.request = .add ∨ x.request = .remove →
      ((r.serveAll calls).serve x).2 ≠ .ok ()) : r.Keeps a (calls ++ [x]) := by
  intro mid y rest hcalls
  rcases List.eq_nil_or_concat rest with rfl | ⟨rest, z, rfl⟩
  · obtain ⟨rfl, hxy⟩ := List.append_inj' hcalls rfl
    obtain rfl : x = y := by simpa using hxy
    exact hx
  · have hsplit : calls ++ [x] = (mid ++ y :: rest) ++ [z] := by simpa using hcalls
    exact h mid y rest (List.append_inj' hsplit rfl).1

theorem serveAll_of_tracked {r : Registry} {a : Address} {c : Controller} {calls : List Call}
    (h : r.controller? a = some c) (hkeep : r.Keeps a calls) :
    (r.serveAll calls).controller? a = some (c.run (eventsOf a calls)) := by
  induction calls generalizing r c with
  | nil => exact h
  | cons x xs ih =>
    have hx : x.address = a → x.request ≠ .remove := by
      intro ha hr
      refine hkeep [] x xs rfl ha (.inr hr) ?_
      change (r.serve x).2 = .ok ()
      simp [serve_result, hr, ha, contains_eq, h]
    have hrest := ih (serve_of_tracked h hx) hkeep.tail
    rwa [← Controller.run_append, ← eventsOf_append] at hrest

theorem controller?_of_trackedSince {r : Registry} {a : Address} {calls since : List Call}
    (h : r.TrackedSince a calls since) :
    (r.serveAll calls).controller? a =
      some ((Controller.new r.profile.caps).run (eventsOf a since)) := by
  obtain ⟨pre, now, rfl, hadded, hkeep⟩ := h
  have hnew : (r.serveAll pre).controller? a = none := by
    cases hc : (r.serveAll pre).controller? a with
    | none => rfl
    | some c => simp [serve_result, contains_eq, hc] at hadded
  have hstart := serve_add hnew now
  rw [serveAll_profile] at hstart
  rw [serveAll_append]
  exact serveAll_of_tracked hstart hkeep

theorem trackedSince_of_controller? {r : Registry} {a : Address} (hempty : r.controller? a = none)
    {calls : List Call} {c : Controller} (h : (r.serveAll calls).controller? a = some c) :
    ∃ since, r.TrackedSince a calls since := by
  induction calls using List.reverseRecOn generalizing c with
  | nil => simp [serveAll, hempty] at h
  | append_singleton calls x ih =>
    have hserve : r.serveAll (calls ++ [x]) = ((r.serveAll calls).serve x).1 := by
      rw [serveAll_append]
      rfl
    rw [hserve] at h
    cases hc : (r.serveAll calls).controller? a with
    | none =>
      have hx : x.address = a ∧ x.request = .add := by
        by_contra hx
        simp [serve_of_untracked hc fun ha hr => hx ⟨ha, hr⟩] at h
      obtain ⟨b, q, now⟩ := x
      obtain ⟨rfl, rfl⟩ : b = a ∧ q = .add := hx
      refine ⟨[], calls, now, rfl, by simp [serve_result, contains_eq, hc], ?_⟩
      intro mid y rest hnil
      simp at hnil
    | some d =>
      obtain ⟨since, pre, now, rfl, hadded, hkeep⟩ := ih hc
      refine ⟨since ++ [x], pre, now, by simp, hadded, hkeep.concat fun ha hmove => ?_⟩
      rw [serveAll_append] at hc h
      obtain ⟨b, q, later⟩ := x
      obtain rfl : b = a := ha
      change (((r.serveAll pre).serve ⟨b, .add, now⟩).1.serveAll since).controller? b = some d at hc
      rcases hmove with rfl | rfl
      · simp [serve_result, contains_eq, hc]
      · exact absurd h (by simp [serve_remove])

theorem controller?_serveAll_iff {r : Registry} {a : Address} (hempty : r.controller? a = none)
    (calls : List Call) (c : Controller) :
    (r.serveAll calls).controller? a = some c ↔
      ∃ since, r.TrackedSince a calls since ∧
        c = (Controller.new r.profile.caps).run (eventsOf a since) := by
  constructor
  · intro h
    obtain ⟨since, hsince⟩ := trackedSince_of_controller? hempty h
    exact ⟨since, hsince, Option.some.inj (h.symm.trans (controller?_of_trackedSince hsince))⟩
  · rintro ⟨since, hsince, rfl⟩
    exact controller?_of_trackedSince hsince

theorem stations_pairwise (r : Registry) :
    r.stations.Pairwise fun a b => a.toList < b.toList :=
  Std.TreeMap.ordered_keys.imp fun h => (Address.compare_eq_lt _ _).mp h

theorem mem_stations (r : Registry) (a : Address) : a ∈ r.stations ↔ r.contains a = true :=
  Std.TreeMap.mem_keys

/-- A registry keeps its stations apart. After any calls whatsoever, a station is tracked if and
only if its last accepted addition has not been followed by an accepted removal, and it is then in
the state that a new controller reaches on the events of this station since. A refused call changes
nothing, and neither does news of control frames or of frames that were given up. -/
theorem registry_refines_stations (profile : Profile) (calls : List Call) :
    ∃ first, ofProfile profile = .ok first ∧
      let r := first.serveAll calls
      (∀ a c, r.controller? a = some c ↔
        ∃ since, first.TrackedSince a calls since ∧
          c = (Controller.new profile.caps).run (eventsOf a since)) ∧
      (∀ a, r.contains a = true ↔ ∃ since, first.TrackedSince a calls since) ∧
      (∀ a now, (r.serve ⟨a, .add, now⟩).2 =
        if r.contains a then .error .duplicateStation else .ok ()) ∧
      (∀ a q now, q = .remove ∨ (q.event? now).isSome → (r.serve ⟨a, q, now⟩).2 =
        if r.contains a then .ok () else .error .unknownStation) ∧
      (∀ x f, (r.serve x).2 = .error f → (r.serve x).1 = r) ∧
      (∀ a q now, q = .rtsAcked ∨ q = .rtsLost ∨ q = .dataAbandoned →
        r.serve ⟨a, q, now⟩ = (r, .ok ())) ∧
      r.stations.Pairwise (fun a b => a.toList < b.toList) ∧
      (∀ a, a ∈ r.stations ↔ r.contains a = true) ∧ r.stations.length = r.size := by
  let first : Registry := ⟨profile, ∅⟩
  have hempty (a : Address) : first.controller? a = none := Std.TreeMap.getElem?_emptyc
  refine ⟨first, ofProfile_ok profile, ?_⟩
  intro r
  have hiff (a : Address) (c : Controller) := controller?_serveAll_iff (hempty a) calls c
  refine ⟨hiff, fun a => ?_, fun a now => serve_result _ _, fun a q now hq => ?_,
    fun x f => serve_refused, fun a q now hq => ?_, stations_pairwise r, mem_stations r,
    Std.TreeMap.length_keys⟩
  · rw [contains_eq, Option.isSome_iff_exists]
    constructor
    · rintro ⟨c, hc⟩
      obtain ⟨since, hsince, -⟩ := (hiff a c).mp hc
      exact ⟨since, hsince⟩
    · rintro ⟨since, hsince⟩
      exact ⟨_, controller?_of_trackedSince hsince⟩
  · rw [serve_result]
    cases q <;> simp_all [Request.event?]
  · rcases hq with rfl | rfl | rfl <;> rfl

end Registry

end LinkAdaptation
