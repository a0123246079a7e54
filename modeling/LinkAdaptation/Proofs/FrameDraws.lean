import LinkAdaptation.Proofs.FloatOrder
import Mathlib.Data.List.Basic
import Mathlib.Logic.Function.Iterate
import Mathlib.Tactic.SplitIfs

/-! What a link does with its draws. A frame arrives if its draw is below the
threshold of the rate it is sent at, and takes the draw in either case. So
batches add up, and of two links that draw the same numbers, the one with the
higher threshold delivers every frame that the other does. -/

namespace LinkAdaptation

namespace Delivery

theorem send_succ {σ : Type} (draw : σ → Float × σ) (p : Float) (n : Nat) (source : σ) :
    send draw p (n + 1) source =
      ((send draw p n source).1.count ((draw (send draw p n source).2).1 < p),
        (draw (send draw p n source).2).2) :=
  rfl

theorem send_account {σ : Type} (draw : σ → Float × σ) (p : Float) (frames : Nat) (source : σ) :
    (send draw p frames source).1.acked + (send draw p frames source).1.lost = frames ∧
      (send draw p frames source).2 = (fun s => (draw s).2)^[frames] source := by
  induction frames with
  | zero => exact ⟨rfl, rfl⟩
  | succ n ih =>
    obtain ⟨hsum, hsource⟩ := ih
    rw [send_succ, Function.iterate_succ_apply', ← hsource]
    refine ⟨?_, rfl⟩
    simp only [count]
    split_ifs <;> simp only <;> omega

theorem eq_of_acked {d e : Delivery} (hacked : d.acked = e.acked)
    (hsum : d.acked + d.lost = e.acked + e.lost) : d = e := by
  have hlost : d.lost = e.lost := by omega
  exact (Delivery.mk.injEq ..).mpr ⟨hacked, hlost⟩

section Send

variable {σ : Type} (draw : σ → Float × σ) (p : Float) (source : σ)

/-- The numbers that the next draws give, in order. -/
def draws (frames : Nat) : List Float :=
  (List.range frames).map fun k => (draw ((fun s => (draw s).2)^[k] source)).1

theorem draws_succ (n : Nat) :
    draws draw source (n + 1) =
      draws draw source n ++ [(draw ((fun s => (draw s).2)^[n] source)).1] := by
  simp [draws, List.range_succ]

theorem draws_add (m n : Nat) :
    draws draw source (m + n) =
      draws draw source m ++ draws draw ((fun s => (draw s).2)^[m] source) n := by
  induction n with
  | zero => simp [draws]
  | succ n ih =>
    rw [← Nat.add_assoc, draws_succ, ih, draws_succ, List.append_assoc,
      ← Function.iterate_add_apply, Nat.add_comm n m]

/-- The frames that arrive are those whose draws are below the threshold. -/
theorem acked_send (frames : Nat) :
    (send draw p frames source).1.acked = (draws draw source frames).countP (· < p) := by
  induction frames with
  | zero => rfl
  | succ n ih =>
    rw [send_succ, draws_succ, List.countP_append, ← ih, ← (send_account draw p n source).2]
    by_cases h : (draw (send draw p n source).2).1 < p <;> simp [count, h]

theorem send_add (m n : Nat) :
    send draw p (m + n) source =
      let first := send draw p m source
      let second := send draw p n first.2
      (first.1.add second.1, second.2) := by
  obtain ⟨hsum, hsource⟩ := send_account draw p (m + n) source
  obtain ⟨hfirst, hbetween⟩ := send_account draw p m source
  obtain ⟨hsecond, hend⟩ := send_account draw p n (send draw p m source).2
  refine Prod.ext (eq_of_acked ?_ ?_) ?_
  · simp only [add, acked_send, draws_add, List.countP_append, hbetween]
  · simp only [add]
    omega
  · rw [hsource, Nat.add_comm, Function.iterate_add_apply, ← hbetween, ← hend]

theorem acked_send_mono {p q : Float} (h : p ≤ q) (frames : Nat) :
    (send draw p frames source).1.acked ≤ (send draw q frames source).1.acked := by
  rw [acked_send, acked_send]
  refine List.countP_mono_left fun x _ hx => ?_
  exact decide_eq_true (Float.lt_of_lt_of_le (of_decide_eq_true hx) h)

theorem acked_send_of_isNaN {p : Float} (h : p.isNaN = true) (frames : Nat) :
    (send draw p frames source).1.acked = 0 := by
  rw [acked_send, List.countP_eq_zero]
  exact fun x _ hx => Float.not_lt_of_isNaN h x (of_decide_eq_true hx)

end Send

end Delivery

namespace Medium

variable {σ : Type} (m : Medium σ)

/-- The source after a number of draws. -/
def skip (draws : Nat) : σ → σ := (fun s => (m.draw s).2)^[draws]

theorem skip_add (i j : Nat) (s : σ) : m.skip (i + j) s = m.skip j (m.skip i s) := by
  rw [Nat.add_comm]
  exact Function.iterate_add_apply _ j i s

theorem transmit_account (l : Link σ) (tx : TxVector) (frames : Nat) :
    (m.transmit l tx frames).1.acked + (m.transmit l tx frames).1.lost = frames ∧
      (m.transmit l tx frames).2 = { l with source := m.skip frames l.source } := by
  obtain ⟨hsum, hsource⟩ :=
    Delivery.send_account m.draw (m.successProbability l tx) frames l.source
  refine ⟨hsum, ?_⟩
  rw [skip, ← hsource]
  rfl

/-- The source knows its position, and each draw moves it on by as many words. -/
def Advances (position : σ → Nat) (words : Nat) : Prop :=
  ∀ s, position (m.draw s).2 = position s + words

variable {m} in
theorem Advances.position_skip {position : σ → Nat} {words : Nat} (h : m.Advances position words)
    (draws : Nat) (s : σ) : position (m.skip draws s) = position s + words * draws := by
  induction draws with
  | zero => rfl
  | succ n ih =>
    rw [skip_add, show m.skip 1 (m.skip n s) = (m.draw (m.skip n s)).2 from rfl, h, ih,
      Nat.mul_succ, Nat.add_assoc]

theorem keyed_advances : keyed.Advances KeyStream.position 2 := KeyStream.position_draw

end Medium

/-- The key stream after a number of draws. -/
def KeyStream.skip (draws : Nat) : KeyStream → KeyStream := (fun s => s.draw.2)^[draws]

namespace Link

variable (l : Link) (tx : TxVector)

theorem transmit_account (frames : Nat) :
    (l.transmit tx frames).1.acked + (l.transmit tx frames).1.lost = frames ∧
      (l.transmit tx frames).2 = { l with source := l.source.skip frames } :=
  Medium.keyed.transmit_account l tx frames

theorem transmit_fst (frames : Nat) :
    (l.transmit tx frames).1 =
      (Delivery.send KeyStream.draw (l.successProbability tx) frames l.source).1 :=
  rfl

theorem transmit_add (m n : Nat) :
    l.transmit tx (m + n) =
      let first := l.transmit tx m
      let second := first.2.transmit tx n
      (first.1.add second.1, second.2) := by
  have hsend :=
    Delivery.send_add Medium.keyed.draw (Medium.keyed.successProbability l tx) l.source m n
  simp only [transmit, Medium.transmit, hsend]
  rfl

/-- Frames are sent one by one. Whatever the threshold is, each frame takes one draw, and is either
acknowledged or lost. So a batch comes to the same as its parts sent one after the other, and leaves
the same source behind. On the same draws a threshold that is no lower acknowledges no fewer frames,
and one that is not a number acknowledges none. This holds for every source of draws, and for a link
at every signal-to-noise ratio, finite or not. -/
theorem frames_take_one_draw_each :
    (∀ (σ : Type) (draw : σ → Float × σ) (source : σ) (p : Float) (m n : Nat),
      let first := Delivery.send draw p m source
      let second := Delivery.send draw p n first.2
      Delivery.send draw p (m + n) source = (first.1.add second.1, second.2) ∧
      first.1.acked + first.1.lost = m ∧
      first.2 = (fun s => (draw s).2)^[m] source ∧
      (∀ q, p ≤ q → first.1.acked ≤ (Delivery.send draw q m source).1.acked) ∧
      (p.isNaN = true → first.1.acked = 0)) ∧
    ∀ (l : Link) (tx : TxVector) (m n : Nat),
      let first := l.transmit tx m
      let second := first.2.transmit tx n
      l.transmit tx (m + n) = (first.1.add second.1, second.2) ∧
      first.1.acked + first.1.lost = m ∧
      first.2 = { l with source := l.source.skip m } ∧
      first.2.source.position = l.source.position + 2 * m ∧
      (∀ (l' : Link) (tx' : TxVector), l'.source = l.source →
        l.successProbability tx ≤ l'.successProbability tx' →
          first.1.acked ≤ (l'.transmit tx' m).1.acked) ∧
      ((l.successProbability tx).isNaN = true → first.1.acked = 0) := by
  refine ⟨fun σ draw source p m n => ?_, fun l tx m n => ?_⟩
  · obtain ⟨hsum, hsource⟩ := Delivery.send_account draw p m source
    exact ⟨Delivery.send_add draw p source m n, hsum, hsource,
      fun q hq => Delivery.acked_send_mono draw source hq m,
      fun hnan => Delivery.acked_send_of_isNaN draw source hnan m⟩
  · obtain ⟨hsum, hlink⟩ := l.transmit_account tx m
    refine ⟨l.transmit_add tx m n, hsum, hlink, ?_, fun l' tx' hsource hle => ?_, fun hnan => ?_⟩
    · rw [hlink]
      exact Medium.keyed_advances.position_skip m l.source
    · rw [transmit_fst, transmit_fst, hsource]
      exact Delivery.acked_send_mono KeyStream.draw l.source hle m
    · exact Delivery.acked_send_of_isNaN KeyStream.draw l.source hnan m

/-- Of the draws 0, 1, 2, 3 and 4, three are below 2.5, all are below infinity, and none is below
what is not a number. -/
example :
    [2.5, 1.0 / 0.0, 0.0 / 0.0].map
        (fun p => Delivery.send (fun k : Nat => (Float.ofNat k, k + 1)) p 5 0) =
      [(⟨3, 2⟩, 5), (⟨5, 0⟩, 5), (⟨0, 5⟩, 5)] := by
  decide +kernel

end Link

end LinkAdaptation
