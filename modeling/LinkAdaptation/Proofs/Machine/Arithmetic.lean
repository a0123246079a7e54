import Mathlib.Algebra.Group.Nat.Defs
import Mathlib.Tactic.Common

/-! Arithmetic and memory as a machine has them. A result that does not fit its
word either stops the machine or wraps around; an address outside the memory and
a division by zero always stop it. The laws say when neither happens. -/

namespace LinkAdaptation

/-- Why a machine stops. -/
inductive Trap where
  | overflow
  | outOfBounds
  | divisionByZero
  deriving DecidableEq, Repr

/-- What a machine does with a result that does not fit its word. -/
inductive Arithmetic where
  | trapping
  | wrapping
  deriving DecidableEq, Repr

namespace Arithmetic

/-- The word for the exact result of a sum or a product. -/
def fit : Arithmetic → (bits n : Nat) → Except Trap Nat
  | .trapping, bits, n => if n < 2 ^ bits then .ok n else .error .overflow
  | .wrapping, bits, n => .ok (n % 2 ^ bits)

def sub : Arithmetic → (bits m n : Nat) → Except Trap Nat
  | .trapping, _, m, n => if n ≤ m then .ok (m - n) else .error .overflow
  | .wrapping, bits, m, n => .ok ((2 ^ bits + m - n) % 2 ^ bits)

theorem fit_of_lt (a : Arithmetic) {bits n : Nat} (h : n < 2 ^ bits) : a.fit bits n = .ok n := by
  cases a with
  | trapping => exact if_pos h
  | wrapping => exact congrArg Except.ok (Nat.mod_eq_of_lt h)

theorem sub_of_le (a : Arithmetic) {bits m n : Nat} (hm : m < 2 ^ bits) (h : n ≤ m) :
    a.sub bits m n = .ok (m - n) := by
  cases a with
  | trapping => exact if_pos h
  | wrapping =>
    have hwrap : (2 ^ bits + m - n) % 2 ^ bits = m - n := by
      rw [Nat.add_sub_assoc h, Nat.add_mod_left, Nat.mod_eq_of_lt (by omega)]
    exact congrArg Except.ok hwrap

end Arithmetic

namespace Memory

variable {α : Type} {n : Nat}

def divide (x y : Nat) : Except Trap Nat :=
  if y = 0 then .error .divisionByZero else .ok (x / y)

def fetch (v : Vector α n) (address : Nat) : Except Trap α :=
  if h : address < n then .ok v[address] else .error .outOfBounds

def store (v : Vector α n) (address : Nat) (x : α) : Except Trap (Vector α n) :=
  if h : address < n then .ok (v.set address x) else .error .outOfBounds

/-- Changes the cells from `first` on, up to but not including `past`. -/
def update (v : Vector α n) (first past : Nat) (f : α → α) : Except Trap (Vector α n) :=
  if past ≤ n then .ok (v.mapIdx fun i x => if first ≤ i ∧ i < past then f x else x)
  else .error .outOfBounds

theorem divide_of_ne_zero (x : Nat) {y : Nat} (h : y ≠ 0) : divide x y = .ok (x / y) := if_neg h

theorem fetch_of_lt (v : Vector α n) {address : Nat} (h : address < n) :
    fetch v address = .ok v[address] :=
  dif_pos h

theorem store_of_lt (v : Vector α n) {address : Nat} (x : α) (h : address < n) :
    store v address x = .ok (v.set address x) :=
  dif_pos h

end Memory

@[simp] theorem ok_bind {α β : Type} (x : α) (f : α → Except Trap β) : (Except.ok x >>= f) = f x :=
  rfl

@[simp] theorem pure_eq_ok {α : Type} (x : α) : (pure x : Except Trap α) = .ok x := rfl

/-- A search stops nowhere if the test stops at no candidate. -/
theorem findM?_of_forall_ok {α : Type} {test : α → Except Trap Bool} {p : α → Bool} {l : List α}
    (h : ∀ x ∈ l, test x = .ok (p x)) : l.findM? test = .ok (l.find? p) := by
  induction l with
  | nil => rfl
  | cons x xs ih =>
    have hrest := ih fun y hy => h y (by simp [hy])
    rw [List.findM?, h x (by simp), ok_bind, List.find?_cons]
    cases p x with
    | true => rfl
    | false => exact hrest

end LinkAdaptation
