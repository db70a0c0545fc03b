import Mathlib.Data.Nat.ModEq

-- A memory of `n` cells that is used in circles: the position `p` of an endless sequence lies in the
-- cell `p % n`.
namespace Window

variable {α : Type} {n lo q : Nat} {cell : Nat → α} {xs ys : List α} {b : α}

-- The memory, seen by position, after a write at the position `q`.
def write (n : Nat) (cell : Nat → α) (q : Nat) (b : α) : Nat → α :=
  fun p => if p % n = q % n then b else cell p

-- The positions from `lo` on hold `xs`.
def Holds (cell : Nat → α) (lo : Nat) (xs : List α) : Prop :=
  ∀ t (h : t < xs.length), cell (lo + t) = xs[t]

theorem write_self : write n cell q b q = b :=
  if_pos rfl

-- Two different positions of one window lie in different cells.
theorem mod_ne {p : Nat} (hp : lo ≤ p) (hq : p < q) (hn : q < lo + n) : p % n ≠ q % n := by
  intro h
  have hd : n ∣ q - p := (Nat.modEq_iff_dvd' (Nat.le_of_lt hq)).mp h
  have hle : n ≤ q - p := Nat.le_of_dvd (by omega) hd
  omega

theorem write_of_lt {p : Nat} (hp : lo ≤ p) (hq : p < q) (hn : q < lo + n) :
    write n cell q b p = cell p :=
  if_neg (mod_ne hp hq hn)

-- Data at the position `q` that runs over the end of the memory goes on at its first cell.

theorem mod_front {t : Nat} (ht : t < n - q % n) : (q + t) % n = q % n + t := by
  rw [← Nat.mod_add_mod, Nat.mod_eq_of_lt (by omega)]

theorem mod_back {t : Nat} (hn : 0 < n) (ht : t < n) : (q + (n - q % n) + t) % n = t := by
  have start := Nat.mod_lt q hn
  have whole := Nat.div_add_mod q n
  have round : q + (n - q % n) + t = t + n * (q / n + 1) := by
    rw [Nat.mul_add]
    omega
  rw [round, Nat.add_mul_mod_self_left, Nat.mod_eq_of_lt ht]

namespace Holds

theorem nil : Holds cell lo ([] : List α) :=
  fun _ h => absurd h (Nat.not_lt_zero _)

theorem append (hx : Holds cell lo xs) (hy : Holds cell (lo + xs.length) ys) :
    Holds cell lo (xs ++ ys) := by
  intro t h
  by_cases ht : t < xs.length
  case pos => rw [List.getElem_append_left ht, hx t ht]
  case neg =>
    have ht : xs.length ≤ t := Nat.le_of_not_lt ht
    have hl : t - xs.length < ys.length := by simp only [List.length_append] at h; omega
    rw [List.getElem_append_right ht, ← hy _ hl]
    congr 1
    omega

theorem left (h : Holds cell lo (xs ++ ys)) : Holds cell lo xs := by
  intro t ht
  rw [h t (by simp only [List.length_append]; omega), List.getElem_append_left ht]

theorem right (h : Holds cell lo (xs ++ ys)) : Holds cell (lo + xs.length) ys := by
  intro t ht
  rw [Nat.add_assoc, h (xs.length + t) (by simp only [List.length_append]; omega)]
  simp

-- A write beyond what is held, in the same window.
theorem write (h : Holds cell lo xs) (hq : lo + xs.length ≤ q) (hn : q < lo + n) :
    Holds (write n cell q b) lo xs := by
  intro t ht
  rw [write_of_lt (Nat.le_add_right lo t) (by omega) hn, h t ht]

theorem snoc (h : Holds cell lo xs) (hn : lo + xs.length < lo + n) :
    Holds (Window.write n cell (lo + xs.length) b) lo (xs ++ [b]) := by
  refine (h.write (Nat.le_refl _) hn).append fun t ht => ?_
  obtain rfl : t = 0 := by simpa using ht
  exact write_self

end Holds
end Window
