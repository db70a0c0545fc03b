import Mathlib.Data.List.Infix

-- Texts whose last fields are set off by a separator.
namespace Fields

variable {α : Type} {sep : α} {a b : List α}

-- The text before the last separator, and the field after it.
theorem last_inj (ha : sep ∉ a) (hb : sep ∉ b) {x y : List α} (h : x ++ sep :: a = y ++ sep :: b) : x = y ∧ a = b := by
  obtain ⟨t, rfl, h'⟩ | ⟨t, rfl, h'⟩ := List.append_eq_append_iff.mp h
  case inl =>
    cases t
    case nil => simpa using h'
    case cons c t =>
      obtain ⟨rfl, rfl⟩ := List.cons.inj h'
      exact absurd (by simp) ha
  case inr =>
    cases t
    case nil => simpa [eq_comm] using h'
    case cons c t =>
      obtain ⟨rfl, rfl⟩ := List.cons.inj h'
      exact absurd (by simp) hb

-- The digits of a number.

variable {base m n : Nat}

theorem digitChar_inj (hm : m < 16) (hn : n < 16) (h : m.digitChar = n.digitChar) : m = n := by
  have all : ∀ m < 16, ∀ n < 16, m.digitChar = n.digitChar → m = n := by decide
  exact all m hm n hn h

theorem toDigits_inj (hb : 1 < base) (h16 : base ≤ 16) (h : Nat.toDigits base m = Nat.toDigits base n) : m = n := by
  have pos : 0 < base := by omega
  have small (k : Nat) : k % base < 16 := Nat.lt_of_lt_of_le (Nat.mod_lt k pos) h16
  -- a number of one digit is not a number of several
  have several {k l : Nat} (hk : k < base) (hl : ¬ l < base) : Nat.toDigits base k ≠ Nat.toDigits base l := by
    intro h
    rw [Nat.toDigits_of_lt_base hk, Nat.toDigits_of_base_le hb (Nat.le_of_not_lt hl)] at h
    have len : (Nat.toDigits base (l / base)).length = 0 := by simpa using congrArg List.length h
    exact Nat.toDigits_ne_nil (List.length_eq_zero_iff.mp len)
  induction m using Nat.strong_induction_on generalizing n
  case h m ih =>
    by_cases hm : m < base
    case pos =>
      by_cases hn : n < base
      case neg => exact absurd h (several hm hn)
      case pos =>
        rw [Nat.toDigits_of_lt_base hm, Nat.toDigits_of_lt_base hn] at h
        exact digitChar_inj (by omega) (by omega) (List.head_eq_of_cons_eq h)
    case neg =>
      by_cases hn : n < base
      case pos => exact absurd h.symm (several hn hm)
      case neg =>
        rw [Nat.toDigits_of_base_le hb (Nat.le_of_not_lt hm), Nat.toDigits_of_base_le hb (Nat.le_of_not_lt hn)] at h
        have ⟨front, last⟩ := List.append_inj' h rfl
        have quotient : m / base = n / base := ih _ (Nat.div_lt_self (by omega) hb) front
        have rest : m % base = n % base := digitChar_inj (small m) (small n) (List.head_eq_of_cons_eq last)
        rw [← Nat.div_add_mod m base, ← Nat.div_add_mod n base, quotient, rest]

theorem dot_not_mem_toDigits (hb : 1 < base) : '.' ∉ Nat.toDigits base n := by
  induction n using Nat.strong_induction_on
  case h n ih =>
    by_cases hn : n < base
    case pos => simp [Nat.toDigits_of_lt_base hn]
    case neg =>
      have front := ih _ (Nat.div_lt_self (by omega) hb)
      simp [Nat.toDigits_of_base_le hb (Nat.le_of_not_lt hn), front]

end Fields
