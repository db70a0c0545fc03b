import Mathlib.Data.List.Infix

-- Texts as lists: the words between blanks.
namespace Text

variable {α : Type}

-- The words of a text are its maximal runs without blanks.
inductive Words (blank : α → Bool) : List α → List (List α) → Prop
  | nil : Words blank [] []
  | skip {c : α} {t : List α} {ws : List (List α)} (hc : blank c) (h : Words blank t ws) : Words blank (c :: t) ws
  | word {w t : List α} {ws : List (List α)} (ne : w ≠ []) (hw : ∀ c ∈ w, blank c = false)
    (ends : ∀ c ∈ t.head?, blank c) (h : Words blank t ws) :
    Words blank (w ++ t) (w :: ws)

variable {blank : α → Bool} {c : α} {t : List α} {ws : List (List α)}

namespace Words

theorem eq_filter (h : Words blank t ws) : ws = (t.splitOnP blank).filter (!·.isEmpty) := by
  induction h
  case nil            => rfl
  case skip hc _ ih   => simpa [List.splitOnP_cons_eq_if_modifyHead, hc] using ih
  case word w t _ ne hw ends h ih =>
    cases t
    case nil => simp [ih, List.splitOnP_eq_singleton hw, ne]
    case cons c t =>
      have hc : blank c := ends c rfl
      rw [List.splitOnP_append_cons_of_forall_mem hw c hc, ih]
      simp [List.splitOnP_cons_eq_if_modifyHead, hc, ne]

-- A character that is not a blank begins a word, or makes the first word longer.
theorem exists_cons (hc : blank c = false) (h : Words blank t ws) : ∃ ws, Words blank (c :: t) ws := by
  have single : ∀ d ∈ [c], blank d = false := by simpa using hc
  cases h
  case nil =>
    exact ⟨_, .word (w := [c]) (List.cons_ne_nil _ _) single nofun .nil⟩
  case skip d t hd h =>
    exact ⟨_, .word (w := [c]) (t := d :: t) (List.cons_ne_nil _ _) single (by simpa using hd) (.skip hd h)⟩
  case word w t ws ne hw ends h =>
    exact ⟨_, .word (w := c :: w) (List.cons_ne_nil _ _) (by simpa using ⟨hc, hw⟩) ends h⟩

theorem exists_words (t : List α) : ∃ ws, Words blank t ws := by
  induction t
  case nil => exact ⟨[], .nil⟩
  case cons c t ih =>
    have ⟨ws, h⟩ := ih
    cases hc : blank c
    case false => exact h.exists_cons hc
    case true  => exact ⟨ws, h.skip hc⟩

theorem iff_filter : Words blank t ws ↔ ws = (t.splitOnP blank).filter (!·.isEmpty) := by
  refine ⟨eq_filter, fun same => ?_⟩
  have ⟨vs, h⟩ : ∃ vs, Words blank t vs := exists_words t
  rwa [same, ← h.eq_filter]

-- Words with a blank in front of each one.
theorem spaced {vs : List (List α)} (hc : blank c) (hv : ∀ w ∈ vs, w ≠ [] ∧ ∀ c ∈ w, blank c = false)
    (ends : ∀ c ∈ t.head?, blank c) (h : Words blank t ws) : Words blank (vs.flatMap (c :: ·) ++ t) (vs ++ ws) := by
  induction vs
  case nil => exact h
  case cons w vs ih =>
    have ⟨ne, hw⟩ := hv w List.mem_cons_self
    have rest := ih fun w h => hv w (List.mem_cons_of_mem _ h)
    have next : ∀ d ∈ (vs.flatMap (c :: ·) ++ t).head?, blank d := by
      cases vs
      case nil  => exact ends
      case cons => simpa using hc
    simpa using Words.skip hc (.word ne hw next rest)

end Words
end Text
