import ShmemIpc.Library.System

-- A way to compute the outcomes of actions: the choice `x` picks one of them. It is right in all
-- states that are `good`.
structure Oracle {ι A : Type} {R : A → Type} {σ : Type} (m : Machine ι A R σ) (χ : Type) where
  good  : σ → Prop
  pick  : ι → (a : A) → σ → χ → Option (R a × σ)
  sound : ∀ {i a s x r s'}, good s → pick i a s x = some (r, s') → m.exec i a s r s' ∧ good s'

namespace Oracle

variable {ι A : Type} {R : A → Type} {σ γ χ : Type} {m : Machine ι A R σ}

def ghost (O : Oracle m χ) (upd : ι → (a : A) → R a → σ → γ → γ) : Oracle (m.ghost upd) χ where
  good s       := O.good s.fst
  pick i a s x := (O.pick i a s.fst x).map fun o => (o.fst, o.snd, upd i a o.fst s.fst s.snd)
  sound hg h   := by
    obtain ⟨_, ho, he⟩ := Option.map_eq_some_iff.mp h
    cases he
    have ⟨exec, good⟩ := O.sound hg ho
    exact ⟨⟨exec, rfl⟩, good⟩

def restrict (O : Oracle m χ) {allow : ι → (a : A) → σ → R a → σ → Prop} (test : ι → A → σ → Bool)
    (ht : ∀ {i a s r s'}, test i a s = true → allow i a s r s') : Oracle (m.restrict allow) χ where
  good         := O.good
  pick i a s x := if test i a s then O.pick i a s x else none
  sound hg h   := by
    split at h
    case isTrue tested =>
      have ⟨exec, good⟩ := O.sound hg h
      exact ⟨⟨exec, ht tested⟩, good⟩
    case isFalse => cases h

-- As `restrict`, for a condition on the outcome.
def filter (O : Oracle m χ) {allow : ι → (a : A) → σ → R a → σ → Prop} (test : ι → (a : A) → σ → R a → Bool)
    (ht : ∀ {i a s r s'}, test i a s r = true → allow i a s r s') : Oracle (m.restrict allow) χ where
  good         := O.good
  pick i a s x := (O.pick i a s x).filter fun o => test i a s o.fst
  sound hg h   := by
    have ⟨picked, tested⟩ := (Option.filter_eq_some_iff).mp h
    have ⟨exec, good⟩ := O.sound hg picked
    exact ⟨⟨exec, ht tested⟩, good⟩

end Oracle

-- What the scheduler can do: let a thread call an operation, or take its next step.
inductive Move (ι Op χ : Type)
  | call (i : ι) (o : Op)
  | step (i : ι) (x : χ)

namespace System

open Function

variable {ι A : Type} {R : A → Type} {σ χ : Type} [DecidableEq ι] {m : Machine ι A R σ}
variable (S : System ι A R σ) (O : Oracle m χ)

def advance (c : S.Config) (i : ι) (x : χ) : Option S.Config :=
  match c.thr i with
  | none                       => none
  | some ⟨_, _, .pure _⟩        => some ⟨c.mem, update c.thr i none⟩
  | some ⟨o, s, .act a k⟩       =>
    (O.pick i a c.mem x).map fun r => ⟨r.snd, update c.thr i (some ⟨o, s, k r.fst⟩)⟩
  | some ⟨o, s, .iter body x k⟩ =>
    some ⟨c.mem, update c.thr i (some ⟨o, s, (body x).bind (Program.next body k)⟩)⟩

theorem advance_sound {S : System ι A R σ} {O : Oracle m χ} {c c' : S.Config} {i : ι} {x : χ}
    (hg : O.good c.mem) (h : S.advance O c i x = some c') : S.Step m c c' ∧ O.good c'.mem := by
  unfold advance at h
  split at h
  case h_1 => cases h
  case h_2 at_ => cases h; exact ⟨.ret at_, hg⟩
  case h_3 at_ =>
    obtain ⟨_, hp, he⟩ := Option.map_eq_some_iff.mp h
    cases he
    have ⟨exec, good⟩ := O.sound hg hp
    exact ⟨.act at_ exec, good⟩
  case h_4 at_ => cases h; exact ⟨.iter at_, hg⟩

variable [∀ i o s, Decidable (S.callable i o s)]

def move (c : S.Config) : Move ι S.Op χ → Option S.Config
  | .call i o =>
    if c.thr i |>.isNone then
      if S.callable i o c.mem then
        some ⟨c.mem, update c.thr i (some ⟨o, c.mem, S.body i o⟩)⟩
      else none
    else none
  | .step i x => S.advance O c i x

-- The scheduler stops where a move is impossible.
def run (c : S.Config) : List (Move ι S.Op χ) → Option S.Config
  | []      => some c
  | e :: es => (S.move O c e).bind fun c => run c es

variable {S O}

theorem move_sound {c c' : S.Config} {e : Move ι S.Op χ} (hg : O.good c.mem)
    (h : S.move O c e = some c') : S.Step m c c' ∧ O.good c'.mem := by
  cases e
  case call i o =>
    simp only [move] at h
    split at h
    case isTrue idle =>
      split at h
      case isTrue can => cases h; exact ⟨.call (Option.isNone_iff_eq_none.mp idle) can, hg⟩
      case isFalse    => cases h
    case isFalse => cases h
  case step i x => exact advance_sound hg h

theorem run_sound {c c' : S.Config} {es : List (Move ι S.Op χ)} (hg : O.good c.mem)
    (h : S.run O c es = some c') : S.Steps m c c' ∧ O.good c'.mem := by
  induction es generalizing c
  case nil => cases h; exact ⟨.refl, hg⟩
  case cons e es ih =>
    obtain ⟨_, hm, hr⟩ := Option.bind_eq_some_iff.mp h
    have ⟨step, good⟩ := move_sound hg hm
    have ⟨steps, good'⟩ := ih good hr
    exact ⟨.head step steps, good'⟩

-- A run whose last configuration passes a test.
theorem run_test {c : S.Config} {l : List (Move ι S.Op χ)} (hg : O.good c.mem)
    {p : S.Config → Bool} (h : (S.run O c l).any p = true) :
    ∃ c', S.Steps m c c' ∧ O.good c'.mem ∧ p c' = true := by
  obtain ⟨c', hr, hp⟩ := (Option.any_eq_true _ _).mp h
  have ⟨steps, good⟩ := run_sound hg hr
  exact ⟨c', steps, good, hp⟩

end System

namespace System.Config

variable {ι A : Type} {R : A → Type} {σ : Type} {S : System ι A R σ}

-- What is about to be returned can be inspected.
def returns (c : S.Config) (i : ι) (p : (o : S.Op) → σ → S.Ret o → Bool) : Bool :=
  match c.thr i with
  | some ⟨o, s, .pure v⟩ => p o s v
  | _                    => false

theorem returning {c : S.Config} {i : ι} {p : (o : S.Op) → σ → S.Ret o → Bool}
    (h : c.returns i p = true) : ∃ o s v, c.Returning i o s v ∧ p o s v = true := by
  unfold returns at h
  split at h
  case h_1 o s v at_ => exact ⟨o, s, v, at_, h⟩
  case h_2           => cases h

end System.Config
