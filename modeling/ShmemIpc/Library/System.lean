import ShmemIpc.Library.Program
import Mathlib.Logic.Function.Basic

open Relation

-- What the atomic actions `A` of the threads `ι` do to a state of type `σ`. An action may have any
-- number of outcomes: none means that it blocks.
structure Machine (ι A : Type) (R : A → Type) (σ : Type) where
  exec : ι → (a : A) → σ → R a → σ → Prop

namespace Machine

variable {ι A : Type} {R : A → Type} {σ γ : Type}

-- The steps of the first machine are steps of the second.
instance : LE (Machine ι A R σ) where
  le m m' := ∀ {i a s r s'}, m.exec i a s r s' → m'.exec i a s r s'

theorem le_rfl {m : Machine ι A R σ} : m ≤ m :=
  fun e => e

-- The machine with a history variable: a value of type `γ` that records what happens, and that no
-- action reads.
def ghost (m : Machine ι A R σ) (upd : ι → (a : A) → R a → σ → γ → γ) :
    Machine ι A R (σ × γ) where
  exec i a s r s' := m.exec i a s.fst r s'.fst ∧ s'.snd = upd i a r s.fst s.snd

-- The machine whose steps all satisfy a condition.
def restrict (m : Machine ι A R σ) (allow : ι → (a : A) → σ → R a → σ → Prop) :
    Machine ι A R σ where
  exec i a s r s' := m.exec i a s r s' ∧ allow i a s r s'

theorem restrict_le {m : Machine ι A R σ} {allow : ι → (a : A) → σ → R a → σ → Prop} :
    m.restrict allow ≤ m :=
  fun e => e.left

end Machine

-- A client of a machine: the operations that threads can call, their code, and when a thread can
-- call them.
structure System (ι A : Type) (R : A → Type) (σ : Type) where
  Op       : Type
  Ret      : Op → Type
  body     : ι → (o : Op) → Program A R (Ret o)
  callable : ι → Op → σ → Prop
  init     : σ → Prop

namespace System

variable {ι A : Type} {R : A → Type} {σ : Type}

-- The threads can also call other operations.
def also (S : System ι A R σ) {Op : Type} {T : Op → Type} (body : ι → (o : Op) → Program A R (T o))
    (callable : ι → Op → σ → Prop) : System ι A R σ where
  Op       := S.Op ⊕ Op
  Ret      := Sum.elim S.Ret T
  body i   := fun
    | .inl o => S.body i o
    | .inr o => body i o
  callable i := Sum.elim (S.callable i) (callable i)
  init     := S.init

-- An operation in progress: the state in which it was called, and the rest of its code.
structure Frame (S : System ι A R σ) where
  op    : S.Op
  start : σ
  code  : Program A R (S.Ret op)

@[ext]
structure Config (S : System ι A R σ) where
  mem : σ
  thr : ι → Option S.Frame

namespace Config

variable {S : System ι A R σ}

-- The next step of the thread `i` is the action `a`.
def Next (c : S.Config) (i : ι) (a : A) : Prop :=
  ∃ o s k, c.thr i = some ⟨o, s, .act a k⟩

-- The operation `o`, which the thread `i` called in the state `s`, is about to return `v`.
def Returning (c : S.Config) (i : ι) (o : S.Op) (s : σ) (v : S.Ret o) : Prop :=
  c.thr i = some ⟨o, s, .pure v⟩

end Config

variable [DecidableEq ι]

open Function in
inductive Step (S : System ι A R σ) (m : Machine ι A R σ) : S.Config → S.Config → Prop
  | call {c : S.Config} {i o} (idle : c.thr i = none) (can : S.callable i o c.mem) :
      Step S m c ⟨c.mem, update c.thr i (some ⟨o, c.mem, S.body i o⟩)⟩
  | act {c : S.Config} {i o s a k r mem} (at_ : c.thr i = some ⟨o, s, .act a k⟩)
      (exec : m.exec i a c.mem r mem) : Step S m c ⟨mem, update c.thr i (some ⟨o, s, k r⟩)⟩
  | iter {c : S.Config} {i o s ς β} {body : ς → Program A R (ς ⊕ β)} {x k}
      (at_ : c.thr i = some ⟨o, s, .iter body x k⟩) :
      Step S m c ⟨c.mem, update c.thr i (some ⟨o, s, (body x).bind (Program.next body k)⟩)⟩
  | ret {c : S.Config} {i o s v} (at_ : c.thr i = some ⟨o, s, .pure v⟩) :
      Step S m c ⟨c.mem, update c.thr i none⟩

abbrev Steps (S : System ι A R σ) (m : Machine ι A R σ) : S.Config → S.Config → Prop :=
  ReflTransGen (S.Step m)

structure Initial (S : System ι A R σ) (c : S.Config) : Prop where
  mem  : S.init c.mem
  idle : ∀ i, c.thr i = none

inductive Reachable (S : System ι A R σ) (m : Machine ι A R σ) (c : S.Config) : Prop
  | intro {c₀ : S.Config} (init : S.Initial c₀) (steps : S.Steps m c₀ c)

variable {S : System ι A R σ} {m m' : Machine ι A R σ} {c c' : S.Config}

theorem Step.mono (h : m ≤ m') : S.Step m c c' → S.Step m' c c'
  | .call idle can => .call idle can
  | .act at_ exec  => .act at_ (h exec)
  | .iter at_      => .iter at_
  | .ret at_       => .ret at_

theorem Steps.mono (h : m ≤ m') : S.Steps m c c' → S.Steps m' c c' :=
  ReflTransGen.mono (fun _ _ => Step.mono h) _ _

-- An operation that is in progress when another one has returned was called after that.
theorem Steps.called {i : ι} {o : S.Op} {s : σ} {v : S.Ret o} (hr : c.Returning i o s v) (e : S.Steps m c c') :
    ∀ f, c'.thr i = some f →
      f = ⟨o, s, .pure v⟩ ∨ ∃ d, S.Steps m c d ∧ S.Steps m d c' ∧ d.thr i = none ∧ f.start = d.mem := by
  induction e
  case refl =>
    intro f hf
    exact .inl (Option.some.inj (hf.symm.trans hr))
  case tail d d' e step ih =>
    -- The frame of the thread, unless the step is its own.
    have other {j : ι} {g : Option S.Frame} {mem : σ} (hj : j ≠ i) (hd : d' = ⟨mem, Function.update d.thr j g⟩) :
        ∀ f, d'.thr i = some f →
          f = ⟨o, s, .pure v⟩ ∨ ∃ b, S.Steps m c b ∧ S.Steps m b d' ∧ b.thr i = none ∧ f.start = b.mem := by
      intro f hf
      have hf : d.thr i = some f := by rw [hd] at hf; simpa [Function.update_of_ne hj.symm] using hf
      exact (ih f hf).imp_right fun ⟨b, before, after, idle, start⟩ => ⟨b, before, after.tail step, idle, start⟩
    -- The frame of the thread, before a step of its own.
    have own {f : S.Frame} (f' : S.Frame) {mem : σ} (hf : d.thr i = some f) (hp : ∀ w, f ≠ ⟨o, s, .pure w⟩)
        (hs : f'.start = f.start) (hd : d' = ⟨mem, Function.update d.thr i (some f')⟩) :
        ∀ f, d'.thr i = some f →
          f = ⟨o, s, .pure v⟩ ∨ ∃ b, S.Steps m c b ∧ S.Steps m b d' ∧ b.thr i = none ∧ f.start = b.mem := by
      intro g hg
      obtain rfl : f' = g := by rw [hd] at hg; simpa using hg
      obtain ⟨b, before, after, idle, start⟩ := (ih f hf).resolve_left (hp v)
      exact .inr ⟨b, before, after.tail step, idle, hs.trans start⟩
    cases hstep : step
    case call j o' idle can =>
      by_cases hj : j = i
      case pos =>
        subst hj
        intro f hf
        have hf : ⟨o', d.mem, S.body j o'⟩ = f := by simpa using hf
        exact .inr ⟨d, e, .single step, idle, hf ▸ rfl⟩
      case neg => exact other hj rfl
    case act j o' s' a k r mem at_ exec =>
      by_cases hj : j = i
      case pos => subst hj; exact own ⟨o', s', k r⟩ at_ nofun rfl rfl
      case neg => exact other hj rfl
    case iter j o' s' _ _ body x k at_ =>
      by_cases hj : j = i
      case pos => subst hj; exact own ⟨o', s', (body x).bind (Program.next body k)⟩ at_ nofun rfl rfl
      case neg => exact other hj rfl
    case ret j o' s' v' at_ =>
      by_cases hj : j = i
      case pos => subst hj; intro f hf; simp at hf
      case neg => exact other hj rfl

namespace Reachable

theorem initial (h : S.Initial c) : S.Reachable m c :=
  ⟨h, .refl⟩

theorem steps : S.Reachable m c → S.Steps m c c' → S.Reachable m c'
  | ⟨init, e⟩, e' => ⟨init, e.trans e'⟩

theorem step (h : S.Reachable m c) (e : S.Step m c c') : S.Reachable m c' :=
  h.steps (.single e)

-- What holds initially and is preserved by every step from a reachable configuration, holds of
-- every reachable configuration.
theorem invariant {P : S.Config → Prop} (init : ∀ c, S.Initial c → P c)
    (step : ∀ c c', S.Reachable m c → P c → S.Step m c c' → P c') (h : S.Reachable m c) : P c := by
  obtain ⟨hi, e⟩ := h
  induction e
  case refl           => exact init _ hi
  case tail e' e'' ih => exact step _ _ ⟨hi, e'⟩ ih e''

theorem mono (h : m ≤ m') : S.Reachable m c → S.Reachable m' c
  | ⟨init, e⟩ => ⟨init, Steps.mono h e⟩

end Reachable
end System
