import ShmemIpc.Library.Trace
import ShmemIpc.Library.Schedule
import ShmemIpc.Library.Spec

-- What the threads of a verified system know of the log.

section
variable {ι A : Type} {R : A → Type} {σ : Type} {m : Machine ι A R σ} {π : Protocol m} {i : ι}

def Protocol.logged (π : Protocol m) : Protocol m.logged where
  inv s             := π.inv s.fst
  ok i a s          := π.ok i a s.fst
  preserves hi ho e := π.preserves hi ho e.left

namespace Assertion

def logged (P : Assertion π i) : Assertion π.logged i where
  holds s              := P s.fst
  stable hj hi ho he h := P.stable hj hi ho he.left h

theorem Persistent.logged {P : Assertion π i} (h : P.Persistent) : P.logged.Persistent :=
  ⟨fun hi ho e => h.stays hi ho e.left⟩

end Assertion

open Assertion Program

theorem Program.Triple.logged {α : Type} {P : Assertion π i} {p : Program A R α} {Q : α → Assertion π i}
    (h : Triple P p Q) : Triple P.logged p fun v => (Q v).logged := by
  induction p generalizing P
  case pure x => exact fun s hi hs => h s.fst hi hs
  case act ih =>
    have ⟨ok, M, step, rest⟩ := act_iff.mp h
    exact act_iff.mpr ⟨fun s hi hs => ok s.fst hi hs, fun r => (M r).logged,
      fun s r s' hi hs e => step s.fst r s'.fst hi hs e.left, fun r => ih r (rest r)⟩
  case iter ihb ihk =>
    have ⟨J, K, init, body, rest⟩ := iter_iff.mp h
    refine iter_iff.mpr ⟨fun y => (J y).logged, fun b => (K b).logged, fun s hi hs => init s.fst hi hs, fun y => ?_,
      fun b => ihk b (rest b)⟩
    exact post (Q := fun v => (Sum.elim J K v).logged) (fun | .inl _ | .inr _ => le_rfl) (ihb y (body y))

def Verified.logged {S : System ι A R σ} (V : Verified S π) : Verified S.logged π.logged where
  idle i        := (V.idle i).logged
  post i o s v  := (V.post i o s.fst v).logged
  init hs       := V.init hs.left
  spec hi h can :=
    have ⟨P, hs, triple⟩ := V.spec hi h can
    ⟨P.logged, hs, triple.logged⟩

end

namespace Log

variable {ι A : Type} {R : A → Type} [DecidableEq ι] {i j : ι} {l l₀ : Log ι A R} {e : Event A R}

-- What the thread `i` has done since the log was `l₀`, as a fact about the log.
def Since (i : ι) (l₀ : Log ι A R) (P : Trace A R → Prop) (l : Log ι A R) : Prop :=
  ∃ u, l = l₀ ++ u ∧ P (of i u)

namespace Since

variable {P Q : Trace A R → Prop}

theorem start (h : P []) : Since i l₀ P l₀ :=
  ⟨[], (List.append_nil _).symm, h⟩

theorem holds (h : Since i l₀ P l) : P (Log.since i l₀ l) := by
  obtain ⟨u, rfl, hp⟩ := h
  rwa [since_eq (List.filterMap_append ..)]

theorem length_le (h : Since i l₀ P l) : l₀.length ≤ l.length := by
  obtain ⟨u, rfl, _⟩ := h
  simp

theorem snoc (h : Since i l₀ P l) (hp : ∀ t, P t → Q (t ++ [e])) : Since i l₀ Q (l ++ [(i, e)]) := by
  obtain ⟨u, rfl, hs⟩ := h
  exact ⟨u ++ [(i, e)], List.append_assoc .., by rw [of_snoc_self]; exact hp _ hs⟩

theorem snoc_ne (hj : j ≠ i) (h : Since i l₀ P l) : Since i l₀ P (l ++ [(j, e)]) := by
  obtain ⟨u, rfl, hs⟩ := h
  exact ⟨u ++ [(j, e)], List.append_assoc .., by rwa [of_snoc_ne hj]⟩

theorem mono (h : Since i l₀ P l) (hp : ∀ t, P t → Q t) : Since i l₀ Q l :=
  have ⟨u, hu, hs⟩ := h
  ⟨u, hu, hp _ hs⟩

end Since
end Log

namespace Assertion

variable {ι A : Type} {R : A → Type} {σ : Type} [DecidableEq ι] {m : Machine ι A R σ} {i : ι}
variable {m' : Machine ι A R (σ × Log ι A R)} {π : Protocol m'}

def since (hm : m' ≤ m.logged) (l₀ : Log ι A R) (P : Trace A R → Prop) : Assertion π i where
  holds s            := Log.Since i l₀ P s.snd
  stable hj _ _ e h := (hm e).right ▸ h.snoc_ne hj

end Assertion

namespace System

variable {ι A : Type} {R : A → Type} {σ : Type} [DecidableEq ι] {m : Machine ι A R σ} {S : System ι A R σ}
variable {c c' : S.logged.Config}

theorem Step.log_prefix (e : S.logged.Step m.logged c c') : c.mem.snd <+: c'.mem.snd := by
  cases e
  case act exec => exact ⟨_, exec.right.symm⟩
  all_goals exact List.prefix_rfl

theorem Steps.log_prefix (e : S.logged.Steps m.logged c c') : c.mem.snd <+: c'.mem.snd := by
  induction e
  case refl           => exact List.prefix_rfl
  case tail _ e' ih => exact ih.trans e'.log_prefix

end System

-- Runs of the logged system that are computed.
section
variable {ι A : Type} {R : A → Type} {σ χ : Type} {m : Machine ι A R σ}

def Oracle.logged (O : Oracle m χ) : Oracle m.logged χ :=
  O.ghost fun i a r _ l => l ++ [(i, (⟨a, r⟩ : Event A R))]

instance {S : System ι A R σ} [can : ∀ i o s, Decidable (S.callable i o s)] {i : ι} {o : S.logged.Op}
    {s : σ × Log ι A R} : Decidable (S.logged.callable i o s) :=
  can i o s.fst

end
