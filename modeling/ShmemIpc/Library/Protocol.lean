import ShmemIpc.Library.System
import Mathlib.Order.Notation
import Mathlib.Tactic.Choose

-- A discipline for the threads of a machine: the actions which each thread may take in each state,
-- and an invariant that every permitted action preserves. What the other threads do is thereby known
-- to each thread without looking at their code.
structure Protocol {ι A : Type} {R : A → Type} {σ : Type} (m : Machine ι A R σ) where
  inv       : σ → Prop
  ok        : ι → A → σ → Prop
  preserves : ∀ {i a s r s'}, inv s → ok i a s → m.exec i a s r s' → inv s'

-- What the thread `i` can know at a point of its code: the permitted actions of the other threads
-- do not make it false.
structure Assertion {ι A : Type} {R : A → Type} {σ : Type} {m : Machine ι A R σ} (π : Protocol m)
    (i : ι) where
  holds  : σ → Prop
  stable : ∀ {j a s r s'}, j ≠ i → π.inv s → π.ok j a s → m.exec j a s r s' → holds s → holds s'

namespace Assertion

variable {ι A : Type} {R : A → Type} {σ : Type} {m : Machine ι A R σ} {π : Protocol m} {i : ι}

instance : CoeFun (Assertion π i) (fun _ => σ → Prop) where
  coe := holds

instance : LE (Assertion π i) where
  le P Q := ∀ s, π.inv s → P s → Q s

theorem le_rfl {P : Assertion π i} : P ≤ P :=
  fun _ _ h => h

theorem le_trans {P₁ P₂ P₃ : Assertion π i} (h₁ : P₁ ≤ P₂) (h₂ : P₂ ≤ P₃) : P₁ ≤ P₃ :=
  fun s hi h => h₂ s hi (h₁ s hi h)

-- A fact that does not depend on the state.
def const (p : Prop) : Assertion π i where
  holds _ := p
  stable := fun _ _ _ _ h => h

-- What is known after an answer, depending on whether it is an error.
def either {ε α : Type} (P Q : Assertion π i) : Except ε α → Assertion π i
  | .ok _    => P
  | .error _ => Q

instance : Top (Assertion π i) where
  top := const True

instance : Min (Assertion π i) where
  min P Q := {
    holds s := P s ∧ Q s
    stable := fun hj hi ho he h => ⟨P.stable hj hi ho he h.left, Q.stable hj hi ho he h.right⟩
  }

def ex {τ : Type} (P : τ → Assertion π i) : Assertion π i where
  holds s := ∃ x, P x s
  stable := fun hj hi ho he ⟨x, h⟩ => ⟨x, (P x).stable hj hi ho he h⟩

-- A fact that follows from a condition on values the code has already read.
def given (p : Prop) (P : Assertion π i) : Assertion π i where
  holds s := p → P s
  stable := fun hj hi ho he h hp => P.stable hj hi ho he (h hp)

-- What is known of the thread `j`, for all threads.
def of (j : ι) (P : Assertion π j) : Assertion π i where
  holds s := i = j → P s
  stable  := by
    rintro k a s r s' hk hi ho he h rfl
    exact P.stable hk hi ho he (h rfl)

@[simp]
theorem of_holds {j : ι} {P : Assertion π j} {s : σ} : (of j P : Assertion π i) s ↔ (i = j → P s) :=
  .rfl

@[simp]
theorem const_holds {p : Prop} {s : σ} : (const p : Assertion π i) s ↔ p :=
  .rfl

@[simp]
theorem top_holds {s : σ} : (⊤ : Assertion π i) s ↔ True :=
  .rfl

@[simp]
theorem inf_holds {P Q : Assertion π i} {s : σ} : (P ⊓ Q) s ↔ P s ∧ Q s :=
  .rfl

@[simp]
theorem ex_holds {τ : Type} {P : τ → Assertion π i} {s : σ} : ex P s ↔ ∃ x, P x s :=
  .rfl

@[simp]
theorem given_holds {p : Prop} {P : Assertion π i} {s : σ} : given p P s ↔ (p → P s) :=
  .rfl

-- No permitted action of any thread makes a persistent assertion false.
structure Persistent (P : Assertion π i) : Prop where
  stays : ∀ {j a s r s'}, π.inv s → π.ok j a s → m.exec j a s r s' → P s → P s'

def ofPersistent (P : σ → Prop)
    (h : ∀ {j a s r s'}, π.inv s → π.ok j a s → m.exec j a s r s' → P s → P s') :
    Assertion π i where
  holds    := P
  stable _ := h

theorem Persistent.top : (⊤ : Assertion π i).Persistent :=
  ⟨fun _ _ _ h => h⟩

theorem Persistent.inf {P Q : Assertion π i} (hp : P.Persistent) (hq : Q.Persistent) :
    (P ⊓ Q).Persistent :=
  ⟨fun hi ho e h => ⟨hp.stays hi ho e h.left, hq.stays hi ho e h.right⟩⟩

theorem Persistent.const {p : Prop} : (const p : Assertion π i).Persistent :=
  ⟨fun _ _ _ h => h⟩

theorem Persistent.ex {τ : Type} {P : τ → Assertion π i} (h : ∀ x, (P x).Persistent) :
    (Assertion.ex P).Persistent :=
  ⟨fun hi ho e hp => hp.imp fun x => (h x).stays hi ho e⟩

theorem Persistent.given {p : Prop} {P : Assertion π i} (h : P.Persistent) : (given p P).Persistent :=
  ⟨fun hi ho e hp hq => h.stays hi ho e (hp hq)⟩

-- The actions in `S` are permitted to the thread whenever it knows `P`, and it still knows `P`
-- afterwards.
structure Keeps (P : Assertion π i) (S : A → Prop) : Prop where
  ok   : ∀ {a s}, S a → π.inv s → P s → π.ok i a s
  kept : ∀ {a s r s'}, S a → π.inv s → P s → m.exec i a s r s' → P s'

theorem Persistent.keeps {P : Assertion π i} {S : A → Prop} (h : P.Persistent)
    (ok : ∀ {a s}, S a → π.inv s → P s → π.ok i a s) : P.Keeps S where
  ok             := ok
  kept ha hi hp he := h.stays hi (ok ha hi hp) he hp

theorem Keeps.mono {P : Assertion π i} {S T : A → Prop} (h : P.Keeps T) (hs : ∀ a, S a → T a) :
    P.Keeps S where
  ok ha   := h.ok (hs _ ha)
  kept ha := h.kept (hs _ ha)

theorem Keeps.inf {P Q : Assertion π i} {S : A → Prop} (h : P.Keeps S) (hq : Q.Persistent) :
    (P ⊓ Q).Keeps S where
  ok ha hi hp      := h.ok ha hi hp.left
  kept ha hi hp he := ⟨h.kept ha hi hp.left he, hq.stays hi (h.ok ha hi hp.left) he hp.right⟩

theorem Keeps.ex {τ : Type} {P : τ → Assertion π i} {S : A → Prop} (h : ∀ x, (P x).Keeps S) :
    (Assertion.ex P).Keeps S where
  ok ha hi hp      := hp.elim fun x => (h x).ok ha hi
  kept ha hi hp he := hp.imp fun x hx => (h x).kept ha hi hx he

theorem Keeps.const {P : Assertion π i} {S : A → Prop} {p : Prop} (h : P.Keeps S) :
    (P ⊓ .const p).Keeps S where
  ok ha hi hp      := h.ok ha hi hp.left
  kept ha hi hp he := ⟨h.kept ha hi hp.left he, hp.right⟩

end Assertion

namespace Program

open Assertion

variable {ι A : Type} {R : A → Type} {σ : Type} {m : Machine ι A R σ} {π : Protocol m} {i : ι}
variable {α β ς : Type}

-- From a state with `P`, all actions of the program are permitted, and if it ends with the answer
-- `v` then in a state with `Q v`, whatever the other threads do meanwhile.
def Triple : {α : Type} → Assertion π i → Program A R α → (α → Assertion π i) → Prop
  | _, P, .pure x, Q                              => P ≤ Q x
  | _, P, .act a k, Q                             =>
      (∀ s, π.inv s → P s → π.ok i a s) ∧
      ∃ M : R a → Assertion π i,
        (∀ s r s', π.inv s → P s → m.exec i a s r s' → M r s') ∧ ∀ r, Triple (M r) (k r) Q
  | _, P, .iter (ς := ς) (β := β) body x k, Q     =>
      ∃ (J : ς → Assertion π i) (K : β → Assertion π i),
        P ≤ J x ∧ (∀ y, Triple (J y) (body y) (Sum.elim J K)) ∧ ∀ b, Triple (K b) (k b) Q

namespace Triple

variable {P P' : Assertion π i} {p : Program A R α} {Q Q' : α → Assertion π i}

theorem act_iff {a : A} {k : R a → Program A R α} :
    Triple P (.act a k) Q ↔
      (∀ s, π.inv s → P s → π.ok i a s) ∧
      ∃ M : R a → Assertion π i,
        (∀ s r s', π.inv s → P s → m.exec i a s r s' → M r s') ∧ ∀ r, Triple (M r) (k r) Q :=
  .rfl

theorem iter_iff {body : ς → Program A R (ς ⊕ β)} {x : ς} {k : β → Program A R α} :
    Triple P (.iter body x k) Q ↔
      ∃ (J : ς → Assertion π i) (K : β → Assertion π i),
        P ≤ J x ∧ (∀ y, Triple (J y) (body y) (Sum.elim J K)) ∧ ∀ b, Triple (K b) (k b) Q :=
  .rfl

theorem pre (hp : P' ≤ P) : Triple P p Q → Triple P' p Q := by
  intro h
  cases p
  case pure => exact le_trans hp h
  case act =>
    have ⟨ok, M, step, rest⟩ := act_iff.mp h
    exact act_iff.mpr
      ⟨fun s hi h => ok s hi (hp s hi h), M, fun s r s' hi h => step s r s' hi (hp s hi h), rest⟩
  case iter =>
    have ⟨J, K, init, body, rest⟩ := iter_iff.mp h
    exact iter_iff.mpr ⟨J, K, le_trans hp init, body, rest⟩

theorem post (hq : ∀ v, Q v ≤ Q' v) : Triple P p Q → Triple P p Q' := by
  intro h
  induction p generalizing P
  case pure x => exact le_trans h (hq x)
  case act ih =>
    have ⟨ok, M, step, rest⟩ := act_iff.mp h
    exact act_iff.mpr ⟨ok, M, step, fun r => ih r hq (rest r)⟩
  case iter ih =>
    have ⟨J, K, init, body, rest⟩ := iter_iff.mp h
    exact iter_iff.mpr ⟨J, K, init, body, fun b => ih b hq (rest b)⟩

theorem absurd {p : Program A R α} {Q : α → Assertion π i} : Triple (const False) p Q := by
  induction p
  case pure => exact fun _ _ h => h.elim
  case act ih =>
    exact act_iff.mpr ⟨fun _ _ h => h.elim, fun _ => const False, fun _ _ _ _ h => h.elim, fun r => ih r⟩
  case iter ihb ihk =>
    refine iter_iff.mpr ⟨fun _ => const False, fun _ => const False, le_rfl, fun y => ?_, fun b => ihk b⟩
    exact ihb y

-- A fact that does not depend on the state can be assumed.
theorem assume {p : Prop} {c : Program A R α} (h : p → Triple P c Q) : Triple (P ⊓ .const p) c Q := by
  by_cases hp : p
  case pos => exact (h hp).pre fun _ _ hs => hs.left
  case neg => exact Triple.absurd.pre fun _ _ hs => hp hs.right

-- What is known to exist can be named.
theorem ex {τ : Type} {P : τ → Assertion π i} {p : Program A R α} {Q : α → Assertion π i}
    (h : ∀ x, Triple (P x) p Q) : Triple (Assertion.ex P) p Q := by
  induction p generalizing P
  case pure y => exact fun s hi ⟨x, hx⟩ => h x s hi hx
  case act ih =>
    choose ok M step rest using fun x => act_iff.mp (h x)
    exact act_iff.mpr
      ⟨fun s hi ⟨x, hx⟩ => ok x s hi hx, fun r => Assertion.ex fun x => M x r,
       fun s r s' hi ⟨x, hx⟩ he => ⟨x, step x s r s' hi hx he⟩, fun r => ih r fun x => rest x r⟩
  case iter ihb ihk =>
    choose J K init body rest using fun x => iter_iff.mp (h x)
    refine iter_iff.mpr
      ⟨fun y => Assertion.ex fun x => J x y, fun b => Assertion.ex fun x => K x b,
       fun s hi ⟨x, hx⟩ => ⟨x, init x s hi hx⟩, fun y => ihb y fun x => ?_, fun b => ihk b fun x => rest x b⟩
    exact post (fun | .inl _ | .inr _ => fun _ _ hs => ⟨x, hs⟩) (body x y)

theorem bind {M : α → Assertion π i} {f : α → Program A R β} {Q : β → Assertion π i}
    (hf : ∀ x, Triple (M x) (f x) Q) : Triple P p M → Triple P (p.bind f) Q := by
  intro h
  induction p generalizing P
  case pure x => exact (hf x).pre h
  case act ih =>
    have ⟨ok, M, step, rest⟩ := act_iff.mp h
    exact act_iff.mpr ⟨ok, M, step, fun r => ih r hf (rest r)⟩
  case iter ih =>
    have ⟨J, K, init, body, rest⟩ := iter_iff.mp h
    exact iter_iff.mpr ⟨J, K, init, body, fun b => ih b hf (rest b)⟩

-- What is known for two reasons.
theorem both {Q' : α → Assertion π i} :
    Triple P p Q → Triple P' p Q' → Triple (P ⊓ P') p (fun v => Q v ⊓ Q' v) := by
  intro h h'
  induction p generalizing P P'
  case pure x => exact fun s hi hs => ⟨h s hi hs.left, h' s hi hs.right⟩
  case act ih =>
    have ⟨ok, M, step, rest⟩ := act_iff.mp h
    have ⟨_, M', step', rest'⟩ := act_iff.mp h'
    exact act_iff.mpr
      ⟨fun s hi hs => ok s hi hs.left, fun r => M r ⊓ M' r,
       fun s r s' hi hs he => ⟨step s r s' hi hs.left he, step' s r s' hi hs.right he⟩,
       fun r => ih r (rest r) (rest' r)⟩
  case iter ihb ihk =>
    have ⟨J, K, init, body, rest⟩ := iter_iff.mp h
    have ⟨J', K', init', body', rest'⟩ := iter_iff.mp h'
    refine iter_iff.mpr
      ⟨fun y => J y ⊓ J' y, fun b => K b ⊓ K' b, fun s hi hs => ⟨init s hi hs.left, init' s hi hs.right⟩,
       fun y => ?_, fun b => ihk b (rest b) (rest' b)⟩
    exact post (Q := fun v => Sum.elim J K v ⊓ Sum.elim J' K' v)
      (fun | .inl _ | .inr _ => le_rfl) (ihb y (body y) (body' y))

-- One turn of a loop, and then the rest of it.
theorem next {body : ς → Program A R (ς ⊕ β)} {k : β → Program A R α} {J : ς → Assertion π i}
    {K : β → Assertion π i} (hb : ∀ y, Triple (J y) (body y) (Sum.elim J K))
    (hk : ∀ b, Triple (K b) (k b) Q) :
    ∀ y, Triple (Sum.elim J K y) (Program.next body k y) Q
  | .inl _ => iter_iff.mpr ⟨J, K, le_rfl, hb, hk⟩
  | .inr b => hk b

-- A program whose actions all keep `P`.
theorem only {S : A → Prop} {V : α → Prop} (hs : P.Keeps S) (hp : p.Only S V) :
    Triple P p (fun v => P ⊓ .const (V v)) := by
  induction p
  case pure x => exact fun _ _ h => ⟨h, hp⟩
  case act ih =>
    exact act_iff.mpr
      ⟨fun _ => hs.ok hp.left, fun _ => P, fun _ _ _ => hs.kept hp.left, fun r => ih r (hp.right r)⟩
  case iter ihb ihk =>
    obtain ⟨K, hb, hk⟩ := hp
    refine iter_iff.mpr
      ⟨fun _ => P, fun b => P ⊓ .const (K b), le_rfl, fun y => ?_, fun b => assume fun h => ihk b (hk b h)⟩
    exact post (Q := fun v => P ⊓ .const (Sum.elim (fun _ => True) K v))
      (fun | .inl _ => fun _ _ h => h.left | .inr _ => le_rfl) (ihb y (hb y))

-- A persistent fact remains known, whatever the program does.
theorem persist {F : Assertion π i} (hf : F.Persistent) :
    Triple P p Q → Triple (P ⊓ F) p (fun v => Q v ⊓ F) := by
  intro h
  induction p generalizing P
  case pure x => exact fun s hi hs => ⟨h s hi hs.left, hs.right⟩
  case act ih =>
    have ⟨ok, M, step, rest⟩ := act_iff.mp h
    exact act_iff.mpr
      ⟨fun s hi hs => ok s hi hs.left, fun r => M r ⊓ F,
       fun s r s' hi hs he => ⟨step s r s' hi hs.left he, hf.stays hi (ok s hi hs.left) he hs.right⟩,
       fun r => ih r (rest r)⟩
  case iter ihb ihk =>
    have ⟨J, K, init, body, rest⟩ := iter_iff.mp h
    refine iter_iff.mpr
      ⟨fun y => J y ⊓ F, fun b => K b ⊓ F, fun s hi hs => ⟨init s hi hs.left, hs.right⟩,
       fun y => ?_, fun b => ihk b (rest b)⟩
    exact post (Q := fun v => Sum.elim J K v ⊓ F) (fun | .inl _ | .inr _ => le_rfl)
      (ihb y (body y))

end Triple
end Program

-- A second protocol can rely on a first one: its machine takes only steps that the first one
-- permits.
namespace Machine

variable {ι A : Type} {R : A → Type} {σ : Type}

def under (m : Machine ι A R σ) (π : Protocol m) : Machine ι A R σ :=
  m.restrict fun i a s _ _ => π.inv s ∧ π.ok i a s

end Machine

namespace Assertion

variable {ι A : Type} {R : A → Type} {σ : Type} {m : Machine ι A R σ} {π : Protocol m}
variable {π' : Protocol (m.under π)} {i : ι}

-- What the first protocol lets a thread know, it also knows under the second one.
def under (P : Assertion π i) : Assertion π' i where
  holds s := π.inv s ∧ P s
  stable hj _ _ he h := ⟨π.preserves h.left he.right.right he.left,
    P.stable hj h.left he.right.right he.left h.right⟩

@[simp]
theorem under_holds {P : Assertion π i} {s : σ} :
    (P.under : Assertion π' i) s ↔ π.inv s ∧ P s :=
  .rfl

theorem Persistent.under {P : Assertion π i} (h : P.Persistent) :
    (P.under : Assertion π' i).Persistent :=
  ⟨fun _ _ he hp => ⟨π.preserves hp.left he.right.right he.left,
    h.stays hp.left he.right.right he.left hp.right⟩⟩

end Assertion

namespace Program.Triple

open Assertion

variable {ι A : Type} {R : A → Type} {σ : Type} {m : Machine ι A R σ} {π : Protocol m}
variable {π' : Protocol (m.under π)} {i : ι} {α : Type} {p : Program A R α}

-- A program that follows both protocols can use what it is known to do under the first one.
theorem under {P : Assertion π i} {Q : α → Assertion π i} {P' : Assertion π' i}
    {Q' : α → Assertion π' i} :
    Triple P p Q → Triple P' p Q' → Triple (P.under ⊓ P') p (fun v => (Q v).under ⊓ Q' v) := by
  intro h h'
  induction p generalizing P P'
  case pure x => exact fun s hi hs => ⟨⟨hs.left.left, h s hs.left.left hs.left.right⟩, h' s hi hs.right⟩
  case act ih =>
    have ⟨_, M, step, rest⟩ := act_iff.mp h
    have ⟨ok', M', step', rest'⟩ := act_iff.mp h'
    refine act_iff.mpr
      ⟨fun s hi hs => ok' s hi hs.right, fun r => (M r).under ⊓ M' r,
       fun s r s' hi hs he => ⟨⟨?_, ?_⟩, step' s r s' hi hs.right he⟩, fun r => ih r (rest r) (rest' r)⟩
    · exact π.preserves hs.left.left he.right.right he.left
    · exact step s r s' hs.left.left hs.left.right he.left
  case iter ihb ihk =>
    have ⟨J, K, init, body, rest⟩ := iter_iff.mp h
    have ⟨J', K', init', body', rest'⟩ := iter_iff.mp h'
    refine iter_iff.mpr
      ⟨fun y => (J y).under ⊓ J' y, fun b => (K b).under ⊓ K' b,
       fun s hi hs => ⟨⟨hs.left.left, init s hs.left.left hs.left.right⟩, init' s hi hs.right⟩,
       fun y => ?_, fun b => ihk b (rest b) (rest' b)⟩
    exact post (Q := fun v => (Sum.elim J K v).under ⊓ Sum.elim J' K' v)
      (fun | .inl _ | .inr _ => le_rfl) (ihb y (body y) (body' y))

end Program.Triple
