import ShmemIpc.Library.Spec
import ShmemIpc.Library.Schedule

open Assertion

variable {ι A B : Type} {R : A → Type} {T : B → Type} {σ τ : Type} {ε α β ς : Type}

-- Two machines side by side, of which the second one can look at the state of the first one.
def Machine.beside (m : Machine ι A R σ) (n : σ → Machine ι B T τ) :
    Machine ι (A ⊕ B) (Sum.elim R T) (σ × τ) where
  exec i
    | .inl a, s, r, s' => m.exec i a s.fst r s'.fst ∧ s'.snd = s.snd
    | .inr b, s, r, s' => (n s.fst).exec i b s.snd r s'.snd ∧ s'.fst = s.fst

namespace Program

-- A program of the first machine.
def inl : {α : Type} → Program A R α → Program (A ⊕ B) (Sum.elim R T) α
  | _, .pure x        => .pure x
  | _, .act a k       => .act (.inl a) fun r => (k r).inl
  | _, .iter body x k => .iter (fun y => (body y).inl) x fun b => (k b).inl

theorem inl_bind : {α : Type} → (p : Program A R α) → (f : α → Program A R β) →
    (p.bind f).inl = (p.inl.bind fun x => (f x).inl : Program (A ⊕ B) (Sum.elim R T) β)
  | _, .pure _, _      => rfl
  | _, .act _ k, f     => congrArg _ (funext fun r => inl_bind (k r) f)
  | _, .iter _ _ k, f  => congrArg _ (funext fun b => inl_bind (k b) f)

theorem Only.inl {S : A → Prop} {S' : B → Prop} : {α : Type} → {V : α → Prop} → {p : Program A R α} → p.Only S V →
    (p.inl : Program (A ⊕ B) (Sum.elim R T) α).Only (Sum.elim S S') V
  | _, _, .pure _, hp     => hp
  | _, _, .act .., hp     => ⟨hp.left, fun r => (hp.right r).inl⟩
  | _, _, .iter .., hp    =>
    have ⟨K, hb, hk⟩ := hp
    ⟨K, fun y => (hb y).inl, fun b h => (hk b h).inl⟩

end Program

namespace Code

def inl (p : Code A R ε α) : Code (A ⊕ B) (Sum.elim R T) ε α :=
  Program.inl p

theorem inl_bind {p : Code A R ε α} {f : α → Code A R ε β} :
    (p >>= f).inl = (p.inl >>= fun x => (f x).inl : Code (A ⊕ B) (Sum.elim R T) ε β) :=
  (Program.inl_bind p _).trans (congrArg _ (funext fun | .ok _ | .error _ => rfl))

theorem inl_attempt {p : Code A R ε α} :
    (attempt p).inl = (attempt p.inl : Code (A ⊕ B) (Sum.elim R T) ε (Except ε α)) :=
  Program.inl_bind p _

theorem inl_loop {body : ς → Code A R ε (ς ⊕ α)} {x : ς} :
    (loop body x).inl = (loop (fun y => (body y).inl) x : Code (A ⊕ B) (Sum.elim R T) ε α) := by
  have turns : (fun y => (turn (body y)).inl) = fun y => (turn (body y).inl : Program (A ⊕ B) (Sum.elim R T) _) :=
    funext fun y => (Program.inl_bind (body y) _).trans
      (congrArg _ (funext fun | .ok (.inl _) | .ok (.inr _) | .error _ => rfl))
  exact congrArg (Program.iter · x Program.pure) turns

theorem Only.inl {S : A → Prop} {S' : B → Prop} {F : ε → Prop} {p : Code A R ε α} (h : Only S F p) :
    Only (Sum.elim S S') F (p.inl : Code (A ⊕ B) (Sum.elim R T) ε α) :=
  Program.Only.inl h

-- The rules of specifications, for code of the first machine.
namespace Spec

variable {m : Machine ι (A ⊕ B) (Sum.elim R T) σ} {π : Protocol m} {i : ι}
variable {P : Assertion π i} {p : Code A R ε α} {f : α → Code A R ε β} {M : α → Assertion π i}
variable {N : β → Assertion π i} {E : ε → Assertion π i}

theorem inl_bind (hp : Spec P p.inl M E) (hf : ∀ x, Spec (M x) (f x).inl N E) : Spec P (p >>= f).inl N E :=
  Code.inl_bind ▸ bind hp hf

end Spec
end Code

-- Outcomes for the second machine beside those for the first one.
def Oracle.beside {m : Machine ι A R σ} {n : σ → Machine ι B T τ} {χ : Type} (O : Oracle m χ)
    (pick : σ → ι → (b : B) → τ → Option (T b × τ))
    (sound : ∀ {s i b t r t'}, pick s i b t = some (r, t') → (n s).exec i b t r t') : Oracle (m.beside n) χ where
  good s := O.good s.fst
  pick i
    | .inl a, s, x => (O.pick i a s.fst x).map fun o => (o.fst, o.snd, s.snd)
    | .inr b, s, _ => (pick s.fst i b s.snd).map fun o => (o.fst, s.fst, o.snd)
  sound {i a} _ _ _ _ hg h := by
    cases a
    case inl =>
      obtain ⟨_, picked, eq⟩ := Option.map_eq_some_iff.mp h
      cases eq
      have ⟨exec, good⟩ := O.sound hg picked
      exact ⟨⟨exec, rfl⟩, good⟩
    case inr =>
      obtain ⟨_, picked, eq⟩ := Option.map_eq_some_iff.mp h
      cases eq
      exact ⟨⟨sound picked, rfl⟩, hg⟩
