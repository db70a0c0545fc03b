import Mathlib.Logic.Relation
import Mathlib.Data.Sum.Basic

-- A program over atomic actions `A`, where an action `a` answers with a value of type `R a`. The
-- constructor `iter` is an unbounded loop: `body` runs from the loop value `x` until it answers with
-- `inr b`, and then the program goes on as `k b`.
inductive Program (A : Type) (R : A → Type) : Type → Type 1
  | pure {α : Type} (x : α) : Program A R α
  | act {α : Type} (a : A) (k : R a → Program A R α) : Program A R α
  | iter {α ς β : Type} (body : ς → Program A R (ς ⊕ β)) (x : ς) (k : β → Program A R α) :
      Program A R α

namespace Program

variable {A : Type} {R : A → Type} {α β ς : Type}

def bind : {α β : Type} → Program A R α → (α → Program A R β) → Program A R β
  | _, _, .pure x, f        => f x
  | _, _, .act a k, f       => .act a fun r => (k r).bind f
  | _, _, .iter body x k, f => .iter body x fun b => (k b).bind f

-- What is left of a loop when its body has answered.
def next (body : ς → Program A R (ς ⊕ β)) (k : β → Program A R α) : ς ⊕ β → Program A R α :=
  Sum.elim (.iter body · k) k

@[simp]
theorem bind_pure (x : α) (f : α → Program A R β) : (Program.pure x).bind f = f x :=
  rfl

@[simp]
theorem bind_act {a : A} (k : R a → Program A R α) (f : α → Program A R β) :
    (Program.act a k).bind f = .act a fun r => (k r).bind f :=
  rfl

@[simp]
theorem bind_iter {γ : Type} (body : ς → Program A R (ς ⊕ β)) (x : ς) (k : β → Program A R α)
    (f : α → Program A R γ) : (iter body x k).bind f = .iter body x fun b => (k b).bind f :=
  rfl

theorem bind_assoc {γ : Type} : {α : Type} → (p : Program A R α) → (f : α → Program A R β) → (g : β → Program A R γ) →
    (p.bind f).bind g = p.bind fun x => (f x).bind g
  | _, .pure _, _, _      => rfl
  | _, .act _ k, f, g     => congrArg _ (funext fun r => bind_assoc (k r) f g)
  | _, .iter _ _ k, f, g  => congrArg _ (funext fun b => bind_assoc (k b) f g)

theorem next_bind {body : ς → Program A R (ς ⊕ β)} {k : β → Program A R α} {γ : Type} {f : α → Program A R γ}
    {p : Program A R (ς ⊕ β)} :
    (p.bind (next body k)).bind f = p.bind (next body fun b => (k b).bind f) := by
  rw [bind_assoc]
  exact congrArg _ (funext fun | .inl _ => rfl | .inr _ => rfl)

-- Whatever the answers are, all actions of a program satisfy `S` and its value satisfies `V`.
def Only (S : A → Prop) : {α : Type} → (V : α → Prop) → Program A R α → Prop
  | _, V, .pure x                 => V x
  | _, V, .act a k                => S a ∧ ∀ r, (k r).Only S V
  | _, V, .iter (β := β) body _ k =>
      ∃ K : β → Prop, (∀ y, (body y).Only S (Sum.elim (fun _ => True) K)) ∧ ∀ b, K b → (k b).Only S V

namespace Only

variable {S : A → Prop}

theorem bind : {α : Type} → {V : α → Prop} → {W : β → Prop} → {p : Program A R α} →
    {f : α → Program A R β} → p.Only S V → (∀ x, V x → (f x).Only S W) → (p.bind f).Only S W
  | _, _, _, .pure x, _, hp, hf  => hf x hp
  | _, _, _, .act .., _, hp, hf  => ⟨hp.left, fun r => (hp.right r).bind hf⟩
  | _, _, _, .iter .., _, hp, hf =>
    have ⟨K, hb, hk⟩ := hp
    ⟨K, hb, fun b h => (hk b h).bind hf⟩

theorem mono {T : A → Prop} (hs : ∀ a, S a → T a) : {α : Type} → {V W : α → Prop} →
    {p : Program A R α} → (∀ x, V x → W x) → p.Only S V → p.Only T W
  | _, _, _, .pure _, hv, hp  => hv _ hp
  | _, _, _, .act .., hv, hp  => ⟨hs _ hp.left, fun r => (hp.right r).mono hs hv⟩
  | _, _, _, .iter .., hv, hp =>
    have ⟨K, hb, hk⟩ := hp
    ⟨K, fun y => (hb y).mono hs fun _ h => h, fun b h => (hk b h).mono hs hv⟩

theorem all : {α : Type} → {p : Program A R α} → p.Only (fun _ => True) fun _ => True
  | _, .pure _ => trivial
  | _, .act .. => ⟨trivial, fun _ => all⟩
  | _, .iter .. =>
      ⟨fun _ => True, fun _ => all.mono (fun _ h => h) fun | .inl _, _ | .inr _, _ => trivial, fun _ _ => all⟩

end Only
end Program

-- A program that may end early with an error of type `ε`, as code whose calls are followed by `?`.
def Code (A : Type) (R : A → Type) (ε α : Type) :=
  Program A R (Except ε α)

namespace Code

variable {A : Type} {R : A → Type} {ε α β ς : Type}

def pure (x : α) : Code A R ε α :=
  Program.pure (.ok x)

def throw (e : ε) : Code A R ε α :=
  Program.pure (.error e)

def bind (p : Code A R ε α) (f : α → Code A R ε β) : Code A R ε β :=
  Program.bind p fun
    | .ok x    => f x
    | .error e => throw e

instance : Monad (Code A R ε) where
  pure := Code.pure
  bind := Code.bind

def perform (a : A) : Code A R ε (R a) :=
  Program.act a fun r => Code.pure r

-- The error of `p`, if any, becomes a value that can be matched on.
def attempt (p : Code A R ε α) : Code A R ε (Except ε α) :=
  Program.bind p Code.pure

def ofExcept : Except ε α → Code A R ε α
  | .ok x    => Code.pure x
  | .error e => throw e

-- One turn of a loop, where an error leaves the loop.
def turn (p : Code A R ε (ς ⊕ α)) : Program A R (ς ⊕ Except ε α) :=
  Program.bind p fun
    | .ok (.inl x) => .pure (.inl x)
    | .ok (.inr b) => .pure (.inr (.ok b))
    | .error e     => .pure (.inr (.error e))

-- The body answers with `inl` to go round again and with `inr` to break.
def loop (body : ς → Code A R ε (ς ⊕ α)) (x : ς) : Code A R ε α :=
  .iter (fun x => turn (body x)) x .pure

-- Whatever the answers are, all actions of the code satisfy `S` and its errors satisfy `F`.
def Only (S : A → Prop) (F : ε → Prop) (p : Code A R ε α) : Prop :=
  Program.Only S (fun | .ok _ => True | .error e => F e) p

namespace Only

variable {S : A → Prop} {F G : ε → Prop}

theorem pure {x : α} : Only S F (Pure.pure x : Code A R ε α) :=
  trivial

theorem throw {e : ε} (h : F e) : Only S F (Code.throw e : Code A R ε α) :=
  h

theorem ofExcept : {x : Except ε α} → (∀ e, x = .error e → F e) → Only S F (Code.ofExcept x : Code A R ε α)
  | .ok _, _    => trivial
  | .error _, h => h _ rfl

theorem perform {a : A} (h : S a) : Only S F (perform a : Code A R ε (R a)) :=
  ⟨h, fun _ => trivial⟩

theorem bind {p : Code A R ε α} {f : α → Code A R ε β} (hp : Only S F p) (hf : ∀ x, Only S F (f x)) :
    Only S F (p >>= f) :=
  Program.Only.bind hp fun
    | .ok x, _    => hf x
    | .error _, h => h

theorem act {a : A} {f : R a → Code A R ε β} (h : S a) (hf : ∀ x, Only S F (f x)) :
    Only S F (Code.perform a >>= f) :=
  bind (perform h) hf

theorem mono {p : Code A R ε α} (hf : ∀ e, F e → G e) (hp : Only S F p) : Only S G p :=
  Program.Only.mono (fun _ h => h) (fun | .ok _, _ => trivial | .error _, h => hf _ h) hp

theorem weaken {T : A → Prop} {p : Code A R ε α} (hs : ∀ a, S a → T a) (hp : Only S F p) : Only T F p :=
  Program.Only.mono hs (fun _ h => h) hp

-- The errors that are handled need not satisfy `F`.
theorem attempt {p : Code A R ε α} {f : Except ε α → Code A R ε β} (hp : Only S G p)
    (hf : ∀ x, (∀ e, x = .error e → G e) → Only S F (f x)) : Only S F (Code.attempt p >>= f) := by
  refine Program.Only.bind (V := fun | .ok x => ∀ e, x = .error e → G e | .error _ => False) ?_ ?_
  · exact Program.Only.bind hp fun
      | .ok _, _    => nofun
      | .error _, h => fun | _, rfl => h
  · exact fun
      | .ok x, h => hf x h
      | .error _, h => h.elim

theorem loop {body : ς → Code A R ε (ς ⊕ α)} {x : ς} (hb : ∀ x, Only S F (body x)) :
    Only S F (loop body x) :=
  ⟨fun | .ok _ => True | .error e => F e,
   fun x => Program.Only.bind (hb x) (fun
     | .ok (.inl _), _ | .ok (.inr _), _ => trivial
     | .error _, h                       => h),
   fun _ h => h⟩

end Only
end Code
