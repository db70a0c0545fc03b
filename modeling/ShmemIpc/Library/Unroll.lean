import ShmemIpc.Library.Program

-- Loops some of whose turns are written out.
namespace Program

variable {A : Type} {R : A → Type} {ε α β ς : Type}

-- The second program is the first one, after some turns of its loops have been written out.
inductive Unrolls : {α : Type} → Program A R α → Program A R α → Prop
  | refl {α : Type} {p : Program A R α} : Unrolls p p
  | act {α : Type} {a} {k k' : R a → Program A R α} (rest : ∀ r, Unrolls (k r) (k' r)) : Unrolls (.act a k) (.act a k')
  | iter {α ς β : Type} {body : ς → Program A R (ς ⊕ β)} {x} {k : β → Program A R α} {q}
      (rest : Unrolls ((body x).bind (next body k)) q) : Unrolls (.iter body x k) q
  | after {α ς β : Type} {body : ς → Program A R (ς ⊕ β)} {x} {k k' : β → Program A R α}
      (rest : ∀ b, Unrolls (k b) (k' b)) : Unrolls (.iter body x k) (.iter body x k')

theorem Unrolls.bind {p : Program A R α} {f g : α → Program A R β} (h : ∀ x, Unrolls (f x) (g x)) :
    Unrolls (p.bind f) (p.bind g) := by
  induction p
  case pure x      => exact h x
  case act ih      => exact .act fun r => ih r h
  case iter _ ihk  => exact .after fun b => ihk b h

theorem Unrolls.left {p q : Program A R α} {f : α → Program A R β} (h : Unrolls p q) :
    Unrolls (p.bind f) (q.bind f) := by
  induction h
  case refl     => exact .refl
  case act ih   => exact .act fun r => ih r
  case iter ih  => exact .iter (next_bind ▸ ih)
  case after ih => exact .after fun b => ih b

end Program

namespace Code

variable {A : Type} {R : A → Type} {ε α β γ ς : Type}

def Unrolls (p q : Code A R ε α) : Prop :=
  Program.Unrolls p q

theorem bind_assoc {p : Code A R ε α} {f : α → Code A R ε β} {g : β → Code A R ε γ} :
    p >>= f >>= g = p >>= fun x => f x >>= g := by
  refine (Program.bind_assoc _ _ _).trans (congrArg (Program.bind p) (funext fun v => ?_))
  cases v <;> rfl

theorem Unrolls.bind {p : Code A R ε α} {f g : α → Code A R ε β} (h : ∀ x, Unrolls (f x) (g x)) :
    Unrolls (p >>= f) (p >>= g) :=
  Program.Unrolls.bind fun
    | .ok x    => h x
    | .error _ => .refl

-- The first turn of a loop.
theorem Unrolls.loop {body : ς → Code A R ε (ς ⊕ α)} {x : ς} {rest : ς ⊕ α → Code A R ε α}
    (again : ∀ y, Unrolls (Code.loop body y) (rest (.inl y))) (done : ∀ b, Unrolls (pure b) (rest (.inr b))) :
    Unrolls (Code.loop body x) (body x >>= rest) := by
  refine .iter (cast (congrArg (Code.Unrolls · (body x >>= rest)) (Program.bind_assoc (body x) _ _)).symm ?_)
  exact Program.Unrolls.bind fun
    | .ok (.inl y) => again y
    | .ok (.inr b) => done b
    | .error _     => .refl

theorem Unrolls.left {p q : Code A R ε α} {f : α → Code A R ε β} (h : p.Unrolls q) : (p >>= f).Unrolls (q >>= f) :=
  Program.Unrolls.left h

-- At most `n` turns of a loop.
def turns (body : ς → Code A R ε (ς ⊕ α)) : Nat → ς → Code A R ε (ς ⊕ α)
  | 0, x     => pure (.inl x)
  | n + 1, x => body x >>= Sum.elim (turns body n) fun b => pure (.inr b)

theorem Unrolls.turns {body : ς → Code A R ε (ς ⊕ α)} (n : Nat) (x : ς) :
    (Code.loop body x).Unrolls (Code.turns body n x >>= Sum.elim (Code.loop body) pure) := by
  induction n generalizing x
  case zero => exact .refl
  case succ n ih =>
    unfold Code.turns
    rw [bind_assoc]
    exact .loop (fun y => ih y) fun _ => .refl

end Code
