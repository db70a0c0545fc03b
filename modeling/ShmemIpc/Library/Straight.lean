import ShmemIpc.Library.Ends

-- Code that ends while the other threads do nothing, on one machine and on another.

variable {ι A : Type} {R : A → Type} {σ τ : Type} {m m' : Machine ι A R σ} {i : ι} {α β ς : Type}

namespace Program

-- No loops, and all actions satisfy `S`.
def Straight (S : A → Prop) : {α : Type} → Program A R α → Prop
  | _, .pure _   => True
  | _, .act a k  => S a ∧ ∀ r, (k r).Straight S
  | _, .iter ..  => False

theorem Straight.bind {S : A → Prop} : {α : Type} → {p : Program A R α} → {f : α → Program A R β} → p.Straight S →
    (∀ x, (f x).Straight S) → (p.bind f).Straight S
  | _, .pure _, _, _, hf  => hf _
  | _, .act .., _, hp, hf => ⟨hp.left, fun r => (hp.right r).bind hf⟩
  | _, .iter .., _, hp, _ => hp.elim

theorem Straight.mono {S T : A → Prop} (hs : ∀ a, S a → T a) : {α : Type} → {p : Program A R α} →
    p.Straight S → p.Straight T
  | _, .pure _, _   => trivial
  | _, .act .., hp  => ⟨hs _ hp.left, fun r => (hp.right r).mono hs⟩
  | _, .iter .., hp => hp.elim

theorem Straight.only {S : A → Prop} : {α : Type} → {p : Program A R α} → p.Straight S → p.Only S fun _ => True
  | _, .pure _, _   => trivial
  | _, .act .., hp  => ⟨hp.left, fun r => (hp.right r).only⟩
  | _, .iter .., hp => hp.elim

namespace Alone

variable {p : Program A R α} {s : σ} {Q : α → σ → Prop}

-- Straight code ends if its actions are possible, and keeps what they keep.
theorem straight {S : A → Prop} {I : σ → Prop} (runs : ∀ {a s}, S a → I s → ∃ r s', m.exec i a s r s')
    (kept : ∀ {a s r s'}, S a → I s → m.exec i a s r s' → I s') : {α : Type} → {p : Program A R α} → {s : σ} →
    p.Straight S → I s → Alone m i p s fun _ t => I t
  | _, .pure _, _, _, hs   => .pure hs
  | _, .act .., _, hp, hs  => .act (runs hp.left hs) fun _ _ e => straight runs kept (hp.right _) (kept hp.left hs e)
  | _, .iter .., _, hp, _  => hp.elim

-- The same with fewer outcomes, where some outcome of each action is left.
theorem fewer (le : m' ≤ m) (runs : ∀ {a s r s'}, m.exec i a s r s' → ∃ r s', m'.exec i a s r s')
    (h : Alone m i p s Q) :
    Alone m' i p s Q := by
  induction h
  case pure hq => exact .pure hq
  case act possible _ ih =>
    obtain ⟨r, s', e⟩ := possible
    exact .act (runs e) fun r s' e => ih r s' (le e)
  case iter ih => exact .iter ih

-- The same on a machine whose states hold more.
theorem lift {m' : Machine ι A R τ} (f : τ → σ) (runs : ∀ {a s r t}, m.exec i a (f s) r t → ∃ r s', m'.exec i a s r s')
    (back : ∀ {a s r s'}, m'.exec i a s r s' → m.exec i a (f s) r (f s')) {s : τ} (h : Alone m i p (f s) Q) :
    Alone m' i p s fun v t => Q v (f t) := by
  generalize hs : f s = u at h
  induction h generalizing s
  case pure hq => exact .pure (hs ▸ hq)
  case act possible _ ih =>
    subst hs
    obtain ⟨r, t, e⟩ := possible
    exact .act (runs e) fun r s' e => ih r (f s') (back e) rfl
  case iter ih => exact .iter (ih hs)

end Alone
end Program

-- A thread of a system that runs the rest of its operation alone returns. What its own steps keep is kept.
theorem System.Reachable.alone [DecidableEq ι] {S : System ι A R σ} (le : m' ≤ m) {I : σ → Prop}
    (kept : ∀ {c : S.Config} {a r s'}, S.Reachable m c → c.Next i a → m'.exec i a c.mem r s' → I c.mem → I s')
    {o : S.Op} {start s : σ} {p : Program A R (S.Ret o)} {Q : S.Ret o → σ → Prop} (h : Program.Alone m' i p s Q) :
    ∀ {c : S.Config}, S.Reachable m c → c.mem = s → c.thr i = some ⟨o, start, p⟩ → I s →
      Program.Alone m' i p s fun v t => Q v t ∧ I t ∧ ∃ c', S.Reachable m c' ∧ c'.mem = t ∧
      c'.Returning i o start v := by
  induction h
  case pure hq =>
    intro c reach mem at_ hs
    exact .pure ⟨hq, hs, c, reach, mem, at_⟩
  case act runs _ ih =>
    intro c reach mem at_ hs
    subst mem
    refine .act runs fun r s' e => ih r s' e (reach.step (.act at_ (le e))) rfl (Function.update_self _ _ _) ?_
    exact kept reach ⟨_, _, _, at_⟩ e hs
  case iter ih =>
    intro c reach mem at_ hs
    exact .iter (ih (reach.step (.iter at_)) mem (Function.update_self _ _ _) hs)

namespace Code

variable {ε : Type}

def Straight (S : A → Prop) (p : Code A R ε α) : Prop :=
  Program.Straight S p

namespace Straight

variable {S : A → Prop} {p : Code A R ε α}

theorem pure {x : α} : Straight S (Pure.pure x : Code A R ε α) :=
  trivial

theorem throw {e : ε} : Straight S (Code.throw e : Code A R ε α) :=
  trivial

theorem ofExcept : {x : Except ε α} → Straight S (Code.ofExcept x : Code A R ε α)
  | .ok _ | .error _ => trivial

theorem perform {a : A} (ha : S a) : Straight S (Code.perform a : Code A R ε (R a)) :=
  ⟨ha, fun _ => trivial⟩

theorem bind {f : α → Code A R ε β} (hp : Straight S p) (hf : ∀ x, Straight S (f x)) : Straight S (p >>= f) :=
  Program.Straight.bind hp fun
    | .ok x    => hf x
    | .error _ => trivial

theorem act {a : A} {f : R a → Code A R ε β} (ha : S a) (hf : ∀ r, Straight S (f r)) :
    Straight S (Code.perform a >>= f) :=
  bind (perform ha) hf

theorem mono {T : A → Prop} (hs : ∀ a, S a → T a) (hp : Straight S p) : Straight T p :=
  Program.Straight.mono hs hp

theorem only (hp : Straight S p) : Program.Only S (fun _ => True) p :=
  Program.Straight.only hp

theorem attempt {f : Except ε α → Code A R ε β} (hp : Straight S p) (hf : ∀ x, Straight S (f x)) :
    Straight S (Code.attempt p >>= f) :=
  bind (Program.Straight.bind hp fun _ => trivial) hf

end Straight
end Code
