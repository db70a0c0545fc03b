import ShmemIpc.Library.Alone
import ShmemIpc.Library.Spec

-- The ends of the runs of a program while the other threads do nothing.

variable {ι A : Type} {R : A → Type} {σ : Type} {m m' : Machine ι A R σ} {i : ι} {α β ς : Type}

namespace Program

theorem bind_end : {α : Type} → (p : Program A R α) → p.bind .pure = p
  | _, .pure _     => rfl
  | _, .act _ k    => congrArg _ (funext fun r => bind_end (k r))
  | _, .iter _ _ k => congrArg _ (funext fun b => bind_end (k b))

-- The thread `i` can run the program alone from `s`, with the answer `v` and to the state `t`.
inductive Ends (m : Machine ι A R σ) (i : ι) : {α : Type} → Program A R α → σ → α → σ → Prop
  | pure {α : Type} {x : α} {s} : Ends m i (.pure x) s x s
  | act {α : Type} {a s r s'} {k : R a → Program A R α} {v t} (exec : m.exec i a s r s')
      (rest : Ends m i (k r) s' v t) : Ends m i (.act a k) s v t
  | iter {α ς β : Type} {body : ς → Program A R (ς ⊕ β)} {x s} {k : β → Program A R α} {v t}
      (rest : Ends m i ((body x).bind (next body k)) s v t) : Ends m i (.iter body x k) s v t

variable {p : Program A R α} {s t : σ} {v : α} {Q : α → σ → Prop}

theorem Ends.bind {f : α → Program A R β} {u : σ} {w : β} (e : Ends m i p s v u) (e' : Ends m i (f v) u w t) :
    Ends m i (p.bind f) s w t := by
  induction e
  case pure             => exact e'
  case act exec _ ih    => exact .act exec (ih e')
  case iter body _ _ _ _ _ _ ih =>
    refine .iter ?_
    rw [← next_bind]
    exact ih e'

theorem Ends.of_bind {q : Program A R β} {w : β} (e : Ends m i q s w t) :
    ∀ {α : Type} {p : Program A R α} {f : α → Program A R β}, p.bind f = q →
      ∃ v u, Ends m i p s v u ∧ Ends m i (f v) u w t := by
  induction e
  case pure x s =>
    intro α p f hq
    cases p
    case pure y => exact ⟨y, s, .pure, (show f y = _ from hq) ▸ .pure⟩
    all_goals cases hq
  case act a s r s' k v t exec rest ih =>
    intro α p f hq
    cases p
    case pure y => exact ⟨y, s, .pure, (show f y = _ from hq) ▸ .act exec rest⟩
    case act k  =>
      cases hq
      obtain ⟨v, u, first, after⟩ := ih rfl
      exact ⟨v, u, .act exec first, after⟩
    case iter => cases hq
  case iter body x s k v t rest ih =>
    intro α p f hq
    cases p
    case pure y => exact ⟨y, s, .pure, (show f y = _ from hq) ▸ .iter rest⟩
    case act    => cases hq
    case iter k =>
      cases hq
      obtain ⟨v, u, first, after⟩ := ih next_bind
      exact ⟨v, u, .iter first, after⟩

theorem Alone.ends (h : Alone m i p s Q) (e : Ends m i p s v t) : Q v t := by
  induction e
  case pure =>
    cases h
    case pure hq => exact hq
  case act exec _ ih =>
    cases h
    case act _ rest => exact ih (rest _ _ exec)
  case iter ih =>
    cases h
    case iter rest => exact ih rest

theorem Alone.exists_end (h : Alone m i p s Q) : ∃ v t, Ends m i p s v t ∧ Q v t := by
  induction h
  case pure x s _ hq => exact ⟨x, s, .pure, hq⟩
  case act runs _ ih =>
    have ⟨r, s', exec⟩ := runs
    have ⟨v, t, rest, hq⟩ := ih r s' exec
    exact ⟨v, t, .act exec rest, hq⟩
  case iter ih =>
    have ⟨v, t, rest, hq⟩ := ih
    exact ⟨v, t, .iter rest, hq⟩

namespace Only

variable {S : A → Prop} {V : α → Prop}

theorem turn {body : ς → Program A R (ς ⊕ β)} {x : ς} {k : β → Program A R α} (h : (Program.iter body x k).Only S V) :
    ((body x).bind (Program.next body k)).Only S V := by
  obtain ⟨K, hb, hk⟩ := h
  refine (hb x).bind fun y hy => ?_
  cases y
  case inl y => exact ⟨K, hb, hk⟩
  case inr b => exact hk b hy

end Only

theorem Only.ends {S : A → Prop} {V : α → Prop} (only : p.Only S V) (e : Ends m i p s v t) : V v := by
  induction e
  case pure       => exact only
  case act ih     => exact ih (only.right _)
  case iter ih    => exact ih only.turn

-- The program runs in the same way on another machine that agrees on its actions.
theorem Alone.along {S : A → Prop} {V : α → Prop} (agree : ∀ {a s r s'}, S a → (m.exec i a s r s' ↔ m'.exec i a s r s'))
    (only : p.Only S V) (h : Alone m i p s Q) : Alone m' i p s Q := by
  induction h
  case pure hq => exact .pure hq
  case act runs _ ih =>
    have ⟨r, s', exec⟩ := runs
    exact .act ⟨r, s', (agree only.left).mp exec⟩ fun r s' exec => ih r s' ((agree only.left).mpr exec) (only.right r)
  case iter ih => exact .iter (ih only.turn)

-- What all actions of the program keep is kept.
theorem Alone.keeps {S : A → Prop} {V : α → Prop} {I : σ → Prop}
    (kept : ∀ {a s r s'}, S a → m.exec i a s r s' → I s → I s')
    (only : p.Only S V) (h : Alone m i p s Q) (hs : I s) : Alone m i p s fun v t => Q v t ∧ I t := by
  induction h
  case pure hq          => exact .pure ⟨hq, hs⟩
  case act runs _ ih    => exact .act runs fun r s' exec => ih r s' exec (only.right r) (kept only.left exec hs)
  case iter ih          => exact .iter (ih only.turn hs)

end Program

-- Only the thread `i` takes steps.
def Protocol.lone (m : Machine ι A R σ) (i : ι) : Protocol m where
  inv _           := True
  ok j _ _        := j = i
  preserves _ _ _ := trivial

def Assertion.lone (P : σ → Prop) : Assertion (Protocol.lone m i) i where
  holds               := P
  stable hj _ ho _ _  := absurd ho hj

namespace Program

open Assertion

variable {P : Assertion (Protocol.lone m i) i} {p : Program A R α} {s t : σ} {v : α}

theorem Triple.ends {Q : α → Assertion (Protocol.lone m i) i} (h : Triple P p Q) (hs : P s)
    (e : Ends m i p s v t) : Q v t := by
  induction e generalizing P
  case pure => exact h _ trivial hs
  case act exec _ ih =>
    have ⟨_, M, step, rest⟩ := Triple.act_iff.mp h
    exact ih (rest _) (step _ _ _ trivial hs exec)
  case iter ih =>
    have ⟨J, K, init, body, rest⟩ := Triple.iter_iff.mp h
    exact ih ((body _).bind (Triple.next body rest)) (init _ trivial hs)

theorem Alone.triple_bind {Q : β → σ → Prop} (p : Program A R α) (f : α → Program A R β) :
    Triple (lone (m := m) (i := i) fun s => Alone m i (p.bind f) s Q) p fun v => lone fun s => Alone m i (f v) s Q := by
  induction p generalizing β
  case pure x => exact le_rfl
  case act a k ih =>
    refine Triple.act_iff.mpr ⟨fun _ _ _ => rfl, fun r => lone fun s => Alone m i ((k r).bind f) s Q, ?_,
      fun r => ih r f⟩
    intro s r s' _ hs exec
    cases hs
    case act _ rest => exact rest r s' exec
  case iter body x k ihb ihk =>
    let rest b := (k b).bind f
    refine Triple.iter_iff.mpr
      ⟨fun y => lone fun s => Alone m i (.iter body y rest) s Q, fun b => lone fun s => Alone m i (rest b) s Q,
       le_rfl, fun y => ?_, fun b => ihk b f⟩
    refine Triple.pre (fun s _ hs => ?_) (Triple.post (fun v => ?_) (ihb y (Q := Q) (Program.next body rest)))
    · cases hs
      case iter hs => exact hs
    · cases v <;> exact le_rfl

-- What a program does alone is known of it in a proof about its runs.
theorem Alone.triple {Q : α → σ → Prop} (h : ∀ s, P s → Alone m i p s Q) : Triple P p fun v => lone (Q v) := by
  refine Triple.pre (fun s _ hs => ?_) (Triple.post (fun v s _ hs => ?_) (Alone.triple_bind (Q := Q) p .pure))
  · exact (h s hs).bind fun _ _ hv => .pure hv
  · cases hs
    case pure hq => exact hq

theorem Ends.triple_bind {Q : β → σ → Prop} (p : Program A R α) (f : α → Program A R β) :
    Triple (lone (m := m) (i := i) fun s => ∀ w t, Ends m i (p.bind f) s w t → Q w t) p
      fun v => lone fun s => ∀ w t, Ends m i (f v) s w t → Q w t := by
  induction p generalizing β
  case pure x => exact le_rfl
  case act a k ih =>
    refine Triple.act_iff.mpr
      ⟨fun _ _ _ => rfl, fun r => lone fun s => ∀ w t, Ends m i ((k r).bind f) s w t → Q w t, ?_, fun r => ih r f⟩
    exact fun s r s' _ hs exec w t e => hs w t (.act exec e)
  case iter body x k ihb ihk =>
    let rest b := (k b).bind f
    refine Triple.iter_iff.mpr
      ⟨fun y => lone fun s => ∀ w t, Ends m i (.iter body y rest) s w t → Q w t,
       fun b => lone fun s => ∀ w t, Ends m i (rest b) s w t → Q w t, le_rfl, fun y => ?_, fun b => ihk b f⟩
    refine Triple.pre (fun s _ hs w t e => hs w t (.iter e))
      (Triple.post (fun v => ?_) (ihb y (Program.next body rest)))
    cases v <;> exact le_rfl

-- What holds of all ends.
theorem Ends.to_triple {Q : α → Assertion (Protocol.lone m i) i} (h : ∀ s v t, P s → Ends m i p s v t → Q v t) :
    Triple P p Q := by
  refine Triple.pre (fun s _ hs => ?_) (Triple.post (fun v t _ hv => ?_)
    (Ends.triple_bind (Q := fun v t => Q v t) p .pure))
  · rintro w t e
    rw [bind_end] at e
    exact h s w t hs e
  · exact hv v t .pure

end Program

namespace Code

open Assertion

variable {ε : Type} {P : Assertion (Protocol.lone m i) i} {p : Code A R ε α}

-- The ends of code, from those of its parts.

def Ends (m : Machine ι A R σ) (i : ι) (p : Code A R ε α) (s : σ) (v : Except ε α) (t : σ) : Prop :=
  Program.Ends m i p s v t

namespace Ends

variable {f : α → Code A R ε β} {s t u : σ} {w : Except ε β}

theorem pure {x : α} : Ends m i (Pure.pure x : Code A R ε α) s (.ok x) s :=
  Program.Ends.pure

theorem throw {x : ε} : Ends m i (Code.throw x : Code A R ε α) s (.error x) s :=
  Program.Ends.pure

theorem bind {x : α} (e : Ends m i p s (.ok x) u) (e' : Ends m i (f x) u w t) : Ends m i (p >>= f) s w t :=
  Program.Ends.bind e e'

theorem fail {e : ε} (h : Ends m i p s (.error e) t) : Ends m i (p >>= f) s (.error e) t :=
  Program.Ends.bind h .pure

theorem act {a : A} {f : R a → Code A R ε β} {r : R a} (exec : m.exec i a s r u) (e : Ends m i (f r) u w t) :
    Ends m i (perform a >>= f) s w t :=
  Program.Ends.act exec e

theorem of_bind (e : Ends m i (p >>= f) s w t) :
    (∃ x u, Ends m i p s (.ok x) u ∧ Ends m i (f x) u w t) ∨ ∃ x, w = .error x ∧ Ends m i p s (.error x) t := by
  obtain ⟨v, u, first, after⟩ := Program.Ends.of_bind e rfl
  cases v
  case ok x    => exact .inl ⟨x, u, first, after⟩
  case error x =>
    cases after
    exact .inr ⟨x, rfl, first⟩

theorem of_act {a : A} {f : R a → Code A R ε β} (e : Ends m i (perform a >>= f) s w t) :
    ∃ r u, m.exec i a s r u ∧ Ends m i (f r) u w t := by
  cases e
  case act exec rest => exact ⟨_, _, exec, rest⟩

theorem of_pure {x : β} (e : Ends m i (Pure.pure x) s w t) : w = .ok x ∧ t = s := by
  cases e
  case pure => exact ⟨rfl, rfl⟩

theorem of_throw {x : ε} (e : Ends m i (Code.throw x) s w t) : w = .error x ∧ t = s := by
  cases e
  case pure => exact ⟨rfl, rfl⟩

theorem ok_of_only {S : A → Prop} {v : Except ε α} (only : Only S (fun _ => False) p) (e : Ends m i p s v t) :
    ∃ x, v = .ok x := by
  have ok := Program.Only.ends only e
  cases v
  case ok x  => exact ⟨x, rfl⟩
  case error => exact ok.elim

variable {body : ς → Code A R ε (ς ⊕ α)} {x : ς}

theorem loop {v : α} (e : Ends m i (body x) s (.ok (.inr v)) t) : Ends m i (Code.loop body x) s (.ok v) t :=
  .iter (.bind (.bind e .pure) .pure)

theorem to_spec {M : α → Assertion (Protocol.lone m i) i} {E : ε → Assertion (Protocol.lone m i) i}
    (h : ∀ s v t, P s → Ends m i p s v t → outcome M E v t) : Spec P p M E :=
  Program.Ends.to_triple h

-- Of code that has been started in the state `s`, it is known that it ends as it can end from there.
theorem spec : Spec (lone (m := m) (i := i) (· = s)) p (fun x => lone (Ends m i p s (.ok x)))
    fun e => lone (Ends m i p s (.error e)) :=
  to_spec fun _ v _ hs e => by
    subst hs
    cases v <;> exact e

end Ends

theorem Alone.spec {Q : Except ε α → σ → Prop} (h : ∀ s, P s → Alone m i p s Q) :
    Spec P p (fun x => lone (Q (.ok x))) fun e => lone (Q (.error e)) :=
  Program.Triple.post (Q := fun v => lone (Q v)) (fun | .ok _ | .error _ => le_rfl) (Program.Alone.triple h)

end Code
