import ShmemIpc.Library.Protocol

-- A proof that all operations of a system follow a protocol: what a thread knows between its
-- operations, and what is known when an operation that was called in a given state returns.
structure Verified {ι A : Type} {R : A → Type} {σ : Type} {m : Machine ι A R σ}
    (S : System ι A R σ) (π : Protocol m) where
  idle : (i : ι) → Assertion π i
  post : (i : ι) → (o : S.Op) → σ → S.Ret o → Assertion π i
  init : ∀ {s}, S.init s → π.inv s ∧ ∀ i, idle i s
  spec : ∀ {i o s}, π.inv s → idle i s → S.callable i o s →
    ∃ P : Assertion π i, P s ∧ (S.body i o).Triple P (fun v => idle i ⊓ post i o s v)

namespace Verified

open System Program

variable {ι A : Type} {R : A → Type} {σ : Type} {m : Machine ι A R σ} {S : System ι A R σ}
variable {π : Protocol m}
variable (V : Verified S π)

-- What is known of a thread: its idle assertion, or an assertion from which the rest of its
-- operation is safe.
def Thread (mem : σ) (i : ι) : Option S.Frame → Prop
  | none   => V.idle i mem
  | some f => ∃ P : Assertion π i, P mem ∧ f.code.Triple P (fun v => V.idle i ⊓ V.post i f.op f.start v)

structure Holds (c : S.Config) : Prop where
  inv    : π.inv c.mem
  thread : ∀ i, V.Thread c.mem i (c.thr i)

variable {V}

theorem Thread.stable {mem mem' : σ} {i j : ι} {a : A} {r : R a} (hj : j ≠ i) (hi : π.inv mem)
    (ho : π.ok j a mem) (he : m.exec j a mem r mem') :
    {f : Option S.Frame} → V.Thread mem i f → V.Thread mem' i f
  | none, h          => (V.idle i).stable hj hi ho he h
  | some _, ⟨P, h, t⟩ => ⟨P, P.stable hj hi ho he h, t⟩

variable [DecidableEq ι]

theorem Holds.update {c : S.Config} (h : V.Holds c) {i : ι} {f : Option S.Frame}
    (hf : V.Thread c.mem i f) : V.Holds ⟨c.mem, Function.update c.thr i f⟩ where
  inv := h.inv
  thread j := by
    by_cases hj : j = i
    case pos => subst hj; simpa using hf
    case neg => simpa [Function.update_of_ne hj] using h.thread j

theorem Holds.step {c c' : S.Config} (h : V.Holds c) (e : S.Step m c c') : V.Holds c' := by
  cases e
  case call i o idle can =>
    have hi := h.thread i
    rw [idle] at hi
    exact h.update (V.spec h.inv hi can)
  case act i o s a k r mem at_ exec =>
    have hi := h.thread i
    rw [at_] at hi
    obtain ⟨P, hp, t⟩ := hi
    have ⟨ok, M, step, rest⟩ := Triple.act_iff.mp t
    have ho := ok _ h.inv hp
    refine ⟨π.preserves h.inv ho exec, fun j => ?_⟩
    by_cases hj : j = i
    case pos => subst hj; simpa using ⟨M r, step _ _ _ h.inv hp exec, rest r⟩
    case neg =>
      simpa [Function.update_of_ne hj] using (h.thread j).stable (Ne.symm hj) h.inv ho exec
  case iter i o s ς β body x k at_ =>
    have hi := h.thread i
    rw [at_] at hi
    obtain ⟨P, hp, t⟩ := hi
    have ⟨J, K, init, hb, hk⟩ := Triple.iter_iff.mp t
    exact h.update ⟨J x, init _ h.inv hp, (hb x).bind (Triple.next hb hk)⟩
  case ret i o s v at_ =>
    have hi := h.thread i
    rw [at_] at hi
    obtain ⟨P, hp, hq⟩ := hi
    exact h.update (hq _ h.inv hp).left

theorem holds (V : Verified S π) {c : S.Config} (h : S.Reachable m c) : V.Holds c := by
  refine h.invariant (fun c hc => ?_) (fun c c' _ hc e => hc.step e)
  obtain ⟨hi, hs⟩ := V.init hc.mem
  exact ⟨hi, fun i => by rw [hc.idle i]; exact hs i⟩

theorem inv_of_reachable (V : Verified S π) {c : S.Config} (h : S.Reachable m c) : π.inv c.mem :=
  (V.holds h).inv

theorem idle_of_reachable (V : Verified S π) {c : S.Config} (h : S.Reachable m c) {i : ι} (hi : c.thr i = none) :
    V.idle i c.mem := by
  have ht := (V.holds h).thread i
  rwa [hi] at ht

theorem ok_of_next (V : Verified S π) {c : S.Config} (h : S.Reachable m c) {i : ι} {a : A} (hn : c.Next i a) :
    π.ok i a c.mem := by
  obtain ⟨o, s, k, hn⟩ := hn
  have hi := (V.holds h).thread i
  rw [hn] at hi
  obtain ⟨P, hp, t⟩ := hi
  exact (Triple.act_iff.mp t).left _ (V.holds h).inv hp

theorem post_of_returning (V : Verified S π) {c : S.Config} (h : S.Reachable m c) {i : ι} {o : S.Op} {s : σ}
    {v : S.Ret o} (hr : c.Returning i o s v) : V.idle i c.mem ∧ V.post i o s v c.mem := by
  have hi := (V.holds h).thread i
  rw [hr] at hi
  obtain ⟨P, hp, hq⟩ := hi
  exact hq _ (V.holds h).inv hp

variable {m' : Machine ι A R σ}

-- Every step of a verified system leaves the memory alone or is a permitted action. The machine may
-- take fewer steps than the verified one.
theorem mem_of_step (V : Verified S π) {c c' : S.Config} (h : S.Reachable m c) (e : S.Step m' c c') :
    c'.mem = c.mem ∨
      ∃ i a r, c.Next i a ∧ c'.thr i ≠ none ∧ π.ok i a c.mem ∧ m'.exec i a c.mem r c'.mem := by
  cases e
  case act i o s a k r mem at_ exec =>
    have next : c.Next i a := ⟨_, _, _, at_⟩
    exact .inr ⟨i, a, r, next, by simp, V.ok_of_next h next, exec⟩
  all_goals exact .inl rfl

-- What no permitted action makes false remains true along a run.
theorem persists (V : Verified S π) (hm : m' ≤ m) {P : σ → Prop}
    (hP : ∀ {i a s r s'}, π.inv s → π.ok i a s → m'.exec i a s r s' → P s → P s') {c c' : S.Config}
    (h : S.Reachable m c) (e : S.Steps m' c c') (hp : P c.mem) : P c'.mem := by
  induction e
  case refl => exact hp
  case tail d d' e e' ih =>
    have reach := h.steps (Steps.mono hm e)
    rcases V.mem_of_step reach e' with same | ⟨i, a, r, _, _, ok, exec⟩
    case inl => exact same ▸ ih
    case inr => exact hP (V.inv_of_reachable reach) ok exec ih

-- A verified system takes only permitted steps.
theorem permitted_steps (V : Verified S π) (hm : m' ≤ m) {c c' : S.Config} (h : S.Reachable m c)
    (e : S.Steps m' c c') : S.Steps (m'.restrict fun i a s _ _ => π.inv s ∧ π.ok i a s) c c' := by
  induction e
  case refl => exact .refl
  case tail d d' e e' ih =>
    have reach := h.steps (Steps.mono hm e)
    refine ih.tail ?_
    cases e'
    case call idle can => exact .call idle can
    case act at_ exec =>
      exact .act at_ ⟨exec, V.inv_of_reachable reach, V.ok_of_next reach ⟨_, _, _, at_⟩⟩
    case iter at_ => exact .iter at_
    case ret at_  => exact .ret at_

theorem under (V : Verified S π) {c : S.Config} : S.Reachable m c → S.Reachable (m.under π) c
  | ⟨init, e⟩ => ⟨init, V.permitted_steps Machine.le_rfl (.initial init) e⟩

-- The operations that a system is extended with.
def also (V : Verified S π) {Op : Type} {Ret : Op → Type} {body : ι → (o : Op) → Program A R (Ret o)}
    {callable : ι → Op → σ → Prop} (post : (i : ι) → (o : Op) → σ → Ret o → Assertion π i)
    (spec : ∀ {i o s}, π.inv s → V.idle i s → callable i o s →
      ∃ P : Assertion π i, P s ∧ (body i o).Triple P (fun v => V.idle i ⊓ post i o s v)) :
    Verified (S.also body callable) π where
  idle := V.idle
  post i := fun
    | .inl o => V.post i o
    | .inr o => post i o
  init := V.init
  spec := by
    intro i o s hi hs can
    cases o
    case inl o => exact V.spec hi hs can
    case inr o => exact spec hi hs can

end Verified
