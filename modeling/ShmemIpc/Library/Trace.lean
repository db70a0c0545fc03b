import ShmemIpc.Library.Verified

open Relation

-- What the threads of a system have done: the actions of each thread with their answers. A fact about
-- the actions of one call holds in all runs if it holds whatever the answers are.

abbrev Event (A : Type) (R : A → Type) :=
  (a : A) × R a

abbrev Trace (A : Type) (R : A → Type) :=
  List (Event A R)

-- The events of all threads, in their order.
abbrev Log (ι A : Type) (R : A → Type) :=
  List (ι × Event A R)

namespace Log

variable {ι A : Type} {R : A → Type} [DecidableEq ι] {i j : ι} {l l' : Log ι A R} {e : Event A R}

def of (i : ι) (l : Log ι A R) : Trace A R :=
  l.filterMap fun (j, e) => if j = i then some e else none

-- What the thread `i` has done in `l'` and not yet in `l`.
def since (i : ι) (l l' : Log ι A R) : Trace A R :=
  (of i l').drop (of i l).length

@[simp]
theorem of_snoc_self : of i (l ++ [(i, e)]) = of i l ++ [e] := by
  simp [of, List.filterMap_append]

theorem of_snoc_ne (h : j ≠ i) : of i (l ++ [(j, e)]) = of i l := by
  simp [of, List.filterMap_append, h]

theorem since_eq {t : Trace A R} (h : of i l' = of i l ++ t) : since i l l' = t := by
  rw [since, h, List.drop_left]

end Log

namespace Machine

variable {ι A : Type} {R : A → Type} {σ : Type}

def logged (m : Machine ι A R σ) : Machine ι A R (σ × Log ι A R) :=
  m.ghost fun i a r _ l => l ++ [(i, ⟨a, r⟩)]

end Machine

namespace System

variable {ι A : Type} {R : A → Type} {σ : Type}

def logged (S : System ι A R σ) : System ι A R (σ × Log ι A R) where
  Op             := S.Op
  Ret            := S.Ret
  body           := S.body
  callable i o s := S.callable i o s.fst
  init s         := S.init s.fst ∧ s.snd = []

end System

-- What the code of an operation relies on, and what it does. After the events `t` it gets only the answers
-- that it may get, and it takes only actions that are ok.
structure Discipline (A : Type) (R : A → Type) where
  may : Trace A R → (a : A) → R a → Prop
  ok  : Trace A R → A → Prop

namespace Discipline

variable {A : Type} {R : A → Type} (d : Discipline A R)

-- A single thread whose state is its trace.
def machine : Machine Unit A R (Trace A R) where
  exec _ a t r t' := d.may t a r ∧ t' = t ++ [⟨a, r⟩]

def protocol : Protocol d.machine where
  inv _           := True
  ok _ a t        := d.ok t a
  preserves _ _ _ := trivial

abbrev Knows :=
  Assertion d.protocol ()

variable {d}

def known (P : Trace A R → Prop) : d.Knows where
  holds     := P
  stable hj := absurd rfl hj

@[simp]
theorem known_holds {P : Trace A R → Prop} {t : Trace A R} : (known P : d.Knows) t ↔ P t :=
  .rfl

-- Facts about a trace that every event keeps.
def Grows (P : Trace A R → Prop) : Prop :=
  ∀ {t e}, P t → P (t ++ [e])

theorem known_persistent {P : Trace A R → Prop} (h : Grows P) : (known P : d.Knows).Persistent :=
  ⟨fun _ _ e hp => e.right ▸ h hp⟩

theorem mem_grows {e : Event A R} : Grows (e ∈ ·) :=
  List.mem_append_left _

theorem Grows.append {P : Trace A R → Prop} (h : Grows P) {t u : Trace A R} (ht : P t) : P (t ++ u) := by
  induction u generalizing t
  case nil       => rwa [List.append_nil]
  case cons e u ih =>
    rw [List.append_cons]
    exact ih (h ht)

theorem Grows.and {P Q : Trace A R → Prop} (hp : Grows P) (hq : Grows Q) : Grows fun t => P t ∧ Q t :=
  fun h => ⟨hp h.left, hq h.right⟩

theorem keeps_of_snoc {P : Trace A R → Prop} {S : A → Prop} (ok : ∀ {t a}, S a → P t → d.ok t a)
    (h : ∀ {t a r}, S a → P t → P (t ++ [⟨a, r⟩])) : (known P : d.Knows).Keeps S where
  ok ha _ hp     := ok ha hp
  kept ha _ hp e := e.right ▸ h ha hp

-- Code of which nothing is asked.
theorem free (ok : ∀ t a, d.ok t a) {α : Type} {p : Program A R α} {P : d.Knows} : p.Triple P fun _ => (⊤ : d.Knows) :=
  have keeps : (⊤ : d.Knows).Keeps fun _ => True := Assertion.Persistent.top.keeps fun _ _ _ => ok _ _
  ((Program.Triple.only keeps Program.Only.all).pre fun _ _ _ => trivial).post fun _ _ _ _ => trivial

end Discipline

-- A system whose operations follow their disciplines, on a machine that gives only the answers that
-- they rely on as long as they do. What a call has done since it began tells what it owns of the state.
structure Disciplined {ι A : Type} {R : A → Type} {σ : Type} (m : Machine ι A R σ) (S : System ι A R σ) where
  rule  : S.Op → Discipline A R
  inv   : σ → Prop
  own   : ι → Trace A R → σ → Prop
  post  : (o : S.Op) → S.Ret o → Trace A R → Prop
  init  : ∀ {s}, S.init s → inv s
  start : ∀ {i s}, inv s → own i [] s
  may   : ∀ {o i t a s r s'}, inv s → own i t s → m.exec i a s r s' → (rule o).may t a r
  step  : ∀ {o t i a s r s'}, inv s → own i t s → (rule o).ok t a → m.exec i a s r s' →
    inv s' ∧ own i (t ++ [⟨a, r⟩]) s'
  other : ∀ {o i j t t' a s r s'}, j ≠ i → inv s → own i t s → own j t' s → (rule o).ok t' a → m.exec j a s r s' →
    own i t s'
  spec  : ∀ {i o s}, inv s → S.callable i o s →
    (S.body i o).Triple (Discipline.known (· = []) : (rule o).Knows) fun v => Discipline.known (post o v)

namespace Disciplined

open System Program Discipline

variable {ι A : Type} {R : A → Type} {σ : Type} {m : Machine ι A R σ} {S : System ι A R σ}
variable (D : Disciplined m S) [DecidableEq ι]

-- What is known of an operation in progress.
def Thread (mem : σ × Log ι A R) (i : ι) (f : S.logged.Frame) : Prop :=
  ∃ t, mem.snd.of i = Log.of i f.start.snd ++ t ∧ D.own i t mem.fst ∧
    ∃ P : (D.rule f.op).Knows, P t ∧ f.code.Triple P fun v => known (D.post f.op v)

structure Holds (c : S.logged.Config) : Prop where
  inv    : D.inv c.mem.fst
  thread : ∀ i f, c.thr i = some f → D.Thread c.mem i f

variable {D} {c c' : S.logged.Config} {i : ι}

theorem Holds.update (h : D.Holds c) {f : Option S.logged.Frame}
    (hf : ∀ g, f = some g → D.Thread c.mem i g) : D.Holds ⟨c.mem, Function.update c.thr i f⟩ where
  inv := h.inv
  thread j g hg := by
    by_cases hj : j = i
    case pos => subst hj; exact hf g (by simpa using hg)
    case neg => exact h.thread j g (by simpa [Function.update_of_ne hj] using hg)

theorem Holds.step (h : D.Holds c) (e : S.logged.Step m.logged c c') : D.Holds c' := by
  cases e
  case call i o idle can =>
    refine h.update fun g hg => ?_
    cases hg
    exact ⟨[], (List.append_nil _).symm, D.start h.inv, known (· = []), rfl, D.spec h.inv can⟩
  case act i o s a k r mem at_ exec =>
    obtain ⟨exec, hl⟩ := exec
    have ⟨t, ht, owned, P, hp, triple⟩ := h.thread i _ at_
    have ⟨ok, M, step, rest⟩ := Triple.act_iff.mp triple
    have ok := ok _ trivial hp
    have ⟨inv', owned'⟩ := D.step h.inv owned ok exec
    have own : D.Thread mem i ⟨o, s, k r⟩ := by
      refine ⟨t ++ [⟨a, r⟩], ?_, owned', M r, step _ _ _ trivial hp ⟨D.may h.inv owned exec, rfl⟩, rest r⟩
      rw [hl, Log.of_snoc_self, ht, List.append_assoc]
    refine ⟨inv', fun j g hg => ?_⟩
    by_cases hj : j = i
    case pos =>
      subst hj
      have hg : ⟨o, s, k r⟩ = g := by simpa using hg
      exact hg ▸ own
    case neg =>
      have hg : c.thr j = some g := by simpa [Function.update_of_ne hj] using hg
      obtain ⟨t', ht', owned', rest'⟩ := h.thread j g hg
      refine ⟨t', by rw [hl, Log.of_snoc_ne (Ne.symm hj), ht'], ?_, rest'⟩
      exact D.other (Ne.symm hj) h.inv owned' owned ok exec
  case iter i o s ς β body x k at_ =>
    have ⟨t, ht, owned, P, hp, triple⟩ := h.thread i _ at_
    have ⟨J, K, init, hb, hk⟩ := Triple.iter_iff.mp triple
    refine h.update fun g hg => ?_
    cases hg
    exact ⟨t, ht, owned, J x, init _ trivial hp, (hb x).bind (Triple.next hb hk)⟩
  case ret i o s v at_ => exact h.update nofun

theorem holds (D : Disciplined m S) (h : S.logged.Reachable m.logged c) : D.Holds c := by
  refine h.invariant (fun c hc => ⟨D.init hc.mem.left, fun i f hf => ?_⟩) fun c c' _ hc e => hc.step e
  exact nomatch (hc.idle i).symm.trans hf

theorem inv_of_reachable (D : Disciplined m S) (h : S.logged.Reachable m.logged c) : D.inv c.mem.fst :=
  (D.holds h).inv

theorem own_of_frame (D : Disciplined m S) (h : S.logged.Reachable m.logged c) {f : S.logged.Frame}
    (at_ : c.thr i = some f) : D.own i (Log.since i f.start.snd c.mem.snd) c.mem.fst := by
  have ⟨t, ht, owned, _⟩ := (D.holds h).thread i f at_
  exact Log.since_eq ht ▸ owned

-- The next action of an operation, after what it has done since it was called.
theorem ok_of_next (D : Disciplined m S) (h : S.logged.Reachable m.logged c) {o : S.Op} {s : σ × Log ι A R} {a : A}
    {k : R a → Program A R (S.Ret o)} (at_ : c.thr i = some ⟨o, s, .act a k⟩) :
    (D.rule o).ok (Log.since i s.snd c.mem.snd) a := by
  have ⟨t, ht, _, P, hp, triple⟩ := (D.holds h).thread i _ at_
  exact Log.since_eq ht ▸ (Triple.act_iff.mp triple).left t trivial hp

theorem post_of_returning (D : Disciplined m S) (h : S.logged.Reachable m.logged c) {o : S.Op}
    {s : σ × Log ι A R} {v : S.Ret o} (hr : c.Returning i o s v) :
    D.post o v (Log.since i s.snd c.mem.snd) := by
  have ⟨t, ht, _, P, hp, triple⟩ := (D.holds h).thread i _ hr
  exact Log.since_eq ht ▸ triple t trivial hp

-- The operations that a system is extended with. Each follows the discipline of one that the system has.
def also (D : Disciplined m S) {Op : Type} {Ret : Op → Type} {body : ι → (o : Op) → Program A R (Ret o)}
    {callable : ι → Op → σ → Prop} (like : Op → S.Op) (post : (o : Op) → Ret o → Trace A R → Prop)
    (spec : ∀ {i o s}, D.inv s → callable i o s →
      (body i o).Triple (known (· = []) : (D.rule (like o)).Knows) fun v => known (post o v)) :
    Disciplined m (S.also body callable) where
  rule  := Sum.elim D.rule (D.rule ∘ like)
  inv   := D.inv
  own   := D.own
  post  := fun
    | .inl o => D.post o
    | .inr o => post o
  init  := D.init
  start := D.start
  may   := by rintro (_ | _) <;> exact D.may
  step  := by rintro (_ | _) <;> exact D.step
  other := by rintro (_ | _) <;> exact D.other
  spec  := by
    rintro i (o | o) s hi can
    · exact D.spec hi can
    · exact spec hi can

end Disciplined

-- The runs of a system are the runs of the logged one.
namespace System

variable {ι A : Type} {R : A → Type} {σ : Type} {m : Machine ι A R σ} {S : System ι A R σ}

def Frame.forget (f : S.logged.Frame) : S.Frame :=
  ⟨f.op, f.start.fst, f.code⟩

def Config.forget (c : S.logged.Config) : S.Config :=
  ⟨c.mem.fst, fun i => (c.thr i).map Frame.forget⟩

variable {c c' : S.logged.Config} {d : S.Config}

theorem Config.exists_frame {i : ι} {f : S.Frame} (h : c.forget.thr i = some f) :
    ∃ l, c.thr i = some ⟨f.op, (f.start, l), f.code⟩ := by
  obtain ⟨⟨o, ⟨s, l⟩, p⟩, hf, rfl⟩ := Option.map_eq_some_iff.mp h
  exact ⟨l, hf⟩

theorem Config.returning_of_forget {i : ι} {o : S.Op} {s : σ} {v : S.Ret o} (h : c.forget.Returning i o s v) :
    ∃ l, c.Returning i o (s, l) v :=
  exists_frame h

theorem Initial.forget (h : S.logged.Initial c) : S.Initial c.forget :=
  ⟨h.mem.left, fun i => by simp [Config.forget, h.idle i]⟩

variable [DecidableEq ι]

theorem Config.forget_update {i : ι} {f : Option S.logged.Frame} {mem : σ × Log ι A R} :
    Config.forget ⟨mem, Function.update c.thr i f⟩ =
      ⟨mem.fst, Function.update c.forget.thr i (f.map Frame.forget)⟩ := by
  refine Config.ext rfl (funext fun j => ?_)
  by_cases hj : j = i
  case pos => subst hj; simp [Config.forget]
  case neg => simp [Config.forget, Function.update_of_ne hj]

theorem Step.forget (e : S.logged.Step m.logged c c') : S.Step m c.forget c'.forget := by
  cases e
  case call i o idle can =>
    rw [Config.forget_update]
    exact .call (by simp [Config.forget, idle]) can
  case act at_ exec =>
    rw [Config.forget_update]
    exact .act (congrArg (Option.map Frame.forget) at_) exec.left
  case iter at_ =>
    rw [Config.forget_update]
    exact .iter (congrArg (Option.map Frame.forget) at_)
  case ret at_ =>
    rw [Config.forget_update]
    exact .ret (congrArg (Option.map Frame.forget) at_)

theorem Steps.forget (e : S.logged.Steps m.logged c c') : S.Steps m c.forget c'.forget := by
  induction e
  case refl           => exact .refl
  case tail e e' ih => exact ih.tail e'.forget

theorem Reachable.forget : S.logged.Reachable m.logged c → S.Reachable m c.forget
  | ⟨init, e⟩ => ⟨init.forget, e.forget⟩

theorem Step.lift (e : S.Step m c.forget d) : ∃ c', S.logged.Step m.logged c c' ∧ c'.forget = d := by
  cases e
  case call i o idle can =>
    have idle : c.thr i = none := by simpa [Config.forget] using idle
    exact ⟨_, .call idle can, Config.forget_update⟩
  case act i o s a k r mem at_ exec =>
    have ⟨l, at_⟩ := Config.exists_frame at_
    have logs : m.logged.exec i a c.mem r (mem, c.mem.snd ++ [(i, ⟨a, r⟩)]) := ⟨exec, rfl⟩
    exact ⟨_, .act at_ logs, Config.forget_update⟩
  case iter i o s _ _ _ _ _ at_ =>
    have ⟨l, at_⟩ := Config.exists_frame at_
    exact ⟨_, .iter at_, Config.forget_update⟩
  case ret i o s v at_ =>
    have ⟨l, at_⟩ := Config.exists_frame at_
    exact ⟨_, .ret at_, Config.forget_update⟩

theorem Steps.lift (e : S.Steps m c.forget d) : ∃ c', S.logged.Steps m.logged c c' ∧ c'.forget = d := by
  induction e
  case refl => exact ⟨c, .refl, rfl⟩
  case tail e' ih =>
    obtain ⟨c', steps, rfl⟩ := ih
    have ⟨c'', step, same⟩ := Step.lift e'
    exact ⟨c'', steps.tail step, same⟩

theorem Reachable.lift (h : S.Reachable m d) : ∃ c, S.logged.Reachable m.logged c ∧ c.forget = d := by
  cases h
  case intro c₀ init e =>
    have start : Config.forget (S := S) ⟨(c₀.mem, []), fun _ => none⟩ = c₀ :=
      Config.ext rfl (funext fun i => (init.idle i).symm)
    have ⟨c', steps, same⟩ := Steps.lift (start ▸ e)
    exact ⟨c', ⟨⟨⟨init.mem, rfl⟩, fun _ => rfl⟩, steps⟩, same⟩

end System
