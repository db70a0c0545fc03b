import ShmemIpc.Library.Spec
import ShmemIpc.Library.Trace

-- Operations that their caller drops where they are suspended.

namespace Program

variable {ι A : Type} {R : A → Type} {σ : Type} {α β ς : Type}

-- The program up to its suspension number `n`. If it is suspended so often, then it answers `none` there,
-- and else it gives its own answer, with the number of suspensions that are left.
def cutting (stop : A → Prop) [DecidablePred stop] :
    {α : Type} → Program A R α → Nat → Program A R (Option (α × Nat))
  | _, .pure x, n        => .pure (some (x, n))
  | _, .act a k, n       =>
    if stop a then
      match n with
      | 0     => .pure none
      | n + 1 => .act a fun r => cutting stop (k r) n
    else .act a fun r => cutting stop (k r) n
  | _, .iter body x k, n =>
    .iter (fun p => (cutting stop (body p.fst) p.snd).bind fun
        | none             => .pure (.inr none)
        | some (.inl y, n) => .pure (.inl (y, n))
        | some (.inr b, n) => .pure (.inr (some (b, n)))) (x, n) fun
      | none        => .pure none
      | some (b, n) => cutting stop (k b) n

def cut (stop : A → Prop) [DecidablePred stop] (p : Program A R α) (n : Nat) : Program A R (Option α) :=
  (cutting stop p n).bind fun v => .pure (v.map Prod.fst)

-- The program is dropped at its suspension number `n` and called again, for one `n` of the list after the
-- other, until it is done.
def retry (stop : A → Prop) [DecidablePred stop] (p : Program A R α) : List Nat → Program A R (Option α)
  | []      => .pure none
  | n :: ns => (p.cut stop n).bind fun
    | none   => p.retry stop ns
    | some v => .pure (some v)

end Program

-- The protocol in which the thread `i` also knows `K` where it is suspended.
def Protocol.pausing {ι A : Type} {R : A → Type} {σ : Type} {m : Machine ι A R σ} (π : Protocol m) (i : ι)
    (stop : A → Prop) (K : σ → Prop) : Protocol m where
  inv                := π.inv
  ok j a s           := π.ok j a s ∧ (j = i → stop a → K s)
  preserves hi ho he := π.preserves hi ho.left he

section

variable {ι A : Type} {R : A → Type} {σ : Type} {m : Machine ι A R σ} {π : Protocol m} {i : ι}
variable {stop : A → Prop} {K : σ → Prop}

namespace Assertion

def pausing (P : Assertion π i) : Assertion (π.pausing i stop K) i where
  holds                := P
  stable hj hi ho he h := P.stable hj hi ho.left he h

def resuming (P : Assertion (π.pausing i stop K) i) : Assertion π i where
  holds                := P
  stable hj hi ho he h := P.stable hj hi ⟨ho, fun h => absurd h hj⟩ he h

theorem Keeps.pausing {P : Assertion π i} {S : A → Prop} (h : P.Keeps S)
    (hs : ∀ a s, S a → stop a → π.inv s → P s → K s) :
    (P.pausing : Assertion (π.pausing i stop K) i).Keeps S where
  ok ha hi hp      := ⟨h.ok ha hi hp, fun _ hk => hs _ _ ha hk hi hp⟩
  kept ha hi hp he := h.kept ha hi hp he

end Assertion

open Assertion Program

variable {α β : Type}

-- What is known of a program that is suspended only where it is permitted to be.
theorem Program.Triple.pauses {D P : Assertion π i} {p : Program A R α} {Q : α → Assertion π i}
    (hd : ∀ {a s}, stop a → π.ok i a s → D s) (h : Triple P p Q) :
    Triple (P.pausing : Assertion (π.pausing i stop D) i) p fun v => (Q v).pausing := by
  induction p generalizing P
  case pure x => exact h
  case act ih =>
    have ⟨ok, M, step, rest⟩ := act_iff.mp h
    exact act_iff.mpr ⟨fun s hi hs => ⟨ok s hi hs, fun _ hk => hd hk (ok s hi hs)⟩, fun r => (M r).pausing, step,
      fun r => ih r (rest r)⟩
  case iter ihb ihk =>
    have ⟨J, M, init, body, rest⟩ := iter_iff.mp h
    refine iter_iff.mpr ⟨fun y => (J y).pausing, fun b => (M b).pausing, init, fun y => ?_, fun b => ihk b (rest b)⟩
    refine post (fun v => ?_) (ihb y (body y))
    cases v <;> exact le_rfl

-- What is known of a program that is never suspended, or that may be suspended anywhere.
theorem Program.Triple.pausing {P : Assertion π i} {p : Program A R α} {Q : α → Assertion π i} {V : α → Prop}
    (hp : p.Only (fun a => stop a → ∀ s, K s) V) (h : Triple P p Q) :
    Triple (P.pausing : Assertion (π.pausing i stop K) i) p fun v => (Q v).pausing ⊓ .const (V v) := by
  induction p generalizing P
  case pure x => exact fun s hi hs => ⟨h s hi hs, hp⟩
  case act ih =>
    have ⟨ok, M, step, rest⟩ := act_iff.mp h
    exact act_iff.mpr
      ⟨fun s hi hs => ⟨ok s hi hs, fun _ hk => hp.left hk s⟩, fun r => (M r).pausing, step, fun r =>
      ih r (hp.right r) (rest r)⟩
  case iter ihb ihk =>
    have ⟨J, M, init, body, rest⟩ := iter_iff.mp h
    obtain ⟨W, hb, hk⟩ := hp
    refine iter_iff.mpr ⟨fun y => (J y).pausing, fun b => (M b).pausing ⊓ .const (W b), init, fun y => ?_, fun b => ?_⟩
    · refine post (fun v => ?_) (ihb y (hb y) (body y))
      cases v
      case inl => exact fun _ _ hs => hs.left
      case inr => exact le_rfl
    · exact assume fun hw => ihk b (hk b hw) (rest b)

-- What no thread makes false is still known where the program is suspended.
theorem Program.Triple.pausing_persist {P : Assertion (π.pausing i stop K) i} {p : Program A R α}
    {Q : α → Assertion (π.pausing i stop K) i} {D : Assertion π i} (hd : D.Persistent) (h : Triple P p Q) :
    Triple ((P.resuming ⊓ D).pausing : Assertion (π.pausing i stop fun s => K s ∧ D s) i) p
      fun v => ((Q v).resuming ⊓ D).pausing := by
  induction p generalizing P
  case pure x => exact fun s hi hs => ⟨h s hi hs.left, hs.right⟩
  case act ih =>
    have ⟨ok, M, step, rest⟩ := act_iff.mp h
    refine act_iff.mpr ⟨fun s hi hs => ?_, fun r => ((M r).resuming ⊓ D).pausing, fun s r s' hi hs he => ?_,
      fun r => ih r (rest r)⟩
    · exact ⟨(ok s hi hs.left).left, fun hj hk => ⟨(ok s hi hs.left).right hj hk, hs.right⟩⟩
    · exact ⟨step s r s' hi hs.left he, hd.stays hi (ok s hi hs.left).left he hs.right⟩
  case iter ihb ihk =>
    have ⟨J, M, init, body, rest⟩ := iter_iff.mp h
    refine iter_iff.mpr ⟨fun y => ((J y).resuming ⊓ D).pausing, fun b => ((M b).resuming ⊓ D).pausing,
      fun s hi hs => ⟨init s hi hs.left, hs.right⟩, fun y => ?_, fun b => ihk b (rest b)⟩
    refine post (fun v => ?_) (ihb y (body y))
    cases v <;> exact le_rfl

-- What the actions of the program keep is still known where it is suspended.
theorem Program.Triple.pausing_keeps {D P : Assertion π i} {S : A → Prop} {p : Program A R α} {Q : α → Assertion π i}
    {V : α → Prop} (hd : ∀ {a s r s'}, S a → π.inv s → π.ok i a s → m.exec i a s r s' → D s → D s') (hp : p.Only S V)
    (h : Triple P p Q) :
    Triple ((P ⊓ D).pausing : Assertion (π.pausing i stop D) i) p fun v => (Q v ⊓ D).pausing ⊓ .const (V v) := by
  induction p generalizing P
  case pure x => exact fun s hi hs => ⟨⟨h s hi hs.left, hs.right⟩, hp⟩
  case act ih =>
    have ⟨ok, M, step, rest⟩ := act_iff.mp h
    refine act_iff.mpr ⟨fun s hi hs => ⟨ok s hi hs.left, fun _ _ => hs.right⟩, fun r => (M r ⊓ D).pausing,
      fun s r s' hi hs he => ?_, fun r => ih r (hp.right r) (rest r)⟩
    exact ⟨step s r s' hi hs.left he, hd hp.left hi (ok s hi hs.left) he hs.right⟩
  case iter ihb ihk =>
    have ⟨J, M, init, body, rest⟩ := iter_iff.mp h
    obtain ⟨W, hb, hk⟩ := hp
    refine iter_iff.mpr ⟨fun y => (J y ⊓ D).pausing, fun b => (M b ⊓ D).pausing ⊓ .const (W b),
      fun s hi hs => ⟨init s hi hs.left, hs.right⟩, fun y => ?_, fun b => assume fun hw => ihk b (hk b hw) (rest b)⟩
    refine post (fun v => ?_) (ihb y (hb y) (body y))
    cases v
    case inl => exact fun _ _ hs => hs.left
    case inr => exact le_rfl

def Program.Triple.answer (D : Assertion π i) (Q : α → Assertion (π.pausing i stop D) i) :
    Option (α × Nat) → Assertion π i
  | none        => D
  | some (v, _) => (Q v).resuming

variable {D : Assertion π i}

-- A program that is cut knows `D` where it ends early.
theorem Program.Triple.cutting [DecidablePred stop] {P : Assertion (π.pausing i stop D) i} {p : Program A R α}
    {Q : α → Assertion (π.pausing i stop D) i} (h : Triple P p Q) (n : Nat) :
    Triple P.resuming (p.cutting stop n) (answer D Q) := by
  induction p generalizing P n
  case pure x => exact h
  case act a k ih =>
    have ⟨ok, M, step, rest⟩ := act_iff.mp h
    have go (n : Nat) : Triple P.resuming (.act a fun r => (k r).cutting stop n) (answer D Q) :=
      act_iff.mpr ⟨fun s hi hs => (ok s hi hs).left, fun r => (M r).resuming, step, fun r => ih r (rest r) n⟩
    unfold Program.cutting
    split
    case isFalse => exact go n
    case isTrue stops =>
      cases n
      case zero   => exact fun s hi hs => (ok s hi hs).right rfl stops
      case succ n => exact go n
  case iter body x k ihb ihk =>
    have ⟨J, M, init, hb, hk⟩ := iter_iff.mp h
    unfold Program.cutting
    refine iter_iff.mpr ⟨fun p => (J p.fst).resuming, answer D M, init, fun p => ?_, fun b => ?_⟩
    · refine (ihb p.fst (hb p.fst) p.snd).bind fun v => ?_
      rcases v with _ | ⟨_ | _, _⟩ <;> exact le_rfl
    · match b with
      | none        => exact le_rfl
      | some (b, n) => exact ihk b (hk b) n

theorem Program.Triple.cut [DecidablePred stop] {P : Assertion (π.pausing i stop D) i} {p : Program A R α}
    {Q : α → Assertion (π.pausing i stop D) i} (h : Triple P p Q) (n : Nat) :
    Triple P.resuming (p.cut stop n) fun | none => D | some v => (Q v).resuming :=
  (h.cutting n).bind fun | none | some _ => Assertion.le_rfl

-- A program that needs no more than what is known where it is suspended can be called again and again.
theorem Program.Triple.retry [DecidablePred stop] {p : Program A R α} {Q : α → Assertion (π.pausing i stop D) i}
    (h : Triple D.pausing p Q) (ns : List Nat) :
    Triple D (p.retry stop ns) fun | none => D | some v => (Q v).resuming := by
  induction ns
  case nil => exact le_rfl
  case cons n ns ih =>
    refine (h.cut n).bind fun v => ?_
    cases v
    case none   => exact ih
    case some v => exact le_rfl

end

namespace System

variable {ι A : Type} {R : A → Type} {σ : Type}

-- The same operations, some of which can also be called to be dropped where they are suspended, as often
-- as the list says.
def dropping (S : System ι A R σ) (stop : A → Prop) [DecidablePred stop] (can : S.Op → Prop) : System ι A R σ where
  Op       := S.Op ⊕ S.Op × List Nat
  Ret      := Sum.elim S.Ret fun o => Option (S.Ret o.fst)
  body i   := fun
    | .inl o       => S.body i o
    | .inr (o, ns) => (S.body i o).retry stop ns
  callable i := fun
    | .inl o      => S.callable i o
    | .inr (o, _) => fun s => can o ∧ S.callable i o s
  init     := S.init

instance {S : System ι A R σ} {stop : A → Prop} [DecidablePred stop] {can : S.Op → Prop} [DecidablePred can]
    [∀ i o s, Decidable (S.callable i o s)] : ∀ i o s, Decidable ((S.dropping stop can).callable i o s)
  | i, .inl o, s      => inferInstanceAs (Decidable (S.callable i o s))
  | i, .inr (o, _), s => inferInstanceAs (Decidable (can o ∧ S.callable i o s))

end System

open Program

-- Dropped operations leave behind what is known where they are suspended.
def Verified.dropping {ι A : Type} {R : A → Type} {σ : Type} {m : Machine ι A R σ} {S : System ι A R σ} {π : Protocol m}
    (V : Verified S π) (stop : A → Prop) [DecidablePred stop] (can : S.Op → Prop)
    (D : (i : ι) → S.Op → σ → Assertion π i)
    (spec : ∀ {i o s}, π.inv s → V.idle i s → can o → S.callable i o s →
      ∃ K : Assertion π i, K s ∧ K ≤ V.idle i ⊓ D i o s ∧
        (S.body i o).Triple (K.pausing : Assertion (π.pausing i stop K) i)
          fun v => (V.idle i ⊓ V.post i o s v).pausing) :
    Verified (S.dropping stop can) π where
  idle := V.idle
  post i := fun
    | .inl o      => fun s v => V.post i o s v
    | .inr (o, _) => fun s => fun
      | none   => D i o s
      | some v => V.post i o s v
  init := V.init
  spec := by
    rintro i (o | ⟨o, ns⟩) s hi hs h
    · exact V.spec hi hs h
    · obtain ⟨K, hk, known, triple⟩ := spec hi hs h.left h.right
      refine ⟨K, hk, (triple.retry ns).post fun v => ?_⟩
      cases v
      case none   => exact known
      case some v => exact fun _ _ hv => hv

open Discipline in
-- As above, for what the operations have done.
def Disciplined.dropping {ι A : Type} {R : A → Type} {σ : Type} {m : Machine ι A R σ} {S : System ι A R σ}
    (D : Disciplined m S) (stop : A → Prop) [DecidablePred stop] (can : S.Op → Prop) (K : S.Op → Trace A R → Prop)
    (start : ∀ o, K o []) (stops : ∀ {o t a}, can o → stop a → (D.rule o).ok t a → K o t)
    (spec : ∀ {i o s}, D.inv s → can o → S.callable i o s →
      (S.body i o).Triple (known (K o) : (D.rule o).Knows) fun v => known (D.post o v)) :
    Disciplined m (S.dropping stop can) where
  rule  := fun | .inl o | .inr (o, _) => D.rule o
  inv   := D.inv
  own   := D.own
  post  := fun
    | .inl o      => D.post o
    | .inr (o, _) => fun
      | none   => K o
      | some v => D.post o v
  init  := D.init
  start := D.start
  may   := by rintro (o | ⟨o, _⟩) <;> exact D.may
  step  := by rintro (o | ⟨o, _⟩) <;> exact D.step
  other := by rintro (o | ⟨o, _⟩) <;> exact D.other
  spec  := by
    rintro i (o | ⟨o, ns⟩) s hi h
    · exact D.spec hi h
    · have pauses := (spec hi h.left h.right).pauses (D := known (K o)) fun (hs : stop _) ho => stops h.left hs ho
      refine Triple.pre (fun t _ ht => ?_) ((pauses.retry ns).post fun v => ?_)
      · obtain rfl : t = [] := ht
        exact start o
      · cases v <;> exact Assertion.le_rfl
