import ShmemIpc.Library.Protocol

-- The rules of `Program.Triple` for code that may end with an error. A specification has one
-- postcondition for answers and one for errors.
namespace Code

open Program Assertion

variable {ι A : Type} {R : A → Type} {σ : Type} {m : Machine ι A R σ} {π : Protocol m} {i : ι}
variable {ε α β ς : Type}

def outcome (M : α → Assertion π i) (E : ε → Assertion π i) : Except ε α → Assertion π i
  | .ok x    => M x
  | .error e => E e

def Spec (P : Assertion π i) (p : Code A R ε α) (M : α → Assertion π i) (E : ε → Assertion π i) :
    Prop :=
  Triple P p (outcome M E)

namespace Spec

variable {P Q : Assertion π i} {p : Code A R ε α} {M M' : α → Assertion π i}
variable {E E' : ε → Assertion π i}

theorem pre (h : Spec P p M E) (hp : Q ≤ P) : Spec Q p M E :=
  Triple.pre hp h

theorem post (h : Spec P p M E) (hm : ∀ x, M x ≤ M' x) (he : ∀ e, E e ≤ E' e) : Spec P p M' E' :=
  Triple.post (fun | .ok x => hm x | .error e => he e) h

theorem pure {x : α} (h : P ≤ M x) : Spec P (Pure.pure x) M E :=
  h

theorem throw {e : ε} (h : P ≤ E e) : Spec P (throw e) M E :=
  h

theorem ofExcept : {x : Except ε α} → P ≤ outcome M E x → Spec P (ofExcept x) M E
  | .ok _, h | .error _, h => h

theorem assume {p : Prop} {c : Code A R ε α} (h : p → Spec P c M E) : Spec (P ⊓ .const p) c M E :=
  Triple.assume h

theorem absurd : Spec (.const False) p M E :=
  Triple.absurd

theorem ex {τ : Type} {P : τ → Assertion π i} {c : Code A R ε α} (h : ∀ x, Spec (P x) c M E) :
    Spec (Assertion.ex P) c M E :=
  Triple.ex h

theorem bind {f : α → Code A R ε β} {N : β → Assertion π i} (hp : Spec P p M E)
    (hf : ∀ x, Spec (M x) (f x) N E) : Spec P (p >>= f) N E :=
  Triple.bind (M := outcome M E) (fun | .ok x => hf x | .error _ => le_rfl) hp

theorem perform {a : A} {M : R a → Assertion π i} (ok : ∀ s, π.inv s → P s → π.ok i a s)
    (step : ∀ s r s', π.inv s → P s → m.exec i a s r s' → M r s') : Spec P (perform a) M E :=
  Triple.act_iff.mpr ⟨ok, M, step, fun _ => le_rfl⟩

-- The next action, what is known after it, and the rest of the code.
theorem act {a : A} {f : R a → Code A R ε β} {N : β → Assertion π i} (M : R a → Assertion π i)
    (ok : ∀ s, π.inv s → P s → π.ok i a s)
    (step : ∀ s r s', π.inv s → P s → m.exec i a s r s' → M r s')
    (hf : ∀ r, Spec (M r) (f r) N E) : Spec P (Code.perform a >>= f) N E :=
  bind (perform ok step) hf

-- As `act`, for an action after which everything known before is still known.
theorem keep {S : A → Prop} (hs : P.Keeps S) {a : A} (ha : S a) {f : R a → Code A R ε β}
    {N : β → Assertion π i} (F : R a → Assertion π i)
    (step : ∀ s r s', π.inv s → P s → m.exec i a s r s' → F r s')
    (hf : ∀ r, Spec (P ⊓ F r) (f r) N E) : Spec P (Code.perform a >>= f) N E :=
  act (fun r => P ⊓ F r) (fun _ => hs.ok ha)
    (fun s r s' hi h he => ⟨hs.kept ha hi h he, step s r s' hi h he⟩) hf

-- As `keep`, where the answer also satisfies `q`.
theorem learn {S : A → Prop} (hs : P.Keeps S) {a : A} (ha : S a) {f : R a → Code A R ε β}
    {N : β → Assertion π i} (F : R a → Assertion π i) (q : R a → Prop)
    (step : ∀ s r s', π.inv s → P s → m.exec i a s r s' → F r s' ∧ q r)
    (hf : ∀ r, q r → Spec (P ⊓ F r) (f r) N E) : Spec P (Code.perform a >>= f) N E := by
  refine keep hs ha (fun r => F r ⊓ .const (q r)) step fun r => ?_
  exact (assume (P := P ⊓ F r) (hf r)).pre fun _ _ h => ⟨⟨h.left, h.right.left⟩, h.right.right⟩

-- As `keep`, for an action from which nothing needs to be known.
theorem skip {S : A → Prop} (hs : P.Keeps S) {a : A} (ha : S a) {f : R a → Code A R ε β}
    {N : β → Assertion π i} (hf : ∀ r, Spec P (f r) N E) : Spec P (Code.perform a >>= f) N E :=
  act (fun _ => P) (fun _ => hs.ok ha) (fun _ _ _ => hs.kept ha) hf

theorem attempt {F : ε → Assertion π i} (hp : Spec P p M E) :
    Spec P (attempt p) (outcome M E) F :=
  Triple.bind (fun _ => le_rfl) hp

-- The errors of `p` are handled by the code that follows.
theorem handle {f : Except ε α → Code A R ε β} {N : β → Assertion π i} {F : ε → Assertion π i}
    (hp : Spec P p M F) (ok : ∀ x, Spec (M x) (f (.ok x)) N E)
    (error : ∀ e, Spec (F e) (f (.error e)) N E) : Spec P (Code.attempt p >>= f) N E := by
  refine bind (attempt hp) fun v => ?_
  cases v
  case ok x    => exact ok x
  case error e => exact error e

theorem loop {body : ς → Code A R ε (ς ⊕ α)} {x : ς} (J : ς → Assertion π i) (init : P ≤ J x)
    (hb : ∀ y, Spec (J y) (body y) (Sum.elim J M) E) : Spec P (loop body x) M E := by
  refine Triple.iter_iff.mpr ⟨J, outcome M E, init, fun y => ?_, fun _ => le_rfl⟩
  refine Triple.bind (fun v => ?_) (hb y)
  match v with
  | .ok (.inl _) | .ok (.inr _) | .error _ => exact le_rfl

-- Code that keeps `P`, and then the rest.
theorem pass {S : A → Prop} {F : ε → Prop} (hs : P.Keeps S) (hp : Only S F p)
    (he : ∀ e, F e → P ≤ E e) {f : α → Code A R ε β} {N : β → Assertion π i}
    (hf : ∀ x, Spec P (f x) N E) : Spec P (p >>= f) N E := by
  refine bind (Triple.post (fun v => ?_) (Triple.only hs hp)) hf
  cases v
  case ok      => exact fun _ _ h => h.left
  case error e => exact fun s hi h => he e h.right s hi h.left

theorem only {S : A → Prop} {F : ε → Prop} (hs : P.Keeps S) (hp : Only S F p) :
    Spec P p (fun _ => P) (fun e => P ⊓ .const (F e)) := by
  refine Triple.post (fun v => ?_) (Triple.only hs hp)
  cases v
  case ok    => exact fun _ _ h => h.left
  case error => exact le_rfl

theorem persist {F : Assertion π i} (hf : F.Persistent) (h : Spec P p M E) :
    Spec (P ⊓ F) p (fun x => M x ⊓ F) (fun e => E e ⊓ F) :=
  Triple.post (Q := fun v => outcome M E v ⊓ F) (fun | .ok _ | .error _ => le_rfl)
    (Triple.persist hf h)

theorem both (h : Spec P p M E) (h' : Spec Q p M' E') :
    Spec (P ⊓ Q) p (fun x => M x ⊓ M' x) (fun e => E e ⊓ E' e) :=
  Triple.post (Q := fun v => outcome M E v ⊓ outcome M' E' v) (fun | .ok _ | .error _ => le_rfl)
    (Triple.both h h')

-- As `persist`, for code that cannot fail.
theorem carry {F : Assertion π i} (hf : F.Persistent) (h : Spec P p M (fun _ => .const False)) :
    Spec (P ⊓ F) p (fun x => M x ⊓ F) E :=
  (h.persist hf).post (fun _ => le_rfl) fun _ _ _ hs => hs.left.elim

-- A specification used where more is known, and remains known.
theorem within {P₀ : Assertion π i} (hp : P.Persistent) (hle : P ≤ P₀) (h : Spec P₀ p M E) :
    Spec P p (fun x => P ⊓ M x) (fun e => P ⊓ E e) := by
  have enough : P ≤ P₀ ⊓ P := fun s hi hs => ⟨hle s hi hs, hs⟩
  refine ((h.persist hp).pre enough).post ?_ ?_
  · exact fun _ _ _ hs => ⟨hs.right, hs.left⟩
  · exact fun _ _ _ hs => ⟨hs.right, hs.left⟩

-- Code that follows two protocols.
theorem under {π' : Protocol (m.under π)} {Q : Assertion π' i} {N : α → Assertion π' i}
    {F : ε → Assertion π' i} (h : Spec P p M E) (h' : Spec Q p N F) :
    Spec (P.under ⊓ Q) p (fun x => (M x).under ⊓ N x) (fun e => (E e).under ⊓ F e) :=
  Triple.post (Q := fun v => (outcome M E v).under ⊓ outcome N F v)
    (fun | .ok _ | .error _ => le_rfl) (Triple.under h h')

end Spec
end Code
