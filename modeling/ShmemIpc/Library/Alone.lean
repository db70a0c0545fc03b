import ShmemIpc.Library.System

namespace Program

variable {ι A : Type} {R : A → Type} {σ : Type} {m : Machine ι A R σ} {i : ι} {α β ς : Type}

-- If the thread `i` runs the program from the state `s` while the other threads do nothing, then it
-- never blocks, and it ends with an answer and in a state that satisfy `Q`.
inductive Alone (m : Machine ι A R σ) (i : ι) : {α : Type} → Program A R α → σ → (α → σ → Prop) → Prop
  | pure {α : Type} {x : α} {s Q} (h : Q x s) : Alone m i (.pure x) s Q
  | act {α : Type} {a s} {k : R a → Program A R α} {Q} (runs : ∃ r s', m.exec i a s r s')
      (rest : ∀ r s', m.exec i a s r s' → Alone m i (k r) s' Q) : Alone m i (.act a k) s Q
  | iter {α ς β : Type} {body : ς → Program A R (ς ⊕ β)} {x s} {k : β → Program A R α} {Q}
      (rest : Alone m i ((body x).bind (next body k)) s Q) : Alone m i (.iter body x k) s Q

namespace Alone

variable {p : Program A R α} {s : σ} {Q Q' : α → σ → Prop}

theorem mono (h : Alone m i p s Q) (hq : ∀ v s', Q v s' → Q' v s') : Alone m i p s Q' := by
  induction h
  case pure h          => exact .pure (hq _ _ h)
  case act runs _ ih   => exact .act runs fun r s' e => ih r s' e hq
  case iter ih         => exact .iter (ih hq)

-- Some end satisfies all that is known of the ends.
theorem exists_both (h : Alone m i p s Q) (h' : Alone m i p s Q') : ∃ v s', Q v s' ∧ Q' v s' := by
  induction h
  case pure x s _ hq =>
    cases h'
    case pure hq' => exact ⟨x, s, hq, hq'⟩
  case act runs _ ih =>
    cases h'
    case act _ rest =>
      have ⟨r, s', e⟩ := runs
      exact ih r s' e (rest r s' e)
  case iter ih =>
    cases h'
    case iter rest => exact ih rest

theorem bind {M : α → σ → Prop} {f : α → Program A R β} {Q : β → σ → Prop} (h : Alone m i p s M)
    (hf : ∀ v s', M v s' → Alone m i (f v) s' Q) : Alone m i (p.bind f) s Q := by
  induction h
  case pure h        => exact hf _ _ h
  case act runs _ ih => exact .act runs fun r s' e => ih r s' e hf
  case iter ih       =>
    refine .iter ?_
    rw [← next_bind]
    exact ih hf

end Alone
end Program

namespace Code

variable {ι A : Type} {R : A → Type} {σ : Type} {ε α β ς : Type}

def Alone (m : Machine ι A R σ) (i : ι) (p : Code A R ε α) (s : σ) (Q : Except ε α → σ → Prop) : Prop :=
  Program.Alone m i p s Q

namespace Alone

variable {m : Machine ι A R σ} {i : ι} {p : Code A R ε α} {f : α → Code A R ε β} {s : σ} {Q : Except ε β → σ → Prop}

theorem mono {Q Q' : Except ε α → σ → Prop} (h : Alone m i p s Q) (hq : ∀ v s', Q v s' → Q' v s') : Alone m i p s Q' :=
  Program.Alone.mono h hq

theorem pure {x : β} (h : Q (.ok x) s) : Alone m i (Pure.pure x) s Q :=
  Program.Alone.pure h

theorem throw {e : ε} (h : Q (.error e) s) : Alone m i (throw e) s Q :=
  Program.Alone.pure h

theorem ofExcept {x : Except ε β} (h : Q x s) : Alone m i (Code.ofExcept x) s Q := by
  cases x
  case ok    => exact pure h
  case error => exact throw h

theorem act {a : A} {f : R a → Code A R ε β} (runs : ∃ r s', m.exec i a s r s')
    (rest : ∀ r s', m.exec i a s r s' → Alone m i (f r) s' Q) : Alone m i (perform a >>= f) s Q :=
  Program.Alone.act runs rest

-- An action with a single outcome.
theorem step {a : A} {f : R a → Code A R ε β} {v : R a} {s' : σ} (h : ∀ r t, m.exec i a s r t ↔ r = v ∧ t = s')
    (rest : Alone m i (f v) s' Q) : Alone m i (perform a >>= f) s Q := by
  refine act ⟨v, s', (h _ _).mpr ⟨rfl, rfl⟩⟩ fun r t e => ?_
  obtain ⟨rfl, rfl⟩ := (h _ _).mp e
  exact rest

theorem last {a : A} {Q : Except ε (R a) → σ → Prop} (runs : ∃ r s', m.exec i a s r s')
    (rest : ∀ r s', m.exec i a s r s' → Q (.ok r) s') : Alone m i (perform a) s Q :=
  Program.Alone.act runs fun r s' e => .pure (rest r s' e)

theorem bind {M : Except ε α → σ → Prop} (h : Alone m i p s M) (ok : ∀ x s', M (.ok x) s' → Alone m i (f x) s' Q)
    (error : ∀ e s', M (.error e) s' → Q (.error e) s') : Alone m i (p >>= f) s Q :=
  Program.Alone.bind h fun
    | .ok x    => ok x
    | .error e => fun s' h => .pure (error e s' h)

theorem attempt {f : Except ε α → Code A R ε β} {M : Except ε α → σ → Prop} (h : Alone m i p s M)
    (rest : ∀ v s', M v s' → Alone m i (f v) s' Q) : Alone m i (attempt p >>= f) s Q := by
  refine bind (M := fun v s' => ∃ w, v = .ok w ∧ M w s') ?_ ?_ nofun
  · exact Program.Alone.bind h fun v s' hv => .pure ⟨v, rfl, hv⟩
  · rintro v s' ⟨w, hw, hv⟩
    cases hw
    exact rest _ s' hv

theorem loop {body : ς → Code A R ε (ς ⊕ β)} {x : ς} {M : Except ε (ς ⊕ β) → σ → Prop}
    (h : Alone m i (body x) s M) (again : ∀ y s', M (.ok (.inl y)) s' → Alone m i (loop body y) s' Q)
    (done : ∀ v s', M (.ok (.inr v)) s' → Q (.ok v) s') (error : ∀ e s', M (.error e) s' → Q (.error e) s') :
    Alone m i (Code.loop body x) s Q := by
  have turns : Program.Alone m i (turn (body x)) s fun
      | .inl y, s'          => M (.ok (.inl y)) s'
      | .inr (.ok v), s'    => M (.ok (.inr v)) s'
      | .inr (.error e), s' => M (.error e) s' :=
    Program.Alone.bind h fun
      | .ok (.inl _), _, hv | .ok (.inr _), _, hv | .error _, _, hv => .pure hv
  exact .iter (Program.Alone.bind turns fun
    | .inl y, s', hv          => again y s' hv
    | .inr (.ok v), s', hv    => .pure (done v s' hv)
    | .inr (.error e), s', hv => .pure (error e s' hv))

end Alone
end Code
