import ShmemIpc.Library.Verified
import ShmemIpc.Library.Schedule
import ShmemIpc.Windows.Protocol

open Function Assertion Code

namespace Windows

variable {task i : ThreadId} {α : Type} {s : State} {l : Local} {o : Owned} {a : Act} {k : Slot}

-- The thread stands at `l`.
def stands (l : Local) : Assertion (protocol task) i where
  holds s             := Local.of i s = l
  stable ne _ ok e h  := (Local.of_other ne ok e).trans h

def owns (o : Owned) : Assertion (protocol task) task where
  holds s             := Owned.of s = o
  stable ne _ ok e h  := (Owned.of_other ne ok e).trans h

def looked (n : Nat) : Assertion (protocol task) task where
  holds               := Looked n
  stable ne _ ok e h  := h.kept ok e (quiet_of_other ne ok)

-- The task stands at `l` and owns `o`.
def at_ (l : Local) (o : Owned) : Assertion (protocol task) task :=
  stands l ⊓ owns o

-- What a thread may do where it stands.

def Local.Allows (l : Local) : Act → Prop
  | .consumeEvent | .storeSignaled true | .bumpNotify | .loadParked | .setEvent _ | .lock _ => True
  | .unlock k => l.holds k = true
  | .getWaker => l.stage ≠ some .called
  | .wake w   => l.stage = some (.waking w)
  | _         => False

def Owned.Allows (l : Local) (o : Owned) : Act → Prop
  | .storeParked _ | .storeSignaled false | .setWaker _ => o.waiting = none
  | .swapSignaled _                                     => o.waiting = none ∧ l.holds .waker = false
  | .consumeEvent | .storeSignaled true                 => False
  | .unlock k                                           => l.holds k = true
  | .getWaker                                           => l.stage = none
  | .wake _                                             => False
  | _                                                   => True

theorem Local.Allows.ok (allows : l.Allows a) (ne : i ≠ task) (h : Local.of i s = l) : Ok task i a s := by
  subst h
  cases a
  case storeSignaled b => cases b <;> first | exact ne | cases allows
  case consumeEvent    => exact ne
  case unlock l        =>
    have held : s.fst.locked l = some i := of_decide_eq_true allows
    exact held
  case getWaker | wake => exact allows
  case bumpNotify | loadParked | setEvent | lock => trivial
  all_goals cases allows

theorem Owned.Allows.ok (allows : o.Allows l a) (hl : Local.of task s = l) (ho : Owned.of s = o) :
    Ok task task a s := by
  subst hl ho
  cases a
  case storeSignaled b => cases b <;> first | exact ⟨rfl, allows⟩ | cases allows
  case swapSignaled    =>
    refine ⟨rfl, allows.left, fun held => ?_⟩
    have free := allows.right
    simp [Local.of, held] at free
  case storeParked | setWaker                                => exact ⟨rfl, allows⟩
  case registerWait | setWaitObject | getFuture | setFuture  => exact rfl
  case unlock l =>
    have held : s.fst.locked l = some task := of_decide_eq_true allows
    exact held
  case getWaker                                              => exact fun called => by cases allows.symm.trans called
  case consumeEvent | wake                                   => cases allows
  all_goals trivial

section Steps

variable {β : Type} {N : β → Assertion (protocol task) i} {E : Error → Assertion (protocol task) i}
variable {f : a.Ret → Routine β}

theorem signals (ne : i ≠ task) (allows : l.Allows a) (hf : ∀ r, Spec (stands (l.after a r)) (f r) N E) :
    Spec (stands l) (act a >>= f) N E :=
  Spec.act (fun r => stands (l.after a r)) (fun _ _ h => allows.ok ne h)
    (fun _ _ _ _ h e => (Local.of_own e).trans (congrArg _ h)) hf

theorem signals_last {M : a.Ret → Assertion (protocol task) i} (ne : i ≠ task) (allows : l.Allows a)
    (hm : ∀ r, stands (l.after a r) ≤ M r) : Spec (stands l) (act a) M E :=
  signals ne allows fun r => Spec.pure (hm r)

end Steps

section Steps

variable {β : Type} {N : β → Assertion (protocol task) task} {E : Error → Assertion (protocol task) task}
variable {f : a.Ret → Routine β} {n : Nat}

theorem waits (allows : o.Allows l a)
    (hf : ∀ r, o.Answers a r → Spec (at_ (l.after a r) (o.after l a r)) (f r) N E) :
    Spec (at_ l o) (act a >>= f) N E := by
  refine Spec.act (fun r => at_ (l.after a r) (o.after l a r) ⊓ .const (o.Answers a r)) ?_ ?_ ?_
  · exact fun _ _ h => allows.ok h.left h.right
  · rintro s r s' _ ⟨rfl, rfl⟩ e
    exact ⟨⟨Local.of_own e, Owned.of_own e⟩, Owned.answers e⟩
  · exact fun r => Spec.assume (hf r)

theorem waits_last {M : a.Ret → Assertion (protocol task) task} (allows : o.Allows l a)
    (hm : ∀ r, o.Answers a r → at_ (l.after a r) (o.after l a r) ≤ M r) : Spec (at_ l o) (act a) M E :=
  waits allows fun r answers => Spec.pure (hm r answers)

theorem looks (allows : o.Allows l a)
    (hf : ∀ r, o.Answers a r →
      Spec (at_ (l.after a r) (o.after l a r) ⊓ given (a.Quiet r) (looked n)) (f r) N E) :
    Spec (at_ l o ⊓ looked n) (act a >>= f) N E := by
  refine Spec.act (fun r =>
    at_ (l.after a r) (o.after l a r) ⊓ given (a.Quiet r) (looked n) ⊓ .const (o.Answers a r)) ?_ ?_ ?_
  · exact fun _ _ h => allows.ok h.left.left h.left.right
  · rintro s r s' _ ⟨⟨rfl, rfl⟩, h⟩ e
    exact ⟨⟨⟨Local.of_own e, Owned.of_own e⟩, h.kept (allows.ok rfl rfl) e⟩, Owned.answers e⟩
  · exact fun r => Spec.assume (hf r)

theorem looks_on (allows : o.Allows l a) (quiet : ∀ r, a.Quiet r)
    (hf : ∀ r, o.Answers a r → Spec (at_ (l.after a r) (o.after l a r) ⊓ looked n) (f r) N E) :
    Spec (at_ l o ⊓ looked n) (act a >>= f) N E :=
  looks allows fun r answers => (hf r answers).pre fun _ _ h => ⟨h.left, h.right (quiet r)⟩

end Steps

-- The threads that signal.

section Signals

variable {E : Error → Assertion (protocol task) i}

theorem wakeHandle_spec (ne : i ≠ task) {b : Bool} :
    Spec (stands { Local.idle with owes := b }) wakeHandle (fun _ => stands .idle) E :=
  have sets {k : SignalKind} {l : Local} : l.Allows (.setEvent k) := trivial
  signals ne sets fun _ => signals_last ne sets fun _ => le_rfl

theorem notify_spec (ne : i ≠ task) : Spec (stands .idle) notify (fun _ => stands .idle) E := by
  have bumps : Local.idle.Allows .bumpNotify := trivial
  have loads {l : Local} : l.Allows .loadParked := trivial
  refine signals ne bumps fun _ => signals ne loads fun n => ?_
  by_cases none : n = 0
  case pos =>
    rw [if_neg (not_not.mpr none)]
    exact .pure (by subst none; exact le_rfl)
  case neg =>
    rw [if_pos none]
    exact (wakeHandle_spec ne).pre (by simp only [Local.after, if_neg none]; exact le_rfl)

theorem force_spec (ne : i ≠ task) : Spec (stands .idle) force (fun _ => stands .idle) E :=
  have bumps : Local.idle.Allows .bumpNotify := trivial
  signals ne bumps fun _ => wakeHandle_spec ne

end Signals

theorem waitCallback_spec {E : Error → Assertion (protocol task) i} (ne : i ≠ task) :
    Spec (stands { Local.idle with stage := some .called }) waitCallback (fun _ => stands .idle)
      E := by
  have stores {l : Local} : l.Allows (.storeSignaled true) := trivial
  have locks {l : Local} : l.Allows (.lock .waker) := trivial
  refine signals ne stores fun _ => signals ne locks fun _ => signals ne ?gets fun w => signals ne ?unlocks fun _ => ?_
  case gets    => simp [Local.Allows, Local.after]
  case unlocks => simp [Local.Allows, Local.after]
  cases w
  case none   => exact .pure (by simp [Local.after, Local.idle, le_rfl])
  case some w =>
    refine signals_last ne ?_ fun _ => ?_
    · simp [Local.Allows, Local.after]
    · simp [Local.after, Local.idle, le_rfl]

theorem pool_spec {E : Error → Assertion (protocol task) i} (ne : i ≠ task) :
    Spec (stands .idle) pool (fun _ => stands .idle) E :=
  have consumes : Local.idle.Allows .consumeEvent := trivial
  signals ne consumes fun _ => waitCallback_spec ne

-- The task.

variable {E : Error → Assertion (protocol task) task} {cx : Waker} {n : Nat}

theorem clearWaiter_spec (waiting : o.waiting = none) :
    Spec (at_ .idle o) AsyncWaitState.clearWaiter (fun _ => at_ .idle { o with waker := none }) E := by
  have stores {l : Local} : o.Allows l (.storeSignaled false) := waiting
  have sets {l : Local} : o.Allows l (.setWaker none) := waiting
  refine waits stores fun _ _ => waits ?locks fun _ _ => waits sets fun _ _ => waits_last ?unlocks fun _ _ => ?_
  case locks   => trivial
  case unlocks => simp [Owned.Allows, Local.after]
  simp [Local.after, Owned.after, Local.idle, le_rfl]

-- What is left of a future that has been disarmed.
def Owned.disarmed (o : Owned) (f : WaitChanged) : Owned :=
  if f.armed = true
    then { o with waiting := none, waker := none, parked := 0, future := some { f with armed := false } }
    else { o with waiting := none }

theorem disarm_spec {f : WaitChanged} (future : o.future = some f) :
    Spec (at_ .idle o) WaitChanged.disarm (fun _ => at_ .idle (o.disarmed f)) E := by
  refine waits ?_ fun f' answers => ?_
  case refine_1 => trivial
  obtain rfl : f = f' := Option.some.inj (future.symm.trans answers)
  by_cases armed : f.armed = true
  case neg =>
    simp only [Owned.disarmed, if_neg armed]
    exact .pure le_rfl
  case pos =>
    simp only [Owned.disarmed, if_pos armed]
    refine Spec.bind (clearWaiter_spec rfl) fun _ => waits ?_ fun _ _ => waits_last ?_ fun _ _ => le_rfl
    all_goals trivial

theorem drop_spec {f : WaitChanged} (future : o.future = some f) :
    Spec (at_ .idle o) WaitChanged.drop (fun _ => at_ .idle { o.disarmed f with future := none }) E := by
  refine Spec.bind (disarm_spec future) fun _ => waits_last ?_ fun _ _ => le_rfl
  trivial

theorem prepareWait_spec (kept : o.waitObject = true → o.registered = true) :
    Spec (at_ .idle o) AsyncWaitState.prepareWait (fun
      | .ok _    => at_ .idle { o with registered := true, waitObject := true }
      | .error _ => at_ .idle o) E := by
  refine waits ?_ fun _ _ => waits ?_ fun has answers => ?_
  case refine_1 => trivial
  case refine_2 => trivial
  cases has
  case true =>
    have has : o.waitObject = true := answers.symm
    refine waits ?_ fun _ _ => .pure ?_
    case refine_1 => simp [Owned.Allows, Local.after]
    have same : { o with registered := true, waitObject := true } = o := by
      ext1 <;> simp [has, kept has]
    simp [Local.after, Owned.after, Local.idle, same, le_rfl]
  case false =>
    refine waits ?_ fun registered _ => ?_
    case refine_1 => trivial
    cases registered
    case error e =>
      refine waits ?_ fun _ _ => .pure ?_
      case refine_1 => simp [Owned.Allows, Local.after]
      simp [Local.after, Owned.after, Local.idle, le_rfl]
    case ok =>
      refine waits ?_ fun _ _ => waits ?_ fun _ _ => .pure ?_
      case refine_1 => trivial
      case refine_2 => simp [Owned.Allows, Local.after]
      simp [Local.after, Owned.after, Local.idle, le_rfl]

theorem storeWaker_spec (stage : l.stage = none) (waiting : o.waiting = none) :
    Spec (at_ l o ⊓ looked n) (AsyncWaitState.storeWaker cx)
      (fun _ => at_ l { o with waker := some cx } ⊓ looked n) E := by
  refine looks_on stage (fun _ => trivial) fun w answers => ?_
  obtain rfl : w = o.waker := answers
  have same : l.after .getWaker o.waker = l := by simp [Local.after, stage]; rw [← stage]
  rw [same]
  by_cases stored : o.waker.any (· == cx) = true
  case pos =>
    rw [if_pos stored]
    have waker : o.waker = some cx := by
      cases h : o.waker <;> simp_all
    have same : { o with waker := some cx } = o := by ext1 <;> simp [waker]
    exact .pure (by rw [same]; exact le_rfl)
  case neg =>
    rw [if_neg stored]
    exact looks_on (a := .setWaker (some cx)) (f := Pure.pure) waiting (fun _ => trivial) fun _ _ => .pure le_rfl

-- A future that is registered to be woken.
structure Owned.Armed (o : Owned) (f : WaitChanged) : Prop where
  future     : o.future = some f
  parked     : o.parked ≠ 0
  registered : o.registered = true

-- The last look at the signal, with the lock of the waker.
theorem settles {f : WaitChanged} {b : Bool} {β : Type} {N : β → Assertion (protocol task) task}
    {g : Bool → Routine β} (armed : o.Armed f) (waker : o.waker = some cx) (waiting : o.waiting = none)
    (hf : ∀ r, Spec (at_ (l.after (.swapSignaled b) r) (o.after l (.swapSignaled b) r)) (g r) N E) :
    Spec (at_ l o ⊓ looked f.observed) (act (.swapSignaled b) >>= g) N E := by
  refine Spec.act (fun r => at_ (l.after (.swapSignaled b) r) (o.after l (.swapSignaled b) r)) ?_ ?_ hf
  · rintro s _ ⟨⟨rfl, rfl⟩, h⟩
    exact ⟨rfl, waiting, fun _ => ⟨armed.registered, f, cx, armed.future, waker, h⟩⟩
  · rintro s r s' _ ⟨⟨rfl, rfl⟩, _⟩ e
    exact ⟨Local.of_own e, Owned.of_own e⟩

theorem poll_spec {f : WaitChanged} (armed : o.Armed f) (waiting : o.waiting = none) :
    Spec (at_ .idle o ⊓ looked f.observed) (AsyncWaitState.poll cx) (fun
      | .ready _ => ex fun w => at_ .idle { o with waker := w }
      | .pending => at_ .idle { o with waker := some cx, waiting := some ⟨f.observed, cx⟩ }) E := by
  refine looks ⟨waiting, rfl⟩ fun found _ => ?_
  cases found
  case true  => exact .pure fun _ _ h => ⟨o.waker, h.left⟩
  case false =>
    have locks : o.Allows .idle (.lock .waker) := trivial
    refine Spec.pre (P := at_ .idle o ⊓ looked f.observed) ?_ fun _ _ h => ⟨h.left, h.right rfl⟩
    refine looks_on locks (fun _ => trivial) fun _ _ => Spec.bind (storeWaker_spec rfl waiting) fun _ => ?_
    have armed' : Owned.Armed { o with waker := some cx } f := ⟨armed.future, armed.parked, armed.registered⟩
    refine settles armed' rfl waiting fun found => ?_
    cases found
    case true =>
      refine waits waiting fun _ _ => waits ?_ fun _ _ => ?_
      case refine_1 => simp [Owned.Allows, Local.after]
      exact .pure fun _ _ h => ⟨none, by simpa [Local.after, Owned.after, Local.idle] using h⟩
    case false =>
      refine waits ?_ fun _ _ => .pure ?_
      case refine_1 => simp [Owned.Allows, Local.after]
      simp [Local.after, Owned.after, Local.idle, armed.future, le_rfl]

-- A future between two turns of its loop.
structure Owned.Open (o : Owned) (n : Nat) (armed : Bool) : Prop where
  future     : o.future = some ⟨n, armed⟩
  kept       : o.waitObject = true → o.registered = true
  parked     : armed = true → o.parked ≠ 0
  registered : armed = true → o.registered = true
  unparked   : armed = false → o.parked = 0
  unwoken    : armed = false → o.waker = none

-- A future that is about to be dropped.
structure Owned.Done (o : Owned) (n : Nat) (armed : Bool) : Prop where
  future     : o.future = some ⟨n, armed⟩
  kept       : o.waitObject = true → o.registered = true
  unparked   : armed = false → o.parked = 0
  unwoken    : armed = false → o.waker = none

structure Owned.Pending (o : Owned) (n : Nat) (w : Waker) : Prop where
  future     : o.future = some ⟨n, true⟩
  kept       : o.waitObject = true → o.registered = true
  parked     : o.parked ≠ 0
  registered : o.registered = true
  waker      : o.waker = some w
  waiting    : o.waiting = some ⟨n, w⟩

structure Owned.Clear (o : Owned) : Prop where
  kept     : o.waitObject = true → o.registered = true
  unparked : o.parked = 0
  unwoken  : o.waker = none
  waiting  : o.waiting = none

-- The task between its operations.
inductive Owned.Settled (o : Owned) : Prop
  | absent (future : o.future = none) (clear : o.Clear)
  | fresh {n : Nat} (future : o.future = some ⟨n, false⟩) (clear : o.Clear)
  | pending {n : Nat} {w : Waker} (pending : o.Pending n w)

theorem Owned.Clear.open {n : Nat} (clear : o.Clear) (future : o.future = some ⟨n, false⟩) : o.Open n false :=
  ⟨future, clear.kept, nofun, nofun, fun _ => clear.unparked, fun _ => clear.unwoken⟩

theorem Owned.Pending.open {w : Waker} (pending : o.Pending n w) : o.Open n true :=
  ⟨pending.future, pending.kept, fun _ => pending.parked, fun _ => pending.registered, nofun, nofun⟩

theorem Owned.Open.done {armed : Bool} (h : o.Open n armed) : o.Done n armed :=
  ⟨h.future, h.kept, h.unparked, h.unwoken⟩

theorem Owned.Open.disarmed {armed : Bool} (h : o.Open n armed) : (o.disarmed ⟨n, armed⟩).Done n false := by
  cases armed
  case true  => exact ⟨rfl, h.kept, fun _ => rfl, fun _ => rfl⟩
  case false => exact ⟨h.future, h.kept, h.unparked, h.unwoken⟩

theorem Owned.Done.clear {armed : Bool} (h : o.Done n armed) :
    Owned.Clear { o.disarmed ⟨n, armed⟩ with future := none } := by
  cases armed
  case true  => exact ⟨h.kept, rfl, rfl, rfl⟩
  case false => exact ⟨h.kept, h.unparked rfl, h.unwoken rfl, rfl⟩

-- What is known of the future that observed `n`.

def opened (n : Nat) : Assertion (protocol task) task :=
  ex fun o : Owned => at_ .idle o ⊓ .const (∃ armed, o.Open n armed)

def done (n : Nat) : Assertion (protocol task) task :=
  ex fun o : Owned => at_ .idle o ⊓ .const (∃ armed, o.Done n armed)

def pending (n : Nat) (w : Waker) : Assertion (protocol task) task :=
  ex fun o : Owned => at_ .idle o ⊓ .const (o.Pending n w)

def settled : Assertion (protocol task) task :=
  ex fun o : Owned => at_ .idle o ⊓ .const o.Settled

-- What is known after a poll.
def polled (n : Nat) (cx : Waker) : Poll Unit → Assertion (protocol task) task
  | .ready _ => done n
  | .pending => pending n cx

-- The look at the notify word.
theorem loads {β : Type} {N : β → Assertion (protocol task) task} {f : Nat → Routine β} (parked : o.parked ≠ 0)
    (same : Spec (at_ l o ⊓ looked n) (f n) N E) (differs : ∀ r, r ≠ n → Spec (at_ l o) (f r) N E) :
    Spec (at_ l o) (act .loadNotify >>= f) N E := by
  refine Spec.act (a := .loadNotify) (fun r => at_ l o ⊓ given (r = n) (looked n)) ?_ ?_ fun r => ?_
  · exact fun _ _ _ => True.intro
  · rintro s r s' _ ⟨hl, ho⟩ e
    refine ⟨⟨(Local.of_own e).trans hl, (Owned.of_own e).trans ho⟩, fun eq => ?_⟩
    obtain ⟨⟨rfl, h⟩, _⟩ := e
    refine ⟨by rw [h]; subst ho; exact parked, fun differs => ?_⟩
    rw [h] at differs
    exact absurd eq differs
  · by_cases eq : r = n
    case pos => subst eq; exact same.pre fun _ _ h => ⟨h.left, h.right rfl⟩
    case neg => exact (differs r eq).pre fun _ _ h => h.left

-- The future gives up, as the word has changed.
theorem gives_up {β : Type} {armed : Bool} (h : o.Open n armed) {N : β → Assertion (protocol task) task}
    {f : Unit → Routine β} (hf : Spec (done n) (f ()) N E) : Spec (at_ .idle o) (WaitChanged.disarm >>= f) N E :=
  Spec.bind (disarm_spec h.future) fun _ => hf.pre fun _ _ hs => ⟨_, hs, false, h.disarmed⟩

theorem arms_spec (h : o.Open n false) (waiting : o.waiting = none) :
    Spec (at_ .idle o) (do
      act (.storeParked 1)
      act .fence
      act (.setFuture (some ⟨n, true⟩))
      match ← AsyncWaitState.prepareWait with
      | .ok _    => Pure.pure (.inl ())
      | .error e => Code.throw (.io e))
      (Sum.elim (fun _ => opened n) (polled n cx)) fun _ => (done n : Assertion (protocol task) task) := by
  refine waits waiting fun _ _ => waits ?_ fun _ _ => waits ?_ fun _ _ => ?_
  case refine_1 => trivial
  case refine_2 => trivial
  refine Spec.bind (prepareWait_spec h.kept) fun v => ?_
  cases v
  case ok =>
    refine .pure fun _ _ hs => ⟨_, hs, true, rfl, fun _ => rfl, ?_, fun _ => rfl, nofun, nofun⟩
    exact fun _ => Nat.one_ne_zero
  case error e => exact .throw fun _ _ hs => ⟨_, hs, true, rfl, h.kept, nofun, nofun⟩

theorem armed_spec (h : o.Open n true) (waiting : o.waiting = none) :
    Spec (at_ .idle o ⊓ looked n) (do
      match ← AsyncWaitState.poll cx with
      | .pending          => Pure.pure (.inr .pending)
      | .ready (.ok _)    => Pure.pure (.inl ())
      | .ready (.error e) => do
        WaitChanged.disarm
        Code.throw (.io e))
      (Sum.elim (fun _ => opened n) (polled n cx)) fun _ => (done n : Assertion (protocol task) task) := by
  have armed : o.Armed ⟨n, true⟩ := ⟨h.future, h.parked rfl, h.registered rfl⟩
  refine Spec.bind (poll_spec armed waiting) fun v => ?_
  cases v
  case pending =>
    refine .pure fun _ _ hs => ⟨_, hs, h.future, h.kept, h.parked rfl, h.registered rfl, rfl, rfl⟩
  case ready v =>
    refine .ex fun w => ?_
    have h' : Owned.Open { o with waker := w } n true := ⟨h.future, h.kept, h.parked, h.registered, nofun, nofun⟩
    cases v
    case ok    => exact .pure fun _ _ hs => ⟨_, hs, true, h'⟩
    case error => exact gives_up h' (.throw Assertion.le_rfl)

theorem turn_spec :
    Spec (opened n) (WaitChanged.turn cx) (Sum.elim (fun _ => opened n) (polled n cx))
      fun _ => (done n : Assertion (protocol task) task) := by
  refine .ex fun o => .assume fun ⟨armed, h⟩ => waits ?_ fun f answers => ?_
  case refine_1 => trivial
  obtain rfl : ⟨n, armed⟩ = f := Option.some.inj (h.future.symm.trans answers)
  have h' : Owned.Open { o with waiting := none } n armed :=
    ⟨h.future, h.kept, h.parked, h.registered, h.unparked, h.unwoken⟩
  cases armed
  case false =>
    refine waits ?_ fun r _ => ?_
    case refine_1 => trivial
    by_cases differs : r = n
    case pos =>
      rw [if_neg (not_not.mpr differs)]
      exact arms_spec h' rfl
    case neg =>
      rw [if_pos differs]
      exact gives_up h' (.pure Assertion.le_rfl)
  case true =>
    refine loads (n := n) (h'.parked rfl) ?_ fun r differs => ?_
    · rw [if_neg (not_not.mpr rfl)]
      exact armed_spec h' rfl
    · rw [if_pos differs]
      exact gives_up h' (.pure Assertion.le_rfl)

theorem waitChanged_poll_spec :
    Spec (opened n) (WaitChanged.poll cx) (polled n cx) fun _ => (done n : Assertion (protocol task) task) :=
  .loop (fun _ => opened n) le_rfl fun _ => turn_spec

theorem drops_spec {n : Nat} : Spec (done n) WaitChanged.drop (fun _ => settled) E := by
  refine .ex fun o => .assume fun ⟨armed, h⟩ => ?_
  exact (drop_spec h.future).post (fun _ _ _ hs => ⟨_, hs, .absent rfl h.clear⟩) fun _ => le_rfl

-- What is known after a poll of `wait_changed`.
def answered (n : Nat) (cx : Waker) : Poll Unit → Assertion (protocol task) task
  | .ready _ => settled
  | .pending => pending n cx

theorem Owned.Pending.settled : (pending n cx : Assertion (protocol task) task) ≤ settled :=
  fun _ _ ⟨o, h, p⟩ => ⟨o, h, .pending p⟩

theorem asyncWait_poll_spec :
    Spec (opened n) (AsyncWait.poll cx) (answered n cx) fun _ => (settled : Assertion (protocol task) task) := by
  refine .handle waitChanged_poll_spec (fun v => ?_) fun e => ?_
  case refine_2 => exact .bind drops_spec fun _ => .throw le_rfl
  cases v
  case ready   => exact .bind drops_spec fun _ => .pure le_rfl
  case pending =>
    refine .ex fun o => .assume fun h => waits ?_ fun elapsed _ => ?_
    case refine_1 => trivial
    cases elapsed
    case false => exact .pure fun _ _ hs => ⟨o, hs, h⟩
    case true  =>
      refine .bind (Spec.pre (drops_spec (n := n)) ?_) fun _ => .pure le_rfl
      exact fun _ _ hs => ⟨o, hs, true, h.open.done⟩

-- The system: one task, and any number of threads that signal.
def system (task : ThreadId) : System ThreadId Act Act.Ret State where
  Op             := Operation
  Ret o          := Except Error o.Answer
  body _ o       := o.code
  callable i o s := o.Callable task i s.fst
  init s         := s.fst.Initial ∧ s.snd = .initial

def idle (i : ThreadId) : Assertion (protocol task) i :=
  stands .idle ⊓ of task settled

def post (i : ThreadId) : (o : Operation) → State → Except Error o.Answer → Assertion (protocol task) i
  | .poll cx, s, .ok .pending =>
      ex fun f : WaitChanged => of task (pending f.observed cx) ⊓ .const (s.fst.future = some f)
  | _, _, _                   => ⊤

theorem idle_of_task : (settled : Assertion (protocol task) task) ≤ idle task :=
  fun _ _ h => ⟨h.choose_spec.left.left, fun _ => h⟩

theorem idle_of_other (ne : i ≠ task) : (stands .idle : Assertion (protocol task) i) ≤ idle i :=
  fun _ _ h => ⟨h, fun eq => absurd eq ne⟩

theorem Owned.Settled.open {f : WaitChanged} (h : o.Settled) (future : o.future = some f) :
    o.Open f.observed f.armed := by
  cases h
  case absent none _            => cases none.symm.trans future
  case fresh fresh clear        => cases fresh.symm.trans future; exact clear.open fresh
  case pending pending          => cases pending.future.symm.trans future; exact pending.open

theorem Owned.Settled.clear (h : o.Settled) (future : o.future = none) : o.Clear := by
  cases h
  case absent clear    => exact clear
  case fresh fresh _   => cases fresh.symm.trans future
  case pending pending => cases pending.future.symm.trans future

theorem waitChanged_spec {observed : Nat} (clear : o.Clear) :
    Spec (at_ .idle o) (AsyncWait.waitChanged observed) (fun _ => settled) E := by
  refine waits_last ?_ fun _ _ _ _ hs => ⟨_, hs, .fresh rfl ⟨clear.kept, clear.unparked, clear.unwoken, clear.waiting⟩⟩
  trivial

-- The specification of an operation, from those of its two ends.
theorem calls {c : Operation} {P : Assertion (protocol task) i}
    (h : Spec P c.code (fun v => idle i ⊓ post i c s (.ok v)) fun e => idle i ⊓ post i c s (.error e)) :
    c.code.Triple P fun v => idle i ⊓ post i c s v :=
  Program.Triple.post (fun | .ok _ | .error _ => Assertion.le_rfl) h

theorem signals_calls {c : Operation} (ne : i ≠ task)
    (top : ∀ v, (post i c s v : Assertion (protocol task) i) = ⊤)
    (h : Spec (stands .idle) c.code (fun _ => stands .idle) fun _ => (.const False : Assertion (protocol task) i)) :
    c.code.Triple (stands .idle) fun v => (idle i ⊓ post i c s v : Assertion (protocol task) i) := by
  refine calls (h.post (fun v _ hi hs => ?_) fun _ _ _ hs => hs.elim)
  rw [top]
  exact ⟨idle_of_other ne _ hi hs, trivial⟩

theorem task_calls {c : Operation} {P : Assertion (protocol task) task}
    (top : ∀ v, post task c s v = (⊤ : Assertion (protocol task) task))
    (h : Spec P c.code (fun _ => settled) fun _ => settled) :
    c.code.Triple P fun v => idle task ⊓ post task c s v := by
  refine calls (h.post (fun v _ hi hs => ?_) fun e _ hi hs => ?_)
  · rw [top]
    exact ⟨idle_of_task _ hi hs, trivial⟩
  · rw [top]
    exact ⟨idle_of_task _ hi hs, trivial⟩

def verified (task : ThreadId) : Verified (system task) (protocol task) where
  idle := idle
  post := post
  init := by
    intro s ⟨initial, track⟩
    have stand {i : ThreadId} : Local.of i s = .idle := by
      simp [Local.of, Local.idle, track, Track.initial, initial.locked]
    refine ⟨fun x hx => ?_, fun i => ⟨stand, fun eq => ⟨Owned.of s, ⟨stand, rfl⟩, .absent initial.future ?_⟩⟩⟩
    · rw [track] at hx
      cases hx
    · refine ⟨fun has => ?_, initial.parked, initial.waker, congrArg Track.waiting track⟩
      exact nomatch initial.waitObject.symm.trans has
  spec := by
    intro i c s inv ⟨stand, settles⟩ can
    cases c
    case notify => exact ⟨_, stand, signals_calls (c := .notify) can (fun _ => rfl) (notify_spec can)⟩
    case force  => exact ⟨_, stand, signals_calls (c := .force) can (fun _ => rfl) (force_spec can)⟩
    case pool   => exact ⟨_, stand, signals_calls (c := .pool) can (fun _ => rfl) (pool_spec can)⟩
    case waitChanged observed =>
      obtain ⟨rfl, none⟩ := can
      obtain ⟨o, hs, h⟩ := settles rfl
      have clear := h.clear (hs.right ▸ none)
      exact ⟨_, hs, task_calls (c := .waitChanged observed) (fun _ => rfl) (waitChanged_spec clear)⟩
    case cancel =>
      obtain ⟨rfl, some⟩ := can
      obtain ⟨o, hs, h⟩ := settles rfl
      obtain ⟨f, future⟩ := Option.ne_none_iff_exists'.mp some
      have done : done f.observed s := ⟨o, hs, f.armed, (h.open (hs.right ▸ future)).done⟩
      exact ⟨_, done, task_calls (c := .cancel) (fun _ => rfl) drops_spec⟩
    case poll cx =>
      obtain ⟨rfl, some⟩ := can
      obtain ⟨o, hs, h⟩ := settles rfl
      obtain ⟨f, future⟩ := Option.ne_none_iff_exists'.mp some
      have opened : opened f.observed s := ⟨o, hs, f.armed, h.open (hs.right ▸ future)⟩
      refine ⟨_, opened, calls (c := .poll cx) (asyncWait_poll_spec.post (fun v _ hi hs => ?_) ?_)⟩
      case refine_2 => exact fun _ _ hi hs => ⟨idle_of_task _ hi hs, trivial⟩
      cases v
      case ready   => exact ⟨idle_of_task _ hi hs, trivial⟩
      case pending => exact ⟨idle_of_task _ hi (Owned.Pending.settled _ hi hs), f, fun _ => hs, future⟩

section Runs

variable {c d : (system task).Config} {f : WaitChanged}

-- A run in which the task does not go on: it may only return from what it was doing.
def Rests (task : ThreadId) : (system task).Config → (system task).Config → Prop :=
  Relation.ReflTransGen fun c d =>
    (system task).Step machine c d ∧ ∀ f, d.thr task = some f → c.thr task = some f

-- A thread that is going to signal, the event, a callback that is going to wake `w`, or a wake of `w` since the poll.
def Woken (w : Waker) (c : (system task).Config) : Prop :=
  (∃ j, c.thr j ≠ none ∧ c.mem.snd.owes j = true) ∨
  (c.mem.fst.registered = true ∧ c.mem.fst.signalled .async = true) ∨
  (∃ j, c.thr j ≠ none ∧
    (c.mem.snd.stage j = some .called ∨ c.mem.snd.stage j = some .stored ∨ c.mem.snd.stage j = some (.waking w))) ∨
  c.mem.snd.woken = true

theorem busy_of_local (h : (system task).Reachable machine c) {j : ThreadId} (ne : Local.of j c.mem ≠ .idle) :
    c.thr j ≠ none :=
  fun idle => ne ((verified task).idle_of_reachable h idle).left

theorem woken_of_waiting (h : (system task).Reachable machine c) {x : Waiting} (waiting : c.mem.snd.waiting = some x)
    (differs : c.mem.fst.notify ≠ x.observed) : Woken x.waker c := by
  have waited := (verified task).inv_of_reachable h x waiting
  obtain ⟨j, owes⟩ | set | ⟨j, stage⟩ | woken := waited.wakes differs
  case inl =>
    refine .inl ⟨j, busy_of_local h fun idle => ?_, owes⟩
    exact nomatch owes.symm.trans (congrArg Local.owes idle)
  case inr.inl => exact .inr (.inl ⟨waited.registered, set⟩)
  case inr.inr.inl =>
    refine .inr (.inr (.inl ⟨j, busy_of_local h fun idle => ?_, stage⟩))
    have none : c.mem.snd.stage j = none := congrArg Local.stage idle
    rw [none] at stage
    simp at stage
  case inr.inr.inr => exact .inr (.inr (.inr woken))

-- The task of a pending poll, until it goes on.
structure Suspended (task : ThreadId) (cx : Waker) (s : State) (n : Nat) (c : (system task).Config) : Prop where
  reach   : (system task).Reachable machine c
  thread  : c.thr task = none ∨ c.Returning task (.poll cx) s (.ok .pending)
  pending : (pending n cx : Assertion (protocol task) task) c.mem

theorem Suspended.step (h : Suspended task cx s n c) (e : (system task).Step machine c d)
    (rests : ∀ f, d.thr task = some f → c.thr task = some f) : Suspended task cx s n d := by
  refine ⟨h.reach.step e, ?_, ?_⟩
  · cases frame : d.thr task
    case none   => exact .inl rfl
    case some f =>
      refine h.thread.imp (fun none => ?_) fun ret => ?_
      · exact nomatch none.symm.trans (rests f frame)
      · exact frame.trans ((rests f frame).symm.trans ret)
  · obtain same | ⟨j, a, r, next, _, ok, exec⟩ := (verified task).mem_of_step h.reach e
    case inl => exact same ▸ h.pending
    case inr =>
      have ne : j ≠ task := by
        rintro rfl
        obtain ⟨_, _, _, frame⟩ := next
        exact h.thread.elim (fun none => nomatch none.symm.trans frame) fun ret => nomatch ret.symm.trans frame
      exact Assertion.stable _ ne ((verified task).inv_of_reachable h.reach) ok exec h.pending

theorem Suspended.steps (h : Suspended task cx s n c) (e : Rests task c d) : Suspended task cx s n d := by
  induction e
  case refl          => exact h
  case tail _ e'' ih => exact ih.step e''.left e''.right

theorem suspended_of_returning (h : (system task).Reachable machine c)
    (ret : c.Returning task (.poll cx) s (.ok .pending)) :
    ∃ f, s.fst.future = some f ∧ Suspended task cx s f.observed c := by
  obtain ⟨f, pending, future⟩ := ((verified task).post_of_returning h ret).right
  exact ⟨f, future, h, .inr ret, pending rfl⟩

-- While the task of a pending poll is suspended, a change of the notify word reaches its waker. A future that is gone
-- has left nothing behind.
theorem no_lost_wakeup (h : (system task).Reachable machine c) :
    (∀ cx s, c.Returning task (.poll cx) s (.ok .pending) → ∃ f, s.fst.future = some f ∧
      ∀ d, Rests task c d → d.mem.fst.notify ≠ f.observed → Woken cx d) ∧
    (c.thr task = none → c.mem.fst.future = none → c.mem.fst.parked = 0 ∧ c.mem.fst.waker = none) := by
  constructor
  case left =>
    intro cx s ret
    obtain ⟨f, future, suspended⟩ := suspended_of_returning h ret
    refine ⟨f, future, fun d rests differs => ?_⟩
    have suspended := suspended.steps rests
    obtain ⟨o, ⟨_, owned⟩, pending⟩ := suspended.pending
    have waiting : d.mem.snd.waiting = some ⟨f.observed, cx⟩ := (congrArg Owned.waiting owned).trans pending.waiting
    exact woken_of_waiting suspended.reach waiting differs
  case right =>
    intro idle none
    obtain ⟨o, ⟨_, owned⟩, settled⟩ := ((verified task).idle_of_reachable h idle).right rfl
    have clear := settled.clear (owned ▸ none)
    exact ⟨(congrArg Owned.parked owned).trans clear.unparked, (congrArg Owned.waker owned).trans clear.unwoken⟩

end Runs

-- One outcome of each action: registrations do not fail, and the choice is whether the quantum has elapsed.
def Target.pick (i : ThreadId) : (a : Act) → Target → Bool → Option (a.Ret × Target)
  | .loadNotify, s, _     => some (s.notify, s)
  | .bumpNotify, s, _     => some (s.notify, { s with notify := wrap32 (s.notify + 1) })
  | .loadParked, s, _     => some (s.parked, s)
  | .storeParked v, s, _  => some ((), { s with parked := v })
  | .fence, s, _          => some ((), s)
  | .setEvent k, s, _     => some ((), { s with signalled := update s.signalled k true })
  | .consumeEvent, s, _   =>
      if s.registered = true ∧ s.signalled .async = true
        then some ((), { s with signalled := update s.signalled .async false })
        else none
  | .registerWait, s, _   => some (.ok (), { s with registered := true })
  | .hasWaitObject, s, _  => some (s.waitObject, s)
  | .setWaitObject, s, _  => some ((), { s with waitObject := true })
  | .swapSignaled b, s, _ => some (s.signaled, { s with signaled := b })
  | .storeSignaled b, s, _ => some ((), { s with signaled := b })
  | .lock l, s, _         =>
      if s.locked l = none then some ((), { s with locked := update s.locked l (some i) }) else none
  | .unlock l, s, _       => some ((), { s with locked := update s.locked l none })
  | .getWaker, s, _       => some (s.waker, s)
  | .setWaker w, s, _     => some ((), { s with waker := w })
  | .wake _, s, _         => some ((), s)
  | .getFuture, s, _      => s.future.map (·, s)
  | .setFuture f, s, _    => some ((), { s with future := f })
  | .elapsed, s, b        => some (b, s)

theorem Target.pick_sound {i : ThreadId} {a : Act} {s s' : Target} {r : a.Ret} {x : Bool}
    (h : pick i a s x = some (r, s')) :
    exec i a s r s' := by
  cases a
  case consumeEvent =>
    simp only [pick] at h
    split at h
    case isTrue set => cases h; exact ⟨set.left, set.right, rfl⟩
    case isFalse    => cases h
  case lock =>
    simp only [pick] at h
    split at h
    case isTrue free => cases h; exact ⟨free, rfl⟩
    case isFalse     => cases h
  case getFuture =>
    obtain ⟨_, future, eq⟩ := Option.map_eq_some_iff.mp h
    cases eq
    exact ⟨future, rfl⟩
  case registerWait => cases h; exact .inl ⟨rfl, rfl⟩
  all_goals cases h; first | rfl | exact ⟨rfl, rfl⟩

def oracle : Oracle targetMachine Bool where
  good _     := True
  pick       := Target.pick
  sound _ h  := ⟨Target.pick_sound h, trivial⟩

def Target.start : Target where
  notify      := 0
  parked      := 0
  signalled _ := false
  registered  := false
  waitObject  := false
  signaled    := false
  waker       := none
  locked _    := none
  future      := none

def start : (system 0).Config :=
  ⟨(.start, .initial), fun _ => none⟩

theorem start_initial : (system 0).Initial start :=
  ⟨⟨⟨rfl, rfl, rfl, rfl, fun _ => rfl, rfl⟩, rfl⟩, fun _ => rfl⟩

instance Operation.decidableCallable (task i : ThreadId) (o : Operation) (s : Target) :
    Decidable (o.Callable task i s) :=
  match o with
  | .waitChanged _               => inferInstanceAs (Decidable (i = task ∧ s.future = none))
  | .poll _ | .cancel            => inferInstanceAs (Decidable (i = task ∧ s.future ≠ none))
  | .notify | .force | .pool     => inferInstanceAs (Decidable (i ≠ task))

instance {task i : ThreadId} {o : (system task).Op} {s : State} : Decidable ((system task).callable i o s) :=
  Operation.decidableCallable task i o s.fst

-- The thread `i` takes `n` steps.
def steps (i : ThreadId) (n : Nat) : List (Move ThreadId Operation Bool) :=
  List.replicate n (.step i false)

-- The task polls a future, with the waker 7.
def polling : List (Move ThreadId Operation Bool) :=
  .call 0 (.waitChanged 0) :: steps 0 2 ++ .call 0 (.poll 7) :: steps 0 21

-- The poll of the task 7 has found nothing.
def suspended (c : (system 0).Config) : Bool :=
  c.returns 0 fun
    | .poll w, s, .ok .pending => decide (w = 7 ∧ s.fst.future = some ⟨0, false⟩)
    | _, _, _                  => false

theorem exists_pending :
    ∃ c, (system 0).Reachable machine c ∧ c.mem.fst.notify = 0 ∧ c.thr 1 = none ∧
      ∃ s, s.fst.future = some ⟨0, false⟩ ∧ c.Returning 0 (.poll 7) s (.ok .pending) := by
  have ⟨c, steps, _, hc⟩ := System.run_test (S := system 0) (O := oracle.ghost Track.record) (c := start)
    (l := polling)
    (p := fun c => decide (c.mem.fst.notify = 0) && (c.thr 1).isNone && suspended c) trivial (by decide +kernel)
  simp only [Bool.and_eq_true, decide_eq_true_eq, Option.isNone_iff_eq_none] at hc
  obtain ⟨⟨notify, idle⟩, returns⟩ := hc
  obtain ⟨o, s, v, ret, test⟩ := System.Config.returning returns
  split at test
  case h_2 => cases test
  case h_1 w s =>
    obtain ⟨rfl, future⟩ := of_decide_eq_true test
    exact ⟨c, .intro start_initial steps, notify, idle, s, future, ret⟩

-- A message is published while the task of a pending poll is suspended.
theorem no_lost_wakeup_notified :
    ∃ c d s, c.Returning 0 (.poll 7) s (.ok .pending) ∧ Rests 0 c d ∧ d.mem.fst.notify ≠ 0 ∧ Woken 7 d := by
  obtain ⟨c, reach, notify, idle, s, future, ret⟩ := exists_pending
  have other {mem : State} {g : Option (system 0).Frame} {e : (system 0).Config} (f : (system 0).Frame) :
      (⟨mem, update e.thr 1 g⟩ : (system 0).Config).thr 0 = some f → e.thr 0 = some f := fun h => h
  let called : (system 0).Config := ⟨c.mem, update c.thr 1 (some ⟨.notify, c.mem, Operation.code .notify⟩)⟩
  have call : (system 0).Step machine c called := .call idle (show (1 : ThreadId) ≠ 0 by decide)
  have at_ : called.thr 1 = some ⟨.notify, c.mem, Operation.code .notify⟩ :=
    update_self (1 : ThreadId) (some _) c.thr
  let mem : State :=
    ({ c.mem.fst with notify := wrap32 (c.mem.fst.notify + 1) },
     Track.record 1 .bumpNotify c.mem.fst.notify c.mem.fst c.mem.snd)
  have bump : (system 0).Step machine called ⟨mem, _⟩ :=
    .act at_ ⟨⟨rfl, rfl⟩, rfl⟩
  have differs : wrap32 (c.mem.fst.notify + 1) ≠ 0 := by rw [notify]; decide
  have rests : Rests 0 c _ := .tail (.tail .refl ⟨call, other⟩) ⟨bump, other⟩
  obtain ⟨f, future', woken⟩ := (no_lost_wakeup reach).left 7 s ret
  obtain rfl : ⟨0, false⟩ = f := Option.some.inj (future.symm.trans future')
  exact ⟨c, _, s, ret, rests, differs, woken _ rests differs⟩

end Windows
