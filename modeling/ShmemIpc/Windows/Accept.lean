import ShmemIpc.Windows.Custody

open Function Assertion Code

namespace NamedPipe

variable {i j : Thread} {p q : PipeId} {s s' : State}

def protocol : Protocol machine where
  inv       := Inv
  ok        := Ok
  preserves := Inv.preserves

-- What only the listener changes.
structure Own where
  pending : Option PipeId
  hand    : Option PipeId
  taken   : List PipeId
  lost    : List PipeId

def own (s : State) : Own :=
  ⟨s.fst.pendingAccept, s.snd.hand, s.snd.taken, s.snd.lost⟩

theorem own_of_other {a : Act} {r : a.Ret} (ne : j ≠ .listener) (ok : Ok j a s) (e : machine.exec j a s r s') :
    own s' = own s := by
  obtain ⟨m, g⟩ := s
  obtain ⟨m', g'⟩ := s'
  obtain ⟨step, rfl⟩ := pipe_exec e
  cases a
  case getPending | takePending       => exact absurd ok ne
  case setPending | createPipe | recv => exact absurd ok.left ne
  case spawn                          => exact absurd ok.left ne
  case join                           => obtain ⟨_, rfl⟩ := step; rfl
  case connectNamedPipe               => obtain ⟨_, rfl⟩ := step; cases r <;> rfl
  case send | finish | elapsed        => obtain rfl := step; rfl
  case closePipe                      => obtain rfl := step; simp [own, Track.record, ne]
  case createFile                     => obtain ⟨_, _, _, _, rfl, rfl⟩ | ⟨_, rfl, rfl⟩ := step <;> rfl

-- What the listener knows of it.
def knows (F : Own → Prop) : Assertion protocol .listener where
  holds s               := F (own s)
  stable ne _ ok e h    := own_of_other ne ok e ▸ h

abbrev owns (o : Own) : Assertion protocol .listener :=
  knows (· = o)

-- An instance whose thread has sent nothing yet.
structure Fresh (s : State) (p : PipeId) (opened broken : Bool) : Prop where
  lt      : p < s.fst.pipes
  free    : p ∉ s.snd.taken
  message : s.fst.message p = none
  opened  : s.fst.opened p = opened
  broken  : s.snd.broken p = broken

-- A message of the instance has arrived, if the listener waits for one.
structure Sent (s : State) (p : PipeId) : Prop where
  lt      : p < s.fst.pipes
  arrived : Waits s p → s.fst.message p ≠ none

-- The other threads leave alone what the thread of an instance has to know.
structure Leaves (p : PipeId) (s s' : State) : Prop where
  lt       : p < s'.fst.pipes
  message  : s.fst.message p = none → s'.fst.message p = none
  waits    : Waits s' p → Waits s p ∧ s'.fst.message p = s.fst.message p
  free     : s.fst.message p = none → p ∉ s.snd.taken → p ∉ s'.snd.taken
  opened   : p ∉ s.snd.taken → s'.fst.opened p = s.fst.opened p
  broken   : s'.snd.broken p = s.snd.broken p
  client   : s.fst.client p ≠ none → s'.fst.client p ≠ none
  finished : s'.fst.finished p = s.fst.finished p

theorem Leaves.refl (lt : p < s.fst.pipes) : Leaves p s s :=
  ⟨lt, id, fun h => ⟨h, rfl⟩, fun _ => id, fun _ => rfl, rfl, id, rfl⟩

theorem leaves {a : Act} {r : a.Ret} (lt : p < s.fst.pipes) (inv : Inv s) (ne : j ≠ .waiter p) (ok : Ok j a s)
    (e : machine.exec j a s r s') : Leaves p s s' := by
  obtain ⟨m, g⟩ := s
  obtain ⟨m', g'⟩ := s'
  obtain ⟨step, rfl⟩ := pipe_exec e
  cases a
  case getPending => obtain ⟨_, rfl⟩ := step; exact .refl lt
  case takePending =>
    obtain ⟨rfl, rfl⟩ := step
    cases pending : m.pendingAccept
    case none   =>
      refine { Leaves.refl lt with waits := fun h => ⟨?_, rfl⟩ }
      simpa [Waits, Track.record, pending] using h
    case some q =>
      refine { Leaves.refl lt with waits := fun h => ⟨?_, rfl⟩ }
      have h : q = p := by simpa [Waits, Track.record] using h
      exact .inl (pending.trans (congrArg some h))
  case setPending q =>
    obtain rfl := step
    obtain ⟨_, hand, _⟩ := ok
    refine { Leaves.refl lt with waits := fun h => ⟨?_, rfl⟩ }
    have h : q = p := by simpa [Waits, Track.record] using h
    exact .inr (hand.trans (congrArg some h))
  case createPipe =>
    obtain ⟨rfl, rfl⟩ | ⟨_, rfl, rfl⟩ := step
    case inr => exact .refl lt
    case inl =>
      obtain ⟨_, _, free⟩ := ok
      have free : m.pendingAccept = none := free
      have ne : p ≠ m.pipes := Nat.ne_of_lt lt
      refine ⟨Nat.lt_succ_of_lt lt, fun h => by simpa [ne] using h, fun h => ?_, fun _ => id,
        fun _ => update_of_ne ne .., update_of_ne ne .., fun h => by simpa [ne] using h, update_of_ne ne ..⟩
      exact absurd (by simpa [Waits, Track.record, free, eq_comm] using h) ne
  case spawn q => obtain rfl := step; exact { Leaves.refl lt with }
  case recv q timed =>
    obtain ⟨x, message, rfl, rfl⟩ | ⟨_, rfl, rfl⟩ | ⟨_, _, rfl, rfl⟩ := step
    case inl =>
      obtain ⟨_, hand, free⟩ := ok
      have free : m.pendingAccept = none := free
      have gone (h : m.message p = none) : p ≠ q := by rintro rfl; cases h.symm.trans message
      cases x
      case ok =>
        refine { Leaves.refl lt with message := fun h => ?_, waits := fun h => ?_, free := fun h fresh => ?_ }
        case refine_1 => simpa [gone h] using h
        case refine_2 => simp [Waits, Track.record, free] at h
        case refine_3 =>
          exact fun h' => (List.mem_append.mp h').elim fresh fun h' => gone h (List.mem_singleton.mp h')
      case error =>
        refine { Leaves.refl lt with message := fun h => ?_, waits := fun h => ?_ }
        case refine_1 => simpa [gone h] using h
        case refine_2 => simp [Waits, Track.record, free] at h
    all_goals exact .refl lt
  case join => obtain ⟨_, rfl⟩ := step; exact .refl lt
  case connectNamedPipe q =>
    obtain ⟨_, rfl⟩ := step
    have other : p ≠ q := by rintro rfl; exact ne ok.left
    cases r
    case ok    => exact .refl lt
    case error => exact { Leaves.refl lt with broken := update_of_ne other .. }
  case send q x =>
    obtain rfl := step
    have other : p ≠ q := by rintro rfl; exact ne ok.left
    have same : update m.message q (some x) p = m.message p := update_of_ne other ..
    exact { Leaves.refl lt with message := fun h => same.trans h, waits := fun h => ⟨h, same⟩ }
  case finish q =>
    obtain rfl := step
    have other : p ≠ q := by rintro rfl; exact ne ok.left
    exact { Leaves.refl lt with finished := update_of_ne other .. }
  case closePipe q =>
    obtain rfl := step
    have opened (free : p ∉ g.taken) : update m.opened q false p = m.opened p := by
      refine update_of_ne ?_ ..
      rintro rfl
      obtain ⟨waiter, _⟩ | ⟨_, taken⟩ := ok
      case inl => exact ne waiter
      case inr => exact free taken
    by_cases listener : j = .listener
    case pos => subst listener; exact { Leaves.refl lt with opened := opened }
    case neg =>
      simp only [Track.record, if_neg listener]
      exact { Leaves.refl lt with opened := opened }
  case createFile =>
    obtain ⟨q, _, _, _, rfl, rfl⟩ | ⟨_, rfl, rfl⟩ := step
    case inr => exact .refl lt
    case inl =>
      refine { Leaves.refl lt with client := fun h => ?_ }
      by_cases same : p = q
      case pos => simp [same]
      case neg => simpa [same] using h
  case elapsed => obtain rfl := step; exact .refl lt

theorem Fresh.kept {opened broken : Bool} (h : Fresh s p opened broken) (l : Leaves p s s') :
    Fresh s' p opened broken :=
  ⟨l.lt, l.free h.message h.free, l.message h.message, (l.opened h.free).trans h.opened, l.broken.trans h.broken⟩

theorem Sent.kept (h : Sent s p) (l : Leaves p s s') : Sent s' p :=
  ⟨l.lt, fun waits => (l.waits waits).right ▸ h.arrived (l.waits waits).left⟩

-- What the thread of an instance knows.

def fresh (opened broken : Bool) : Assertion protocol (.waiter p) where
  holds s              := Fresh s p opened broken
  stable ne inv ok e h := h.kept (leaves h.lt inv ne ok e)

def occupied (broken : Bool) : Assertion protocol (.waiter p) where
  holds s              := Fresh s p true broken ∧ s.fst.client p ≠ none
  stable ne inv ok e h :=
    have l := leaves h.left.lt inv ne ok e
    ⟨h.left.kept l, l.client h.right⟩

def sent : Assertion protocol (.waiter p) where
  holds s              := Sent s p
  stable ne inv ok e h := h.kept (leaves h.lt inv ne ok e)

-- A thread that does not run has finished, or has not begun.
structure Rests (s : State) (p : PipeId) : Prop where
  old : p < s.fst.pipes → s.fst.finished p = true ∨ Fresh s p true false

theorem created_or_same {a : Act} {r : a.Ret} (inv : Inv s) (e : machine.exec j a s r s') :
    s'.fst.pipes = s.fst.pipes ∨ s'.fst.pipes = s.fst.pipes + 1 ∧ Fresh s' s.fst.pipes true false := by
  obtain ⟨m, g⟩ := s
  obtain ⟨m', g'⟩ := s'
  obtain ⟨step, rfl⟩ := pipe_exec e
  cases a
  case createPipe =>
    obtain ⟨rfl, rfl⟩ | ⟨_, rfl, rfl⟩ := step
    case inr => exact .inl rfl
    case inl =>
      have free : m.pipes ∉ g.taken := fun h => Nat.lt_irrefl _ (inv.taken _ h).left
      exact .inr ⟨rfl, Nat.lt_succ_self _, free, update_self .., update_self .., update_self ..⟩
  case recv => obtain ⟨_, _, _, rfl⟩ | ⟨_, _, rfl⟩ | ⟨_, _, _, rfl⟩ := step <;> exact .inl rfl
  case createFile => obtain ⟨_, _, _, _, _, rfl⟩ | ⟨_, _, rfl⟩ := step <;> exact .inl rfl
  case getPending | takePending | join | connectNamedPipe => obtain ⟨_, rfl⟩ := step; exact .inl rfl
  case setPending | spawn | send | finish | closePipe | elapsed => obtain rfl := step; exact .inl rfl

def rests : Assertion protocol (.waiter p) where
  holds s              := Rests s p
  stable {j a s r s'} ne inv ok e h := by
    refine ⟨fun lt' => ?_⟩
    by_cases lt : p < s.fst.pipes
    case pos =>
      have l := leaves lt inv ne ok e
      exact (h.old lt).imp (l.finished.trans ·) (·.kept l)
    case neg =>
      obtain same | ⟨more, fresh⟩ := created_or_same inv e
      case inl => exact absurd (same ▸ lt') lt
      case inr =>
        obtain rfl : p = s.fst.pipes := Nat.eq_of_lt_succ_of_not_lt (Nat.lt_of_lt_of_eq lt' more) lt
        exact .inr fresh

-- The thread of an instance.

variable {β : Type} {P : Assertion protocol i} {N : β → Assertion protocol i} {E : Error → Assertion protocol i}

-- What is to be sent about the instance.
def settled (p : PipeId) : Except IoError Unit → Assertion protocol (.waiter p)
  | .ok _    => occupied false
  | .error _ => fresh false true

theorem waitForPipeClient_spec {E : Error → Assertion protocol (.waiter p)} :
    Spec (fresh true false) (waitForPipeClient p) (settled p) E := by
  let connected : Except IoError Unit → Assertion protocol (.waiter p) :=
    outcome (fun _ => occupied false) fun _ => fresh true true
  refine Spec.act (a := Act.connectNamedPipe p) connected (fun s _ h => ⟨rfl, h.lt, h.free, h.message⟩) ?_
    fun r => ?_
  case refine_1 =>
    rintro ⟨m, g⟩ r ⟨m', g'⟩ _ h e
    obtain ⟨⟨step, rfl⟩, rfl⟩ := pipe_exec e
    cases r
    case ok    => exact ⟨h, step.elim (fun h => h.right) fun ⟨_, h⟩ => by cases h⟩
    case error => exact ⟨h.lt, h.free, h.message, h.opened, update_self ..⟩
  case refine_2 =>
    cases r
    case ok    => exact Spec.pure Assertion.le_rfl
    case error =>
      refine Spec.act (a := Act.closePipe p) (fun _ => fresh false true) (fun s _ h => ?_) ?_ fun _ =>
        Spec.pure Assertion.le_rfl
      case refine_1 => exact .inl ⟨rfl, h.lt, h.free, h.broken, h.message⟩
      case refine_2 =>
        rintro ⟨m, g⟩ r ⟨m', g'⟩ _ h e
        obtain ⟨rfl, rfl⟩ := pipe_exec e
        exact ⟨h.lt, h.free, h.message, update_self .., h.broken⟩

theorem waiter_spec {E : Error → Assertion protocol (.waiter p)} :
    Spec (fresh true false) (waiter p) (fun _ => rests) E := by
  refine Spec.bind waitForPipeClient_spec fun x => ?_
  refine Spec.act (a := Act.send p x) (fun _ => sent) (fun s _ h => ?_) ?_ fun _ =>
    Spec.perform (a := Act.finish p) (fun s _ h => ⟨rfl, h.arrived⟩) ?_
  case refine_1 =>
    cases x
    case ok    => exact ⟨rfl, h.left.lt, h.left.free, h.right, h.left.opened, h.left.broken⟩
    case error => exact ⟨rfl, h.lt, h.free, h.opened⟩
  case refine_2 =>
    rintro ⟨m, g⟩ r ⟨m', g'⟩ _ h e
    obtain ⟨rfl, rfl⟩ := pipe_exec e
    have lt : p < m.pipes := by
      cases x
      case ok    => exact h.left.lt
      case error => exact h.lt
    exact ⟨lt, fun _ => by simp⟩
  case refine_3 =>
    rintro ⟨m, g⟩ r ⟨m', g'⟩ _ h e
    obtain ⟨rfl, rfl⟩ := pipe_exec e
    exact ⟨fun _ => .inl (update_self ..)⟩

-- The listener.

def Own.after (o : Own) : (a : Act) → a.Ret → Own
  | .takePending, some p           => { o with pending := none, hand := some p }
  | .setPending p, _               => { o with pending := some p, hand := none }
  | .createPipe, .ok p             => { o with hand := some p }
  | .recv p _, .result (.ok _)     => { o with hand := none, taken := o.taken ++ [p] }
  | .recv .., .result (.error _)   => { o with hand := none }
  | .closePipe p, _                => { o with lost := o.lost ++ [p] }
  | _, _                           => o

theorem own_of_listener {a : Act} {r : a.Ret} (e : machine.exec .listener a s r s') : own s' = (own s).after a r := by
  obtain ⟨m, g⟩ := s
  obtain ⟨m', g'⟩ := s'
  obtain ⟨step, rfl⟩ := pipe_exec e
  cases a
  case getPending | join       => obtain ⟨_, rfl⟩ := step; rfl
  case takePending =>
    obtain ⟨rfl, rfl⟩ := step
    cases pending : m.pendingAccept
    case none   => simp [own, Own.after, Track.record, pending]
    case some q => rfl
  case connectNamedPipe        => obtain ⟨_, rfl⟩ := step; cases r <;> rfl
  case createPipe              => obtain ⟨rfl, rfl⟩ | ⟨_, rfl, rfl⟩ := step <;> rfl
  case recv =>
    obtain ⟨x, _, rfl, rfl⟩ | ⟨_, rfl, rfl⟩ | ⟨_, _, rfl, rfl⟩ := step
    case inl => cases x <;> rfl
    all_goals rfl
  case createFile              => obtain ⟨_, _, _, _, rfl, rfl⟩ | ⟨_, rfl, rfl⟩ := step <;> rfl
  case setPending | spawn | send | finish | elapsed => obtain rfl := step; rfl
  case closePipe               => obtain rfl := step; simp [own, Own.after, Track.record]

theorem owns_act {a : Act} {o : Own} {f : a.Ret → Routine β} {N : β → Assertion protocol .listener}
    {E : Error → Assertion protocol .listener} (ok : ∀ s, Inv s → own s = o → Ok .listener a s)
    (Q : a.Ret → Prop) (step : ∀ s r s', Inv s → own s = o → machine.exec .listener a s r s' → Q r)
    (hf : ∀ r, Q r → Spec (owns (o.after a r)) (f r) N E) : Spec (owns o) (act a >>= f) N E := by
  refine Spec.act (fun r => owns (o.after a r) ⊓ .const (Q r)) ok
    (fun s r s' inv h e => ⟨?_, step s r s' inv h e⟩) fun r => ?_
  · exact (own_of_listener e).trans (congrArg (·.after a r) h)
  · exact Spec.assume (hf r)

theorem owns_does {a : Act} {o : Own} {f : a.Ret → Routine β} {N : β → Assertion protocol .listener}
    {E : Error → Assertion protocol .listener} (ok : ∀ s, Inv s → own s = o → Ok .listener a s)
    (hf : ∀ r, Spec (owns (o.after a r)) (f r) N E) : Spec (owns o) (act a >>= f) N E :=
  owns_act ok (fun _ => True) (fun _ _ _ _ _ _ => trivial) fun r _ => hf r

-- The listener has no instance in hand.
def Own.idle (pending : Option PipeId) (taken lost : List PipeId) : Own :=
  ⟨pending, none, taken, lost⟩

variable {o : Own} {pending : Option PipeId} {taken lost : List PipeId}

-- The errors of the operating system.
def failed (o : Own) (e : Error) : Assertion protocol .listener :=
  owns o ⊓ .const (∃ x, e = .io x)

theorem failed_of {e : IoError} : owns o ≤ failed o (.io e) :=
  fun _ _ h => ⟨h, e, rfl⟩

theorem own_pending (h : own s = o) : s.fst.pendingAccept = o.pending :=
  congrArg Own.pending h

theorem own_hand (h : own s = o) : s.snd.hand = o.hand :=
  congrArg Own.hand h

-- A new instance becomes the pending accept.
theorem primeNextAccept_spec :
    Spec (owns (.idle none taken lost)) Listener.primeNextAccept
      (fun _ => ex fun p => owns (.idle (some p) taken lost)) (failed (.idle none taken lost)) := by
  refine Spec.bind (M := fun p => owns ⟨none, some p, taken, lost⟩) ?_ fun p => ?_
  case refine_1 =>
    refine owns_does (a := .createPipe) (fun s _ h => ⟨rfl, own_hand h, own_pending h⟩) fun r => ?_
    cases r
    case error e => exact Spec.throw failed_of
    case ok p    =>
      refine owns_does (a := .spawn p) (fun s _ h => ⟨rfl, own_hand h⟩) fun _ => ?_
      exact Spec.pure Assertion.le_rfl
  case refine_2 =>
    refine Spec.perform (a := Act.setPending p) (fun s _ h => ⟨rfl, own_hand h, own_pending h⟩)
      fun s r s' _ h e => ⟨p, ?_⟩
    exact (own_of_listener e).trans (congrArg (·.after (.setPending p) r) h)

-- What a call of the listener has done when it answers.
inductive Outcome (timed : Bool) (o o' : Own) : Except Error PipeId → Prop
  -- the client of one instance is handed out, and a new instance takes its place
  | handed {p q : PipeId} (kept : ∀ x, o.pending = some x → x = p)
      (after : o' = .idle (some q) (o.taken ++ [p]) o.lost) : Outcome timed o o' (.ok p)
  -- the pending accept remains
  | timedOut {q : PipeId} (can : timed = true) (kept : ∀ x, o.pending = some x → x = q)
      (after : o' = .idle (some q) o.taken o.lost) : Outcome timed o o' (.error .timedOut)
  -- no client has been received
  | failed {e : IoError} (after : o' = .idle none o.taken o.lost) : Outcome timed o o' (.error (.io e))
  -- a client has been received, and is lost
  | lost {p : PipeId} {e : IoError} (kept : ∀ x, o.pending = some x → x = p)
      (after : o' = .idle none (o.taken ++ [p]) (o.lost ++ [p])) : Outcome timed o o' (.error (.io e))

def told (timed : Bool) (o : Own) (v : Except Error PipeId) : Assertion protocol .listener :=
  knows fun o' => Outcome timed o o' v

theorem ensurePendingAccept_spec :
    Spec (owns (.idle pending taken lost)) Listener.ensurePendingAccept
      (fun _ => ex fun p => owns (.idle (some p) taken lost) ⊓ .const (∀ x, pending = some x → x = p))
      (failed (.idle none taken lost)) := by
  refine owns_act (a := .getPending) (fun _ _ _ => rfl) (· = pending) (fun s r s' _ h e => ?_) fun r same => ?_
  case refine_1 =>
    have ⟨same, _⟩ := e.left
    exact same.trans (own_pending h)
  case refine_2 =>
    subst same
    cases r
    case some p => exact Spec.pure fun _ _ h => ⟨p, h, fun _ h => (Option.some.inj h).symm⟩
    case none   =>
      refine primeNextAccept_spec.post (fun _ _ _ h => ?_) fun _ => Assertion.le_rfl
      exact h.imp fun _ h => ⟨h, fun _ h => by cases h⟩

theorem received_spec {timed : Bool} {p : PipeId} (kept : ∀ x, o.pending = some x → x = p)
    {r : Except IoError Unit} :
    Spec (owns ((⟨none, some p, o.taken, o.lost⟩ : Own).after (.recv p timed) (.result r))) (Listener.received p r)
      (fun q => told timed o (.ok q)) (fun e => told timed o (.error e)) := by
  cases r
  case error e => exact Spec.throw fun _ _ h => .failed h
  case ok      =>
    refine Spec.handle primeNextAccept_spec (fun _ => ?_) fun e => ?_
    case refine_1 =>
      refine Spec.ex fun q => Spec.pure fun _ _ h => ?_
      exact .handed kept h
    case refine_2 =>
      refine Spec.assume fun io => ?_
      obtain ⟨x, rfl⟩ := io
      refine owns_does (a := .closePipe p) (fun s _ h => .inr ⟨rfl, ?_⟩) fun _ => ?_
      case refine_1 =>
        have taken : s.snd.taken = o.taken ++ [p] := congrArg Own.taken h
        exact taken ▸ List.mem_append_right _ (List.mem_singleton.mpr rfl)
      case refine_2 => exact Spec.throw fun _ _ h => .lost kept h

-- A receiver is disconnected only after its message has been received.
def Received.Arrives (timed : Bool) : Received → Prop
  | .result _     => True
  | .timeout      => timed = true
  | .disconnected => False

theorem waitForPipeWith_spec {timed : Bool} (idle : o = .idle o.pending o.taken o.lost) :
    Spec (owns o) (Listener.waitForPipeWith timed) (fun p => told timed o (.ok p))
      (fun e => told timed o (.error e)) := by
  refine Spec.pre (P := owns (.idle o.pending o.taken o.lost)) ?_ fun _ _ h => h.trans idle
  have ensures : Spec (owns (.idle o.pending o.taken o.lost)) Listener.ensurePendingAccept _ _ :=
    ensurePendingAccept_spec
  refine Spec.bind (ensures.post (fun _ => Assertion.le_rfl) fun e _ _ h => ?_) fun _ => ?_
  case refine_1 =>
    obtain ⟨same, x, rfl⟩ := h
    exact .failed same
  case refine_2 =>
    refine Spec.ex fun p => Spec.assume fun kept => ?_
    refine owns_act (a := .takePending) (fun _ _ _ => rfl) (· = some p) (fun s r s' _ h e => ?_) fun r same => ?_
    case refine_1 =>
      have ⟨same, _⟩ := e.left
      exact same.trans (own_pending h)
    case refine_2 =>
      subst same
      refine owns_act (a := .recv p timed) (fun s _ h => ⟨rfl, own_hand h, own_pending h⟩) (Received.Arrives timed)
        (fun s r s' inv h e => ?_) fun r arrived => ?_
      case refine_1 =>
        obtain ⟨_, _, rfl, _⟩ | ⟨timed, rfl, _⟩ | ⟨none, finished, rfl, _⟩ := e.left
        case inl => trivial
        case inr.inl => exact timed
        case inr.inr => exact inv.sent p (.inr (own_hand h)) finished none
      case refine_2 =>
        cases r
        case result r =>
          refine owns_does (a := .join p) (fun _ _ _ => trivial) fun _ => ?_
          exact received_spec kept
        case timeout =>
          refine owns_does (a := .setPending p) (fun s _ h => ⟨rfl, own_hand h, own_pending h⟩) fun _ => ?_
          exact Spec.throw fun _ _ h => .timedOut arrived kept h
        case disconnected => exact arrived.elim

theorem connectPipe_spec : Spec P connectPipe (fun _ => (⊤ : Assertion protocol i)) fun _ => ⊤ := by
  refine Spec.loop (fun _ => ⊤) (fun _ _ _ => trivial) fun _ => ?_
  refine Spec.act (a := Act.createFile) (fun _ => ⊤) (fun _ _ _ => trivial) (fun _ _ _ _ _ _ => trivial) fun r => ?_
  cases r
  case ok    => exact Spec.pure Assertion.le_rfl
  case error =>
    refine Spec.act (a := Act.elapsed) (fun _ => ⊤) (fun _ _ _ => trivial) (fun _ _ _ _ _ _ => trivial) fun late => ?_
    split
    case isTrue  => exact Spec.throw Assertion.le_rfl
    case isFalse => exact Spec.pure Assertion.le_rfl

end NamedPipe
