import ShmemIpc.Library.Spec
import ShmemIpc.Windows.Code

open Function

namespace Windows

-- How far a callback has come.
inductive Stage
  | called
  | stored
  | waking (w : Waker)
  deriving DecidableEq

-- A poll that found nothing and has stored its waker.
structure Waiting where
  observed : Nat
  waker    : Waker

-- `owes i`: the thread `i` has bumped the notify word, and has not yet seen that nobody is parked, or set the event.
-- `stage i`: the callback of the thread `i`, until it has woken the task or found no waker.
-- `waiting`: the last poll of the future, if it is pending. `woken`: its waker has been invoked since.
structure Track where
  owes    : ThreadId → Bool
  stage   : ThreadId → Option Stage
  waiting : Option Waiting
  woken   : Bool

namespace Track

def initial : Track :=
  ⟨fun _ => false, fun _ => none, none, false⟩

-- A poll is pending once it has found no signal while it holds the lock of the waker.
def record (i : ThreadId) (a : Act) (r : a.Ret) (s : Target) (g : Track) : Track :=
  match a, r with
  | .bumpNotify, _         => { g with owes := update g.owes i true }
  | .loadParked, n         => if n = 0 then { g with owes := update g.owes i false } else g
  | .setEvent .async, _    => { g with owes := update g.owes i false }
  | .consumeEvent, _       => { g with stage := update g.stage i (some .called) }
  | .storeSignaled true, _ => { g with stage := update g.stage i (some .stored) }
  | .getWaker, w           => { g with stage := update g.stage i ((g.stage i).bind fun _ => w.map .waking) }
  | .wake w, _             =>
      { g with stage := update g.stage i none, woken := g.woken || g.waiting.any (·.waker = w) }
  | .swapSignaled _, found =>
      if found = false ∧ s.locked .waker = some i
        then { g with waiting := s.future.bind fun f => s.waker.map (⟨f.observed, ·⟩), woken := false }
        else g
  | .getFuture, _          => { g with waiting := none }
  | _, _                   => g

end Track

abbrev State :=
  Target × Track

def machine : Machine ThreadId Act Act.Ret State :=
  targetMachine.ghost Track.record

-- Something that will wake the task, or has: a thread that has still to signal, the event, a callback, or a wake.
def Wakes (w : Waker) (s : State) : Prop :=
  (∃ j, s.snd.owes j = true) ∨ s.fst.signalled .async = true ∨
  (∃ j, s.snd.stage j = some .called ∨ s.snd.stage j = some .stored ∨ s.snd.stage j = some (.waking w)) ∨
  s.snd.woken = true

structure Waited (x : Waiting) (s : State) : Prop where
  parked     : s.fst.parked ≠ 0
  registered : s.fst.registered = true
  waker      : s.fst.waker = some x.waker
  wakes      : s.fst.notify ≠ x.observed → Wakes x.waker s

-- What a poll knows between its look at the notify word and the end: a later bump leads to a signal.
structure Looked (o : Nat) (s : State) : Prop where
  parked  : s.fst.parked ≠ 0
  noticed : s.fst.notify ≠ o →
    (∃ j, s.snd.owes j = true) ∨ s.fst.signalled .async = true ∨ (∃ j, s.snd.stage j = some .called) ∨
    s.fst.signaled = true

structure Ready (s : State) : Prop where
  registered : s.fst.registered = true
  looked     : ∃ f w, s.fst.future = some f ∧ s.fst.waker = some w ∧ Looked f.observed s

def Inv (s : State) : Prop :=
  ∀ x, s.snd.waiting = some x → Waited x s

def Ok (task i : ThreadId) (a : Act) (s : State) : Prop :=
  match a with
  | .registerWait | .setWaitObject | .getFuture | .setFuture _   => i = task
  | .storeParked _ | .storeSignaled false | .setWaker _          => i = task ∧ s.snd.waiting = none
  | .swapSignaled _                                              =>
      i = task ∧ s.snd.waiting = none ∧ (s.fst.locked .waker = some i → Ready s)
  | .consumeEvent | .storeSignaled true                          => i ≠ task
  | .unlock l                                                    => s.fst.locked l = some i
  | .getWaker                                                    => s.snd.stage i ≠ some .called
  | .wake w                                                      => s.snd.stage i = some (.waking w)
  | _                                                            => True

theorem Inv.preserves {task i : ThreadId} {a : Act} {s s' : State} {r : a.Ret} (inv : Inv s) (ok : Ok task i a s)
    (e : machine.exec i a s r s') : Inv s' := by
  obtain ⟨t, g⟩ := s
  obtain ⟨t', g'⟩ := s'
  obtain ⟨e, h⟩ := e
  simp only at e h
  subst h
  intro x hx
  cases a
  case bumpNotify =>
    obtain ⟨_, rfl⟩ := e
    have h := inv x hx
    exact ⟨h.parked, h.registered, h.waker, fun _ => .inl ⟨i, update_self ..⟩⟩
  case loadParked =>
    obtain ⟨rfl, rfl⟩ := e
    have h := inv x (by simp only [Track.record] at hx; split at hx <;> exact hx)
    simpa only [Track.record, if_neg h.parked] using h
  case setEvent k =>
    subst e
    cases k
    case sync =>
      have h := inv x hx
      exact ⟨h.parked, h.registered, h.waker, h.wakes⟩
    case async =>
      have h := inv x hx
      exact ⟨h.parked, h.registered, h.waker, fun _ => .inr (.inl (by simp))⟩
  case consumeEvent =>
    obtain ⟨_, _, rfl⟩ := e
    have h := inv x hx
    exact ⟨h.parked, h.registered, h.waker, fun _ => .inr (.inr (.inl ⟨i, .inl (update_self ..)⟩))⟩
  case storeSignaled b =>
    subst e
    have h := inv x (by cases b <;> exact hx)
    cases b
    case false => exact nomatch ok.right.symm.trans hx
    case true  =>
      exact ⟨h.parked, h.registered, h.waker, fun _ => .inr (.inr (.inl ⟨i, .inr (.inl (update_self ..))⟩))⟩
  case storeParked | setWaker => exact nomatch ok.right.symm.trans hx
  case getFuture => cases hx
  case registerWait =>
    have h := inv x hx
    obtain ⟨_, rfl⟩ | ⟨_, rfl⟩ := e
    · exact ⟨h.parked, rfl, h.waker, h.wakes⟩
    · exact ⟨h.parked, h.registered, h.waker, h.wakes⟩
  case getWaker =>
    obtain ⟨rfl, rfl⟩ := e
    have h := inv x hx
    refine ⟨h.parked, h.registered, h.waker, fun differs => ?_⟩
    obtain owes | set | ⟨j, stage⟩ | woken := h.wakes differs
    case inl           => exact .inl owes
    case inr.inl       => exact .inr (.inl set)
    case inr.inr.inr   => exact .inr (.inr (.inr woken))
    case inr.inr.inl _ =>
      refine .inr (.inr (.inl ⟨j, ?_⟩))
      by_cases hj : j = i
      case neg => simpa [Track.record, update_of_ne hj] using stage
      case pos =>
        subst hj
        have waker := h.waker
        simp only at waker stage
        obtain stage | stage | stage := stage <;> simp [Track.record, stage, waker]
  case wake w =>
    subst e
    have h := inv x hx
    refine ⟨h.parked, h.registered, h.waker, fun differs => ?_⟩
    by_cases hw : x.waker = w
    case pos =>
      have hx : g.waiting = some x := hx
      exact .inr (.inr (.inr (by simp [Track.record, hx, hw])))
    case neg =>
      obtain owes | set | ⟨j, stage⟩ | woken := h.wakes differs
      case inl         => exact .inl owes
      case inr.inl     => exact .inr (.inl set)
      case inr.inr.inr => exact .inr (.inr (.inr (by simp_all [Track.record])))
      case inr.inr.inl =>
        refine .inr (.inr (.inl ⟨j, ?_⟩))
        by_cases hj : j = i
        case neg => simpa [Track.record, update_of_ne hj] using stage
        case pos =>
          subst hj
          have at_ : g.stage j = some (.waking w) := ok
          simp only [at_, Option.some.injEq, Stage.waking.injEq, reduceCtorEq, false_or] at stage
          exact absurd stage.symm hw
  case swapSignaled b =>
    obtain ⟨rfl, rfl⟩ := e
    obtain ⟨-, waiting, ready⟩ := ok
    simp only at waiting ready
    by_cases found : t.signaled = false ∧ t.locked .waker = some i
    case neg => simp [Track.record, found, waiting] at hx
    case pos =>
      obtain ⟨registered, f, w, future, waker, parked, noticed⟩ := ready found.right
      simp only at registered future waker parked noticed
      simp only [Track.record, if_pos found, future, waker, Option.bind_some, Option.map_some, Option.some.injEq] at hx
      subst hx
      refine ⟨parked, registered, waker, fun differs => ?_⟩
      obtain owes | set | ⟨j, called⟩ | signaled := noticed differs
      case inl           => exact .inl (by simpa [Track.record, found] using owes)
      case inr.inl       => exact .inr (.inl set)
      case inr.inr.inl   => exact .inr (.inr (.inl ⟨j, .inl (by simpa [Track.record, found] using called)⟩))
      case inr.inr.inr   => exact nomatch found.left.symm.trans signaled
  case setFuture | setWaitObject | fence | elapsed | unlock =>
    have h := inv x hx
    subst e
    exact ⟨h.parked, h.registered, h.waker, h.wakes⟩
  case loadNotify | hasWaitObject | lock =>
    have h := inv x hx
    obtain ⟨_, rfl⟩ := e
    exact ⟨h.parked, h.registered, h.waker, h.wakes⟩

def protocol (task : ThreadId) : Protocol machine where
  inv       := Inv
  ok        := Ok task
  preserves := Inv.preserves

-- What only the steps of the thread itself change.
@[ext]
structure Local where
  owes  : Bool
  stage : Option Stage
  holds : Slot → Bool

def Local.of (i : ThreadId) (s : State) : Local :=
  ⟨s.snd.owes i, s.snd.stage i, fun l => decide (s.fst.locked l = some i)⟩

def Local.idle : Local :=
  ⟨false, none, fun _ => false⟩

-- What only the task changes.
@[ext]
structure Owned where
  parked     : Nat
  registered : Bool
  waitObject : Bool
  waker      : Option Waker
  future     : Option WaitChanged
  waiting    : Option Waiting

def Owned.of (s : State) : Owned :=
  ⟨s.fst.parked, s.fst.registered, s.fst.waitObject, s.fst.waker, s.fst.future, s.snd.waiting⟩

variable {task i j : ThreadId} {a : Act} {r : a.Ret} {s s' : State}

theorem Local.of_other (ne : j ≠ i) (ok : Ok task j a s) (e : machine.exec j a s r s') :
    Local.of i s' = Local.of i s := by
  obtain ⟨t, g⟩ := s
  obtain ⟨t', g'⟩ := s'
  obtain ⟨e, h⟩ := e
  simp only at e h
  subst h
  cases a
  case bumpNotify | getWaker => obtain ⟨_, rfl⟩ := e; simp [Local.of, Track.record, ne.symm]
  case loadParked =>
    obtain ⟨_, rfl⟩ := e
    by_cases none : r = 0 <;> simp [Local.of, Track.record, none, ne.symm]
  case swapSignaled =>
    obtain ⟨_, rfl⟩ := e
    by_cases found : r = false ∧ t.locked .waker = some j <;> simp [Local.of, Track.record, found]
  case setEvent k      => subst e; cases k <;> simp [Local.of, Track.record, ne.symm]
  case storeSignaled b => subst e; cases b <;> simp [Local.of, Track.record, ne.symm]
  case wake            => subst e; simp [Local.of, Track.record, ne.symm]
  case consumeEvent    => obtain ⟨_, _, rfl⟩ := e; simp [Local.of, Track.record, ne.symm]
  case registerWait    => obtain ⟨_, rfl⟩ | ⟨_, rfl⟩ := e <;> rfl
  case lock l =>
    obtain ⟨free, rfl⟩ := e
    refine Local.ext rfl rfl (funext fun k => ?_)
    by_cases hk : k = l
    case pos => subst hk; simp [Local.of, free, ne]
    case neg => simp [Local.of, hk]
  case unlock l =>
    subst e
    have held : t.locked l = some j := ok
    refine Local.ext rfl rfl (funext fun k => ?_)
    by_cases hk : k = l
    case pos => subst hk; simp [Local.of, held, ne]
    case neg => simp [Local.of, hk]
  case storeParked | fence | setWaitObject | setWaker | setFuture | elapsed => subst e; rfl
  case loadNotify | hasWaitObject | getFuture => obtain ⟨_, rfl⟩ := e; rfl

theorem Owned.of_other (ne : j ≠ task) (ok : Ok task j a s) (e : machine.exec j a s r s') :
    Owned.of s' = Owned.of s := by
  obtain ⟨t, g⟩ := s
  obtain ⟨t', g'⟩ := s'
  obtain ⟨e, h⟩ := e
  simp only at e h
  subst h
  cases a
  case registerWait | setWaitObject | getFuture | setFuture => exact absurd ok ne
  case storeParked | setWaker | swapSignaled                => exact absurd ok.left ne
  case storeSignaled b =>
    subst e
    cases b
    case false => exact absurd ok.left ne
    case true  => rfl
  case loadParked =>
    obtain ⟨_, rfl⟩ := e
    by_cases none : r = 0 <;> simp [Owned.of, Track.record, none]
  case setEvent k   => subst e; cases k <;> rfl
  case consumeEvent => obtain ⟨_, _, rfl⟩ := e; rfl
  case fence | elapsed | wake | unlock                            => subst e; rfl
  case loadNotify | bumpNotify | hasWaitObject | getWaker | lock  => obtain ⟨_, rfl⟩ := e; rfl

-- A step that neither unparks the task nor takes a signal away.
def Act.Quiet (a : Act) (r : a.Ret) : Prop :=
  match a, r with
  | .storeParked _, _ | .storeSignaled false, _ => False
  | .swapSignaled _, found                      => found = false
  | _, _                                        => True

theorem Looked.kept (ok : Ok task j a s) (e : machine.exec j a s r s') (quiet : a.Quiet r) {o : Nat} (h : Looked o s) :
    Looked o s' := by
  obtain ⟨t, g⟩ := s
  obtain ⟨t', g'⟩ := s'
  obtain ⟨e, eq⟩ := e
  simp only at e eq
  subst eq
  have ⟨parked, noticed⟩ := h
  simp only at parked noticed
  cases a
  case storeParked => cases quiet
  case bumpNotify =>
    obtain ⟨_, rfl⟩ := e
    exact ⟨parked, fun _ => .inl ⟨j, update_self ..⟩⟩
  case loadParked =>
    obtain ⟨rfl, rfl⟩ := e
    simpa only [Track.record, if_neg parked] using h
  case setEvent k =>
    subst e
    cases k
    case sync  => exact ⟨parked, noticed⟩
    case async => exact ⟨parked, fun _ => .inr (.inl (by simp))⟩
  case consumeEvent =>
    obtain ⟨_, _, rfl⟩ := e
    exact ⟨parked, fun _ => .inr (.inr (.inl ⟨j, update_self ..⟩))⟩
  case storeSignaled b =>
    subst e
    cases b
    case false => cases quiet
    case true  => exact ⟨parked, fun _ => .inr (.inr (.inr rfl))⟩
  case swapSignaled b =>
    obtain ⟨rfl, rfl⟩ := e
    have unset : t.signaled = false := quiet
    refine ⟨parked, fun differs => ?_⟩
    obtain owes | set | called | signaled := noticed differs
    case inl         => exact .inl (by simp only [Track.record]; split <;> exact owes)
    case inr.inl     => exact .inr (.inl set)
    case inr.inr.inl => exact .inr (.inr (.inl (by simp only [Track.record]; split <;> exact called)))
    case inr.inr.inr => exact nomatch unset.symm.trans signaled
  case getWaker =>
    obtain ⟨rfl, rfl⟩ := e
    refine ⟨parked, fun differs => (noticed differs).imp_right fun h => h.imp_right fun h => h.imp_left ?_⟩
    intro ⟨k, called⟩
    have hk : k ≠ j := by rintro rfl; exact ok called
    exact ⟨k, by simpa [Track.record, hk] using called⟩
  case wake w =>
    subst e
    refine ⟨parked, fun differs => (noticed differs).imp_right fun h => h.imp_right fun h => h.imp_left ?_⟩
    intro ⟨k, called⟩
    have hk : k ≠ j := by rintro rfl; exact nomatch called.symm.trans ok
    exact ⟨k, by simpa [Track.record, hk] using called⟩
  case registerWait => obtain ⟨_, rfl⟩ | ⟨_, rfl⟩ := e <;> exact ⟨parked, noticed⟩
  case fence | elapsed | unlock | setWaitObject | setWaker | setFuture => subst e; exact ⟨parked, noticed⟩
  case loadNotify | hasWaitObject | lock | getFuture => obtain ⟨_, rfl⟩ := e; exact ⟨parked, noticed⟩

theorem quiet_of_other (ne : j ≠ task) (ok : Ok task j a s) : a.Quiet r := by
  cases a
  case storeParked | swapSignaled => exact absurd ok.left ne
  case storeSignaled b =>
    cases b
    case false => exact absurd ok.left ne
    case true  => trivial
  all_goals trivial

-- What a step of the thread does.

def Local.after (a : Act) (r : a.Ret) (l : Local) : Local :=
  match a, r with
  | .bumpNotify, _         => { l with owes := true }
  | .loadParked, n         => if n = 0 then { l with owes := false } else l
  | .setEvent .async, _    => { l with owes := false }
  | .consumeEvent, _       => { l with stage := some .called }
  | .storeSignaled true, _ => { l with stage := some .stored }
  | .getWaker, w           => { l with stage := l.stage.bind fun _ => w.map .waking }
  | .wake _, _             => { l with stage := none }
  | .lock k, _             => { l with holds := update l.holds k true }
  | .unlock k, _           => { l with holds := update l.holds k false }
  | _, _                   => l

theorem Local.of_own (e : machine.exec i a s r s') : Local.of i s' = (Local.of i s).after a r := by
  obtain ⟨t, g⟩ := s
  obtain ⟨t', g'⟩ := s'
  obtain ⟨e, h⟩ := e
  simp only at e h
  subst h
  cases a
  case bumpNotify | getWaker => obtain ⟨_, rfl⟩ := e; simp [Local.of, Local.after, Track.record]
  case loadParked =>
    obtain ⟨_, rfl⟩ := e
    by_cases none : r = 0 <;> simp [Local.of, Local.after, Track.record, none]
  case swapSignaled =>
    obtain ⟨_, rfl⟩ := e
    by_cases found : r = false ∧ t.locked .waker = some i <;> simp [Local.of, Local.after, Track.record, found]
  case setEvent k      => subst e; cases k <;> simp [Local.of, Local.after, Track.record]
  case storeSignaled b => subst e; cases b <;> simp [Local.of, Local.after, Track.record]
  case wake            => subst e; simp [Local.of, Local.after, Track.record]
  case consumeEvent    => obtain ⟨_, _, rfl⟩ := e; simp [Local.of, Local.after, Track.record]
  case registerWait    => obtain ⟨_, rfl⟩ | ⟨_, rfl⟩ := e <;> rfl
  case lock l =>
    obtain ⟨_, rfl⟩ := e
    refine Local.ext rfl rfl (funext fun k => ?_)
    by_cases hk : k = l
    case pos => subst hk; simp [Local.of, Local.after]
    case neg => simp [Local.of, Local.after, hk]
  case unlock l =>
    subst e
    refine Local.ext rfl rfl (funext fun k => ?_)
    by_cases hk : k = l
    case pos => subst hk; simp [Local.of, Local.after]
    case neg => simp [Local.of, Local.after, hk]
  case storeParked | fence | setWaitObject | setWaker | setFuture | elapsed => subst e; rfl
  case loadNotify | hasWaitObject | getFuture => obtain ⟨_, rfl⟩ := e; rfl

def Owned.after (l : Local) (a : Act) (r : a.Ret) (o : Owned) : Owned :=
  match a, r with
  | .storeParked v, _        => { o with parked := v }
  | .registerWait, .ok _     => { o with registered := true }
  | .setWaitObject, _        => { o with waitObject := true }
  | .setWaker w, _           => { o with waker := w }
  | .getFuture, _            => { o with waiting := none }
  | .setFuture f, _          => { o with future := f }
  | .swapSignaled _, false   =>
      if l.holds .waker
        then { o with waiting := o.future.bind fun f => o.waker.map (⟨f.observed, ·⟩) }
        else o
  | _, _                     => o

theorem Owned.of_own (e : machine.exec i a s r s') : Owned.of s' = (Owned.of s).after (Local.of i s) a r := by
  obtain ⟨t, g⟩ := s
  obtain ⟨t', g'⟩ := s'
  obtain ⟨e, h⟩ := e
  simp only at e h
  subst h
  cases a
  case loadParked =>
    obtain ⟨_, rfl⟩ := e
    by_cases none : r = 0 <;> simp [Owned.of, Owned.after, Track.record, none]
  case swapSignaled b =>
    obtain ⟨_, rfl⟩ := e
    cases r
    case true  => simp [Owned.of, Owned.after, Track.record]
    case false =>
      by_cases held : t.locked .waker = some i <;> simp [Owned.of, Owned.after, Local.of, Track.record, held]
  case registerWait =>
    obtain ⟨rfl, rfl⟩ | ⟨⟨_⟩, rfl⟩ := e <;> rfl
  case setEvent k      => subst e; cases k <;> rfl
  case storeSignaled b => subst e; cases b <;> rfl
  case consumeEvent    => obtain ⟨_, _, rfl⟩ := e; rfl
  case storeParked | fence | setWaitObject | setWaker | setFuture | elapsed | unlock | wake => subst e; rfl
  case loadNotify | hasWaitObject | getFuture | bumpNotify | getWaker | lock => obtain ⟨_, rfl⟩ := e; rfl

-- The answers that follow from what the task owns.
def Owned.Answers (o : Owned) (a : Act) (r : a.Ret) : Prop :=
  match a, r with
  | .hasWaitObject, r => r = o.waitObject
  | .getWaker, r      => r = o.waker
  | .getFuture, r     => o.future = some r
  | _, _              => True

theorem Owned.answers (e : machine.exec i a s r s') : (Owned.of s).Answers a r := by
  cases a
  case hasWaitObject | getWaker | getFuture => exact e.left.left
  all_goals trivial

end Windows
