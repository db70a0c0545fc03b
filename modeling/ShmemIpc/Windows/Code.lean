import ShmemIpc.Windows.Objects

namespace Windows

abbrev Routine (α : Type) :=
  Code Act Act.Ret Error α

def act (a : Act) : Routine a.Ret :=
  Code.perform a

-- The threads that signal.

def wakeHandle : Routine Unit := do
  act (.setEvent .sync)
  act (.setEvent .async)

-- The last steps of `publish_message` and of `commit_current_message`.
def notify : Routine Unit := do
  let _ ← act .bumpNotify
  if (← act .loadParked) ≠ 0 then
    wakeHandle
  else
    pure ()

-- What `wake_all` does for one wait target.
def force : Routine Unit := do
  let _ ← act .bumpNotify
  wakeHandle

def waitCallback : Routine Unit := do
  act (.storeSignaled true)
  act (.lock .waker)
  let waker ← act .getWaker
  act (.unlock .waker)
  match waker with
  | some waker => act (.wake waker)
  | none       => pure ()

-- A thread of the pool runs the callback after it has consumed a signal of the event.
def pool : Routine Unit := do
  act .consumeEvent
  waitCallback

namespace AsyncWaitState

def ensureRegistered : Routine (Except IoError Unit) := do
  act (.lock .waitObject)
  if ← act .hasWaitObject then do
    act (.unlock .waitObject)
    pure (.ok ())
  else do
    match ← act .registerWait with
    | .error e => do
      act (.unlock .waitObject)
      pure (.error e)
    | .ok _    => do
      act .setWaitObject
      act (.unlock .waitObject)
      pure (.ok ())

def prepareWait : Routine (Except IoError Unit) :=
  ensureRegistered

def storeWaker (cx : Waker) : Routine Unit := do
  let waker ← act .getWaker
  if waker.any (· == cx) then
    pure ()
  else
    act (.setWaker (some cx))

def poll (cx : Waker) : Routine (Poll (Except IoError Unit)) := do
  if ← act (.swapSignaled false) then
    pure (.ready (.ok ()))
  else do
    act (.lock .waker)
    storeWaker cx
    if ← act (.swapSignaled false) then do
      act (.setWaker none)
      act (.unlock .waker)
      pure (.ready (.ok ()))
    else do
      act (.unlock .waker)
      pure .pending

def clearWaiter : Routine Unit := do
  act (.storeSignaled false)
  act (.lock .waker)
  act (.setWaker none)
  act (.unlock .waker)

end AsyncWaitState

namespace WaitChanged

def disarm : Routine Unit := do
  let self ← act .getFuture
  if self.armed then do
    AsyncWaitState.clearWaiter
    act (.storeParked 0)
    act (.setFuture (some { self with armed := false }))
  else
    pure ()

def drop : Routine Unit := do
  disarm
  act (.setFuture none)

-- One turn of the loop in `poll`.
def turn (cx : Waker) : Routine (Unit ⊕ Poll Unit) := do
  let self ← act .getFuture
  if (← act .loadNotify) ≠ self.observed then do
    disarm
    pure (.inr (.ready ()))
  else if self.armed = false then do
    act (.storeParked 1)
    act .fence
    act (.setFuture (some { self with armed := true }))
    match ← AsyncWaitState.prepareWait with
    | .ok _    => pure (.inl ())
    | .error e => Code.throw (.io e)
  else do
    match ← AsyncWaitState.poll cx with
    | .pending          => pure (.inr .pending)
    | .ready (.ok _)    => pure (.inl ())
    | .ready (.error e) => do
      disarm
      Code.throw (.io e)

def poll (cx : Waker) : Routine (Poll Unit) :=
  Code.loop (fun (_ : Unit) => turn cx) ()

end WaitChanged

namespace AsyncWait

-- The first poll of `wait_changed` creates the future, under a timeout.
def waitChanged (observed : Nat) : Routine Unit :=
  act (.setFuture (some ⟨wrap32 observed, false⟩))

-- A poll of `wait_changed`: of the future, and if that is pending then of the timeout.
def poll (cx : Waker) : Routine (Poll Unit) := do
  match ← Code.attempt (WaitChanged.poll cx) with
  | .error e     => do
    WaitChanged.drop
    Code.throw e
  | .ok (.ready _) => do
    WaitChanged.drop
    pure (.ready ())
  | .ok .pending => do
    if ← act .elapsed then do
      WaitChanged.drop
      pure (.ready ())
    else
      pure .pending

end AsyncWait

-- What the threads can call. Only the task waits.
inductive Operation
  | waitChanged (observed : Nat)
  | poll (cx : Waker)
  | cancel
  | notify
  | force
  | pool
  deriving DecidableEq, Repr

namespace Operation

@[reducible]
def Answer : Operation → Type
  | poll _ => Poll Unit
  | _      => Unit

def code : (o : Operation) → Routine o.Answer
  | waitChanged observed => AsyncWait.waitChanged observed
  | poll cx              => AsyncWait.poll cx
  | cancel               => WaitChanged.drop
  | notify               => Windows.notify
  | force                => Windows.force
  | pool                 => Windows.pool

-- A future is created once the last one is gone, and is polled and dropped only while it is there.
def Callable (task i : ThreadId) : Operation → Target → Prop
  | waitChanged _, s => i = task ∧ s.future = none
  | poll _, s        => i = task ∧ s.future ≠ none
  | cancel, s        => i = task ∧ s.future ≠ none
  | _, _             => i ≠ task

end Operation

structure Target.Initial (s : Target) : Prop where
  parked     : s.parked = 0
  registered : s.registered = false
  waitObject : s.waitObject = false
  waker      : s.waker = none
  locked     : ∀ l, s.locked l = none
  future     : s.future = none

end Windows
