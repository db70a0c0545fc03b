import ShmemIpc.Code.Shared

-- `wait.rs`

variable {α : Type}

-- `timeout.map(|d| Instant::now() + d)`
def deadlineOf : Option Nat → Routine (Option Nat)
  | none   => pure none
  | some d => do
    let t ← now
    pure (some (t + d))

-- At most `n` evaluations of the condition.
def spin (condition : Routine (Option α)) : Nat → Routine (Option α)
  | 0     => pure none
  | n + 1 => do
    match ← condition with
    | some v => pure (some v)
    | none   => spin condition n

-- How long the next sleep may last: at most one liveness quantum.
def remainingQuantum : Option Nat → Routine Nat
  | none    => pure LIVENESS_QUANTUM
  | some dl => do
    let t ← now
    if dl ≤ t then fail .timedOut else pure (min (dl - t) LIVENESS_QUANTUM)

structure SpinThenWait where
  spinCount : Nat
  deriving DecidableEq, Repr

namespace SpinThenWait

-- One turn of the second phase: declare the intention to sleep, check again, and sleep.
def park (handle : WaitHandle) (notify parked : Word) (deadline : Option Nat)
    (condition : Routine (Option α)) : Routine (Unit ⊕ α) := do
  let snapshot ← load notify
  match ← condition with
  | some v => pure (.inr v)
  | none   => do
    let remaining ← remainingQuantum deadline
    store parked 1
    fence
    -- The peer may have published before `parked` was set.
    match ← Code.attempt condition with
    | .ok (some v) => do
      store parked 0
      pure (.inr v)
    | .ok none => do
      waitOnHandle handle notify snapshot remaining
      store parked 0
      pure (.inl ())
    | .error e => do
      store parked 0
      fail e

def waitUntil (self : SpinThenWait) (handle : WaitHandle) (notify parked : Word)
    (timeout : Option Nat) (condition : Routine (Option α)) : Routine α := do
  let deadline ← deadlineOf timeout
  match ← spin condition self.spinCount with
  | some v => pure v
  | none   => Code.loop (fun _ => park handle notify parked deadline condition) ()

end SpinThenWait

namespace SpinOnly

-- Every 1024th turn looks at the clock.
def turn (deadline : Option Nat) (condition : Routine (Option α)) (iter : Nat) :
    Routine (Nat ⊕ α) := do
  match ← condition with
  | some v => pure (.inr v)
  | none   =>
    let iter := wrap32 (iter + 1)
    match deadline with
    | none    => pure (.inl iter)
    | some dl =>
      if iter &&& 0x3FF = 0 then do
        let t ← now
        if dl ≤ t then fail .timedOut else pure (.inl iter)
      else
        pure (.inl iter)

def waitUntil (timeout : Option Nat) (condition : Routine (Option α)) : Routine α := do
  let deadline ← deadlineOf timeout
  Code.loop (turn deadline condition) 0

end SpinOnly

inductive WaitStrategy
  | spinThenWait (s : SpinThenWait)
  | spinOnly
  deriving DecidableEq, Repr

def WaitStrategy.waitUntil (wait : WaitStrategy) (handle : WaitHandle) (notify parked : Word)
    (timeout : Option Nat) (condition : Routine (Option α)) : Routine α :=
  match wait with
  | .spinThenWait s => s.waitUntil handle notify parked timeout condition
  | .spinOnly       => SpinOnly.waitUntil timeout condition
