import ShmemIpc.Library.System
import ShmemIpc.Objects.World

open Function

-- The asynchronous wait of `platform/windows.rs` and `tokio/bridge.rs` on Windows, for one wait target: one task
-- waits, and all other threads signal.
namespace Windows

-- A `Waker`, by the task that it wakes.
abbrev Waker :=
  Nat

inductive Poll (α : Type)
  | ready (x : α)
  | pending
  deriving DecidableEq, Repr

inductive SignalKind
  | sync
  | async
  deriving DecidableEq, Repr

-- The mutexes of an `AsyncWaitState`.
inductive Slot
  | waitObject
  | waker
  deriving DecidableEq, Repr

structure WaitChanged where
  observed : Nat
  armed    : Bool
  deriving DecidableEq, Repr

structure Target where
  -- shared memory
  notify     : Nat
  parked     : Nat
  -- operating system
  signalled  : SignalKind → Bool
  registered : Bool
  -- `AsyncWaitState`
  waitObject : Bool
  signaled   : Bool
  waker      : Option Waker
  locked     : Slot → Option ThreadId
  -- memory of the task
  future     : Option WaitChanged

inductive Act
  | loadNotify
  | bumpNotify
  | loadParked
  | storeParked (v : Nat)
  | fence
  | setEvent (k : SignalKind)
  | consumeEvent
  | registerWait
  | hasWaitObject
  | setWaitObject
  | swapSignaled (b : Bool)
  | storeSignaled (b : Bool)
  | lock (l : Slot)
  | unlock (l : Slot)
  | getWaker
  | setWaker (w : Option Waker)
  | wake (w : Waker)
  | getFuture
  | setFuture (f : Option WaitChanged)
  | elapsed
  deriving DecidableEq, Repr

@[reducible]
def Act.Ret : Act → Type
  | loadNotify | bumpNotify | loadParked       => Nat
  | registerWait                               => Except IoError Unit
  | hasWaitObject | swapSignaled _ | elapsed   => Bool
  | getWaker                                   => Option Waker
  | getFuture                                  => WaitChanged
  | _                                          => Unit

-- Both events reset themselves: a signal that finds the event set is merged with it, and one wait consumes it. The
-- thread pool consumes a signal of the asynchronous event once the wait is registered. A registration may fail, and
-- the quantum may have elapsed, at any time.
def Target.exec (i : ThreadId) : (a : Act) → Target → a.Ret → Target → Prop
  | .loadNotify, s, r, s'      => r = s.notify ∧ s' = s
  | .bumpNotify, s, r, s'      => r = s.notify ∧ s' = { s with notify := wrap32 (s.notify + 1) }
  | .loadParked, s, r, s'      => r = s.parked ∧ s' = s
  | .storeParked v, s, _, s'   => s' = { s with parked := v }
  | .fence, s, _, s'           => s' = s
  | .setEvent k, s, _, s'      => s' = { s with signalled := update s.signalled k true }
  | .consumeEvent, s, _, s'    =>
      s.registered = true ∧ s.signalled .async = true ∧ s' = { s with signalled := update s.signalled .async false }
  | .registerWait, s, r, s'    => (r = .ok () ∧ s' = { s with registered := true }) ∨ (Failed r ∧ s' = s)
  | .hasWaitObject, s, r, s'   => r = s.waitObject ∧ s' = s
  | .setWaitObject, s, _, s'   => s' = { s with waitObject := true }
  | .swapSignaled b, s, r, s'  => r = s.signaled ∧ s' = { s with signaled := b }
  | .storeSignaled b, s, _, s' => s' = { s with signaled := b }
  | .lock l, s, _, s'          => s.locked l = none ∧ s' = { s with locked := update s.locked l (some i) }
  | .unlock l, s, _, s'        => s' = { s with locked := update s.locked l none }
  | .getWaker, s, r, s'        => r = s.waker ∧ s' = s
  | .setWaker w, s, _, s'      => s' = { s with waker := w }
  | .wake _, s, _, s'          => s' = s
  | .getFuture, s, r, s'       => s.future = some r ∧ s' = s
  | .setFuture f, s, _, s'     => s' = { s with future := f }
  | .elapsed, s, _, s'         => s' = s

def targetMachine : Machine ThreadId Act Act.Ret Target where
  exec := Target.exec

end Windows
