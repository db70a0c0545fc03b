import ShmemIpc.Objects.World

open Function

-- What has happened in a run. No action reads it.

-- The messages of the rings. A ring is found by the offset of its header in a file.
structure Ledger where
  -- the payloads whose write cursor has been stored
  sent     : FileId → Nat → List Bytes
  -- for each record that was committed, the payload that was handed out, if it was
  received : FileId → Nat → List (Option Bytes)
  -- what had been sent when the channel state became terminal
  sealed   : FileId → Option (Nat → List Bytes)

namespace Ledger

def append (g : Ledger) (base : FileId) (header : Nat) (payload : Bytes) : Ledger :=
  { g with sent := update g.sent base (update (g.sent base) header (g.sent base header ++ [payload])) }

def consume (g : Ledger) (base : FileId) (header : Nat) (payload : Option Bytes) : Ledger :=
  { g with
    received := update g.received base
      (update (g.received base) header (g.received base header ++ [payload])) }

def transition (g : Ledger) (base : FileId) (new : Nat) : Ledger :=
  if new = ChannelState.closed.toU32 ∨ new = ChannelState.peerDisconnected.toU32 then
    { g with sealed := update g.sealed base (some ((g.sealed base).getD (g.sent base))) }
  else g

def record : (a : Act) → a.Ret → Ledger → Ledger
  | .store (.ring base header .writeCursor) _ (.publish payload), _, g => g.append base header payload
  | .store (.ring base header .readCursor) _ (.commit payload), _, g   => g.consume base header payload
  | .compareExchange (.global base .state) _ new, .ok _, g             => g.transition base new
  | .compareExchangeWeak (.global base .state) _ new, .ok _, g         => g.transition base new
  | _, _, g                                                            => g

theorem record_failed {g : Ledger} {w : Word} {cur new n : Nat} :
    g.record (.compareExchange w cur new) (.error n) = g ∧
    g.record (.compareExchangeWeak w cur new) (.error n) = g := by
  cases w
  case global b f => cases f <;> exact ⟨rfl, rfl⟩
  case ring       => exact ⟨rfl, rfl⟩

@[simp]
theorem transition_sent {g : Ledger} {b : FileId} {new : Nat} : (g.transition b new).sent = g.sent := by
  unfold transition
  split <;> rfl

@[simp]
theorem transition_received {g : Ledger} {b : FileId} {new : Nat} :
    (g.transition b new).received = g.received := by
  unfold transition
  split <;> rfl

theorem transition_sealed {g : Ledger} {b : FileId} {new : Nat} (h : new ≤ 5) :
    (g.transition b new).sealed b = if 4 ≤ new then some ((g.sealed b).getD (g.sent b)) else g.sealed b := by
  have ends : (new = ChannelState.closed.toU32 ∨ new = ChannelState.peerDisconnected.toU32) ↔ 4 ≤ new := by
    simp only [ChannelState.toU32]
    omega
  simp only [transition, ends]
  split <;> simp

theorem transition_sealed_of_ne {g : Ledger} {b c : FileId} {new : Nat} (h : c ≠ b) :
    (g.transition b new).sealed c = g.sealed c := by
  unfold transition
  split <;> simp [h]

end Ledger

-- The threads that have created a file, and that have claimed the channel in it.
structure Registry where
  creator  : FileId → ThreadId
  claimant : FileId → Option ThreadId

namespace Registry

def transition (g : Registry) (i : ThreadId) (base : FileId) (new : Nat) : Registry :=
  if new = ChannelState.clientClaimed.toU32 then
    { g with claimant := update g.claimant base (some i) }
  else g

def record (i : ThreadId) : (a : Act) → a.Ret → Registry → Registry
  | .createNew _, .ok f, g                                     =>
      { g with creator := update g.creator f i, claimant := update g.claimant f none }
  | .compareExchange (.global base .state) _ new, .ok _, g     => g.transition i base new
  | .compareExchangeWeak (.global base .state) _ new, .ok _, g => g.transition i base new
  | _, _, g                                                    => g

theorem transition_creator {g : Registry} {i : ThreadId} {base : FileId} {new : Nat} :
    (g.transition i base new).creator = g.creator := by
  unfold transition
  split <;> rfl

theorem record_creator {g : Registry} {i : ThreadId} {a : Act} {r : a.Ret}
    (h : ∀ p, a ≠ .createNew p) : (g.record i a r).creator = g.creator := by
  unfold record
  split
  case h_1 => exact absurd rfl (h _)
  case h_2 => exact transition_creator
  case h_3 => exact transition_creator
  case h_4 => rfl

end Registry

-- What a thread still has to do for the waiter of a notify word, after a step that may have made the
-- condition of the waiter true: to bump the word and then to wake, or only to wake.
inductive Debt
  | none
  | bump
  | wake
  deriving DecidableEq, Repr

structure Wakes where
  debt   : ThreadId → Word → Debt
  -- how often a word was bumped, and how often it had been when a thread last read it
  bumps  : Word → Nat
  seen   : ThreadId → Word → Nat
  -- whether a thread called `wait_on_handle` after the word had gone all the way round
  lapped : ThreadId → Bool

namespace Wakes

def owe (g : Wakes) (i : ThreadId) (w : Word) (d : Debt) : Wakes :=
  { g with debt := update g.debt i (update (g.debt i) w d) }

def settle (g : Wakes) (i : ThreadId) (w : Word) : Wakes :=
  if g.debt i w = .wake then g.owe i w .none else g

def bump (g : Wakes) (i : ThreadId) (w : Word) : Wakes :=
  { g with
    bumps := update g.bumps w (g.bumps w + 1)
    debt  := if g.debt i w = .bump then update g.debt i (update (g.debt i) w .wake) else g.debt }

-- A transition of the channel state can make the conditions of all its waiters true.
def transition (g : Wakes) (i : ThreadId) (base : FileId) (new : Nat) : Wakes :=
  if new = ChannelState.clientClaimed.toU32 then g
  else
    { g with debt := update g.debt i fun
        | .ring b header .writerNotify => if b = base then .bump else g.debt i (.ring b header .writerNotify)
        | .ring b header .readerNotify => if b = base then .bump else g.debt i (.ring b header .readerNotify)
        | w                            => g.debt i w }

def record (i : ThreadId) : (a : Act) → a.Ret → Wakes → Wakes
  | .store (.ring base header .writeCursor) _ (.publish _), _, g =>
      g.owe i (.ring base header .writerNotify) .bump
  | .store (.ring base header .readCursor) _ (.commit _), _, g   =>
      g.owe i (.ring base header .readerNotify) .bump
  | .compareExchange (.global base .state) _ new, .ok _, g       => g.transition i base new
  | .compareExchangeWeak (.global base .state) _ new, .ok _, g   => g.transition i base new
  | .fetchAdd w, _, g                                            => g.bump i w
  -- Nobody waits who has not set its `parked` word before.
  | .load (.ring base header .writerParked), r, g                =>
      if r = 0 then g.settle i (.ring base header .writerNotify) else g
  | .load (.ring base header .readerParked), r, g                =>
      if r = 0 then g.settle i (.ring base header .readerNotify) else g
  | .load w, _, g                                                =>
      { g with seen := update g.seen i (update (g.seen i) w (g.bumps w)) }
  | .wake _ w, _, g                                              => g.settle i w
  | .waitOn _ w _ _, _, g                                        =>
      { g with lapped := update g.lapped i (g.seen i w + 2 ^ 32 ≤ g.bumps w) }
  | _, _, g                                                      => g

end Wakes

structure History where
  ledger   : Ledger
  registry : Registry
  wakes    : Wakes
  -- whether the observer of processes has failed a thread
  faults   : ThreadId → Bool

-- The observer can tell neither that a process is alive nor that it is dead.
def Act.faulty : (a : Act) → a.Ret → Bool
  | .readProcStat _, .ok stat => !(parseProcessStat stat).isOk
  | .readProcStat _, .error e => e.kind ≠ .notFound
  | .lockPeer _, .error _     => true
  | _, _                      => false

def History.record (i : ThreadId) (a : Act) (r : a.Ret) (_ : World) (g : History) : History where
  ledger   := g.ledger.record a r
  registry := g.registry.record i a r
  wakes    := g.wakes.record i a r
  faults   := update g.faults i (g.faults i || a.faulty r)

abbrev State :=
  World × History

def machine (plat : Platform) : Machine ThreadId Act Act.Ret State :=
  (worldMachine plat).ghost History.record

-- A poisoned lock does not report a record.
theorem lock_error {plat : Platform} {i : ThreadId} {h : Handle} {s s' : State} {e : Error}
    (exec : (machine plat).exec i (.lockPeer h) s (.error e) s') : ¬ e.Framing := by
  have exec := exec.left.right
  split at exec
  case isTrue  => cases exec.left; exact id
  case isFalse => cases exec.left
