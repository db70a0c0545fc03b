import ShmemIpc.Library.Beside
import ShmemIpc.Library.Utf8
import ShmemIpc.Code.Channel

open Function

-- The handshake of `listener.rs` and `tokio/listener.rs` on Unix: listeners, clients, and the sockets between them.
namespace Handshake

abbrev SocketId :=
  Nat

abbrev StreamId :=
  Nat

abbrev ListenerId :=
  Nat

structure Listener where
  inner       : SocketId
  name        : String
  config      : ChannelConfig
  counter     : Nat
  incarnation : String

-- An error of `connect`, and whether its kind is `ConnectionRefused`.
structure ConnectError where
  error   : IoError
  refused : Bool

structure Net where
  -- memory of the processes: `NEXT` of `listener_incarnation`, and the listeners with the threads that hold them
  next        : ProcessIdentity → Nat
  listener    : ListenerId → Option Listener
  holder      : ListenerId → ThreadId
  listeners   : ListenerId
  -- sockets
  bound       : String → Option SocketId
  nonblocking : SocketId → Bool
  backlog     : SocketId → List StreamId
  sockets     : SocketId
  -- streams: what the server has sent, and how much of it the client has read
  sent        : StreamId → Bytes
  read        : StreamId → Nat
  streams     : StreamId

namespace Net

inductive Act
  | fetchNext
  | newListener (x : Listener)
  | getListener (l : ListenerId)
  | bumpCounter (l : ListenerId)
  | freeListener (l : ListenerId)
  | giveListener (l : ListenerId) (j : ThreadId)
  | removeSocket (p : String)
  | bind (p : String)
  | setNonblocking (k : SocketId) (b : Bool)
  | accept (k : SocketId)
  | acceptAsync (k : SocketId) (timed : Bool)
  | setBlocking (st : StreamId)
  | connect (p : String)
  | write (st : StreamId) (b : Bytes)
  | flush (st : StreamId)
  | read (st : StreamId) (n : Nat)
  | sleep

-- An accept may answer that it would block, or that its time has elapsed. A read or write may be interrupted.
@[reducible]
def Act.Ret : Act → Type
  | fetchNext                                                       => Nat
  | newListener _                                                   => ListenerId
  | getListener _                                                   => Listener
  | removeSocket _ | setNonblocking .. | setBlocking _ | flush _    => Except IoError Unit
  | bind _                                                          => Except IoError SocketId
  | connect _                                                       => Except ConnectError StreamId
  | accept _ | acceptAsync ..                                       => Option (Except IoError StreamId)
  | write ..                                                        => Option (Except IoError Nat)
  | read ..                                                         => Option (Except IoError Bytes)
  | _                                                               => Unit

-- The outcomes for the thread `i`, where `process` gives the process of each thread. A write takes any part of its
-- bytes, and a read gives any part of those that it finds.
def exec (process : ThreadId → ProcessIdentity) (i : ThreadId) : (a : Act) → Net → a.Ret → Net → Prop
  | .fetchNext, s, r, s'           =>
      r = s.next (process i) ∧ s' = { s with next := update s.next (process i) (wrap64 (r + 1)) }
  | .newListener x, s, r, s'       =>
      r = s.listeners ∧
      s' = { s with listener := update s.listener r (some x), holder := update s.holder r i, listeners := r + 1 }
  | .getListener l, s, r, s'       => s.listener l = some r ∧ s' = s
  | .bumpCounter l, s, _, s'       =>
      ∃ x, s.listener l = some x ∧
        s' = { s with listener := update s.listener l (some { x with counter := wrap64 (x.counter + 1) }) }
  | .freeListener l, s, _, s'      => s' = { s with listener := update s.listener l none }
  | .giveListener l j, s, _, s'    => s' = { s with holder := update s.holder l j }
  | .removeSocket p, s, r, s'      =>
      (r = .ok () ∧ s' = { s with bound := update s.bound p none }) ∨ (Failed r ∧ s' = s)
  | .bind p, s, r, s'              =>
      (s.bound p = none ∧ r = .ok s.sockets ∧
        s' = { s with
          bound       := update s.bound p (some s.sockets)
          nonblocking := update s.nonblocking s.sockets false
          backlog     := update s.backlog s.sockets []
          sockets     := s.sockets + 1 }) ∨
      (Failed r ∧ s' = s)
  | .setNonblocking k b, s, r, s'  =>
      (r = .ok () ∧ s' = { s with nonblocking := update s.nonblocking k b }) ∨ (Failed r ∧ s' = s)
  | .accept k, s, r, s'            =>
      (∃ st rest, s.backlog k = st :: rest ∧ r = some (.ok st) ∧ s' = { s with backlog := update s.backlog k rest }) ∨
      (s.nonblocking k = true ∧ s.backlog k = [] ∧ r = none ∧ s' = s) ∨
      (∃ e, r = some (.error e) ∧ s' = s)
  | .acceptAsync k timed, s, r, s' =>
      (∃ st rest, s.backlog k = st :: rest ∧ r = some (.ok st) ∧ s' = { s with backlog := update s.backlog k rest }) ∨
      (timed = true ∧ r = none ∧ s' = s) ∨
      (∃ e, r = some (.error e) ∧ s' = s)
  | .setBlocking _, s, _, s'       => s' = s
  | .connect p, s, r, s'           =>
      (∃ k, s.bound p = some k ∧ r = .ok s.streams ∧
        s' = { s with
          backlog := update s.backlog k (s.backlog k ++ [s.streams])
          sent    := update s.sent s.streams []
          read    := update s.read s.streams 0
          streams := s.streams + 1 }) ∨
      (∃ e, r = .error e ∧ s' = s)
  | .write st b, s, r, s'          =>
      (∃ n ≤ b.length, r = some (.ok n) ∧ s' = { s with sent := update s.sent st (s.sent st ++ b.take n) }) ∨
      (r = none ∧ s' = s) ∨ (∃ e, r = some (.error e) ∧ s' = s)
  | .flush _, s, _, s'             => s' = s
  | .read st n, s, r, s'           =>
      (∃ m ≤ n, r = some (.ok (((s.sent st).drop (s.read st)).take m)) ∧
        s' = { s with read := update s.read st (s.read st + (((s.sent st).drop (s.read st)).take m).length) }) ∨
      (r = none ∧ s' = s) ∨ (∃ e, r = some (.error e) ∧ s' = s)
  | .sleep, s, _, s'               => s' = s

def machine (process : ThreadId → ProcessIdentity) : Machine ThreadId Act Act.Ret Net where
  exec := exec process

end Net

abbrev SiteAct :=
  Act ⊕ Net.Act

abbrev SiteRet : SiteAct → Type :=
  Sum.elim Act.Ret Net.Act.Ret

abbrev Site :=
  World × Net

def PATH_MAX : Nat := 4096

-- Paths are bounded, a process that reads its own record finds its own birth, and no counter overflows.
def Ordinary (i : ThreadId) (a : SiteAct) (s : Site) (r : SiteRet a) : Prop :=
  match a, r with
  | .inl (.createNew p), .ok _         => (Utf8.encode p.toList).length ≤ PATH_MAX
  | .inl (.readProcStat pid), .ok stat =>
      pid = (s.fst.process i).pid → ∃ alive, parseProcessStat stat = .ok ((s.fst.process i).birth, alive)
  | .inr .fetchNext, _                 => s.snd.next (s.fst.process i) + 1 < 2 ^ 64
  | .inr (.bumpCounter l), _           => ∀ x, s.snd.listener l = some x → x.counter + 1 < 2 ^ 64
  | _, _                               => True

def siteMachine (plat : Platform) : Machine ThreadId SiteAct SiteRet Site :=
  ((worldMachine plat).beside fun s => Net.machine s.process).restrict fun i a s r _ => Ordinary i a s r

end Handshake
