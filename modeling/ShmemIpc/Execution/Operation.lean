import ShmemIpc.Code.Tokio
import ShmemIpc.Execution.History

-- What a thread can call.
inductive Operation
  | create (name : String) (config : ChannelConfig)
  | tryOpen (name : String) (config : ChannelConfig) (identity : ProcessIdentity)
  | «open» (name : String) (config : ChannelConfig)
  | checkReady (h : Handle)
  | close (h : Handle)
  | drop (h : Handle)
  | trySendOnce (h : Handle) (payload : Bytes)
  | send (h : Handle) (payload : Bytes) (wait : WaitStrategy) (timeout : Option Nat)
  | sendAsync (h : Handle) (wait : AsyncWait) (payload : Bytes)
  | tryRecv (h : Handle)
  | recv (h : Handle) (wait : WaitStrategy) (timeout : Option Nat)
  | recvInto (h : Handle) (wait : WaitStrategy) (timeout : Option Nat)
  | recvAsync (h : Handle) (wait : AsyncWait)
  | recvIntoAsync (h : Handle) (wait : AsyncWait)
  | drainReady (h : Handle) (maxMessages : Nat)
  | recvManyAsync (h : Handle) (wait : AsyncWait) (maxMessages : Nat)
  | waitLoop (wait : AsyncWait)
  | dropWait (wait : AsyncWait)
  -- a single step of anything else
  | env (a : Act)

namespace Operation

@[reducible]
def Answer : Operation → Type
  | create .. | «open» ..                  => Channel
  | tryOpen ..                             => Option Channel
  | checkReady _                           => Bool
  | trySendOnce ..                         => TrySendResult
  | tryRecv _                              => Option Bytes
  | recv .. | recvAsync ..                 => Bytes
  | recvInto .. | recvIntoAsync ..         => Nat
  | drainReady .. | recvManyAsync ..       => Nat
  | env a                                  => a.Ret
  | _                                      => Unit

@[reducible]
def Ret (o : Operation) : Type :=
  Except Error o.Answer

def code : (o : Operation) → Routine o.Answer
  | create name config           => Channel.createWithConfig name config
  | tryOpen name config identity => Channel.tryOpen name config identity
  | «open» name config           => Channel.openWithConfig name config
  | checkReady h                 => SharedChannel.checkReady h
  | close h                      => SharedChannel.close h
  | drop h                       => SharedChannel.drop h
  | trySendOnce h payload        => RingSender.trySendOnce h payload
  | send h payload wait timeout  => RingSender.send h payload wait timeout
  | sendAsync h wait payload     => Tokio.sendAsync h wait payload
  | tryRecv h                    => RingReceiver.tryRecv h
  | recv h wait timeout          => RingReceiver.recv h wait timeout
  | recvInto h wait timeout      => RingReceiver.recvInto h wait timeout
  | recvAsync h wait             => Tokio.recvAsync h wait
  | recvIntoAsync h wait         => Tokio.recvIntoAsync h wait
  | drainReady h max             => Tokio.drainReady h max
  | recvManyAsync h wait max     => Tokio.recvManyAsync h wait max
  | waitLoop wait                => AsyncWait.waitLoop wait
  | dropWait wait                => AsyncWait.drop wait
  | env a                        => Code.perform a

-- The channel on which an operation acts.
def handle : Operation → Option Handle
  | checkReady h | close h | drop h | trySendOnce h _ | send h .. | sendAsync h .. | tryRecv h
  | recv h .. | recvInto h .. | recvAsync h _ | recvIntoAsync h _ | drainReady h _
  | recvManyAsync h .. => some h
  | _                  => none

-- The operations that are futures.
def Async : Operation → Prop
  | sendAsync .. | recvAsync .. | recvIntoAsync .. | recvManyAsync .. => True
  | _                                                                 => False

instance : DecidablePred Async := fun o => by
  cases o
  case sendAsync | recvAsync | recvIntoAsync | recvManyAsync => exact isTrue trivial
  all_goals exact isFalse id

-- The bridge of one of the waiters of a ring.
def RingWords (wait : AsyncWait) : Prop :=
  wait.notify.IsNotify ∧ wait.parked.IsParked

end Operation

-- The channel of the handle `h`, as `create` or `open` has returned it.
structure Attached (s : World) (h : Handle) (x : SharedChannel) : Prop where
  shared   : s.shared h = some x
  sender   : (s.sender h).shared = h
  receiver : (s.receiver h).shared = h

-- Programs that call these operations under given conditions.
abbrev operations (callable : ThreadId → Operation → State → Prop) (init : State → Prop) :
    System ThreadId Act Act.Ret State where
  Op       := Operation
  Ret      := Operation.Ret
  body _ o := o.code
  callable := callable
  init     := init

-- All processes that use the crate. Processes start and end at any time.
abbrev crateSystem : System ThreadId Act Act.Ret State :=
  operations
    (fun _ o s =>
      (∀ h, o.handle = some h → ∃ x, Attached s.fst h x) ∧
      match o with
      | .waitLoop wait | .dropWait wait => Operation.RingWords wait
      | .env a                          => ∃ pid stat, a = .setProc pid stat
      | _                               => True)
    (fun s =>
      (∀ p, s.fst.path p = none) ∧ (∀ h, s.fst.shared h = none) ∧ ∀ f, s.fst.word (.global f .state) ≤ 5)
