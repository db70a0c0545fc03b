import ShmemIpc.Library.System
import ShmemIpc.Objects.Header
import ShmemIpc.Objects.Process

open Function

abbrev ThreadId :=
  Nat

-- A `SharedChannel`: the channel of one process, with its sender and its receiver.
abbrev Handle :=
  Nat

abbrev Bytes :=
  List UInt8

inductive Platform
  | linux
  | windows

inductive Role
  | server
  | client
  deriving DecidableEq, Repr

structure RingSender where
  base         : FileId
  ringHeader   : Nat
  writerWait   : WaitHandle
  readerWait   : WaitHandle
  dataOffset   : Nat
  ringDataSize : Nat
  ringMask     : Nat
  nextSeq      : Nat
  cachedWc     : Nat
  cachedRc     : Nat
  shared       : Handle
  deriving DecidableEq, Repr

structure RingReceiver where
  base         : FileId
  ringHeader   : Nat
  writerWait   : WaitHandle
  readerWait   : WaitHandle
  dataOffset   : Nat
  ringDataSize : Nat
  ringMask     : Nat
  expectedSeq  : Nat
  cachedRc     : Nat
  shared       : Handle
  deriving DecidableEq, Repr

-- The fields of a `SharedChannel` that do not change. Times are in nanoseconds.
structure SharedChannel where
  role           : Role
  base           : FileId
  name           : String
  started        : Nat
  connectTimeout : Nat
  deriving DecidableEq, Repr

-- A thread asleep in `wait_on_handle`.
structure Sleep where
  handle   : WaitHandle
  word     : Word
  expected : Nat
  timeout  : Nat
  deriving DecidableEq, Repr

-- An `AsyncWait`: its `RunningWait` and the `WaitState` that it shares with the bridge thread.
-- `future` is the `Notified` future of the waiting task, and whether it has been notified.
structure Bridge where
  running : Bool
  spawned : Bool
  ready   : Bool
  stop    : Bool
  exited  : Bool
  future  : Option Bool
  deriving DecidableEq, Repr

structure World where
  -- files
  path       : String → Option FileId
  len        : FileId → Nat
  word       : Word → Nat
  byte       : FileId → Nat → UInt8
  files      : FileId
  -- memory of the processes
  shared     : Handle → Option SharedChannel
  nextProbe  : Handle → Nat
  peer       : Handle → Option ProcessIdentity
  locked     : Handle → Bool
  poisoned   : Handle → Bool
  handles    : Handle
  sender     : Handle → RingSender
  receiver   : Handle → RingReceiver
  buf        : ThreadId → Bytes
  out        : ThreadId → List Bytes
  bridge     : Nat → Bridge
  -- operating system
  clock      : Nat
  process    : ThreadId → ProcessIdentity
  proc       : Nat → Option (List Char)
  asleep     : ThreadId → Option Sleep
  signalled  : WaitHandle → Bool

-- What a store means for the messages of a ring.
inductive Note
  | none
  | publish (payload : Bytes)
  | commit (payload : Option Bytes)
  deriving DecidableEq, Repr

-- The atomic steps of the code: accesses to shared memory, to the private memory of a process, and
-- system calls.
inductive Act
  | load (w : Word)
  | store (w : Word) (v : Nat) (note : Note)
  | fetchAdd (w : Word)
  | compareExchange (w : Word) (current new : Nat)
  | compareExchangeWeak (w : Word) (current new : Nat)
  | fence
  | readByte (base : FileId) (addr : Nat)
  | writeByte (base : FileId) (addr : Nat) (b : UInt8)
  | sub (a b : Nat)
  | getSender (h : Handle)
  | setSender (h : Handle) (x : RingSender)
  | getReceiver (h : Handle)
  | setReceiver (h : Handle) (x : RingReceiver)
  | getBuf
  | setBuf (b : Bytes)
  | getOut
  | setOut (xs : List Bytes)
  | getShared (h : Handle)
  | newShared (x : SharedChannel) (peer : Option ProcessIdentity)
  | freeShared (h : Handle)
  | lockPeer (h : Handle)
  | unlockPeer (h : Handle)
  | isPoisoned (h : Handle)
  | getPeer (h : Handle)
  | setPeer (h : Handle) (p : ProcessIdentity)
  | loadNextProbe (h : Handle)
  | storeNextProbe (h : Handle) (v : Nat)
  | now
  | currentPid
  | readProcStat (pid : Nat)
  | setProc (pid : Nat) (stat : Option (List Char))
  | newWaitKey
  | newWaitSet
  | createNew (p : String)
  | openFile (p : String)
  | setLen (f : FileId) (n : Nat)
  | fileLen (f : FileId)
  | mapMut (f : FileId)
  | removeFile (p : String)
  | waitOn (h : WaitHandle) (w : Word) (expected timeout : Nat)
  | resume
  | wake (h : WaitHandle) (w : Word)
  | isRunning (n : Nat)
  | spawnBridge (n : Nat)
  | setRunning (n : Nat) (b : Bool)
  | sendReady (n : Nat)
  | recvReady (n : Nat)
  | loadStop (n : Nat)
  | storeStop (n : Nat)
  | notified (n : Nat)
  | awaitNotified (n : Nat) (observed : Nat)
  | notifyWaiters (n : Nat)
  | exitBridge (n : Nat)
  | joinBridge (n : Nat)

@[reducible]
def Act.Ret : Act → Type
  | load _ | fetchAdd _ | sub _ _ | loadNextProbe _ | now | currentPid | newWaitKey => Nat
  | compareExchange .. | compareExchangeWeak ..                                   => Except Nat Nat
  | readByte ..                                                                   => UInt8
  | getSender _                                                                   => RingSender
  | getReceiver _                                                                 => RingReceiver
  | getBuf                                                                        => Bytes
  | getOut                                                                        => List Bytes
  | getShared _                                                                   => SharedChannel
  | newShared ..                                                                  => Handle
  | lockPeer _                                                                    => Except Error Unit
  | getPeer _                                                                     => Option ProcessIdentity
  | readProcStat _                                                                => Except IoError (List Char)
  | newWaitSet | setLen .. | removeFile _ | spawnBridge _                         => Except IoError Unit
  | createNew _ | openFile _                                                      => Except IoError FileId
  | fileLen _ | mapMut _                                                          => Except IoError Nat
  | isPoisoned _ | isRunning _ | loadStop _ | awaitNotified ..                    => Bool
  | _                                                                             => Unit

namespace World

-- The value of a word after `fetch_add(1)`. Only the notify words are updated so, and they are 32 bits.
def bumped (s : World) (w : Word) : World :=
  { s with word := update s.word w (wrap32 (s.word w + 1)) }

def stored (s : World) (w : Word) (v : Nat) : World :=
  { s with word := update s.word w v }

-- `f` becomes an empty file at the path `p`. All bytes of a new file are zero.
def created (s : World) (p : String) (f : FileId) : World :=
  { s with
    path  := update s.path p (some f)
    len   := update s.len f 0
    word  := fun w => match w with
      | .global base _ | .ring base _ _ => if base = f then 0 else s.word w
    byte  := update s.byte f fun _ => 0
    files := f + 1 }

def bridged (s : World) (n : Nat) (f : Bridge → Bridge) : World :=
  { s with bridge := update s.bridge n (f (s.bridge n)) }

-- The threads that a wake of the given wait object and word can release.
def Waits (plat : Platform) (s : World) (h : WaitHandle) (w : Word) (j : ThreadId) : Prop :=
  match plat with
  | .linux   => ∃ z, s.asleep j = some z ∧ z.word = w
  | .windows => ∃ z, s.asleep j = some z ∧ z.handle = h

def woken (s : World) (j : ThreadId) : World :=
  { s with asleep := update s.asleep j none }

end World

inductive Failed {α : Type} : Except IoError α → Prop
  | intro (e : IoError) : Failed (.error e)

-- The outcomes of the actions of the thread `i`. Atomic accesses are sequentially consistent. System
-- calls may fail at any time, and a thread may stop sleeping at any time, as its timeout may expire.
def World.exec (plat : Platform) (i : ThreadId) : (a : Act) → World → a.Ret → World → Prop
  | .load w, s, r, s'                => r = s.word w ∧ s' = s
  | .store w v _, s, _, s'           => s' = s.stored w v
  | .fetchAdd w, s, r, s'            => r = s.word w ∧ s' = s.bumped w
  | .compareExchange w e n, s, r, s' =>
      (s.word w = e ∧ r = .ok e ∧ s' = s.stored w n) ∨ (s.word w ≠ e ∧ r = .error (s.word w) ∧ s' = s)
  | .compareExchangeWeak w e n, s, r, s' =>
      (s.word w = e ∧ r = .ok e ∧ s' = s.stored w n) ∨ (r = .error (s.word w) ∧ s' = s)
  | .fence, s, _, s'                 => s' = s
  | .readByte base addr, s, r, s'    => r = s.byte base addr ∧ s' = s
  | .writeByte base addr b, s, _, s' =>
      s' = { s with byte := update s.byte base (update (s.byte base) addr b) }
  | .sub a b, s, r, s'               => r = wrapSub64 a b ∧ s' = s
  | .getSender h, s, r, s'           => r = s.sender h ∧ s' = s
  | .setSender h x, s, _, s'         => s' = { s with sender := update s.sender h x }
  | .getReceiver h, s, r, s'         => r = s.receiver h ∧ s' = s
  | .setReceiver h x, s, _, s'       => s' = { s with receiver := update s.receiver h x }
  | .getBuf, s, r, s'                => r = s.buf i ∧ s' = s
  | .setBuf b, s, _, s'              => s' = { s with buf := update s.buf i b }
  | .getOut, s, r, s'                => r = s.out i ∧ s' = s
  | .setOut xs, s, _, s'             => s' = { s with out := update s.out i xs }
  | .getShared h, s, r, s'           => s.shared h = some r ∧ s' = s
  | .newShared x p, s, r, s'         =>
      r = s.handles ∧
      s' = { s with
        shared    := update s.shared r (some x)
        peer      := update s.peer r p
        nextProbe := update s.nextProbe r 0
        locked    := update s.locked r false
        poisoned  := update s.poisoned r false
        handles   := r + 1 }
  | .freeShared h, s, _, s'          => s' = { s with shared := update s.shared h none }
  | .lockPeer h, s, r, s'            =>
      s.locked h = false ∧
      if s.poisoned h
        then r = .error (.io ⟨.other, "process observer lock poisoned"⟩) ∧ s' = s
        else r = .ok () ∧ s' = { s with locked := update s.locked h true }
  | .unlockPeer h, s, _, s'          => s' = { s with locked := update s.locked h false }
  | .isPoisoned h, s, r, s'          => r = s.poisoned h ∧ s' = s
  | .getPeer h, s, r, s'             => r = s.peer h ∧ s' = s
  | .setPeer h p, s, _, s'           => s' = { s with peer := update s.peer h (some p) }
  | .loadNextProbe h, s, r, s'       => r = s.nextProbe h ∧ s' = s
  | .storeNextProbe h v, s, _, s'    => s' = { s with nextProbe := update s.nextProbe h v }
  | .now, s, r, s'                   => s.clock ≤ r ∧ s' = { s with clock := r }
  | .currentPid, s, r, s'            => r = (s.process i).pid ∧ s' = s
  | .readProcStat pid, s, r, s'      =>
      s' = s ∧
      match s.proc pid, r with
      | some t, .ok t'   => t' = t
      | some _, .error e => e.kind ≠ .notFound
      | none, .ok _      => False
      | none, .error _   => True
  | .setProc pid t, s, _, s'         => s' = { s with proc := update s.proc pid t }
  | .newWaitKey, s, _, s'            => s' = s
  | .newWaitSet, s, _, s'            => s' = s
  | .createNew p, s, r, s'           =>
      (s.path p = none ∧ r = .ok s.files ∧ s' = s.created p s.files) ∨ (Failed r ∧ s' = s)
  | .openFile p, s, r, s'            =>
      s' = s ∧
      match s.path p, r with
      | some f, .ok f'   => f' = f
      | some _, .error e => e.kind ≠ .notFound
      | none, .ok _      => False
      | none, .error _   => True
  | .setLen f n, s, r, s'            =>
      (r = .ok () ∧ s' = { s with len := update s.len f n }) ∨ (Failed r ∧ s' = s)
  | .fileLen f, s, r, s'             => (r = .ok (s.len f) ∨ Failed r) ∧ s' = s
  | .mapMut f, s, r, s'              => (r = .ok (s.len f) ∨ Failed r) ∧ s' = s
  | .removeFile p, s, r, s'          =>
      (r = .ok () ∧ s.path p ≠ none ∧ s' = { s with path := update s.path p none }) ∨
      (Failed r ∧ s' = s)
  | .waitOn h w expected t, s, _, s' =>
      match plat with
      | .linux   =>
          if s.word w = expected
            then s' = { s with asleep := update s.asleep i (some ⟨h, w, expected, t⟩) }
            else s' = s
      | .windows =>
          if s.signalled h
            then s' = { s with signalled := update s.signalled h false }
            else s' = { s with asleep := update s.asleep i (some ⟨h, w, expected, t⟩) }
  | .resume, s, _, s'                => s' = s.woken i
  | .wake h w, s, _, s'              =>
      (∃ j, s.Waits plat h w j ∧ s' = s.woken j) ∨
      ((∀ j, ¬ s.Waits plat h w j) ∧
        match plat with
        | .linux   => s' = s
        | .windows => s' = { s with signalled := update s.signalled h true })
  | .isRunning n, s, r, s'           => r = (s.bridge n).running ∧ s' = s
  | .spawnBridge n, s, r, s'         =>
      (r = .ok () ∧ s' = s.bridged n fun _ => ⟨false, true, false, false, false, none⟩) ∨
      (Failed r ∧ s' = s)
  | .setRunning n b, s, _, s'        => s' = s.bridged n ({ · with running := b })
  | .sendReady n, s, _, s'           => s' = s.bridged n ({ · with ready := true })
  | .recvReady n, s, _, s'           => (s.bridge n).ready = true ∧ s' = s
  | .loadStop n, s, r, s'            => r = (s.bridge n).stop ∧ s' = s
  | .storeStop n, s, _, s'           => s' = s.bridged n ({ · with stop := true })
  | .notified n, s, _, s'            => s' = s.bridged n ({ · with future := some false })
  | .awaitNotified n _, s, r, s'     =>
      (r = true → (s.bridge n).future = some true) ∧ s' = s.bridged n ({ · with future := none })
  | .notifyWaiters n, s, _, s'       => s' = s.bridged n fun b => { b with future := b.future.map fun _ => true }
  | .exitBridge n, s, _, s'          => s' = s.bridged n ({ · with exited := true })
  | .joinBridge n, s, _, s'          => (s.bridge n).exited = true ∧ s' = s

def worldMachine (plat : Platform) : Machine ThreadId Act Act.Ret World where
  exec := World.exec plat
