import ShmemIpc.Objects.World

-- The parts of a world, other than `process`, which nothing changes.
inductive Piece
  | path
  | len
  | word
  | byte
  | files
  | shared
  | nextProbe
  | peer
  | locked
  | poisoned
  | handles
  | sender
  | receiver
  | buf
  | out
  | bridge
  | clock
  | proc
  | asleep
  | signalled
  deriving DecidableEq

-- The parts that an action can change.
def Act.parts : Act → List Piece
  | .store .. | .fetchAdd _ | .compareExchange .. | .compareExchangeWeak .. => [.word]
  | .writeByte ..          => [.byte]
  | .setSender ..          => [.sender]
  | .setReceiver ..        => [.receiver]
  | .setBuf _              => [.buf]
  | .setOut _              => [.out]
  | .newShared ..          => [.shared, .nextProbe, .peer, .locked, .poisoned, .handles]
  | .freeShared _          => [.shared]
  | .lockPeer _            => [.locked]
  | .unlockPeer _          => [.locked]
  | .setPeer ..            => [.peer]
  | .storeNextProbe ..     => [.nextProbe]
  | .now                   => [.clock]
  | .setProc ..            => [.proc]
  | .createNew _           => [.path, .len, .word, .byte, .files]
  | .setLen ..             => [.len]
  | .removeFile _          => [.path]
  | .waitOn .. | .wake ..  => [.asleep, .signalled]
  | .resume                => [.asleep]
  | .spawnBridge _ | .setRunning .. | .sendReady _ | .storeStop _ | .notified _ | .awaitNotified ..
  | .notifyWaiters _ | .exitBridge _ => [.bridge]
  | _                      => []

namespace World

structure Frame (parts : List Piece) (s s' : World) : Prop where
  path      : .path ∉ parts → s'.path = s.path
  len       : .len ∉ parts → s'.len = s.len
  word      : .word ∉ parts → s'.word = s.word
  byte      : .byte ∉ parts → s'.byte = s.byte
  files     : .files ∉ parts → s'.files = s.files
  shared    : .shared ∉ parts → s'.shared = s.shared
  nextProbe : .nextProbe ∉ parts → s'.nextProbe = s.nextProbe
  peer      : .peer ∉ parts → s'.peer = s.peer
  locked    : .locked ∉ parts → s'.locked = s.locked
  poisoned  : .poisoned ∉ parts → s'.poisoned = s.poisoned
  handles   : .handles ∉ parts → s'.handles = s.handles
  sender    : .sender ∉ parts → s'.sender = s.sender
  receiver  : .receiver ∉ parts → s'.receiver = s.receiver
  buf       : .buf ∉ parts → s'.buf = s.buf
  out       : .out ∉ parts → s'.out = s.out
  bridge    : .bridge ∉ parts → s'.bridge = s.bridge
  clock     : .clock ∉ parts → s'.clock = s.clock
  proc      : .proc ∉ parts → s'.proc = s.proc
  asleep    : .asleep ∉ parts → s'.asleep = s.asleep
  signalled : .signalled ∉ parts → s'.signalled = s.signalled
  process   : s'.process = s.process

theorem Frame.refl {parts : List Piece} {s : World} : Frame parts s s := by
  constructor <;> intros <;> rfl

theorem Frame.same {s s' : World} (h : s' = s) : Frame [] s s' :=
  h ▸ .refl

theorem frame {plat : Platform} {i : ThreadId} {a : Act} {s s' : World} {r : a.Ret}
    (e : exec plat i a s r s') : Frame a.parts s s' := by
  cases a <;> simp only [exec, Act.parts] at e ⊢
  -- the outcomes that change nothing
  case' compareExchange     => rcases e with ⟨_, _, rfl⟩ | ⟨_, _, rfl⟩
  case' compareExchangeWeak => rcases e with ⟨_, _, rfl⟩ | ⟨_, rfl⟩
  case' lockPeer            => obtain ⟨_, e⟩ := e; split at e <;> obtain ⟨_, rfl⟩ := e
  case' readProcStat        => obtain ⟨rfl, _⟩ := e
  case' openFile            => obtain ⟨rfl, _⟩ := e
  case' createNew           => rcases e with ⟨_, _, rfl⟩ | ⟨_, rfl⟩
  case' setLen              => rcases e with ⟨_, rfl⟩ | ⟨_, rfl⟩
  case' removeFile          => rcases e with ⟨_, _, rfl⟩ | ⟨_, rfl⟩
  case' spawnBridge         => rcases e with ⟨_, rfl⟩ | ⟨_, rfl⟩
  case' waitOn              => cases plat <;> simp only at e <;> split at e <;> subst e
  case' wake                => rcases e with ⟨_, _, rfl⟩ | ⟨_, e⟩; rotate_left; cases plat <;> subst e
  all_goals try obtain ⟨_, e⟩ := e
  all_goals try subst e
  all_goals constructor
  all_goals first | rfl | (intro h; first | rfl | exact absurd (by decide) h)

end World
