import ShmemIpc.Objects.World

-- Code of the repository, over its atomic steps.
abbrev Routine :=
  Code Act Act.Ret Error

abbrev fail {α : Type} (e : Error) : Routine α :=
  Code.throw e

abbrev load (w : Word) : Routine Nat :=
  Code.perform (Act.load w)

abbrev store (w : Word) (v : Nat) (note : Note := .none) : Routine Unit :=
  Code.perform (Act.store w v note)

abbrev fetchAdd (w : Word) : Routine Nat :=
  Code.perform (Act.fetchAdd w)

abbrev compareExchange (w : Word) (current new : Nat) : Routine (Except Nat Nat) :=
  Code.perform (Act.compareExchange w current new)

abbrev compareExchangeWeak (w : Word) (current new : Nat) : Routine (Except Nat Nat) :=
  Code.perform (Act.compareExchangeWeak w current new)

abbrev fence : Routine Unit :=
  Code.perform Act.fence

abbrev readByte (base : FileId) (addr : Nat) : Routine UInt8 :=
  Code.perform (Act.readByte base addr)

abbrev writeByte (base : FileId) (addr : Nat) (b : UInt8) : Routine Unit :=
  Code.perform (Act.writeByte base addr b)

-- The unchecked subtraction of `u64`.
abbrev sub (a b : Nat) : Routine Nat :=
  Code.perform (Act.sub a b)

abbrev getSender (h : Handle) : Routine RingSender :=
  Code.perform (Act.getSender h)

abbrev setSender (h : Handle) (x : RingSender) : Routine Unit :=
  Code.perform (Act.setSender h x)

abbrev getReceiver (h : Handle) : Routine RingReceiver :=
  Code.perform (Act.getReceiver h)

abbrev setReceiver (h : Handle) (x : RingReceiver) : Routine Unit :=
  Code.perform (Act.setReceiver h x)

abbrev getBuf : Routine Bytes :=
  Code.perform Act.getBuf

abbrev setBuf (b : Bytes) : Routine Unit :=
  Code.perform (Act.setBuf b)

abbrev getOut : Routine (List Bytes) :=
  Code.perform Act.getOut

abbrev setOut (xs : List Bytes) : Routine Unit :=
  Code.perform (Act.setOut xs)

abbrev getShared (h : Handle) : Routine SharedChannel :=
  Code.perform (Act.getShared h)

abbrev newShared (x : SharedChannel) (peer : Option ProcessIdentity) : Routine Handle :=
  Code.perform (Act.newShared x peer)

abbrev freeShared (h : Handle) : Routine Unit :=
  Code.perform (Act.freeShared h)

abbrev lockPeer (h : Handle) : Routine (Except Error Unit) :=
  Code.perform (Act.lockPeer h)

abbrev unlockPeer (h : Handle) : Routine Unit :=
  Code.perform (Act.unlockPeer h)

abbrev isPoisoned (h : Handle) : Routine Bool :=
  Code.perform (Act.isPoisoned h)

abbrev getPeer (h : Handle) : Routine (Option ProcessIdentity) :=
  Code.perform (Act.getPeer h)

abbrev setPeer (h : Handle) (p : ProcessIdentity) : Routine Unit :=
  Code.perform (Act.setPeer h p)

abbrev loadNextProbe (h : Handle) : Routine Nat :=
  Code.perform (Act.loadNextProbe h)

abbrev storeNextProbe (h : Handle) (v : Nat) : Routine Unit :=
  Code.perform (Act.storeNextProbe h v)

abbrev now : Routine Nat :=
  Code.perform Act.now

abbrev currentPid : Routine Nat :=
  Code.perform Act.currentPid

abbrev readProcStat (pid : Nat) : Routine (Except IoError (List Char)) :=
  Code.perform (Act.readProcStat pid)

abbrev newWaitKey : Routine Nat :=
  Code.perform Act.newWaitKey

-- A system call followed by `?`, which converts the `std::io::Error`.
def orFail {α : Type} : Except IoError α → Routine α
  | .ok x    => pure x
  | .error e => fail (.io e)

abbrev newWaitSet : Routine (Except IoError Unit) :=
  Code.perform Act.newWaitSet

abbrev createNew (p : String) : Routine (Except IoError FileId) :=
  Code.perform (Act.createNew p)

abbrev openFile (p : String) : Routine (Except IoError FileId) :=
  Code.perform (Act.openFile p)

abbrev setLen (f : FileId) (n : Nat) : Routine (Except IoError Unit) :=
  Code.perform (Act.setLen f n)

abbrev fileLen (f : FileId) : Routine (Except IoError Nat) :=
  Code.perform (Act.fileLen f)

abbrev mapMut (f : FileId) : Routine (Except IoError Nat) :=
  Code.perform (Act.mapMut f)

abbrev removeFile (p : String) : Routine (Except IoError Unit) :=
  Code.perform (Act.removeFile p)

abbrev wake (h : WaitHandle) (w : Word) : Routine Unit :=
  Code.perform (Act.wake h w)

-- `wait_on_handle`: the thread may fall asleep, and resumes later.
def waitOnHandle (h : WaitHandle) (w : Word) (expected timeout : Nat) : Routine Unit := do
  Code.perform (Act.waitOn h w expected timeout)
  Code.perform Act.resume
