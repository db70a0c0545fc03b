import ShmemIpc.Code.Primitives

-- `ProcessMonitor` of `platform/linux.rs`. A monitor holds nothing but the observed identity.

def processStat (pid : Nat) : Routine (Nat × Bool) := do
  match ← readProcStat pid with
  | .ok stat => Code.ofExcept (parseProcessStat stat)
  | .error e => if e.kind = .notFound then fail .peerDisconnected else fail (.io e)

namespace ProcessMonitor

def isAlive (identity : ProcessIdentity) : Routine Bool := do
  match ← Code.attempt (processStat identity.pid) with
  | .ok (birth, alive)       => pure (alive && birth == identity.birth)
  | .error .peerDisconnected => pure false
  | .error e                 => fail e

def «open» (identity : ProcessIdentity) : Routine Unit :=
  if identity.pid = 0 then
    fail .invalidHeader
  else do
    if ← isAlive identity then pure () else fail .peerDisconnected

end ProcessMonitor

def currentIdentity : Routine ProcessIdentity := do
  let pid ← currentPid
  match ← Code.attempt (processStat pid) with
  | .ok (birth, _)           => pure ⟨pid, birth⟩
  | .error .peerDisconnected => fail .unsupportedPlatform
  | .error e                 => fail e
