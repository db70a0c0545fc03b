import ShmemIpc.Execution.Operation
import ShmemIpc.Execution.Oracle

-- Runs of the crate that are computed.

instance {s : World} {h : Handle} : Decidable (∃ x, Attached s h x) :=
  decidable_of_iff ((s.shared h).isSome ∧ (s.sender h).shared = h ∧ (s.receiver h).shared = h)
    ⟨fun ⟨hs, ht, hr⟩ => ⟨_, (Option.some_get hs).symm, ht, hr⟩,
     fun ⟨_, ha⟩ => ⟨by simp [ha.shared], ha.sender, ha.receiver⟩⟩

instance {wait : AsyncWait} : Decidable (Operation.RingWords wait) :=
  inferInstanceAs (Decidable (_ ∧ _))

def Act.isSetProc : Act → Bool
  | .setProc .. => true
  | _           => false

theorem Act.isSetProc_iff {a : Act} : a.isSetProc = true ↔ ∃ pid stat, a = .setProc pid stat := by
  cases a <;> simp [isSetProc]

namespace Operation

instance {o : Operation} {s : World} : Decidable (∀ h, o.handle = some h → ∃ x, Attached s h x) :=
  match ho : o.handle with
  | none   => isTrue nofun
  | some h => decidable_of_iff (∃ x, Attached s h x) ⟨fun ha _ hk => by cases hk; exact ha, fun ha => ha h rfl⟩

instance {i : ThreadId} {o : Operation} {s : State} : Decidable (crateSystem.callable i o s) :=
  match o with
  | .waitLoop _ | .dropWait _ => inferInstanceAs (Decidable (_ ∧ Operation.RingWords _))
  | .env a                    => @instDecidableAnd _ _ inferInstance (decidable_of_iff _ a.isSetProc_iff)
  | .create .. | .tryOpen .. | .open .. | .checkReady _ | .close _ | .drop _ | .trySendOnce ..
  | .send .. | .sendAsync .. | .tryRecv _ | .recv .. | .recvInto .. | .recvAsync ..
  | .recvIntoAsync .. | .drainReady .. | .recvManyAsync .. => inferInstanceAs (Decidable (_ ∧ True))

end Operation

-- A machine on which nothing has happened. The process of the thread `i` has the pid `i + 1`.
def World.start : World where
  path _      := none
  len _       := 0
  word _      := 0
  byte _ _    := 0
  files       := 0
  shared _    := none
  nextProbe _ := 0
  peer _      := none
  locked _    := false
  poisoned _  := false
  handles     := 0
  sender _    := ⟨0, 0, ⟨0, .ringAWriter⟩, ⟨0, .ringAReader⟩, 0, 0, 0, 0, 0, 0, 0⟩
  receiver _  := ⟨0, 0, ⟨0, .ringAWriter⟩, ⟨0, .ringAReader⟩, 0, 0, 0, 0, 0, 0⟩
  buf _       := []
  out _       := []
  bridge _    := ⟨false, false, false, false, false, none⟩
  clock       := 0
  process i   := ⟨i + 1, 100⟩
  proc pid    :=
    if 0 < pid then
      some "1 (a) S 1 1 1 1 1 1 1 1 1 1 1 1 1 1 1 1 1 1 100".toList
    else none
  asleep _    := none
  signalled _ := false

def History.start : History where
  ledger   := ⟨fun _ _ => [], fun _ _ => [], fun _ => none⟩
  registry := ⟨fun _ => 0, fun _ => none⟩
  wakes    := ⟨fun _ _ => .none, fun _ => 0, fun _ _ => 0, fun _ => false⟩
  faults _ := false

def crateOracle (plat : Platform) : Oracle (machine plat) Choice :=
  (oracle plat 8).ghost History.record

abbrev CrateMove :=
  Move ThreadId Operation Choice

-- The thread `i` takes `n` steps.
def CrateMove.steps (i : ThreadId) (n : Nat) : List CrateMove :=
  List.replicate n (.step i .normal)

-- The thread 0 creates a channel in the file 0, with the handle 0, and the thread 1 connects to it
-- with the handle 1.
def CrateMove.connect : List CrateMove :=
  .call 0 (.create "a" ⟨64, ⟨1⟩, 1000⟩) :: steps 0 34 ++
  .call 1 (.tryOpen "a" ⟨64, ⟨1⟩, 1000⟩ ⟨2, 100⟩) :: steps 1 32

def crateStart : crateSystem.Config :=
  ⟨(World.start, History.start), fun _ => none⟩

theorem crateStart_initial : crateSystem.Initial crateStart :=
  ⟨⟨fun _ => rfl, fun _ => rfl, fun _ => Nat.zero_le _⟩, fun _ => rfl⟩

theorem crateStart_good {plat : Platform} : (crateOracle plat).good crateStart.mem :=
  fun _ _ => rfl
