import ShmemIpc.Execution.Run
import ShmemIpc.Ring.Operations

open Ring

-- Runs of a ring that are computed.

instance {L : Link} [Decidable L.discards] {i : ThreadId} {o : Operation} {s : State} :
    Decidable (L.system.callable i o s) :=
  match o with
  | .trySendOnce .. | .send .. | .sendAsync .. | .tryRecv _ | .recv .. | .recvAsync .. | .drainReady ..
  | .recvManyAsync .. | .recvInto .. | .recvIntoAsync .. => inferInstanceAs (Decidable (_ ∧ _ ∧ _))
  | .checkReady _ | .close _ | .drop _                   => inferInstanceAs (Decidable (_ ∧ True))
  | .create .. | .tryOpen .. | .open ..                  => inferInstanceAs (Decidable (_ ∧ False))
  | .waitLoop _ | .dropWait _ => inferInstanceAs (Decidable (_ ∧ Operation.RingWords _))
  | .env a                    =>
    inferInstanceAs (Decidable (_ ∧ (i = L.rx ∧ Link.hands a = true ∨ i ≠ L.tx ∧ i ≠ L.rx ∧ L.env s a = true)))

-- The ring from the server to the client, in the channel of `CrateMove.connect`.
def ringA : Link where
  config   := ⟨64, ⟨1⟩, 1000⟩
  tx       := 0
  rx       := 1
  hs       := 0
  hr       := 1
  xs       := ⟨.server, 0, "a", 0, 1000⟩
  xr       := ⟨.client, 0, "a", 0, 1000⟩
  discards := False
  threads  := by decide
  file     := rfl
  roles    := by decide
  valid    := rfl

namespace ringA

instance : Decidable ringA.discards :=
  isFalse id

def fresh (s : State) : Bool :=
  decide
    ((s.fst.shared 0 = some ringA.xs ∧ s.fst.shared 1 = some ringA.xr) ∧
     ((s.fst.sender 0).shared = 0 ∧ (s.fst.receiver 0).shared = 0 ∧
      (s.fst.sender 1).shared = 1 ∧ (s.fst.receiver 1).shared = 1) ∧
     (s.fst.sender 0 = Channel.newSender 0 ringA.xs 64 ∧ s.fst.receiver 1 = Channel.newReceiver 1 ringA.xr 64) ∧
     (s.fst.word ringA.writeCursor = 0 ∧ s.fst.word ringA.readCursor = 0) ∧
     (s.snd.ledger.sent 0 ringA.header = [] ∧ s.snd.ledger.received 0 ringA.header = [] ∧
      (s.snd.ledger.sealed 0).isNone) ∧
     s.fst.word (.global 0 .state) = 3 ∧ s.fst.word (.global 0 .serverPid) ≠ 0 ∧ s.fst.word (.global 0 .clientPid) ≠ 0)

-- The state that creating and opening the channel leads to.
theorem fresh_of_reachable {plat : Platform} {c : crateSystem.Config} (h : crateSystem.Reachable (machine plat) c)
    (hf : fresh c.mem = true) : ringA.Fresh c.mem := by
  obtain ⟨⟨hs, hr⟩, ⟨s0, r0, s1, r1⟩, ⟨tx, rx⟩, ⟨wc, rc⟩, ⟨sent, received, unsealed⟩, state, server, client⟩ :=
    of_decide_eq_true hf
  exact {
    linked := Header.inv_of_reachable h
    tx := ⟨hs, s0, r0⟩
    rx := ⟨hr, s1, r1⟩
    sender := tx
    receiver := rx
    wc, rc, sent, received
    unsealed := Option.isNone_iff_eq_none.mp unsealed
    open_ := by
      show c.mem.fst.word (.global 0 .state) < 4
      rw [state]
      decide
    serverPid := server
    clientPid := fun _ => client
  }

-- The runs of the ring from there, on a machine that may be restricted.

variable {m : Machine ThreadId Act Act.Ret State} {S : System ThreadId Act Act.Ret State}
variable [∀ i o s, Decidable (S.callable i o s)]

def after (O : Oracle m Choice) (l : List (Move ThreadId S.Op Choice)) (p : S.Config → Bool) : Bool :=
  (crateSystem.run (crateOracle .linux) crateStart CrateMove.connect).any fun c =>
    fresh c.mem && (S.run O ⟨c.mem, fun _ => none⟩ l).any p

theorem reaches_of_fresh (hS : ∀ s, ringA.Fresh s → S.init s) (O : Oracle m Choice)
    (hg : ∀ s, (crateOracle .linux).good s → O.good s) {l : List (Move ThreadId S.Op Choice)} {p : S.Config → Bool}
    (h : after O l p = true) : ∃ c, S.Reachable m c ∧ O.good c.mem ∧ p c = true := by
  have ⟨c, steps, good, hc⟩ := System.run_test crateStart_good h
  have ⟨hf, hp⟩ := (Bool.and_eq_true _ _).mp hc
  have reach : crateSystem.Reachable (machine .linux) c := .intro crateStart_initial steps
  have init : S.Initial ⟨c.mem, fun _ => none⟩ := ⟨hS _ (fresh_of_reachable reach hf), fun _ => rfl⟩
  have ⟨c', steps', good', hc'⟩ := System.run_test (c := ⟨c.mem, fun _ => none⟩) (hg _ good) hp
  exact ⟨c', .intro init steps', good', hc'⟩

theorem reaches {l : List CrateMove} {p : ringA.system.Config → Bool} (O : Oracle m Choice)
    (hg : ∀ s, (crateOracle .linux).good s → O.good s) (h : after (S := ringA.system) O l p = true) :
    ∃ c, ringA.system.Reachable m c ∧ O.good c.mem ∧ p c = true :=
  reaches_of_fresh (fun _ h => h) O hg h

-- The server sends a message, and the client receives it.

def send : List CrateMove :=
  .call 0 (.trySendOnce 0 [7, 8]) :: CrateMove.steps 0 39

def receive : List CrateMove :=
  .call 1 (.tryRecv 1) :: CrateMove.steps 1 22

-- Another thread closes the channel, and the client tries to receive.

def close : List CrateMove :=
  .call 2 (.close 0) :: CrateMove.steps 2 17

def fail : List CrateMove :=
  .call 1 (.tryRecv 1) :: CrateMove.steps 1 10

-- The thread 1 is about to report that the channel has been closed.
def closed (c : ringA.system.Config) : Bool :=
  c.returns 1 fun
    | .tryRecv _, _, v => decide (v = .error .channelClosed)
    | _, _, _          => false

theorem returning_of_closed {c : ringA.system.Config} (h : closed c = true) :
    ∃ h s, c.Returning ringA.rx (.tryRecv h) s (.error .channelClosed) := by
  have ⟨o, s, v, hr, hv⟩ := System.Config.returning h
  split at hv
  case h_1 h v => exact ⟨h, s, of_decide_eq_true hv ▸ hr⟩
  case h_2       => cases hv

end ringA
