import ShmemIpc.Execution.Corrupt
import ShmemIpc.Execution.Wild
import ShmemIpc.Ring.Hostile

-- What is left of a call that fails, whatever the memory contains and whatever else happens to it.
namespace Wild

open Assertion Code Discipline Commit Bounds

-- A message that fits into a ring of `size` bytes is too large for the buffer of the caller.
def Short (size : Nat) (e : Error) : Prop :=
  ∃ n max, e = .messageTooLarge n max ∧ n ≤ size - MSG_HEADER_SIZE

-- The ring of the receiver `h`.
def ringSize (s : World) (h : Handle) : Nat :=
  (s.receiver h).ringDataSize

-- Nothing is published and nothing is taken out, but for a single record of which `recv_into` says that
-- the buffer is too short for it.
def Aborted (s : World) (o : Operation) (e : Error) (t : Events) : Prop :=
  match o with
  | .send .. | .trySendOnce .. | .recv .. | .tryRecv _ => Uncommitted t
  | .recvInto h ..                                     =>
      (Short (ringSize s h) e → Discarded h e t) ∧ (¬ Short (ringSize s h) e → Uncommitted t)
  | .sendAsync .. | .recvAsync ..                      => Untouched t
  | _                                                  => True

theorem Aborted.of_fails {s : World} {o : Operation} {e : Error} {t : Events} (stood : Stood t s) (h : Fails o e t) :
    Aborted s o e t := by
  cases o
  case recvInto k _ _ =>
    have size {x : RingReceiver} (hx : ⟨.getReceiver k, x⟩ ∈ t) : ringSize s k = x.ringDataSize :=
      congrArg Area.size ((stood k).right x hx)
    rcases h with ⟨before, large⟩ | discarded
    case inl =>
      refine ⟨?_, fun _ => before⟩
      rintro ⟨n, max, rfl, fits⟩
      obtain ⟨x, hx, lt⟩ := large n max rfl
      rw [size hx] at fits
      exact absurd lt (Nat.not_lt.mpr fits)
    case inr =>
      refine ⟨fun _ => discarded, fun long => absurd ?_ long⟩
      obtain ⟨m, b, _, _, _, _, rfl, _, t₀, ⟨_, found, _, _⟩, rfl⟩ := discarded
      obtain ⟨x, _, hx, _, _, _, _, _, fits⟩ := found.record
      exact ⟨_, _, rfl, size (List.mem_append_left _ hx) ▸ fits⟩
  all_goals exact h

-- A receive that is called when nothing else happens fails at a record that it cannot accept, and
-- leaves the record to the next one.
def Repeats (plat : Platform) (s : World) : Prop :=
  ∀ h e, Corrupt s (s.receiver h) e → ∀ i,
    Alone (worldMachine plat) i (RingReceiver.tryRecv h) s (Corrupt.Fails s e) ∧
    ∀ wait timeout,
      Alone (worldMachine plat) i (RingReceiver.recv h wait timeout) s (Corrupt.Fails s e) ∧
      Alone (worldMachine plat) i (RingReceiver.recvInto h wait timeout) s (Corrupt.Fails s e)

theorem failed_calls_commit_nothing {plat : Platform} {c : hostileSystem.logged.Config}
    (h : hostileSystem.logged.Reachable (machine plat).logged c) {i : ThreadId} {o : Operation}
    {s : State × Log ThreadId Act Act.Ret} {e : Error} (hr : c.Returning i o s (.error e)) :
    Aborted c.mem.fst.fst o e (Log.since i s.snd c.mem.snd) ∧ Repeats plat c.mem.fst.fst := by
  have stood : Stood (Log.since i s.snd c.mem.snd) c.mem.fst.fst := Bounds.disciplined.own_of_frame h hr
  refine ⟨.of_fails stood (Wild.disciplined.post_of_returning h hr), fun k e hc j => ?_⟩
  refine ⟨Corrupt.tryRecv_alone hc, fun wait timeout => ⟨?_, ?_⟩⟩
  · exact Corrupt.peeks_bind (Corrupt.waitForMessage_alone hc) Corrupt.takeMessage_alone
  · exact Corrupt.peeks_bind (Corrupt.waitForMessage_alone hc) Corrupt.takeMessageInto_alone

-- A peer writes a message of two bytes, and the server receives it into an empty buffer.

def poke (a : Act) : List CrateMove :=
  .call 1 (.env a) :: CrateMove.steps 1 2

def discard : List CrateMove :=
  poke (.writeByte 0 (endpoints.receiver 0).dataOffset 2) ++
  poke (.writeByte 0 ((endpoints.receiver 0).dataOffset + 4) 1) ++
  poke (.store (endpoints.receiver 0).writeCursor 10 .none) ++
  .call 0 (.recvInto 0 .spinOnly none) :: CrateMove.steps 0 22

def discarded (c : hostileSystem.Config) : Bool :=
  c.returns 0 fun
    | .recvInto _ _ _, _, v => decide (v = .error (.messageTooLarge 2 0))
    | _, _, _               => false

theorem failed_calls_commit_nothing_discard :
    ∃ (c : hostileSystem.logged.Config) (h : Handle) (w : WaitStrategy) (d : Option Nat)
      (s : State × Log ThreadId Act Act.Ret),
      c.Returning 0 (.recvInto h w d) s (.error (.messageTooLarge 2 0)) ∧
      Aborted c.mem.fst.fst (.recvInto h w d) (.messageTooLarge 2 0) (Log.since 0 s.snd c.mem.snd) ∧
      Repeats .linux c.mem.fst.fst := by
  have ⟨c, steps, _, hc⟩ := System.run_test (S := hostileSystem) (O := crateOracle .linux)
    (c := ⟨(endpoints, History.start), fun _ => none⟩) (l := discard) (p := discarded) (fun _ _ => rfl)
    (by decide +kernel)
  have built (h : Handle) : Built h endpoints := ⟨server, ⟨64, ⟨1⟩, 1000⟩, rfl, rfl, rfl⟩
  have ⟨c', reach, same⟩ := System.Reachable.lift (.intro ⟨built, fun _ => rfl⟩ steps)
  subst same
  have ⟨o, s, v, hr, hv⟩ := System.Config.returning hc
  split at hv
  case h_1 h w d v =>
    have ⟨l, hr⟩ := System.Config.returning_of_forget hr
    obtain rfl := of_decide_eq_true hv
    exact ⟨c', h, w, d, (s, l), hr, failed_calls_commit_nothing reach hr⟩
  case h_2 => cases hv

end Wild
