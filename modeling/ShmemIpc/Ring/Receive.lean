import ShmemIpc.Ring.Receiver

-- What the operations of the receiver do to the queue of messages.
namespace Ring

open Assertion Code Effects

section
variable {L : Link} {plat : Platform} {rs : List (Option Bytes)} {n taken : Nat} {b : Bytes}
variable {o : List Bytes} {wait : WaitStrategy} {timeout : Option Nat} {bridge : AsyncWait}

-- There was nothing to receive.
def emptied (n : Nat) (rs : List (Option Bytes)) (b : Bytes) (o : List Bytes) (e : Error) : L.Rx plat :=
  ex fun taken => drained n rs taken b o e

-- The next message has been received.
def popped (n : Nat) (rs : List (Option Bytes)) (b : Bytes) (o : List Bytes) (p : Bytes) : L.Rx plat :=
  receiving n (rs ++ [some p]) b o

theorem take_spec {E : Error → L.Rx plat} {m : PeekedMessage} :
    Spec (peeks (receivingAt n rs taken b o) rs.length taken n (some m)) (RingReceiver.takeMessage L.hr m)
      (popped n rs b o) E := by
  refine .ex fun p => .assume ?_
  rintro rfl
  refine takeMessage_spec.post (fun bytes s _ hs => ?_) fun _ => le_rfl
  obtain ⟨hs, rfl⟩ := hs
  exact hs

theorem recv_spec : Spec (receiving n rs b o : L.Rx plat) (RingReceiver.recv L.hr wait timeout) (popped n rs b o)
    (emptied n rs b o) := by
  refine .ex fun taken => .bind (waitForMessage_spec.post (fun _ => le_rfl) fun _ _ _ hs => ⟨taken, hs⟩) fun m => ?_
  exact take_spec

theorem recvAsync_spec : Spec (receiving n rs b o : L.Rx plat) (Tokio.recvAsync L.hr bridge) (popped n rs b o)
    (emptied n rs b o) := by
  refine .ex fun taken => .bind (peekAsync_spec.post (fun _ => le_rfl) fun _ _ _ hs => ⟨taken, hs⟩) fun m => ?_
  exact take_spec

def tried (n : Nat) (rs : List (Option Bytes)) (b : Bytes) (o : List Bytes) : Option Bytes → L.Rx plat
  | some p => popped n rs b o p
  | none   => receiving n rs b o ⊓ const (n ≤ rs.length)

theorem tryRecv_spec : Spec (receiving n rs b o : L.Rx plat) (RingReceiver.tryRecv L.hr) (tried n rs b o)
    (emptied n rs b o) := by
  refine .ex fun taken => .bind (tryPeekOrClosed_spec.post (fun _ => le_rfl) fun _ _ _ hs =>
    ⟨taken, hs.left⟩) fun v => ?_
  cases v
  case none   => exact .pure fun _ _ hs => ⟨⟨taken, hs.left⟩, hs.right⟩
  case some m => exact .bind take_spec fun p => .pure le_rfl

-- The answers of the operations with a buffer.

def filled (n : Nat) (rs : List (Option Bytes)) (b : Bytes) (o : List Bytes) (len : Nat) : L.Rx plat :=
  ex fun p => copied n rs b o p len

def spoiled (n : Nat) (rs : List (Option Bytes)) (b : Bytes) (o : List Bytes) (e : Error) : L.Rx plat :=
  ex fun
    | some p => short n rs b o p e
    | none   => emptied n rs b o e

theorem takeInto_spec (hd : L.discards) {m : PeekedMessage} :
    Spec (peeks (receivingAt n rs taken b o) rs.length taken n (some m)) (RingReceiver.takeMessageInto L.hr m)
      (filled n rs b o) (spoiled n rs b o : Error → L.Rx plat) := by
  refine .ex fun p => .assume ?_
  rintro rfl
  exact (takeMessageInto_spec hd).post (fun _ _ _ hs => ⟨p, hs⟩) fun _ _ _ hs => ⟨some p, hs⟩

theorem recvInto_spec (hd : L.discards) :
    Spec (receiving n rs b o : L.Rx plat) (RingReceiver.recvInto L.hr wait timeout) (filled n rs b o)
      (spoiled n rs b o) := by
  refine .ex fun taken => .bind (waitForMessage_spec.post (fun _ => le_rfl) fun _ _ _ hs =>
    ⟨none, taken, hs⟩) fun m => ?_
  exact takeInto_spec hd

theorem recvIntoAsync_spec (hd : L.discards) :
    Spec (receiving n rs b o : L.Rx plat) (Tokio.recvIntoAsync L.hr bridge) (filled n rs b o) (spoiled n rs b o) := by
  refine .ex fun taken => .bind (peekAsync_spec.post (fun _ => le_rfl) fun _ _ _ hs => ⟨none, taken, hs⟩) fun m => ?_
  exact takeInto_spec hd

-- Receiving many messages. `ms` are those that the call has received so far.

variable {max : Nat} {ms : List Bytes}

def batch (n : Nat) (rs : List (Option Bytes)) (b : Bytes) (o ms : List Bytes) : L.Rx plat :=
  receiving n (rs ++ ms.map some) b (o ++ ms)

-- It received as many as it should, or all that there were.
def Enough (n max : Nat) (rs : List (Option Bytes)) (ms : List Bytes) : Prop :=
  ms.length ≤ max ∧ (ms.length = max ∨ n ≤ rs.length + ms.length)

def batched (n max : Nat) (rs : List (Option Bytes)) (b : Bytes) (o : List Bytes) (k : Nat) : L.Rx plat :=
  ex fun ms => batch n rs b o ms ⊓ const (Enough n max rs ms ∧ k = ms.length)

-- After the first message, only the observer of processes makes it fail.
def broken (n : Nat) (rs : List (Option Bytes)) (b : Bytes) (o : List Bytes) (e : Error) : L.Rx plat :=
  ex fun ms => emptied n (rs ++ ms.map some) b (o ++ ms) e ⊓ (const (e.Terminal → ms = []) ⊓ given (ms ≠ []) faulted)

theorem batch_snoc {p : Bytes} : popped n (rs ++ ms.map some) b (o ++ (ms ++ [p])) p ≤
    (batch n rs b o (ms ++ [p]) : L.Rx plat) := by
  intro s _ hs
  simpa [popped, batch] using hs

theorem drainTurn_spec {spin : Nat} (hm : ms.length ≤ max) :
    Spec (batch n rs b o ms : L.Rx plat)
      (do
        let out ← getOut
        if out.length - o.length < max then do
          match ← Code.attempt (Tokio.spinPeekOrClosed L.hr spin) with
          | .ok (some message) => do
            let buf ← Tokio.commitMessageToVec L.hr message
            setOut (out ++ [buf])
            Pure.pure (.inl ())
          | .ok none => Pure.pure (.inr ())
          | .error e => if e.Terminal ∧ out.length ≠ o.length then Pure.pure (.inr ()) else fail e
        else
          Pure.pure (.inr ()) : Routine (Unit ⊕ Unit))
      (Sum.elim (fun _ => ex fun ms => batch n rs b o ms ⊓ const (ms.length ≤ max))
        fun _ => ex fun ms => batch n rs b o ms ⊓ const (Enough n max rs ms))
      (broken n rs b o) := by
  have length : (rs ++ ms.map some).length = rs.length + ms.length := by simp
  have more : (o ++ ms).length - o.length = ms.length := by simp
  refine .ex fun taken => getOut_spec receivingAt_keeps receives_of_receivingAt ?_
  rw [more]
  split
  case isFalse h => exact .pure fun _ _ hs => ⟨ms, ⟨taken, hs⟩, hm, .inl (by omega)⟩
  case isTrue h =>
    refine .handle (spinPeekOrClosed_spec spin) (fun v => ?_) fun e => ?_
    case refine_1 =>
      cases v
      case none => exact .pure fun _ _ hs => ⟨ms, ⟨taken, hs.left⟩, hm, .inr (length ▸ hs.right)⟩
      case some m =>
        refine .bind take_spec fun p => .ex fun taken => ?_
        refine .pre (P := receives (rs ++ ms.map some ++ [some p]) taken
          (L.receiver (wrap32 ((rs ++ ms.map some ++ [some p]).length + 1)) (wrap64 taken)) b (o ++ ms) ⊓
          (arrived n ⊓ held L.hr L.xr)) ?_ fun _ _ hs => ⟨hs.left, hs.right⟩
        refine .bind ((setOut_spec rfl).carry (fact_persistent.inf held_persistent)) fun _ => ?_
        rw [List.append_assoc o]
        exact .pure fun s hi hs => ⟨ms ++ [p], batch_snoc s hi ⟨taken, hs⟩, by rw [List.length_append]; exact h⟩
    case refine_2 =>
      have some_ (h : ms ≠ []) : rs ++ ms.map some ≠ [] := by simpa using fun _ => h
      simp only
      split
      case isTrue hc =>
        exact .pure fun _ _ hs => ⟨ms, ⟨taken, hs.left.left.left⟩, hm, .inr (length ▸ hs.left.left.right.left)⟩
      case isFalse hc =>
        have first (he : e.Terminal) : ms = [] := by
          by_contra hne
          exact hc ⟨he, by simpa using hne⟩
        exact .throw fun _ _ hs => ⟨ms, ⟨taken, hs.left⟩, first, fun hne =>
          hs.right (some_ hne) fun he => hne (first he)⟩

theorem drainReadyWithSpin_spec {spin : Nat} :
    Spec (receiving n rs b o : L.Rx plat) (Tokio.drainReadyWithSpin L.hr max spin) (batched n max rs b o)
      (broken n rs b o) := by
  refine .ex fun taken => getOut_spec receivingAt_keeps receives_of_receivingAt ?_
  refine .bind (M := fun _ => ex fun ms => batch n rs b o ms ⊓ const (Enough n max rs ms)) ?_ fun _ => ?_
  · refine .loop (fun _ => ex fun ms => batch n rs b o ms ⊓ const (ms.length ≤ max)) ?_ fun _ => ?_
    · intro s _ hs
      exact ⟨[], ⟨taken, by simpa using hs⟩, Nat.zero_le _⟩
    · exact .ex fun ms => .assume fun hm => drainTurn_spec hm
  · refine .ex fun ms => .assume fun enough => .ex fun taken => getOut_spec receivingAt_keeps receives_of_receivingAt ?_
    exact .pure fun _ _ hs => ⟨ms, ⟨taken, hs⟩, enough, by simp⟩

theorem broken_of_signals {e : Error} (he : ¬ e.Terminal ∧ ¬ e.Framing) (hn : n ≤ rs.length) :
    receiving n rs b o ≤ (broken n rs b o e : L.Rx plat) := by
  rintro s _ ⟨taken, hs⟩
  have all : n ≤ (rs ++ ([] : List Bytes).map some).length := by simpa using hn
  refine ⟨[], ⟨taken, ⟨by simpa using hs, all, he.right⟩, ?_⟩, ?_, fun h => absurd rfl h⟩
  · exact fun h => absurd h he.left
  · exact fun h => absurd h he.left

-- Without any message, everything had been received before.
theorem batched_none {k : Nat} (hm : max ≠ 0) (hk : ¬ k ≠ 0) : batched n max rs b o k ≤
    (receiving n rs b o ⊓ const (n ≤ rs.length) : L.Rx plat) := by
  rintro s _ ⟨ms, hs, ⟨_, enough⟩, rfl⟩
  obtain rfl : ms = [] := List.eq_nil_of_length_eq_zero (not_not.mp hk)
  have all : n ≤ rs.length := by simpa [hm, eq_comm] using enough
  exact ⟨by simpa [batch] using hs, all⟩

theorem recvManyAsync_spec :
    Spec (receiving n rs b o : L.Rx plat) (Tokio.recvManyAsync L.hr bridge max) (batched n max rs b o)
      (broken n rs b o) := by
  unfold Tokio.recvManyAsync
  split
  case isTrue h =>
    refine .pure fun s _ hs => ⟨[], ?_, ⟨Nat.zero_le _, .inl h.symm⟩, rfl⟩
    simpa [batch] using hs
  case isFalse h =>
    refine .loop (fun _ => receiving n rs b o) le_rfl fun _ => .bind drainReadyWithSpin_spec fun k => ?_
    split
    case isTrue  => exact .pure le_rfl
    case isFalse hk =>
      refine .pre (.assume fun all => ?_) (batched_none h hk)
      refine .pass receiving_keeps (signals_quiet snapshot_signals) (fun e he => broken_of_signals he all)
        fun observed => ?_
      refine .bind drainReadyWithSpin_spec fun k => ?_
      split
      case isTrue  => exact .pure le_rfl
      case isFalse hk =>
        refine .pre (.assume fun all => ?_) (batched_none h hk)
        exact .pass receiving_keeps (signals_quiet waitChanged_signals) (fun e he => broken_of_signals he all)
          fun _ => .pure le_rfl

end
end Ring
