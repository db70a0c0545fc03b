import ShmemIpc.Library.Verified
import ShmemIpc.Execution.Operation
import ShmemIpc.Header.Agreement
import ShmemIpc.Ring.Sender
import ShmemIpc.Ring.Receive

open Assertion Code

-- The threads that use one ring, and the others that use its channel.
namespace Link

variable (L : Link)

-- A ring whose memory is zeroed, and whose two halves have just been built.
structure Fresh (s : State) : Prop where
  linked    : (channels s).Inv
  tx        : Attached s.fst L.hs L.xs
  rx        : Attached s.fst L.hr L.xr
  sender    : s.fst.sender L.hs = Channel.newSender L.hs L.xs L.size
  receiver  : s.fst.receiver L.hr = Channel.newReceiver L.hr L.xr L.size
  wc        : s.fst.word L.writeCursor = 0
  rc        : s.fst.word L.readCursor = 0
  sent      : s.snd.ledger.sent L.base L.header = []
  received  : s.snd.ledger.received L.base L.header = []
  unsealed  : s.snd.ledger.sealed L.base = none
  open_     : s.fst.word (.global L.base .state) < 4
  serverPid : s.fst.word (.global L.base .serverPid) ≠ 0
  clientPid : s.fst.word (.global L.base .state) = 3 → s.fst.word (.global L.base .clientPid) ≠ 0

-- The single steps of other threads, by which the channel is connected, and by which processes start
-- and end.
def env (s : State) : Act → Bool
  | .store (.global _ .clientPid) n _           => n ≠ 0
  | .compareExchange (.global _ .state) cur new =>
      cur = ChannelState.clientClaimed.toU32 && new = ChannelState.connected.toU32 &&
      s.fst.word (.global L.base .clientPid) ≠ 0
  | .setProc ..                                 => true
  | _                                           => false

-- The caller of the receiver hands out another buffer or another vector.
def hands : Act → Bool
  | .setBuf _ | .setOut _ => true
  | _                     => false

def Callable (i : ThreadId) (o : Operation) (s : State) : Prop :=
  (∀ h, o.handle = some h → ∃ x, Attached s.fst h x) ∧
  match o with
  | .trySendOnce h _ | .send h .. | .sendAsync h .. => i = L.tx ∧ h = L.hs
  | .tryRecv h | .recv h .. | .recvAsync h _ | .drainReady h _ | .recvManyAsync h .. => i = L.rx ∧ h = L.hr
  | .recvInto h .. | .recvIntoAsync h _ => i = L.rx ∧ h = L.hr ∧ L.discards
  | .checkReady _ | .close _ | .drop _ => True
  | .waitLoop wait | .dropWait wait => Operation.RingWords wait
  | .env a => i = L.rx ∧ hands a = true ∨ i ≠ L.tx ∧ i ≠ L.rx ∧ L.env s a = true
  | _ => False

abbrev system : System ThreadId Act Act.Ret State :=
  operations L.Callable L.Fresh

variable {L} {plat : Platform} {i : ThreadId} {o : Operation} {s : State}

theorem Fresh.inv (h : L.Fresh s) : L.Inv (L.ring s) := by
  have sent : (L.ring s).sent = [] := h.sent
  have received : (L.ring s).received = [] := h.received
  have sealed : (L.ring s).sealed = none := by simp [Link.ring, h.unsealed]
  have state : (L.ring s).state < 4 := h.open_
  have taken : (L.ring s).taken = 0 := by simp [RingState.taken, sent]
  have halfS : (L.ring s).sender = L.sender 1 0 0 := h.sender.trans newSender_start
  have halfR : (L.ring s).receiver = L.receiver 1 0 := h.receiver.trans newReceiver_start
  have wc : (L.ring s).wc = 0 := h.wc
  have rc : (L.ring s).rc = 0 := h.rc
  constructor
  case old       => exact (h.linked.ready L.hs L.xs h.tx.shared).left
  case order     => simp [sent, received]
  case agrees    => simp [received]
  case discarded => simp [received]
  case fits      => simp [sent]
  case wc        => simp [sent, wc, wrap64]
  case rc        => simp [taken, rc, wrap64]
  case live      => rw [sent, List.drop_nil]; exact .nil
  case sender    => exact ⟨1, 0, 0, halfS⟩
  case receiver  => exact ⟨1, 0, halfR⟩
  case room      => exact ⟨0, by rw [halfS]; rfl, Nat.zero_le _, by simp [sent]⟩
  case sentLag   => exact .inl (by rw [halfS, wc]; rfl)
  case takenLag  => exact .inl (by rw [halfR, rc]; rfl)
  case ended     => simp [sealed]; omega
  case before    => simp [sealed]
  case connected => exact fun h => absurd sent h
  case server    => exact h.serverPid
  case client    => exact h.clientPid

end Link

namespace Ring

section
variable {L : Link} {plat : Platform} {i : ThreadId} {o : Operation} {s : State}

-- What the two threads know between their operations.

def resting : L.Rx plat :=
  ex fun rs => ex fun b => ex fun out => receiving 0 rs b out

theorem resting_of_receiving {n : Nat} {rs : List (Option Bytes)} {b : Bytes} {out : List Bytes} :
    receiving n rs b out ≤ (resting : L.Rx plat) :=
  fun _ _ ⟨taken, hs⟩ => ⟨rs, b, out, taken, hs.left, Nat.zero_le _, hs.right.right⟩

def idle (L : Link) (plat : Platform) (i : ThreadId) : Assertion (L.protocol plat) i :=
  of L.tx (ex sending) ⊓ of L.rx resting

-- As `idle`, for the lists and the buffers that the threads have in the state `s`.
def known (L : Link) (plat : Platform) (i : ThreadId) (s : State) : Assertion (L.protocol plat) i :=
  of L.tx (sending (L.ring s).sent) ⊓
  of L.rx (receiving (L.ring s).sent.length (L.ring s).received (L.ring s).buf (L.ring s).out)

theorem known_of_idle (h : idle L plat i s) : known L plat i s s := by
  refine ⟨fun hi => ?_, fun hi => ?_⟩
  · obtain ⟨ps, r, hs, hh⟩ := h.left hi
    obtain rfl := hs.sent
    exact ⟨r, hs, hh⟩
  · obtain ⟨rs, b, out, taken, hs, -, hh⟩ := h.right hi
    obtain rfl := hs.received
    obtain rfl := hs.buf
    obtain rfl := hs.out
    exact ⟨taken, hs, Nat.le_refl _, hh⟩

theorem known_keeps : (known L plat i s).Keeps Act.Quiet := by
  by_cases ht : i = L.tx
  case pos =>
    subst ht
    refine ⟨fun ha hi hp => sending_keeps.ok ha hi (hp.left rfl), fun ha hi hp e => ⟨fun _ => ?_, fun h => ?_⟩⟩
    · exact sending_keeps.kept ha hi (hp.left rfl) e
    · exact absurd h L.threads
  case neg =>
    by_cases hr : i = L.rx
    case pos =>
      subst hr
      refine ⟨fun ha hi hp => receiving_keeps.ok ha hi (hp.right rfl), fun ha hi hp e => ⟨fun h => ?_, fun _ => ?_⟩⟩
      · exact absurd h ht
      · exact receiving_keeps.kept ha hi (hp.right rfl) e
    case neg =>
      refine ⟨fun ha _ _ => ⟨.inr ⟨fun h => absurd h ht, fun h => absurd h hr⟩, quiet_allowed ha⟩, fun _ _ _ _ => ?_⟩
      exact ⟨fun h => absurd h ht, fun h => absurd h hr⟩

-- What the call of an operation in the state `s` found.
def began (L : Link) (plat : Platform) (i : ThreadId) (s : State) : Assertion (L.protocol plat) i :=
  fact (fun v => (L.ring s).sent <+: v.sent) sent_stays ⊓ const (L.Inv (L.ring s))

theorem began_persistent : (began L plat i s).Persistent :=
  (fact_persistent (h := sent_stays)).inf .const

-- What the sender knows when it returns, if it had sent `ps` before the call.
def sendAnswer (ps : List Bytes) : (o : Operation) → o.Ret → L.Tx plat
  | .trySendOnce _ p, .ok v    => sentOr ps p v
  | .send _ p .., .ok _        => sending (ps ++ [p])
  | .sendAsync _ _ p, .ok _    => sending (ps ++ [p])
  | _, _                       => sending ps

-- What the receiver knows when it returns.
def receiveAnswer (n : Nat) (rs : List (Option Bytes)) (b : Bytes) (out : List Bytes) :
    (o : Operation) → o.Ret → L.Rx plat
  | .recv .., .ok p                 => popped n rs b out p
  | .recvAsync .., .ok p            => popped n rs b out p
  | .tryRecv _, .ok v               => tried n rs b out v
  | .recvInto .., .ok len           => filled n rs b out len
  | .recvIntoAsync .., .ok len      => filled n rs b out len
  | .drainReady _ max, .ok k        => batched n max rs b out k
  | .recvManyAsync _ _ max, .ok k   => batched n max rs b out k
  | .recvInto .., .error e          => spoiled n rs b out e
  | .recvIntoAsync .., .error e     => spoiled n rs b out e
  | .drainReady .., .error e        => broken n rs b out e
  | .recvManyAsync .., .error e     => broken n rs b out e
  | .recv .., .error e              => emptied n rs b out e
  | .recvAsync .., .error e         => emptied n rs b out e
  | .tryRecv _, .error e            => emptied n rs b out e
  | _, _                            => resting

def answer (L : Link) (plat : Platform) (i : ThreadId) (o : Operation) (s : State) (v : o.Ret) :
    Assertion (L.protocol plat) i :=
  of L.tx (sendAnswer (L.ring s).sent o v) ⊓
  of L.rx (receiveAnswer (L.ring s).sent.length (L.ring s).received (L.ring s).buf (L.ring s).out o v)

theorem sending_of_sendAnswer {ps : List Bytes} {v : o.Ret} : sendAnswer ps o v ≤ (ex sending : L.Tx plat) := by
  intro s _ hs
  cases o <;> cases v
  case trySendOnce.ok v => cases v <;> exact ⟨_, hs⟩
  all_goals exact ⟨_, hs⟩

theorem resting_of_receiveAnswer {n : Nat} {rs : List (Option Bytes)} {b : Bytes} {out : List Bytes} {v : o.Ret} :
    receiveAnswer n rs b out o v ≤ (resting : L.Rx plat) := by
  have emptied {n rs b out e} : emptied n rs b out e ≤ (resting : L.Rx plat) :=
    fun s hi ⟨taken, hs⟩ => resting_of_receiving s hi ⟨taken, hs.left.left⟩
  have filled {len} : filled n rs b out len ≤ (resting : L.Rx plat) :=
    fun s hi ⟨p, hs, _⟩ => resting_of_receiving s hi hs
  have spoiled {e} : spoiled n rs b out e ≤ (resting : L.Rx plat) := by
    rintro s hi ⟨_ | p, hs⟩
    · exact emptied s hi hs
    · exact resting_of_receiving s hi hs.left.left
  have batched {max k} : batched n max rs b out k ≤ (resting : L.Rx plat) :=
    fun s hi ⟨ms, hs, _⟩ => resting_of_receiving s hi hs
  have broken {e} : broken n rs b out e ≤ (resting : L.Rx plat) :=
    fun s hi ⟨ms, hs, _⟩ => emptied s hi hs
  intro s hi hs
  cases o <;> cases v
  case tryRecv.ok v => cases v; exact resting_of_receiving s hi hs.left; exact resting_of_receiving s hi hs
  all_goals first
    | exact hs
    | exact emptied s hi hs
    | exact filled s hi hs
    | exact spoiled s hi hs
    | exact batched s hi hs
    | exact broken s hi hs
    | exact resting_of_receiving s hi hs

theorem idle_of_answer {v : o.Ret} : answer L plat i o s v ≤ idle L plat i := by
  refine fun s' inv hs => ⟨fun hi => ?_, fun hi => ?_⟩
  · exact sending_of_sendAnswer s' inv (hs.left hi)
  · exact resting_of_receiveAnswer s' inv (hs.right hi)

-- The code of every operation gives its answer.
def Answers (L : Link) (plat : Platform) (i : ThreadId) (o : Operation) (s : State) : Prop :=
  Spec (known L plat i s) o.code (fun v => answer L plat i o s (.ok v)) (fun e => answer L plat i o s (.error e))

theorem answers_tx {ps : List Bytes} (hs : (L.ring s).sent = ps)
    (h : Spec (sending ps : L.Tx plat) o.code (fun v => sendAnswer ps o (.ok v))
    (fun e => sendAnswer ps o (.error e))) :
    Answers L plat L.tx o s := by
  subst hs
  refine (h.pre (Q := known L plat L.tx s) fun _ _ hk => hk.left rfl).post (fun v _ _ hv => ?_) fun e _ _ he => ?_
  · exact ⟨fun _ => hv, fun h => absurd h L.threads⟩
  · exact ⟨fun _ => he, fun h => absurd h L.threads⟩

theorem answers_rx {n : Nat} {rs : List (Option Bytes)} {b : Bytes} {out : List Bytes}
    (hs : (L.ring s).sent.length = n ∧ (L.ring s).received = rs ∧ (L.ring s).buf = b ∧ (L.ring s).out = out)
    (h : Spec (receiving n rs b out : L.Rx plat) o.code (fun v => receiveAnswer n rs b out o (.ok v))
      (fun e => receiveAnswer n rs b out o (.error e))) : Answers L plat L.rx o s := by
  obtain ⟨rfl, rfl, rfl, rfl⟩ := hs
  refine (h.pre (Q := known L plat L.rx s) fun _ _ hk => hk.right rfl).post (fun v _ _ hv => ?_) fun e _ _ he => ?_
  · exact ⟨fun h => absurd h.symm L.threads, fun _ => hv⟩
  · exact ⟨fun h => absurd h.symm L.threads, fun _ => he⟩

-- An operation that is not about messages.
theorem answers_quiet {F : Error → Prop} (hs : ∀ ps v, (sending ps : L.Tx plat) ≤ sendAnswer ps o v)
    (hr : ∀ n rs b out v, (resting : L.Rx plat) ≤ receiveAnswer n rs b out o v) (h : Code.Only Act.Quiet F o.code) :
    Answers L plat i o s := by
  have answered (v : o.Ret) : known L plat i s ≤ answer L plat i o s v := fun s' inv hk =>
    ⟨fun hi => hs _ v s' inv (hk.left hi), fun hi => hr _ _ _ _ v s' inv (resting_of_receiving s' inv (hk.right hi))⟩
  exact (Spec.only known_keeps h).post (fun v => answered _) fun e s' inv hk => answered _ s' inv hk.left

-- A single step of the receiver that hands out another buffer.
theorem answers_hands {a : Act} (ha : Link.hands a = true) : Answers L plat L.rx (.env a) s := by
  refine answers_rx ⟨rfl, rfl, rfl, rfl⟩ (.ex fun taken => ?_)
  unfold Link.hands at ha
  split at ha
  case h_3 => cases ha
  · refine .post (E := fun _ => const False) ((setBuf_spec rfl).carry
      (fact_persistent.inf held_persistent)) (fun _ => ?_)
      fun _ _ _ h => h.elim
    exact fun s' inv hk => resting_of_receiving s' inv ⟨taken, hk⟩
  · refine .post (E := fun _ => const False) ((setOut_spec rfl).carry
      (fact_persistent.inf held_persistent)) (fun _ => ?_)
      fun _ _ _ h => h.elim
    exact fun s' inv hk => resting_of_receiving s' inv ⟨taken, hk⟩

-- A single step of another thread.
theorem answers_env {a : Act} (ht : i ≠ L.tx) (hr : i ≠ L.rx) (ha : L.env s a = true) :
    ∃ P : Assertion (L.protocol plat) i, P s ∧
      Spec P (Operation.env a).code (fun v => answer L plat i (.env a) s (.ok v))
        (fun e => answer L plat i (.env a) s (.error e)) := by
  have other {P : Assertion (L.protocol plat) i}
    (allowed : ∀ s', L.Inv (L.ring s') → P s' → L.Allowed i a (L.ring s')) :
      Spec P (perform a) (fun v => answer L plat i (.env a) s (.ok v))
      (fun e => answer L plat i (.env a) s (.error e)) := by
    refine .perform (fun s' inv hs => ⟨.inr ⟨fun h => absurd h ht, fun h => absurd h hr⟩, allowed s' inv hs⟩) ?_
    exact fun _ _ _ _ _ _ => ⟨fun h => absurd h ht, fun h => absurd h hr⟩
  unfold Link.env at ha
  split at ha
  case h_1 => exact ⟨⊤, trivial, other fun _ _ _ _ => of_decide_eq_true ha⟩
  case h_2 =>
    simp only [Bool.and_eq_true, decide_eq_true_eq] at ha
    exact ⟨fact (fun v => v.clientPid ≠ 0) clientPid_stays, ha.right, other fun _ _ hs => ⟨_, rfl, fun _ _ => hs⟩⟩
  case h_3 => exact ⟨⊤, trivial, other fun _ _ _ => trivial⟩
  case h_4 => cases ha

theorem answers_of_callable (can : L.Callable i o s) :
    ∃ P : Assertion (L.protocol plat) i, (known L plat i s s → P s) ∧
      Spec P o.code (fun v => answer L plat i o s (.ok v)) (fun e => answer L plat i o s (.error e)) := by
  have same {o : Operation} (h : Answers L plat i o s) : ∃ P : Assertion (L.protocol plat) i,
    (known L plat i s s → P s) ∧
      Spec P o.code (fun v => answer L plat i o s (.ok v)) (fun e => answer L plat i o s (.error e)) :=
    ⟨_, id, h⟩
  cases o
  case create | tryOpen | «open» => exact can.right.elim
  case checkReady => exact same (answers_quiet (fun _ _ => le_rfl) (fun _ _ _ _ _ => le_rfl) Effects.checkReady_quiet)
  case close      => exact same (answers_quiet (fun _ _ => le_rfl) (fun _ _ _ _ _ => le_rfl) Effects.close_quiet)
  case drop =>
    exact same (answers_quiet (F := fun _ => False) (fun _ _ => le_rfl) (fun _ _ _ _ _ => le_rfl) Effects.drop_quiet)
  case trySendOnce h p => obtain ⟨_, rfl, rfl⟩ := can; exact same (answers_tx rfl trySendOnce_spec)
  case send            => obtain ⟨_, rfl, rfl⟩ := can; exact same (answers_tx rfl send_spec)
  case sendAsync       => obtain ⟨_, rfl, rfl⟩ := can; exact same (answers_tx rfl sendAsync_spec)
  case tryRecv         => obtain ⟨_, rfl, rfl⟩ := can; exact same (answers_rx ⟨rfl, rfl, rfl, rfl⟩ tryRecv_spec)
  case recv            => obtain ⟨_, rfl, rfl⟩ := can; exact same (answers_rx ⟨rfl, rfl, rfl, rfl⟩ recv_spec)
  case recvAsync       => obtain ⟨_, rfl, rfl⟩ := can; exact same (answers_rx ⟨rfl, rfl, rfl, rfl⟩ recvAsync_spec)
  case recvInto        =>
    obtain ⟨_, rfl, rfl, hd⟩ := can; exact same (answers_rx ⟨rfl, rfl, rfl, rfl⟩ (recvInto_spec hd))
  case recvIntoAsync   =>
    obtain ⟨_, rfl, rfl, hd⟩ := can; exact same (answers_rx ⟨rfl, rfl, rfl, rfl⟩ (recvIntoAsync_spec hd))
  case drainReady      =>
    obtain ⟨_, rfl, rfl⟩ := can; exact same (answers_rx ⟨rfl, rfl, rfl, rfl⟩ drainReadyWithSpin_spec)
  case recvManyAsync   => obtain ⟨_, rfl, rfl⟩ := can; exact same (answers_rx ⟨rfl, rfl, rfl, rfl⟩ recvManyAsync_spec)
  case waitLoop wait =>
    exact same (answers_quiet (F := fun _ => False) (fun _ _ => le_rfl) (fun _ _ _ _ _ => le_rfl)
      (Effects.signals_quiet (Effects.waitLoop_signals can.right.right)))
  case dropWait wait =>
    exact same (answers_quiet (F := fun _ => False) (fun _ _ => le_rfl) (fun _ _ _ _ _ => le_rfl)
      (Effects.signals_quiet (Effects.drop_signals can.right.left)))
  case env a =>
    obtain ⟨rfl, ha⟩ | ⟨ht, hr, ha⟩ := can.right
    case inl => exact same (answers_hands ha)
    case inr =>
      obtain ⟨P, hP, h⟩ := answers_env ht hr ha
      exact ⟨P, fun _ => hP, h⟩

end
end Ring

namespace Link

open Ring

variable {L : Link} {plat : Platform}

theorem permitted_of_callable {i : ThreadId} {o : Operation} {s : State} (can : L.Callable i o s) :
    Header.Permitted o s := by
  refine ⟨can.left, ?_⟩
  cases o
  case waitLoop => exact can.right
  case dropWait => exact can.right
  case env a =>
    obtain ⟨_, ha⟩ | ⟨_, _, ha⟩ := can.right
    case inl =>
      unfold hands at ha
      split at ha
      case h_3 => cases ha
      all_goals exact fun _ _ => trivial
    case inr =>
      unfold Link.env at ha
      split at ha
      case h_2 =>
        simp only [Bool.and_eq_true, decide_eq_true_eq] at ha
        obtain ⟨⟨rfl, rfl⟩, _⟩ := ha
        exact fun _ _ => ⟨by decide, by decide, by decide, by decide⟩
      case h_4 => cases ha
      all_goals exact fun _ _ => trivial
  all_goals trivial

def headerVerified (L : Link) (plat : Platform) : Verified L.system (headerProtocol plat) :=
  Header.verifiedFor plat (fun _ _ _ => permitted_of_callable) fun _ h => h.linked

def verified (L : Link) (plat : Platform) : Verified L.system (L.protocol plat) where
  idle i       := idle L plat i
  post i o s v := answer L plat i o s v ⊓ began L plat i s
  init := by
    intro s hs
    refine ⟨hs.inv, fun i => ⟨?_, ?_⟩⟩
    · rintro rfl
      exact ⟨[], 0, ⟨hs.sent, hs.sender.trans newSender_start, .nil⟩, hs.linked,
        Header.owns_of_attached hs.linked hs.tx⟩
    · rintro rfl
      have taken : (L.ring s).taken = 0 := by simp [RingState.taken, show (L.ring s).sent = [] from hs.sent]
      have own : Receives [] 0 (L.receiver 1 0) (L.ring s).buf (L.ring s).out (L.ring s) :=
        ⟨hs.received, taken, hs.receiver.trans newReceiver_start, rfl, rfl⟩
      exact ⟨[], _, _, 0, own, Nat.zero_le _, hs.linked, Header.owns_of_attached hs.linked hs.rx⟩
  spec := by
    intro i o s hi hs can
    obtain ⟨P, hP, spec⟩ := answers_of_callable can
    refine ⟨P ⊓ began L plat i s, ⟨hP (known_of_idle hs), List.prefix_rfl, hi⟩,
      Program.Triple.post (fun v => ?_) (spec.persist began_persistent)⟩
    cases v <;> exact fun s' inv h => ⟨idle_of_answer s' inv h.left, h⟩

-- What no thread makes false remains true along a run.
theorem stays_along {P : RingState → Prop} (hP : Stays L P) {c c' : L.system.Config}
    (h : L.system.Reachable (machine plat) c) (e : L.system.Steps (machine plat) c c') (hp : P (L.ring c.mem)) :
    P (L.ring c'.mem) :=
  (L.verified plat).persists Machine.le_rfl (P := fun s => P (L.ring s))
    (fun hi ho e => hP hi (change_of_exec hi ho e)) ((L.headerVerified plat).under h)
    ((L.headerVerified plat).permitted_steps Machine.le_rfl h e) hp

theorem inv_of_reachable {c : L.system.Config} (h : L.system.Reachable (machine plat) c) : L.Inv (L.ring c.mem) :=
  (L.verified plat).inv_of_reachable ((L.headerVerified plat).under h)

theorem answer_of_returning {c : L.system.Config} (h : L.system.Reachable (machine plat) c) {i : ThreadId}
    {o : Operation} {s : State} {v : o.Ret} (hr : c.Returning i o s v) : answer L plat i o s v c.mem :=
  ((L.verified plat).post_of_returning ((L.headerVerified plat).under h) hr).right.left

theorem began_of_returning {c : L.system.Config} (h : L.system.Reachable (machine plat) c) {i : ThreadId}
    {o : Operation} {s : State} {v : o.Ret} (hr : c.Returning i o s v) : began L plat i s c.mem :=
  ((L.verified plat).post_of_returning ((L.headerVerified plat).under h) hr).right.right

theorem idle_of_reachable {c : L.system.Config} (h : L.system.Reachable (machine plat) c) {i : ThreadId}
    (hi : c.thr i = none) : idle L plat i c.mem :=
  (L.verified plat).idle_of_reachable ((L.headerVerified plat).under h) hi

theorem change_of_next {c : L.system.Config} (h : L.system.Reachable (machine plat) c) {i : ThreadId}
    {a : Act} {r : a.Ret}
    {s : State} (next : c.Next i a) (e : (machine plat).exec i a c.mem r s) :
    L.Change i a (L.ring c.mem) (L.ring s) := by
  have header := (L.headerVerified plat).inv_of_reachable h
  have ok := (L.headerVerified plat).ok_of_next h next
  have ring := (L.verified plat).ok_of_next ((L.headerVerified plat).under h) next
  exact change_of_exec (inv_of_reachable h) ring ⟨e, header, ok⟩

theorem change_of_step {c c' : L.system.Config} (h : L.system.Reachable (machine plat) c)
    (e : L.system.Step (machine plat) c c') :
    c'.mem = c.mem ∨ ∃ i a, c.Next i a ∧ c'.thr i ≠ none ∧ L.Change i a (L.ring c.mem) (L.ring c'.mem) := by
  refine ((L.headerVerified plat).mem_of_step h e).imp_right fun ⟨i, a, r, next, own, ok, exec⟩ => ?_
  exact ⟨i, a, next, own, change_of_next h next exec⟩

theorem ok_of_next {c : L.system.Config} (h : L.system.Reachable (machine plat) c) {i : ThreadId} {a : Act}
    (hn : c.Next i a) : L.Ok i a (L.ring c.mem) :=
  (L.verified plat).ok_of_next ((L.headerVerified plat).under h) hn

end Link
