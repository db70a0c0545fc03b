import ShmemIpc.Library.Cut
import ShmemIpc.Execution.Wild
import ShmemIpc.Ring.Delivery
import ShmemIpc.Ring.Queue

-- The asynchronous operations on a ring, where their caller may drop them.
namespace Ring

open Assertion Code Effects

section
variable {L : Link} {plat : Platform} {i : ThreadId} {P : Assertion (L.protocol plat) i} {K : State → Prop}
variable {α : Type} {M : α → Assertion (L.protocol plat) i} {E : Error → Assertion (L.protocol plat) i}

abbrev Pausing (L : Link) (plat : Platform) (i : ThreadId) (K : State → Prop) :=
  Assertion ((L.protocol plat).pausing i Act.Suspends K) i

-- What is known of code that is never suspended.
theorem awake_spec {p : Routine α} (hp : Code.Only (¬ Act.Suspends ·) (fun _ => True) p) (h : Spec P p M E) :
    Spec (P.pausing : Pausing L plat i K) p (fun x => (M x).pausing) (fun e => (E e).pausing) := by
  refine Program.Triple.post (fun v => ?_) (Program.Triple.pausing (hp.weaken fun a ha hs => absurd hs ha) h)
  cases v <;> exact fun _ _ hs => hs.left

theorem plain_spec {p : Routine α} (hp : Code.Only Act.Plain (fun _ => True) p) (h : Spec P p M E) :
    Spec (P.pausing : Pausing L plat i K) p (fun x => (M x).pausing) (fun e => (E e).pausing) :=
  awake_spec (hp.weaken fun _ => Act.Plain.not_suspends) h

theorem pausing_keeps (hp : P.Keeps Act.Quiet) (hk : ∀ s, L.Inv (L.ring s) → P s → K s) :
    (P.pausing : Pausing L plat i K).Keeps Act.Signals :=
  (hp.mono fun _ => Act.Signals.quiet).pausing fun _ s _ _ => hk s

theorem awake_keeps (hp : P.Keeps Act.Quiet) :
    (P.pausing : Pausing L plat i K).Keeps fun a => a.Signals ∧ ¬ a.Suspends :=
  (hp.mono fun _ ha => ha.left.quiet).pausing fun _ _ ha hs => absurd hs ha.right

end

section
variable {L : Link} {plat : Platform} {K : State → Prop} {ps : List Bytes} {n : Nat} {rs : List (Option Bytes)}
variable {taken : Nat} {b : Bytes} {o : List Bytes} {wait : AsyncWait}

theorem sendAsync_pausing {p : Bytes} (hk : ∀ s, L.Inv (L.ring s) → (sending ps : L.Tx plat) s → K s) :
    Spec ((sending ps : L.Tx plat).pausing : Pausing L plat L.tx K) (Tokio.sendAsync L.hs wait p)
      (fun _ => (sending (ps ++ [p]) : L.Tx plat).pausing) (fun _ => (sending ps : L.Tx plat).pausing) := by
  have spin (k : Nat) := plain_spec (L := L) (K := K) (spinSend_plain k) (@spinSend_spec L plat ps p k)
  refine .loop (fun _ => (sending ps : L.Tx plat).pausing) le_rfl fun _ => .bind (spin _) fun v => ?_
  cases v
  case sent => exact .pure le_rfl
  case full =>
    refine .pass (awake_keeps sending_keeps) snapshot_awake (fun _ _ => le_rfl) fun observed =>
      .bind (spin _) fun v => ?_
    cases v
    case sent => exact .pure le_rfl
    case full =>
      exact .pass (pausing_keeps sending_keeps hk) waitChanged_signals (fun _ _ => le_rfl) fun _ => .pure le_rfl

theorem peekAsync_pausing (hk : ∀ s, L.Inv (L.ring s) → (receivingAt n rs taken b o : L.Rx plat) s → K s) :
    Spec ((receivingAt n rs taken b o : L.Rx plat).pausing : Pausing L plat L.rx K) (Tokio.peekAsync L.hr wait)
      (fun m => (peeks (receivingAt n rs taken b o) rs.length taken n (some m) : L.Rx plat).pausing)
      (fun e => (drained n rs taken b o e : L.Rx plat).pausing) := by
  have spin (k : Nat) : Spec ((receivingAt n rs taken b o : L.Rx plat).pausing : Pausing L plat L.rx K)
      (Tokio.spinPeekOrClosed L.hr k)
      (fun v => (peeks (receivingAt n rs taken b o) rs.length taken n v : L.Rx plat).pausing)
      (fun e => (drained n rs taken b o e : L.Rx plat).pausing) :=
    (plain_spec (spinPeekOrClosed_plain k) (spinPeekOrClosed_spec k)).post (fun _ => le_rfl) fun _ _ _ hs => hs.left
  refine .loop (fun _ => (receivingAt n rs taken b o : L.Rx plat).pausing) le_rfl fun _ => .bind (spin _) fun v => ?_
  cases v
  case some m => exact .pure le_rfl
  case none =>
    have keeps : (peeks (receivingAt n rs taken b o) rs.length taken n none : L.Rx plat).Keeps Act.Quiet :=
      peeks_keeps receivingAt_keeps none
    have empty (e : Error) (he : ¬ e.Terminal ∧ ¬ e.Framing) :
        ((peeks (receivingAt n rs taken b o) rs.length taken n none : L.Rx plat).pausing : Pausing L plat L.rx K) ≤
          (drained n rs taken b o e : L.Rx plat).pausing :=
      fun _ _ hs => ⟨⟨hs.left, hs.right, he.right⟩, fun h => absurd h he.left⟩
    refine .pass (awake_keeps keeps) snapshot_awake empty fun observed => ?_
    refine .bind ((spin _).pre fun _ _ hs => hs.left) fun v => ?_
    cases v
    case some m => exact .pure le_rfl
    case none =>
      refine .pass (pausing_keeps keeps fun s hi hs => hk s hi hs.left) waitChanged_signals empty fun _ => ?_
      exact .pure fun _ _ hs => hs.left

variable (hk : ∀ s, L.Inv (L.ring s) → (receiving n rs b o : L.Rx plat) s → K s)
include hk

theorem recvAsync_pausing :
    Spec ((receiving n rs b o : L.Rx plat).pausing : Pausing L plat L.rx K) (Tokio.recvAsync L.hr wait)
      (fun p => (popped n rs b o p : L.Rx plat).pausing) (fun e => (emptied n rs b o e : L.Rx plat).pausing) := by
  refine .pre (P := ex fun taken => (receivingAt n rs taken b o : L.Rx plat).pausing) (.ex fun taken => ?_)
    fun _ _ hs => hs
  refine .bind ((peekAsync_pausing fun s hi hs => hk s hi ⟨taken, hs⟩).post (fun _ => le_rfl)
    fun _ _ _ hs => ⟨taken, hs⟩)
    fun m => ?_
  exact plain_spec takeMessage_plain take_spec

theorem recvIntoAsync_pausing (hd : L.discards) :
    Spec ((receiving n rs b o : L.Rx plat).pausing : Pausing L plat L.rx K) (Tokio.recvIntoAsync L.hr wait)
      (fun k => (filled n rs b o k : L.Rx plat).pausing) (fun e => (spoiled n rs b o e : L.Rx plat).pausing) := by
  refine .pre (P := ex fun taken => (receivingAt n rs taken b o : L.Rx plat).pausing) (.ex fun taken => ?_)
    fun _ _ hs => hs
  refine .bind ((peekAsync_pausing fun s hi hs => hk s hi ⟨taken, hs⟩).post (fun _ => le_rfl)
    fun _ _ _ hs => ⟨none, taken, hs⟩) fun m => ?_
  exact plain_spec takeMessageInto_plain (takeInto_spec hd)

theorem recvManyAsync_pausing {max : Nat} :
    Spec ((receiving n rs b o : L.Rx plat).pausing : Pausing L plat L.rx K) (Tokio.recvManyAsync L.hr wait max)
      (fun k => (batched n max rs b o k : L.Rx plat).pausing) (fun e => (broken n rs b o e : L.Rx plat).pausing) := by
  have drain (spin : Nat) : Spec ((receiving n rs b o : L.Rx plat).pausing : Pausing L plat L.rx K)
      (Tokio.drainReadyWithSpin L.hr max spin) (fun k => (batched n max rs b o k : L.Rx plat).pausing)
      (fun e => (broken n rs b o e : L.Rx plat).pausing) :=
    awake_spec drainReadyWithSpin_awake drainReadyWithSpin_spec
  unfold Tokio.recvManyAsync
  split
  case isTrue h =>
    refine .pure fun s _ hs => ⟨[], ?_, ⟨Nat.zero_le _, .inl h.symm⟩, rfl⟩
    have hs : (receiving n rs b o : L.Rx plat) s := hs
    simpa [batch] using hs
  case isFalse h =>
    have none {k : Nat} (hk : ¬ k ≠ 0) : ((batched n max rs b o k : L.Rx plat).pausing : Pausing L plat L.rx K) ≤
        (receiving n rs b o : L.Rx plat).pausing ⊓ const (n ≤ rs.length) :=
      fun s hi hs => batched_none h hk s hi hs
    have failed (all : n ≤ rs.length) (e : Error) (he : ¬ e.Terminal ∧ ¬ e.Framing) :
        ((receiving n rs b o : L.Rx plat).pausing : Pausing L plat L.rx K) ≤ (broken n rs b o e : L.Rx plat).pausing :=
      fun s hi hs => broken_of_signals he all s hi hs
    refine .loop (fun _ => (receiving n rs b o : L.Rx plat).pausing) le_rfl fun _ => .bind (drain _) fun k => ?_
    split
    case isTrue => exact .pure le_rfl
    case isFalse hn =>
      refine .pre (.assume fun all => ?_) (none hn)
      refine .pass (awake_keeps receiving_keeps) snapshot_awake (failed all) fun observed => .bind (drain _) fun k => ?_
      split
      case isTrue => exact .pure le_rfl
      case isFalse hn =>
        refine .pre (.assume fun all => ?_) (none hn)
        exact .pass (pausing_keeps receiving_keeps hk) waitChanged_signals (failed all) fun _ => .pure le_rfl

end

section
variable {L : Link} {plat : Platform} {i : ThreadId} {o : Operation} {s : State}

-- The code of an operation gives its answer, and leaves everything as it was where it is suspended.
def Pauses (L : Link) (plat : Platform) (i : ThreadId) (o : Operation) (s : State) : Prop :=
  Spec ((known L plat i s).pausing : Pausing L plat i (known L plat i s)) o.code
    (fun v => (answer L plat i o s (.ok v)).pausing) (fun e => (answer L plat i o s (.error e)).pausing)

theorem pauses_tx {ps : List Bytes} (hs : (L.ring s).sent = ps)
    (h : Spec ((sending ps : L.Tx plat).pausing : Pausing L plat L.tx (known L plat L.tx s)) o.code
      (fun v => (sendAnswer ps o (.ok v)).pausing) (fun e => (sendAnswer ps o (.error e)).pausing)) :
    Pauses L plat L.tx o s := by
  subst hs
  refine (h.pre (Q := (known L plat L.tx s).pausing) fun _ _ hk => hk.left rfl).post (fun v _ _ hv => ?_)
    fun e _ _ he => ?_
  · exact ⟨fun _ => hv, fun h => absurd h L.threads⟩
  · exact ⟨fun _ => he, fun h => absurd h L.threads⟩

theorem pauses_rx {n : Nat} {rs : List (Option Bytes)} {b : Bytes} {out : List Bytes}
    (hs : (L.ring s).sent.length = n ∧ (L.ring s).received = rs ∧ (L.ring s).buf = b ∧ (L.ring s).out = out)
    (h : Spec ((receiving n rs b out : L.Rx plat).pausing : Pausing L plat L.rx (known L plat L.rx s)) o.code
      (fun v => (receiveAnswer n rs b out o (.ok v)).pausing)
      (fun e => (receiveAnswer n rs b out o (.error e)).pausing)) :
    Pauses L plat L.rx o s := by
  obtain ⟨rfl, rfl, rfl, rfl⟩ := hs
  refine (h.pre (Q := (known L plat L.rx s).pausing) fun _ _ hk => hk.right rfl).post (fun v _ _ hv => ?_)
    fun e _ _ he => ?_
  · exact ⟨fun h => absurd h.symm L.threads, fun _ => hv⟩
  · exact ⟨fun h => absurd h.symm L.threads, fun _ => he⟩

theorem pauses_of_async (ho : o.Async) (can : L.Callable i o s) : Pauses L plat i o s := by
  have sender (s' : State) (_ : L.Inv (L.ring s')) (hs : (sending (L.ring s).sent : L.Tx plat) s') :
      known L plat L.tx s s' := ⟨fun _ => hs, fun h => absurd h L.threads⟩
  have receiver (s' : State) (_ : L.Inv (L.ring s'))
      (hs : (receiving (L.ring s).sent.length (L.ring s).received (L.ring s).buf (L.ring s).out : L.Rx plat) s') :
      known L plat L.rx s s' := ⟨fun h => absurd h.symm L.threads, fun _ => hs⟩
  cases o <;> try exact ho.elim
  case sendAsync     => obtain ⟨_, rfl, rfl⟩ := can; exact pauses_tx rfl (sendAsync_pausing sender)
  case recvAsync     => obtain ⟨_, rfl, rfl⟩ := can; exact pauses_rx ⟨rfl, rfl, rfl, rfl⟩ (recvAsync_pausing receiver)
  case recvIntoAsync =>
    obtain ⟨_, rfl, rfl, hd⟩ := can; exact pauses_rx ⟨rfl, rfl, rfl, rfl⟩ (recvIntoAsync_pausing receiver hd)
  case recvManyAsync =>
    obtain ⟨_, rfl, rfl⟩ := can; exact pauses_rx ⟨rfl, rfl, rfl, rfl⟩ (recvManyAsync_pausing receiver)

theorem idle_of_known : known L plat i s ≤ idle L plat i :=
  fun s' inv hs => ⟨fun hi => ⟨_, hs.left hi⟩, fun hi => resting_of_receiving s' inv (hs.right hi)⟩

end
end Ring

-- The threads of a ring, which may also drop their futures.
namespace Link

open Ring

abbrev cancelling (L : Link) : System ThreadId Act Act.Ret State :=
  L.system.dropping Act.Suspends Operation.Async

variable {L : Link} {plat : Platform} {i : ThreadId} {s : State}

def headerCancelled (L : Link) (plat : Platform) : Verified L.cancelling (headerProtocol plat) :=
  (L.headerVerified plat).dropping Act.Suspends Operation.Async (fun _ _ _ => ⊤) fun {i o s} hi _ _ can => by
    have ⟨P, hp, hs, triple⟩ := @Header.exists_spec _ plat i s hi (permitted_of_callable can)
    have done {a : Act} {s : State} (_ : a.Suspends) (_ : (headerProtocol plat).ok i a s) :
        (⊤ : Assertion (headerProtocol plat) i) s := trivial
    have awake := triple.pauses done
    refine ⟨⊤ ⊓ P, ⟨trivial, hs⟩, fun _ _ _ => ⟨trivial, trivial⟩, ?_⟩
    refine Program.Triple.post (fun v => ?_) (Program.Triple.pre ?_ (awake.pausing_persist hp))
    · exact fun _ _ h => ⟨trivial, h.left⟩
    · exact fun _ _ h => ⟨h.right, h.right⟩

def cancelled (L : Link) (plat : Platform) : Verified L.cancelling (L.protocol plat) :=
  (L.verified plat).dropping Act.Suspends Operation.Async (fun i _ s => known L plat i s ⊓ began L plat i s)
    fun {i o s} hi hs ho can => by
      refine ⟨known L plat i s ⊓ began L plat i s, ⟨known_of_idle hs, List.prefix_rfl, hi⟩,
        fun s' inv h => ⟨idle_of_known s' inv h.left, h⟩, ?_⟩
      refine Program.Triple.post (fun v => ?_) ((pauses_of_async ho can).pausing_persist began_persistent)
      cases v <;> exact fun s' inv h => ⟨idle_of_answer s' inv h.left, h⟩

theorem sends_of_answer {o : Operation} {r : o.Ret} {s' : State}
    (h : (sendAnswer (L.ring s).sent o r : L.Tx plat) s') :
    (∃ p, o.Sends r p ∧ (L.ring s').sent = (L.ring s).sent ++ [p]) ∨
      (∀ p, ¬ o.Sends r p) ∧ (L.ring s').sent = (L.ring s).sent := by
  have sent {ps} (h : (sending ps : L.Tx plat) s') : (L.ring s').sent = ps := h.choose_spec.left.sent
  cases o <;> cases r
  case trySendOnce.ok v =>
    cases v
    case sent => exact .inl ⟨_, ⟨rfl, rfl⟩, sent h⟩
    case full => exact .inr ⟨fun _ hs => by simp [Operation.Sends] at hs, sent h⟩
  case send.ok | sendAsync.ok => exact .inl ⟨_, rfl, sent h⟩
  all_goals exact .inr ⟨fun _ hs => hs, sent h⟩

-- What a call that began in the state `s` has done to the messages when it answers. Its sender has sent
-- the message if it says so; its receiver has done to the queue what its operation says.
structure Done (L : Link) (i : ThreadId) (o : Operation) (s s' : State) (r : o.Ret) : Prop where
  sender   : i = L.tx →
    (∃ p, o.Sends r p ∧ (L.ring s').sent = (L.ring s).sent ++ [p]) ∨
      (∀ p, ¬ o.Sends r p) ∧ (L.ring s').sent = (L.ring s).sent
  receiver : i = L.rx → o.Receives → ∃ ps, (L.ring s').sent = (L.ring s).sent ++ ps ∧
    ((L.ring s).queue.Effect ps (L.ring s').queue o r ∨
      (L.ring s).queue.Broken ps (L.ring s').queue o r ∧ (L.ring s').faulted = true)

-- A call that has been dropped, as often as it has been repeated. Messages may have arrived.
structure Dropped (L : Link) (i : ThreadId) (s s' : State) : Prop where
  sender   : i = L.tx → (L.ring s').sent = (L.ring s).sent
  receiver : i = L.rx → ∃ ps, (L.ring s').sent = (L.ring s).sent ++ ps ∧ (L.ring s').queue = (L.ring s).queue.push ps

structure Resumes (L : Link) (c : L.cancelling.Config) : Prop where
  order   : ∃ ps, ps <+: (L.ring c.mem).sent ∧ ps.length = (L.ring c.mem).received.length ∧
    (∀ (j : Nat) (p : Bytes), (L.ring c.mem).received[j]? = some (some p) → ps[j]? = some p) ∧
    (¬ L.discards → (L.ring c.mem).received = ps.map some)
  called  : ∀ {i o s r}, c.Returning i (.inl o) s r → L.Done i o s c.mem r
  resumed : ∀ {i o ns s r}, c.Returning i (.inr (o, ns)) s (some r) → L.Done i o s c.mem r
  dropped : ∀ {i o ns s}, c.Returning i (.inr (o, ns)) s none → L.Dropped i s c.mem

theorem done_of_answer {o : Operation} {r : o.Ret} {s' : State} (inv : L.Inv (L.ring s'))
    (h : (answer L plat i o s r ⊓ began L plat i s) s') : L.Done i o s s' r where
  sender hi      := sends_of_answer (h.left.left hi)
  receiver hi ho :=
    have ⟨ps, arrived⟩ := h.right.left
    ⟨ps, arrived.symm, effect_of_answer ho h.right.right inv arrived.symm (h.left.right hi)⟩

theorem dropped_of_known {s' : State} (h : (known L plat i s ⊓ began L plat i s) s') : L.Dropped i s s' where
  sender hi   := (h.left.left hi).choose_spec.left.sent
  receiver hi := by
    have ⟨ps, arrived⟩ := h.right.left
    have ⟨_, same, _⟩ := h.left.right hi
    refine ⟨ps, arrived.symm, Queue.ext ?_ same.received same.buf same.out⟩
    rw [pending_push h.right.right arrived.symm, ← same.received]
    rfl

theorem resumes_of_reachable {c : L.cancelling.Config} (h : L.cancelling.Reachable (machine plat) c) : L.Resumes c := by
  have reach := (L.headerCancelled plat).under h
  have inv := (L.cancelled plat).inv_of_reachable reach
  constructor
  case order   => exact inv.delivered
  case called  => exact fun hr => done_of_answer inv ((L.cancelled plat).post_of_returning reach hr).right
  case resumed => exact fun hr => done_of_answer inv ((L.cancelled plat).post_of_returning reach hr).right
  case dropped => exact fun hr => dropped_of_known ((L.cancelled plat).post_of_returning reach hr).right

-- A future that has been dropped has left everything as it was, whatever the peer has written, and so has
-- one that reports a timeout, and a call whose time has elapsed. Between two threads that follow the crate, the
-- next call does what the first one would have done.
theorem cancelled_calls_commit_nothing {c : wildTiming.logged.Config} {d : L.cancelling.Config}
    (h : wildTiming.logged.Reachable (machine plat).logged c) (h' : L.cancelling.Reachable (machine plat) d) :
    (∀ {i o ns s}, c.Returning i (.inl (.inr (o, ns))) s none → Untouched (Log.since i s.snd c.mem.snd)) ∧
    (∀ {i hd wait p ns s}, c.Returning i (.inl (.inr (.sendAsync hd wait p, ns))) s (some (.error .timedOut)) →
      Untouched (Log.since i s.snd c.mem.snd)) ∧
    (∀ {i hd wait ns s}, c.Returning i (.inl (.inr (.recvAsync hd wait, ns))) s (some (.error .timedOut)) →
      Untouched (Log.since i s.snd c.mem.snd)) ∧
    (∀ {i o s}, c.Returning i (.inr o) s (.error .timedOut) → Untouched (Log.since i s.snd c.mem.snd)) ∧
    L.Resumes d := by
  refine ⟨fun hr => ?_, fun hr => ?_, fun hr => ?_, fun hr => ?_, resumes_of_reachable h'⟩
  · exact Wild.timed.post_of_returning h hr
  · exact Wild.timed.post_of_returning h hr
  · exact Wild.timed.post_of_returning h hr
  · exact Wild.timed.post_of_returning h hr

-- The client drops its future twice, the server sends a message, and the client receives it.

instance {i : ThreadId} {s : State} : (o : wildTiming.Op) → Decidable (wildTiming.callable i o s)
  | .inl (.inl _)      => inferInstanceAs (Decidable True)
  | .inl (.inr (o, _)) => inferInstanceAs (Decidable (o.Async ∧ True))
  | .inr _             => inferInstanceAs (Decidable True)

def bridge : AsyncWait where
  n         := 0
  handle    := ⟨0, .ringAWriter⟩
  notify    := .ring 0 ringA.header .writerNotify
  parked    := .ring 0 ringA.header .writerParked
  spinCount := 0

abbrev CancelMove :=
  Move ThreadId (Operation ⊕ Operation × List Nat) Choice

def CancelMove.steps {Op : Type} (i : ThreadId) (n : Nat) : List (Move ThreadId Op Choice) :=
  List.replicate n (.step i .normal)

-- The client looks for a message, and is suspended. The other thread is its bridge.
def suspend (o : wildTiming.Op) : List (Move ThreadId wildTiming.Op Choice) :=
  .call 1 o :: CancelMove.steps 1 22 ++ .call 2 (.inl (.inl (.waitLoop bridge))) :: CancelMove.steps 2 1

def dropOnce : List (Move ThreadId wildTiming.Op Choice) :=
  suspend (.inl (.inr (.recvAsync 1 bridge, [0]))) ++ CancelMove.steps 1 19

def elapse : List (Move ThreadId wildTiming.Op Choice) :=
  suspend (.inr (.recvTimeout 1 bridge (some 0))) ++ CancelMove.steps 1 19

def resume : List CancelMove :=
  .call 1 (.inr (.recvAsync 1 bridge, [0, 0])) :: CancelMove.steps 1 22 ++
  .call 2 (.inl (.waitLoop bridge)) :: CancelMove.steps 2 1 ++ CancelMove.steps 1 22 ++
  .call 0 (.inl (.trySendOnce 0 [7, 8])) :: CancelMove.steps 0 39 ++ CancelMove.steps 1 33

-- The client has dropped its future where it was suspended first.
def dropped (c : wildTiming.Config) : Bool :=
  c.returns 1 fun
    | .inl (.inr (.recvAsync h w, ns)), _, v => decide (h = 1 ∧ w = bridge ∧ ns = [0]) && v.isNone
    | _, _, _                                => false

-- The time of the client has elapsed there.
def elapsed (c : wildTiming.Config) : Bool :=
  c.returns 1 fun
    | .inr (.recvTimeout h w n), _, .error e => decide (h = 1 ∧ w = bridge ∧ n = some 0 ∧ e = .timedOut)
    | _, _, _                                => false

-- The client has dropped its future twice and then received the message.
def resumed (c : ringA.cancelling.Config) : Bool :=
  c.returns 1 fun
    | .inr (.recvAsync h w, ns), _, some (.ok p) => decide (h = 1 ∧ w = bridge ∧ ns = [0, 0] ∧ p = [7, 8])
    | _, _, _                                    => false

theorem returning_of_dropped {c : wildTiming.Config} (h : dropped c = true) :
    ∃ s, c.Returning 1 (.inl (.inr (.recvAsync 1 bridge, [0]))) s none := by
  have ⟨o, s, v, hr, hv⟩ := System.Config.returning h
  split at hv
  case h_2 => cases hv
  case h_1 h w ns s v =>
    have ⟨same, isNone⟩ := (Bool.and_eq_true _ _).mp hv
    obtain ⟨rfl, rfl, rfl⟩ := of_decide_eq_true same
    obtain rfl := Option.isNone_iff_eq_none.mp isNone
    exact ⟨_, hr⟩

theorem returning_of_elapsed {c : wildTiming.Config} (h : elapsed c = true) :
    ∃ s, c.Returning 1 (.inr (.recvTimeout 1 bridge (some 0))) s (.error .timedOut) := by
  have ⟨o, s, v, hr, hv⟩ := System.Config.returning h
  split at hv
  case h_2 => cases hv
  case h_1 h w n s e =>
    obtain ⟨rfl, rfl, rfl, rfl⟩ := of_decide_eq_true hv
    exact ⟨_, hr⟩

theorem returning_of_resumed {c : ringA.cancelling.Config} (h : resumed c = true) :
    ∃ s, c.Returning 1 (.inr (.recvAsync 1 bridge, [0, 0])) s (some (.ok [7, 8])) := by
  have ⟨o, s, v, hr, hv⟩ := System.Config.returning h
  split at hv
  case h_2 => cases hv
  case h_1 h w ns s p =>
    obtain ⟨rfl, rfl, rfl, rfl⟩ := of_decide_eq_true hv
    exact ⟨_, hr⟩

theorem cancelled_calls_commit_nothing_resume :
    ∃ (c c' : wildTiming.logged.Config) (d : ringA.cancelling.Config) (s s' : State × Log ThreadId Act Act.Ret)
        (s'' : State),
      (c.Returning 1 (.inl (.inr (.recvAsync 1 bridge, [0]))) s none ∧ Untouched (Log.since 1 s.snd c.mem.snd)) ∧
      (c'.Returning 1 (.inr (.recvTimeout 1 bridge (some 0))) s' (.error .timedOut) ∧
        Untouched (Log.since 1 s'.snd c'.mem.snd)) ∧
      d.Returning 1 (.inr (.recvAsync 1 bridge, [0, 0])) s'' (some (.ok [7, 8])) ∧ ringA.Resumes d := by
  have ⟨c, reach, _, hc⟩ := ringA.reaches_of_fresh (S := wildTiming) (fun _ _ => trivial) (crateOracle .linux)
    (fun _ h => h) (l := dropOnce) (p := dropped) (by decide +kernel)
  have ⟨c', reach', _, hc'⟩ := ringA.reaches_of_fresh (S := wildTiming) (fun _ _ => trivial) (crateOracle .linux)
    (fun _ h => h) (l := elapse) (p := elapsed) (by decide +kernel)
  have ⟨d, reach'', _, hd⟩ := ringA.reaches_of_fresh (S := ringA.cancelling) (fun _ h => h) (crateOracle .linux)
    (fun _ h => h) (l := resume) (p := resumed) (by decide +kernel)
  have ⟨s, hr⟩ := returning_of_dropped hc
  have ⟨s', hr'⟩ := returning_of_elapsed hc'
  have ⟨s'', hr''⟩ := returning_of_resumed hd
  obtain ⟨c, logged, rfl⟩ := System.Reachable.lift reach
  obtain ⟨c', logged', rfl⟩ := System.Reachable.lift reach'
  have ⟨l, hr⟩ := System.Config.returning_of_forget hr
  have ⟨l', hr'⟩ := System.Config.returning_of_forget hr'
  have cancelled := cancelled_calls_commit_nothing logged reach''
  have timed := cancelled_calls_commit_nothing logged' reach''
  exact ⟨c, c', d, (s, l), (s', l'), s'', ⟨hr, cancelled.left hr⟩, ⟨hr', timed.right.right.right.left hr'⟩, hr'',
    cancelled.right.right.right.right⟩

end Link
