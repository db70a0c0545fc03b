import ShmemIpc.Library.Cut
import ShmemIpc.Execution.Cancel

-- All programs, with whatever else may happen to the memory: every thread can call every operation, on
-- every handle, and take every single step. Nothing is known of the first state.
abbrev wildSystem : System ThreadId Act Act.Ret State :=
  operations (fun _ _ _ => True) (fun _ => True)

-- The futures may also be dropped.
abbrev wildCancelling : System ThreadId Act Act.Ret State :=
  wildSystem.dropping Act.Suspends Operation.Async

-- The calls with a timeout.
inductive Timed where
  | sendTimeout (h : Handle) (wait : AsyncWait) (payload : Bytes) (elapses : Option Nat)
  | recvTimeout (h : Handle) (wait : AsyncWait) (elapses : Option Nat)
  deriving DecidableEq

def Timed.Answer : Timed → Type
  | sendTimeout .. => Unit
  | recvTimeout .. => Bytes

def Timed.code : (o : Timed) → Routine o.Answer
  | sendTimeout h wait payload elapses => Tokio.sendTimeout h wait payload elapses
  | recvTimeout h wait elapses         => Tokio.recvTimeout h wait elapses

-- What is called with a timeout.
def Timed.inner : Timed → Operation
  | sendTimeout h wait payload _ => .sendAsync h wait payload
  | recvTimeout h wait _         => .recvAsync h wait

abbrev wildTiming : System ThreadId Act Act.Ret State :=
  wildCancelling.also (T := fun o : Timed => Except Error o.Answer) (fun _ => Timed.code) fun _ _ _ => True

namespace Wild

open Assertion Code Discipline Commit

-- A thread is alone with the vector of its caller, and no lock reports a record.
def Sees (t : Events) : (a : Act) → a.Ret → Prop
  | .getOut, r     => ∀ xs, lastOut t = some xs → r = xs
  | .lockPeer _, r => ∀ e, r = .error e → ¬ e.Framing
  | _, _           => True

def lax : Discipline Act Act.Ret where
  may    := Sees
  ok _ _ := True

-- Nothing has been committed where a call is suspended.
def pausing : Discipline Act Act.Ret where
  may    := Sees
  ok t a := (∃ n v, a = .awaitNotified n v) → Untouched t

def rule : Operation → Discipline Act Act.Ret
  | .sendAsync .. | .recvAsync .. | .recvIntoAsync .. | .recvManyAsync .. => pausing
  | _                                                                     => lax

theorem out_of_exec {plat : Platform} {i j : ThreadId} {a : Act} {s s' : World} {r : a.Ret} (hj : j ≠ i)
    (e : World.exec plat j a s r s') : s'.out i = s.out i := by
  have frame := World.frame e
  cases a
  case setOut xs => exact (congrFun (congrArg World.out e) i).trans (Function.update_of_ne hj.symm ..)
  all_goals exact congrFun (frame.out (by simp [Act.parts])) i

theorem out_of_own {plat : Platform} {i : ThreadId} {a : Act} {s s' : World} {r : a.Ret} {t : Events}
    (e : World.exec plat i a s r s') (h : ∀ xs, lastOut t = some xs → s.out i = xs) :
    ∀ xs, lastOut (t ++ [⟨a, r⟩]) = some xs → s'.out i = xs := by
  have frame := World.frame e
  rw [lastOut_snoc]
  cases a
  case getOut =>
    obtain ⟨rfl, rfl⟩ := e
    exact fun xs hx => Option.some.inj hx
  case setOut ys =>
    obtain rfl : s' = _ := e
    exact fun xs hx => (Function.update_self ..).trans (Option.some.inj hx)
  all_goals exact fun xs hx => (congrFun (frame.out (by simp [Act.parts])) i).trans (h xs hx)

-- What a call that fails has done.
def Fails (o : Operation) (e : Error) (t : Events) : Prop :=
  match o with
  | .send .. | .trySendOnce .. | .recv .. | .tryRecv _ => Uncommitted t
  | .recvInto h ..                                     => Ended h e t
  | .sendAsync .. | .recvAsync ..                      => Untouched t
  | _                                                  => True

def post (o : Operation) : o.Ret → Events → Prop
  | .ok _, _    => True
  | .error e, t => Fails o e t

theorem untouched_nil : Untouched [] where
  silent     := by simp
  sender     := by simp
  balanced _ := Nat.le_refl _
  kept       := by simp

theorem post_of_spec {d : Discipline Act Act.Ret} {o : Operation} {M : o.Answer → d.Knows} {E : Error → d.Knows}
    (h : Spec (known Untouched) o.code M E) (he : ∀ e t, E e t → Fails o e t) :
    o.code.Triple (known Untouched : d.Knows) fun v => known (post o v) := by
  refine Program.Triple.post (fun v => ?_) h
  cases v
  case ok      => exact fun _ _ _ => trivial
  case error e => exact fun t _ ht => he e t ht

theorem operation_spec (o : Operation) :
    o.code.Triple (known Untouched : (rule o).Knows) fun v => known (post o v) := by
  have hl : Lenient lax := fun _ => trivial
  have locks : Locks lax := fun h => h _ rfl
  have hd : Lenient pausing := fun ha ⟨n, v, h⟩ => absurd h (ha n v)
  have hp : Pausing pausing := fun ht _ => ht
  have ha : Attentive pausing := fun hr hx => hr _ hx
  cases o
  case trySendOnce   => exact post_of_spec (trySendOnce_spec hl) fun _ _ h => h.toUncommitted
  case send          => exact post_of_spec (send_spec hl) fun _ _ h => h.toUncommitted
  case tryRecv       => exact post_of_spec (tryRecv_spec hl) fun _ _ h => h.toUncommitted
  case recv          => exact post_of_spec (recv_spec hl) fun _ _ h => h.toUncommitted
  case recvInto      => exact post_of_spec (recvInto_spec hl locks) fun _ _ h => h
  case sendAsync     => exact post_of_spec (sendAsync_spec hd hp) fun _ _ h => h
  case recvAsync     => exact post_of_spec (recvAsync_spec hd hp) fun _ _ h => h
  case recvIntoAsync => exact post_of_spec (recvIntoAsync_spec hd hp) fun _ _ _ => trivial
  case recvManyAsync => exact post_of_spec (recvManyAsync_spec hd hp ha) fun _ _ _ => trivial
  all_goals exact (free fun _ _ => trivial).post fun v => by cases v <;> exact fun _ _ _ => trivial

def disciplined {plat : Platform} {callable : ThreadId → Operation → State → Prop} {init : State → Prop} :
    Disciplined (machine plat) (operations callable init) where
  rule    := rule
  inv _   := True
  own i t s := ∀ xs, lastOut t = some xs → s.fst.out i = xs
  post    := post
  init _  := trivial
  start _ := nofun
  may     := fun {o i t a s r s'} _ hs e => by
    have sees : Sees t a r := by
      cases a
      case getOut   => exact fun xs hx => e.left.left.trans (hs xs hx)
      case lockPeer => exact fun _ he => lock_error (he ▸ e)
      all_goals trivial
    cases o <;> exact sees
  step _ hs _ e := ⟨trivial, out_of_own e.left hs⟩
  other hj _ hs _ _ e := fun xs hx => (out_of_exec hj e.left).trans (hs xs hx)
  spec _ _      := Program.Triple.pre (fun _ _ ht => ht.symm ▸ untouched_nil) (operation_spec _)

def cancelled {plat : Platform} : Disciplined (machine plat) wildCancelling :=
  disciplined.dropping Act.Suspends Operation.Async (fun _ => Untouched) (fun _ => untouched_nil)
    (fun {o t a} ho ha ok => by
      obtain ⟨n, v, rfl⟩ : ∃ n v, a = .awaitNotified n v := by cases a <;> first | exact ⟨_, _, rfl⟩ | exact ha.elim
      cases o <;> first | exact ok ⟨_, _, rfl⟩ | exact ho.elim)
    fun _ _ _ => operation_spec _

-- Where the time elapses, nothing has been committed.
theorem timeout_spec {α : Type} {p : Routine α} {elapses : Option Nat}
    (h : Spec (known Untouched : pausing.Knows) p (fun _ => ⊤) fun _ => known Untouched) :
    Spec (known Untouched : pausing.Knows) (Tokio.mapTimeout (Tokio.timeout elapses p)) (fun _ => ⊤)
      fun _ => known Untouched := by
  have suspended {a : Act} {t : Events} (hs : a.Suspends) (ok : pausing.ok t a) : Untouched t := by
    cases a
    case awaitNotified => exact ok ⟨_, _, rfl⟩
    all_goals exact hs.elim
  have pauses : Program.Triple
      ((known Untouched : pausing.Knows).pausing :
        Assertion (pausing.protocol.pausing () Act.Suspends (known Untouched : pausing.Knows)) ())
      p fun v => (outcome (fun _ => ⊤) (fun _ => known Untouched) v).pausing :=
    Program.Triple.pauses suspended h
  have ended : Program.Triple (known Untouched : pausing.Knows) (Tokio.timeout elapses p) fun
      | none   => known Untouched
      | some v => outcome (fun _ => ⊤) (fun _ => known Untouched) v := by
    cases elapses
    case none   => exact Program.Triple.bind (fun _ => Assertion.le_rfl) h
    case some n => exact (pauses.cut n).post fun | none | some _ => Assertion.le_rfl
  exact ended.bind fun | none | some _ => Assertion.le_rfl

def timedPost (o : Timed) : Except Error o.Answer → Events → Prop
  | .ok _, _    => True
  | .error _, t => Untouched t

theorem timed_spec (o : Timed) :
    o.code.Triple (known Untouched : (rule o.inner).Knows) fun v => known (timedPost o v) := by
  have hd : Lenient pausing := fun ha ⟨n, v, h⟩ => absurd h (ha n v)
  have hp : Pausing pausing := fun ht _ => ht
  cases o
  case sendTimeout =>
    refine Program.Triple.post (fun v => ?_) (timeout_spec (sendAsync_spec hd hp))
    cases v <;> exact Assertion.le_rfl
  case recvTimeout =>
    refine Program.Triple.post (fun v => ?_) (timeout_spec (recvAsync_spec hd hp))
    cases v <;> exact Assertion.le_rfl

def timed {plat : Platform} : Disciplined (machine plat) wildTiming :=
  cancelled.also (fun o => .inl o.inner) timedPost fun _ _ =>
    Program.Triple.pre (fun _ _ ht => ht.symm ▸ untouched_nil) (timed_spec _)

end Wild
