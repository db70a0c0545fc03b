import ShmemIpc.Execution.Abort

-- What an asynchronous operation has done where it is suspended.
namespace Commit

open Assertion Code Discipline Effects Events

-- The vector of the caller, as the thread last saw it.
def sees : Option (List Bytes) → Event Act Act.Ret → Option (List Bytes)
  | _, ⟨.getOut, xs⟩    => some xs
  | _, ⟨.setOut xs, _⟩  => some xs
  | o, _                => o

def lastOut (t : Events) : Option (List Bytes) :=
  t.foldl sees none

@[simp]
theorem lastOut_snoc {t : Events} {e : Event Act Act.Ret} : lastOut (t ++ [e]) = sees (lastOut t) e := by
  simp [lastOut, List.foldl_append]

-- A discipline that permits to suspend while nothing has been committed.
def Pausing (d : Discipline Act Act.Ret) : Prop :=
  ∀ {t n v}, Untouched t → d.ok t (.awaitNotified n v)

-- A thread is alone with the vector of its caller.
def Attentive (d : Discipline Act Act.Ret) : Prop :=
  ∀ {t r xs}, d.may t .getOut r → lastOut t = some xs → r = xs

def Suspends (a : Act) : Prop :=
  Calm a ∨ ∃ n v, a = .awaitNotified n v

section
variable {wait : AsyncWait} {F : Error → Prop}

theorem ensureRunning_calm : Code.Only Calm (fun _ => True) wait.ensureRunning := by
  refine .act (calm_of_reads trivial) fun running => ?_
  cases running
  case true => exact .pure
  case false =>
    refine .act ⟨id, id, nofun, nofun, nofun, nofun, nofun⟩ fun r => .bind ?_ fun _ => ?_
    · cases r
      case ok    => exact .pure
      case error => exact .throw trivial
    · exact .act (calm_of_reads trivial) fun _ => .perform ⟨id, id, nofun, nofun, nofun, nofun, nofun⟩

theorem snapshot_calm : Code.Only Calm (fun _ => True) wait.snapshot :=
  .bind ensureRunning_calm fun _ => .perform (calm_of_reads trivial)

theorem waitChanged_suspends {observed : Nat} : Code.Only Suspends (fun _ => True) (wait.waitChanged observed) := by
  have reads {w : Word} : Suspends (.load w) := .inl (calm_of_reads trivial)
  refine .bind (ensureRunning_calm.weaken fun _ => .inl) fun _ => .loop fun _ => .act reads fun current => ?_
  split
  case isTrue => exact .pure
  refine .act (.inl ⟨id, id, nofun, nofun, nofun, nofun, nofun⟩) fun _ => .act reads fun current => ?_
  split
  case isTrue => exact .pure
  refine .act (.inr ⟨_, _, rfl⟩) fun notified => ?_
  cases notified <;> exact .pure

end

section
variable {d : Discipline Act Act.Ret} (hd : Lenient d) (hp : Pausing d) {h : Handle} {wait : AsyncWait}
include hd

theorem suspends_keeps (hp : Pausing d) : (known Untouched : d.Knows).Keeps Suspends := by
  refine keeps_of_snoc (fun {t a} ha ht => ?_) fun {t a r} ha ht => ?_
  · rcases ha with ha | ⟨n, v, rfl⟩
    · exact hd ha.runs
    · exact hp ht
  · rcases ha with ha | ⟨n, v, rfl⟩
    · exact Untouched.calm ha ht
    · exact Untouched.same (ht.toSilent.snoc id nofun) id rfl (fun _ => rfl) ht

theorem spinSend_spec {payload : Bytes} : (n : Nat) → Spec (known Untouched) (Tokio.spinSend h payload n)
    (fun v => given (v = .full) (known Untouched) : TrySendResult → d.Knows) (fun _ => known Untouched)
  | 0     => trySendOnce_spec hd
  | n + 1 => by
    refine .bind (trySendOnce_spec hd) fun v => ?_
    cases v
    case sent => exact .pure fun _ _ _ => nofun
    case full => exact (spinSend_spec n).pre fun _ _ hs => hs rfl

include hp in
theorem sendAsync_spec {payload : Bytes} : Spec (known Untouched) (Tokio.sendAsync h wait payload)
    (fun _ => ⊤ : Unit → d.Knows) (fun _ => known Untouched) := by
  refine .loop (fun _ => known Untouched) le_rfl fun _ => .bind (spinSend_spec hd _) fun v => ?_
  cases v
  case sent => exact .pure fun _ _ _ => trivial
  case full =>
    refine .pre (P := known Untouched) ?_ fun _ _ hs => hs rfl
    refine .pass (untouched_keeps hd) snapshot_calm (fun _ _ => le_rfl) fun observed => ?_
    refine .bind (spinSend_spec hd _) fun v => ?_
    cases v
    case sent => exact .pure fun _ _ _ => trivial
    case full =>
      refine .pre (P := known Untouched) ?_ fun _ _ hs => hs rfl
      exact .pass (suspends_keeps hd hp) waitChanged_suspends (fun _ _ => le_rfl) fun _ => .pure le_rfl

theorem spinPeekOrClosed_spec : (n : Nat) → Spec (known Untouched) (Tokio.spinPeekOrClosed h n) (peeked h)
    (fun _ => known Untouched : Error → d.Knows)
  | 0     => tryPeekOrClosed_spec hd
  | n + 1 => by
    refine .bind (tryPeekOrClosed_spec hd) fun v => ?_
    cases v
    case some m => exact .pure le_rfl
    case none   => exact spinPeekOrClosed_spec n

include hp in
theorem peekAsync_spec : Spec (known Untouched) (Tokio.peekAsync h wait) (fun m => peeked h (some m))
    (fun _ => known Untouched : Error → d.Knows) := by
  refine .loop (fun _ => known Untouched) le_rfl fun _ => .bind (spinPeekOrClosed_spec hd _) fun v => ?_
  cases v
  case some m => exact .pure le_rfl
  case none =>
    refine .pass (untouched_keeps hd) snapshot_calm (fun _ _ => le_rfl) fun observed => ?_
    refine .bind (spinPeekOrClosed_spec hd _) fun v => ?_
    cases v
    case some m => exact .pure le_rfl
    case none   => exact .pass (suspends_keeps hd hp) waitChanged_suspends (fun _ _ => le_rfl) fun _ => .pure le_rfl

include hp in
theorem recvAsync_spec : Spec (known Untouched) (Tokio.recvAsync h wait) (fun _ => ⊤ : Bytes → d.Knows)
    (fun _ => known Untouched) :=
  .bind (peekAsync_spec hd hp) fun _ => .pre (takeMessage_spec hd) peeked_le

include hp in
theorem recvIntoAsync_spec : Spec (known Untouched) (Tokio.recvIntoAsync h wait) (fun _ => ⊤ : Nat → d.Knows)
    (fun e => known fun t => Uncommitted t ∨ Discarded h e t) :=
  .bind ((peekAsync_spec hd hp).post (fun _ => le_rfl) fun _ _ _ hs => .inl hs.toUncommitted) fun _ =>
    (takeMessageInto_spec hd).post (fun _ => le_rfl) fun _ _ _ hs => hs.imp_left And.left

-- Batches. The vector of the caller has at least the messages that it had at the beginning, and nothing
-- has been committed if there are no others.

variable (ha : Attentive d)

def growing (n : Nat) (xs : List Bytes) : d.Knows :=
  known fun t => lastOut t = some xs ∧ n ≤ xs.length ∧ (xs.length = n → Untouched t)

def grown (n : Nat) : d.Knows :=
  ex fun xs => growing n xs

include ha

theorem lastOut_keeps {xs : List Bytes} : (known (lastOut · = some xs) : d.Knows).Keeps Act.Plain := by
  refine ⟨fun hp _ _ => hd hp.runs, ?_⟩
  rintro a t r t' hp - hs ⟨may, rfl⟩
  show lastOut (t ++ [_]) = _
  rw [lastOut_snoc, show lastOut t = some xs from hs]
  cases a
  case getOut => exact congrArg some (ha may hs)
  all_goals first | rfl | exact hp.elim

theorem plain_seen {l : List Bytes} {α : Type} {p : Routine α} (h : Code.Only Act.Plain (fun _ => True) p) :
    Spec (known (lastOut · = some l)) p (fun _ => known (lastOut · = some l) : α → d.Knows)
      (fun _ => known (lastOut · = some l)) :=
  (Spec.only (lastOut_keeps hd ha) h).post (fun _ => le_rfl) fun _ _ _ hs => hs.left

theorem peek_growing {n spin : Nat} {xs : List Bytes} :
    Spec (growing n xs) (Tokio.spinPeekOrClosed h spin) (fun _ => growing n xs : Option PeekedMessage → d.Knows)
      (fun _ => growing n xs) := by
  have seen := plain_seen hd ha (l := xs) (spinPeekOrClosed_plain (h := h) spin)
  by_cases hx : xs.length = n
  case pos =>
    have both := Spec.both (spinPeekOrClosed_spec hd (h := h) spin) seen
    refine (both.pre (Q := growing n xs) fun t _ ht => ⟨ht.right.right hx, ht.left⟩).post ?_ ?_
    · exact fun v t hi ht => ⟨ht.right, Nat.le_of_eq hx.symm, fun _ => peeked_le t hi ht.left⟩
    · exact fun e t _ ht => ⟨ht.right, Nat.le_of_eq hx.symm, fun _ => ht.left⟩
  case neg =>
    refine .pre (P := known (lastOut · = some xs) ⊓ .const (n ≤ xs.length)) (.assume fun hn => seen.post ?_ ?_) ?_
    · exact fun v t _ ht => ⟨ht, hn, fun he => absurd he hx⟩
    · exact fun e t _ ht => ⟨ht, hn, fun he => absurd he hx⟩
    · exact fun t _ ht => ⟨ht.left, ht.right.left⟩

theorem drainTurn_spec {n start spin : Nat} {xs : List Bytes} :
    Spec (growing n xs) (do
      match ← Code.attempt (Tokio.spinPeekOrClosed h spin) with
      | .ok (some message) => do
        let buf ← Tokio.commitMessageToVec h message
        setOut (xs ++ [buf])
        Pure.pure (.inl ())
      | .ok none => Pure.pure (.inr ())
      | .error e => if e.Terminal ∧ xs.length ≠ start then Pure.pure (.inr ()) else fail e : Routine (Unit ⊕ Unit))
      (Sum.elim (fun _ => grown n) fun _ => grown n) (fun _ => ⊤ : Error → d.Knows) := by
  refine .handle (peek_growing hd ha) (fun v => ?_) fun e => ?_
  · cases v
    case none => exact .pure fun _ _ ht => ⟨xs, ht⟩
    case some m =>
      refine .pre (P := known (lastOut · = some xs) ⊓ .const (n ≤ xs.length)) (.assume fun hn => ?_)
        fun t _ ht => ⟨ht.left, ht.right.left⟩
      refine .bind ((plain_seen hd ha takeMessage_plain).post (fun _ => le_rfl) fun _ _ _ _ => trivial) fun bs => ?_
      refine .act (fun _ => grown n) (fun _ _ _ => hd nofun) (fun t r t' _ _ e => ?_) fun _ => .pure le_rfl
      refine e.right ▸ ⟨xs ++ [bs], by simp [sees], ?_, fun he => ?_⟩
      · simp only [List.length_append, List.length_singleton]; omega
      · simp only [List.length_append, List.length_singleton] at he; omega
  · simp only
    split
    case isTrue  => exact .pure fun _ _ ht => ⟨xs, ht⟩
    case isFalse => exact .throw fun _ _ _ => trivial

theorem drainReadyWithSpin_spec {max spin : Nat} :
    Spec (known Untouched) (Tokio.drainReadyWithSpin h max spin)
      (fun k => known fun t => k = 0 → Untouched t) (fun _ => ⊤ : Error → d.Knows) := by
  refine .act (fun xs => growing xs.length xs) (fun _ _ _ => hd nofun) (fun t r t' _ ht e => ?_) fun out => ?_
  · rw [e.right]
    exact ⟨by simp [sees], Nat.le_refl _, fun _ => Untouched.calm (calm_of_reads trivial) ht⟩
  have again {α : Type} {f : List Bytes → Routine α} {M : α → d.Knows} {E : Error → d.Knows}
      (hf : ∀ xs, Spec (growing out.length xs) (f xs) M E) : Spec (grown out.length) (getOut >>= f) M E := by
    refine .act (growing out.length) (fun _ _ _ => hd nofun) (fun t r t' _ ht e => ?_) hf
    obtain ⟨may, rfl⟩ := e
    obtain ⟨xs, hx, hn, ht⟩ := ht
    obtain rfl := ha may hx
    exact ⟨by simp [sees], hn, fun he => Untouched.calm (calm_of_reads trivial) (ht he)⟩
  refine .bind (M := fun _ => grown out.length) ?_ fun _ => ?_
  · refine .loop (fun _ => grown out.length) (fun _ _ ht => ⟨_, ht⟩) fun _ => again fun xs => ?_
    split
    case isFalse => exact .pure fun _ _ ht => ⟨_, ht⟩
    case isTrue  => exact drainTurn_spec hd ha
  · exact again fun xs => .pure fun t _ ⟨_, hn, ht⟩ hk => ht (by omega)

include hp in
theorem recvManyAsync_spec {max : Nat} :
    Spec (known Untouched) (Tokio.recvManyAsync h wait max) (fun _ => ⊤ : Nat → d.Knows)
    (fun _ => ⊤ : Error → d.Knows) := by
  have none {k : Nat} (hk : ¬ k ≠ 0) : (known (fun t => k = 0 → Untouched t) : d.Knows) ≤ known Untouched :=
    fun _ _ ht => ht (not_not.mp hk)
  unfold Tokio.recvManyAsync
  split
  case isTrue => exact .pure fun _ _ _ => trivial
  refine .loop (fun _ => known Untouched) le_rfl fun _ => .bind (drainReadyWithSpin_spec hd ha) fun k => ?_
  split
  case isTrue  => exact .pure fun _ _ _ => trivial
  case isFalse hk =>
    refine .pre (P := known Untouched) ?_ (none hk)
    refine .pass (untouched_keeps hd) snapshot_calm (fun _ _ _ _ _ => trivial) fun observed => ?_
    refine .bind (drainReadyWithSpin_spec hd ha) fun k => ?_
    split
    case isTrue  => exact .pure fun _ _ _ => trivial
    case isFalse hk =>
      refine .pre (P := known Untouched) ?_ (none hk)
      exact .pass (suspends_keeps hd hp) waitChanged_suspends (fun _ _ _ _ _ => trivial) fun _ => .pure le_rfl

end
end Commit
