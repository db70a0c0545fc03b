import ShmemIpc.Library.Verified
import ShmemIpc.Library.Schedule
import ShmemIpc.Library.Spec
import ShmemIpc.Windows.Pipes

open Function Assertion Code

namespace NamedPipe

variable {i j : Thread} {p q : PipeId}

-- Who has an instance. No action reads it.
structure Track where
  -- the instance in a variable of the listener, which is not its pending accept
  hand   : Option PipeId
  -- the instances whose clients the listener has received
  taken  : List PipeId
  -- those that the listener has closed
  lost   : List PipeId
  -- those whose clients could not be awaited
  broken : PipeId → Bool

namespace Track

def record (i : Thread) (a : Act) (r : a.Ret) (_ : Pipes) (g : Track) : Track :=
  match a, r with
  | .takePending, some p            => { g with hand := some p }
  | .createPipe, .ok p              => { g with hand := some p, broken := update g.broken p false }
  | .setPending _, _                => { g with hand := none }
  | .recv p _, .result (.ok _)      => { g with hand := none, taken := g.taken ++ [p] }
  | .recv _ _, .result (.error _)   => { g with hand := none }
  | .connectNamedPipe p, .error _   => { g with broken := update g.broken p true }
  | .closePipe p, _                 => if i = .listener then { g with lost := g.lost ++ [p] } else g
  | _, _                            => g

end Track

abbrev State :=
  Pipes × Track

def machine : Machine Thread Act Act.Ret State :=
  pipeMachine.ghost Track.record

theorem pipe_exec {a : Act} {m m' : Pipes} {g g' : Track} {r : a.Ret} (e : machine.exec i a (m, g) r (m', g')) :
    Pipes.exec i a m r m' ∧ g' = Track.record i a r m g :=
  e

variable {s s' : State}

-- The listener waits at an instance, or is about to.
def Waits (s : State) (p : PipeId) : Prop :=
  s.fst.pendingAccept = some p ∨ s.snd.hand = some p

theorem Waits.absurd (h : Waits s p) (hand : s.snd.hand = none) (free : s.fst.pendingAccept = none) : False := by
  simp [Waits, hand, free] at h

structure Inv (s : State) : Prop where
  spawned : ∀ p, s.fst.spawned p = true → p < s.fst.pipes
  old     : ∀ p, Waits s p → p < s.fst.pipes ∧ p ∉ s.snd.taken
  apart   : ∀ p, s.fst.pendingAccept = some p → s.snd.hand = none
  held    : ∀ p < s.fst.pipes, s.fst.opened p = true → p ∈ s.snd.taken ∨ Waits s p
  closed  : ∀ p < s.fst.pipes, s.fst.opened p = false → p ∈ s.snd.lost ∨ s.snd.broken p = true
  once    : s.snd.taken.Nodup
  taken   : ∀ p ∈ s.snd.taken, p < s.fst.pipes ∧ s.fst.client p ≠ none ∧ s.snd.broken p = false
  lost    : ∀ p ∈ s.snd.lost, p ∈ s.snd.taken
  ok      : ∀ p, s.fst.message p = some (.ok ()) →
    s.fst.client p ≠ none ∧ s.fst.opened p = true ∧ s.snd.broken p = false ∧ p ∉ s.snd.taken
  error   : ∀ p e, s.fst.message p = some (.error e) → s.fst.opened p = false
  sent    : ∀ p, Waits s p → s.fst.finished p = true → s.fst.message p ≠ none

-- What each thread may do. A waiter sends one message, about its own instance.
def Ok (i : Thread) (a : Act) (s : State) : Prop :=
  match a with
  | .getPending         => i = .listener
  | .takePending        => i = .listener
  | .setPending p       => i = .listener ∧ s.snd.hand = some p ∧ s.fst.pendingAccept = none
  | .createPipe         => i = .listener ∧ s.snd.hand = none ∧ s.fst.pendingAccept = none
  | .spawn p            => i = .listener ∧ s.snd.hand = some p
  | .recv p _           => i = .listener ∧ s.snd.hand = some p ∧ s.fst.pendingAccept = none
  | .connectNamedPipe p => i = .waiter p ∧ p < s.fst.pipes ∧ p ∉ s.snd.taken ∧ s.fst.message p = none
  | .send p r           =>
      i = .waiter p ∧ p < s.fst.pipes ∧ p ∉ s.snd.taken ∧
      match r with
      | .ok _    => s.fst.client p ≠ none ∧ s.fst.opened p = true ∧ s.snd.broken p = false
      | .error _ => s.fst.opened p = false
  | .finish p           => i = .waiter p ∧ (Waits s p → s.fst.message p ≠ none)
  | .closePipe p        =>
      (i = .waiter p ∧ p < s.fst.pipes ∧ p ∉ s.snd.taken ∧ s.snd.broken p = true ∧ s.fst.message p = none) ∨
      (i = .listener ∧ p ∈ s.snd.taken)
  | _                   => True

theorem Inv.of_same {m : Pipes} {g : Track} (inv : Inv s) (waits : ∀ p, Waits (m, g) p ↔ Waits s p)
    (apart : ∀ p, m.pendingAccept = some p → g.hand = none)
    (rest : m = { s.fst with pendingAccept := m.pendingAccept }) (track : g = { s.snd with hand := g.hand }) :
    Inv (m, g) := by
  rw [rest, track] at waits ⊢
  exact {
    spawned := inv.spawned
    old p h := inv.old p ((waits p).mp h)
    apart   := apart
    held p lt h := (inv.held p lt h).imp_right (waits p).mpr
    closed  := inv.closed
    once    := inv.once
    taken   := inv.taken
    lost    := inv.lost
    ok      := inv.ok
    error   := inv.error
    sent p h := inv.sent p ((waits p).mp h) }

theorem Inv.creates (inv : Inv s) (hand : s.snd.hand = none) (free : s.fst.pendingAccept = none) :
    Inv
      ({ s.fst with
        opened   := update s.fst.opened s.fst.pipes true
        client   := update s.fst.client s.fst.pipes none
        spawned  := update s.fst.spawned s.fst.pipes false
        message  := update s.fst.message s.fst.pipes none
        finished := update s.fst.finished s.fst.pipes false
        pipes    := s.fst.pipes + 1 },
       { s.snd with hand := some s.fst.pipes, broken := update s.snd.broken s.fst.pipes false }) := by
  have ne {p : PipeId} (lt : p < s.fst.pipes) : p ≠ s.fst.pipes := Nat.ne_of_lt lt
  have within {p : PipeId} (h : p ∈ s.snd.taken) : p ≠ s.fst.pipes := ne (inv.taken p h).left
  have split {p : PipeId} (lt : p < s.fst.pipes + 1) : p = s.fst.pipes ∨ p ≠ s.fst.pipes ∧ p < s.fst.pipes :=
    (Nat.lt_succ_iff_lt_or_eq.mp lt).elim (fun lt => .inr ⟨ne lt, lt⟩) .inl
  have waits {p : PipeId} (h : s.fst.pendingAccept = some p ∨ some s.fst.pipes = some p) : p = s.fst.pipes := by
    rw [free] at h
    exact h.elim nofun fun h => (Option.some.inj h).symm
  refine ⟨fun p h => ?_, fun p h => ?_, fun p h => ?_, fun p lt h => ?_, fun p lt h => ?_, inv.once, fun p h => ?_,
    inv.lost, fun p h => ?_, fun p e h => ?_, fun p h finished => ?_⟩
  case refine_1 =>
    by_cases same : p = s.fst.pipes
    case pos => subst same; simp at h
    case neg => exact Nat.lt_succ_of_lt (inv.spawned p (by simpa [same] using h))
  case refine_2 =>
    obtain rfl := waits h
    exact ⟨Nat.lt_succ_self _, fun h => within h rfl⟩
  case refine_3 => exact nomatch free.symm.trans h
  case refine_4 =>
    obtain rfl | ⟨other, lt⟩ := split lt
    case inl => exact .inr (.inr rfl)
    case inr =>
      have held := inv.held p lt (by simpa [other] using h)
      exact .inl (held.resolve_right fun h => h.absurd hand free)
  case refine_5 =>
    obtain rfl | ⟨other, lt⟩ := split lt
    case inl => simp at h
    case inr => simpa [other] using inv.closed p lt (by simpa [other] using h)
  case refine_6 =>
    have ⟨lt, client, whole⟩ := inv.taken p h
    exact ⟨Nat.lt_succ_of_lt lt, by simpa [ne lt] using client, by simpa [ne lt] using whole⟩
  case refine_7 =>
    by_cases same : p = s.fst.pipes
    case pos => subst same; simp at h
    case neg => simpa [same] using inv.ok p (by simpa [same] using h)
  case refine_8 =>
    by_cases same : p = s.fst.pipes
    case pos => subst same; simp at h
    case neg => simpa [same] using inv.error p e (by simpa [same] using h)
  case refine_9 =>
    obtain rfl := waits h
    simp at finished

theorem Inv.receives {p : PipeId} (inv : Inv s) (hand : s.snd.hand = some p) (free : s.fst.pendingAccept = none)
    (message : s.fst.message p = some (.ok ())) :
    Inv
      ({ s.fst with message := update s.fst.message p none },
       { s.snd with hand := none, taken := s.snd.taken ++ [p] }) := by
  have ⟨client, opened, whole, fresh⟩ := inv.ok p message
  have lt : p < s.fst.pipes := (inv.old p (.inr hand)).left
  have old {q : PipeId} {x : Except IoError Unit} (h : update s.fst.message p none q = some x) :
      q ≠ p ∧ s.fst.message q = some x := by
    by_cases same : q = p
    case pos => subst same; simp at h
    case neg => exact ⟨same, by simpa [same] using h⟩
  refine ⟨inv.spawned, fun q h => (h.absurd rfl free).elim, fun _ _ => rfl, fun q lt h => ?_, inv.closed, ?_,
    fun q h => ?_, fun q h => List.mem_append_left _ (inv.lost q h), fun q h => ?_,
    fun q e h => inv.error q e (old h).right, fun q h => (h.absurd rfl free).elim⟩
  case refine_1 =>
    have held := inv.held q lt h
    refine .inl (List.mem_append.mpr (held.imp_right fun h => ?_))
    obtain h | h := h
    case inl => exact nomatch free.symm.trans h
    case inr => exact List.mem_singleton.mpr (Option.some.inj (h.symm.trans hand))
  case refine_2 =>
    exact List.nodup_append.mpr ⟨inv.once, by simp, fun a ha b hb => by
      obtain rfl := List.mem_singleton.mp hb
      rintro rfl
      exact fresh ha⟩
  case refine_3 =>
    obtain h | h := List.mem_append.mp h
    case inl => exact inv.taken q h
    case inr =>
      obtain rfl := List.mem_singleton.mp h
      exact ⟨lt, client, whole⟩
  case refine_4 =>
    obtain ⟨ne, h⟩ := old h
    have ⟨client, opened, whole, fresh⟩ := inv.ok q h
    refine ⟨client, opened, whole, fun h => ?_⟩
    exact (List.mem_append.mp h).elim fresh fun h => ne (List.mem_singleton.mp h)

theorem Inv.refuses {p : PipeId} {e : IoError} (inv : Inv s) (hand : s.snd.hand = some p)
    (free : s.fst.pendingAccept = none) (message : s.fst.message p = some (.error e)) :
    Inv ({ s.fst with message := update s.fst.message p none }, { s.snd with hand := none }) := by
  have old {q : PipeId} {x : Except IoError Unit} (h : update s.fst.message p none q = some x) :
      s.fst.message q = some x := by
    by_cases same : q = p
    case pos => subst same; simp at h
    case neg => simpa [same] using h
  have closed : s.fst.opened p = false := inv.error p e message
  refine ⟨inv.spawned, fun q h => (h.absurd rfl free).elim, fun _ _ => rfl, fun q lt h => ?_, inv.closed, inv.once,
    inv.taken, inv.lost, fun q h => inv.ok q (old h), fun q e h => inv.error q e (old h),
    fun q h => (h.absurd rfl free).elim⟩
  refine .inl ((inv.held q lt h).resolve_right fun waits => ?_)
  obtain waits | waits := waits
  case inl => exact nomatch free.symm.trans waits
  case inr =>
    obtain rfl := Option.some.inj (waits.symm.trans hand)
    exact Bool.noConfusion (closed.symm.trans h)

theorem Inv.preserves {a : Act} {r : a.Ret} (inv : Inv s) (ok : Ok i a s) (e : machine.exec i a s r s') : Inv s' := by
  obtain ⟨m, g⟩ := s
  obtain ⟨m', g'⟩ := s'
  obtain ⟨step, rfl⟩ := pipe_exec e
  cases a
  case getPending => obtain ⟨_, rfl⟩ := step; exact inv
  case takePending =>
    obtain ⟨rfl, rfl⟩ := step
    cases pending : m.pendingAccept
    case none   => exact inv.of_same (fun p => by simp [Waits, Track.record, pending]) (fun _ h => nomatch h) rfl rfl
    case some p =>
      have hand : g.hand = none := inv.apart p pending
      exact inv.of_same (fun q => by simp [Waits, Track.record, pending, hand]) (fun _ h => nomatch h) rfl rfl
  case setPending p =>
    obtain rfl := step
    obtain ⟨_, hand, free⟩ := ok
    have hand : g.hand = some p := hand
    have free : m.pendingAccept = none := free
    exact inv.of_same (fun q => by simp [Waits, Track.record, free, hand]) (fun _ _ => rfl) rfl rfl
  case createPipe =>
    obtain ⟨rfl, rfl⟩ | ⟨_, rfl, rfl⟩ := step
    case inl => exact inv.creates ok.right.left ok.right.right
    case inr => exact inv
  case spawn p =>
    obtain rfl := step
    have lt : p < m.pipes := (inv.old p (.inr ok.right)).left
    refine { inv with spawned := fun q h => ?_ }
    by_cases same : q = p
    case pos => exact same ▸ lt
    case neg => exact inv.spawned q (by simpa [same] using h)
  case recv p timed =>
    obtain ⟨r, message, rfl, rfl⟩ | ⟨_, rfl, rfl⟩ | ⟨_, _, rfl, rfl⟩ := step
    case inl =>
      obtain ⟨_, hand, free⟩ := ok
      cases r
      case ok    => exact inv.receives hand free message
      case error => exact inv.refuses hand free message
    all_goals exact inv
  case join => obtain ⟨_, rfl⟩ := step; exact inv
  case connectNamedPipe p =>
    obtain ⟨step, rfl⟩ := step
    cases r
    case ok    => exact inv
    case error =>
      obtain ⟨_, lt, free, message⟩ := ok
      have other {q : PipeId} (h : q ≠ p) : update g.broken p true q = g.broken q := update_of_ne h ..
      refine { inv with closed := fun q lt h => ?_, taken := fun q h => ?_, ok := fun q h => ?_ }
      case refine_1 =>
        refine (inv.closed q lt h).imp_right fun h => ?_
        by_cases same : q = p
        case pos => exact same ▸ update_self ..
        case neg => exact (other same).trans h
      case refine_2 =>
        have ne : q ≠ p := fun same => free (same ▸ h)
        exact ⟨(inv.taken q h).left, (inv.taken q h).right.left, (other ne).trans (inv.taken q h).right.right⟩
      case refine_3 =>
        have ne : q ≠ p := fun same => by rw [same] at h; cases message.symm.trans h
        have ⟨client, opened, whole, fresh⟩ := inv.ok q h
        exact ⟨client, opened, (other ne).trans whole, fresh⟩
  case send p x =>
    obtain rfl := step
    obtain ⟨_, lt, free, about⟩ := ok
    have other {q : PipeId} (h : q ≠ p) : update m.message p (some x) q = m.message q := update_of_ne h ..
    refine { inv with ok := fun q h => ?_, error := fun q y h => ?_, sent := fun q h finished => ?_ }
    case refine_1 =>
      by_cases same : q = p
      case neg => exact inv.ok q ((other same).symm.trans h)
      case pos =>
        subst same
        obtain rfl : x = .ok () := by simpa using h
        exact ⟨about.left, about.right.left, about.right.right, free⟩
    case refine_2 =>
      by_cases same : q = p
      case neg => exact inv.error q y ((other same).symm.trans h)
      case pos =>
        subst same
        obtain rfl : x = .error y := by simpa using h
        exact about
    case refine_3 =>
      by_cases same : q = p
      case pos => simp [same]
      case neg => exact fun h' => inv.sent q h finished ((other same).symm.trans h')
  case finish p =>
    obtain rfl := step
    refine { inv with sent := fun q h finished => ?_ }
    by_cases same : q = p
    case pos => subst same; exact ok.right h
    case neg => exact inv.sent q h (by simpa [same] using finished)
  case closePipe p =>
    obtain rfl := step
    have other {q : PipeId} (h : q ≠ p) : update m.opened p false q = m.opened q := update_of_ne h ..
    have held (q : PipeId) (lt : q < m.pipes) (h : update m.opened p false q = true) :
        q ∈ g.taken ∨ Waits (m, g) q := by
      have ne : q ≠ p := by rintro rfl; simp at h
      exact inv.held q lt ((other ne).symm.trans h)
    have error (q : PipeId) (e : IoError) (h : m.message q = some (.error e)) : update m.opened p false q = false := by
      by_cases same : q = p
      case pos => simp [same]
      case neg => exact (other same).trans (inv.error q e h)
    obtain ⟨rfl, lt, free, broken, message⟩ | ⟨rfl, taken⟩ := ok
    case inl =>
      refine { inv with held := held, error := error, closed := fun q lt h => ?_, ok := fun q h => ?_ }
      case refine_1 =>
        by_cases same : q = p
        case pos => exact .inr (same ▸ broken)
        case neg => exact inv.closed q lt ((other same).symm.trans h)
      case refine_2 =>
        have ne : q ≠ p := fun same => by rw [same] at h; cases message.symm.trans h
        have ⟨client, opened, rest⟩ := inv.ok q h
        exact ⟨client, (other ne).trans opened, rest⟩
    case inr =>
      refine { inv with
        held := held, error := error, closed := fun q lt h => ?_, lost := fun q h => ?_, ok := fun q h => ?_ }
      case refine_1 =>
        by_cases same : q = p
        case pos => exact .inl (List.mem_append_right _ (List.mem_singleton.mpr same))
        case neg => exact (inv.closed q lt ((other same).symm.trans h)).imp_left (List.mem_append_left _)
      case refine_2 =>
        exact (List.mem_append.mp h).elim (inv.lost q) fun h => List.mem_singleton.mp h ▸ taken
      case refine_3 =>
        have ⟨client, opened, whole, fresh⟩ := inv.ok q h
        have ne : q ≠ p := fun same => fresh (same ▸ taken)
        exact ⟨client, (other ne).trans opened, whole, fresh⟩
  case createFile =>
    obtain ⟨p, lt, opened, free, rfl, rfl⟩ | ⟨_, rfl, rfl⟩ := step
    case inr => exact inv
    case inl =>
      have stays (q : PipeId) (h : m.client q ≠ none) : update m.client p (some i) q ≠ none := by
        by_cases same : q = p
        case pos => simp [same]
        case neg => simpa [same] using h
      exact { inv with
        taken := fun q h => ⟨(inv.taken q h).left, stays q (inv.taken q h).right.left, (inv.taken q h).right.right⟩
        ok    := fun q h => ⟨stays q (inv.ok q h).left, (inv.ok q h).right⟩ }
  case elapsed => obtain rfl := step; exact inv

end NamedPipe
