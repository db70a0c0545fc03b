import ShmemIpc.Windows.Accept

open Function Assertion

namespace NamedPipe

variable {i j : Thread} {p q : PipeId} {s s' : State}

-- The system: a listener, a thread for each of its instances, and any number of clients.

structure Initial (s : State) : Prop where
  pipes   : s.fst.pipes = 0
  pending : s.fst.pendingAccept = none
  spawned : ∀ p, s.fst.spawned p = false
  message : ∀ p, s.fst.message p = none
  track   : s.snd.hand = none ∧ s.snd.taken = [] ∧ s.snd.lost = []

def system : System Thread Act Act.Ret State where
  Op             := Operation
  Ret o          := Except Error o.Answer
  body _ o       := o.code
  callable i o s := o.Callable i s.fst
  init           := Initial

theorem Initial.inv (h : Initial s) : Inv s := by
  obtain ⟨hand, taken, lost⟩ := h.track
  exact {
    spawned p hp := by simp [h.spawned] at hp
    old p hp     := (hp.absurd hand h.pending).elim
    apart p hp   := hand
    held p lt    := by simp [h.pipes] at lt
    closed p lt  := by simp [h.pipes] at lt
    once         := by simp [taken]
    taken p hp   := by simp [taken] at hp
    lost p hp    := by simp [lost] at hp
    ok p hp      := by simp [h.message] at hp
    error p e hp := by simp [h.message] at hp
    sent p hp    := (hp.absurd hand h.pending).elim }

def idle : (i : Thread) → Assertion protocol i
  | .listener => knows fun o => o.hand = none
  | .waiter _ => rests
  | .client _ => ⊤

def post : (i : Thread) → (o : Operation) → State → Except Error o.Answer → Assertion protocol i
  | .listener, .waitForPipe, s, v        => told false (own s) v
  | .listener, .waitForPipeTimeout, s, v => told true (own s) v
  | _, _, _, _                           => ⊤

theorem Outcome.idle {timed : Bool} {o o' : Own} {v : Except Error PipeId} (h : Outcome timed o o' v) :
    o'.hand = none := by
  cases h
  all_goals
    rename_i after
    rw [after]
    rfl

theorem accepts {timed : Bool} (h : s.snd.hand = none) :
    (Listener.waitForPipeWith timed).Triple (owns (own s)) fun v =>
      (knows fun o => o.hand = none) ⊓ told timed (own s) v := by
  have idle : own s = .idle (own s).pending (own s).taken (own s).lost := by simp [own, Own.idle, h]
  refine Program.Triple.post (fun v => ?_) (waitForPipeWith_spec idle)
  cases v <;> exact fun _ _ h => ⟨h.idle, h⟩

def verified : Verified system protocol where
  idle   := idle
  post   := post
  init h := ⟨h.inv, fun i => by
    cases i
    case listener => exact h.track.left
    case waiter p => exact ⟨fun lt => by simp [h.pipes] at lt⟩
    case client   => trivial⟩
  spec {i o s} inv hs can := by
    cases i
    case listener =>
      cases o
      case waitForPipe        => exact ⟨owns (own s), rfl, accepts hs⟩
      case waitForPipeTimeout => exact ⟨owns (own s), rfl, accepts hs⟩
      all_goals exact can.elim
    case waiter p =>
      cases o
      case waiter q =>
        obtain ⟨rfl, spawned, running⟩ := can
        have begins : Fresh s q true false :=
          (hs.old (inv.spawned q spawned)).resolve_left fun finished => Bool.noConfusion (running.symm.trans finished)
        refine ⟨fresh true false, begins, Program.Triple.post (fun v => ?_) (waiter_spec (E := fun _ => rests))⟩
        cases v <;> exact fun _ _ h => ⟨h, trivial⟩
      all_goals exact can.elim
    case client n =>
      cases o
      case connectPipe =>
        refine ⟨⊤, trivial, Program.Triple.post (fun v => ?_) connectPipe_spec⟩
        cases v <;> exact fun _ _ _ => ⟨trivial, trivial⟩
      all_goals exact can.elim

variable {c : system.Config}

-- Where the clients of the instances are.
structure Custody (c : system.Config) : Prop where
  -- received by one call, still awaited, or refused by the operating system
  held   : ∀ p < c.mem.fst.pipes, p ∈ c.mem.snd.taken ∨ Waits c.mem p ∨ c.mem.snd.broken p = true
  once   : c.mem.snd.taken.Nodup
  apart  : ∀ p, Waits c.mem p → p ∉ c.mem.snd.taken
  client : ∀ p ∈ c.mem.snd.taken, c.mem.fst.client p ≠ none
  -- an instance is closed after its client has been refused, or received and lost
  closed : ∀ p < c.mem.fst.pipes, c.mem.fst.opened p = false → p ∈ c.mem.snd.lost ∨ c.mem.snd.broken p = true
  lost   : ∀ p ∈ c.mem.snd.lost, p ∈ c.mem.snd.taken
  -- between its calls, the listener waits at its pending accept only
  idle   : c.thr .listener = none → c.mem.snd.hand = none
  -- what each call does with the clients
  waits  : ∀ s v, c.Returning .listener .waitForPipe s v → Outcome false (own s) (own c.mem) v
  polls  : ∀ s v, c.Returning .listener .waitForPipeTimeout s v → Outcome true (own s) (own c.mem) v

theorem Inv.held_all (inv : Inv s) (lt : p < s.fst.pipes) :
    p ∈ s.snd.taken ∨ Waits s p ∨ s.snd.broken p = true := by
  cases opened : s.fst.opened p
  case true  => exact (inv.held p lt opened).imp_right .inl
  case false => exact (inv.closed p lt opened).imp (inv.lost p) .inr

theorem custody (h : system.Reachable machine c) : Custody c := by
  have inv := verified.inv_of_reachable h
  exact {
    held _ lt    := inv.held_all lt
    once         := inv.once
    apart p hp   := (inv.old p hp).right
    client p hp  := (inv.taken p hp).right.left
    closed       := inv.closed
    lost         := inv.lost
    idle hi      := verified.idle_of_reachable h hi
    waits _ _ hr := (verified.post_of_returning h hr).right
    polls _ _ hr := (verified.post_of_returning h hr).right }

-- One client is handed out, and the next one is lost because no further instance can be created.

-- `x` says whether a system call fails and whether a receiver times out.
def Pipes.pick (i : Thread) : (a : Act) → Pipes → Bool → Option (a.Ret × Pipes)
  | .getPending, s, _         => some (s.pendingAccept, s)
  | .takePending, s, _        => some (s.pendingAccept, { s with pendingAccept := none })
  | .setPending p, s, _       => some ((), { s with pendingAccept := some p })
  | .createPipe, s, x         =>
      if x then
        some (.error ⟨.other, ""⟩, s)
      else
        some (.ok s.pipes,
          { s with
            opened   := update s.opened s.pipes true
            client   := update s.client s.pipes none
            spawned  := update s.spawned s.pipes false
            message  := update s.message s.pipes none
            finished := update s.finished s.pipes false
            pipes    := s.pipes + 1 })
  | .spawn p, s, _            => some ((), { s with spawned := update s.spawned p true })
  | .recv p _, s, _           => (s.message p).map fun m => (.result m, { s with message := update s.message p none })
  | .join p, s, _             => if s.finished p then some ((), s) else none
  | .connectNamedPipe p, s, _ => if s.client p = none then none else some (.ok (), s)
  | .send p r, s, _           => some ((), { s with message := update s.message p (some r) })
  | .finish p, s, _           => some ((), { s with finished := update s.finished p true })
  | .closePipe p, s, _        => some ((), { s with opened := update s.opened p false })
  | .createFile, s, _         =>
      ((List.range s.pipes).find? fun p => decide (s.opened p = true ∧ s.client p = none)).map fun p =>
        (.ok p, { s with client := update s.client p (some i) })
  | .elapsed, s, x            => some (x, s)

theorem Pipes.pick_sound {a : Act} {s s' : Pipes} {r : a.Ret} {x : Bool} (h : pick i a s x = some (r, s')) :
    exec i a s r s' := by
  cases a
  case createPipe =>
    simp only [pick] at h
    split at h
    case isTrue  => cases h; exact .inr ⟨_, rfl, rfl⟩
    case isFalse => cases h; exact .inl ⟨rfl, rfl⟩
  case recv =>
    obtain ⟨_, message, eq⟩ := Option.map_eq_some_iff.mp h
    cases eq
    exact .inl ⟨_, message, rfl, rfl⟩
  case join =>
    simp only [pick] at h
    split at h
    case isTrue finished => cases h; exact ⟨finished, rfl⟩
    case isFalse         => cases h
  case connectNamedPipe =>
    simp only [pick] at h
    split at h
    case isTrue          => cases h
    case isFalse client  => cases h; exact ⟨.inl ⟨rfl, client⟩, rfl⟩
  case createFile =>
    obtain ⟨p, found, eq⟩ := Option.map_eq_some_iff.mp h
    cases eq
    have picked := List.find?_some found
    have ⟨opened, free⟩ := of_decide_eq_true picked
    exact .inl ⟨p, List.mem_range.mp (List.mem_of_find?_eq_some found), opened, free, rfl, rfl⟩
  case getPending | takePending => cases h; exact ⟨rfl, rfl⟩
  all_goals cases h; rfl

def oracle : Oracle pipeMachine Bool where
  good _    := True
  pick      := Pipes.pick
  sound _ h := ⟨Pipes.pick_sound h, trivial⟩

def start : system.Config where
  mem := (⟨none, fun _ => false, fun _ => none, 0, fun _ => false, fun _ => none, fun _ => false⟩,
    ⟨none, [], [], fun _ => false⟩)
  thr _ := none

theorem start_initial : system.Initial start :=
  ⟨⟨rfl, rfl, fun _ => rfl, fun _ => rfl, rfl, rfl, rfl⟩, fun _ => rfl⟩

instance Operation.decidableCallable : (i : Thread) → (o : Operation) → (s : Pipes) → Decidable (o.Callable i s)
  | .listener, .waitForPipe, _ | .listener, .waitForPipeTimeout, _ | .client _, .connectPipe, _ => isTrue trivial
  | .waiter q, .waiter p, s => inferInstanceAs (Decidable (p = q ∧ s.spawned p = true ∧ s.finished p = false))
  | .listener, .waiter _, _ | .listener, .connectPipe, _ | .waiter _, .waitForPipe, _
  | .waiter _, .waitForPipeTimeout, _ | .waiter _, .connectPipe, _ | .client _, .waitForPipe, _
  | .client _, .waitForPipeTimeout, _ | .client _, .waiter _, _ => isFalse id

instance {i : Thread} {o : system.Op} {s : State} : Decidable (system.callable i o s) :=
  Operation.decidableCallable i o s.fst

def steps (i : Thread) (n : Nat) : List (Move Thread Operation Bool) :=
  List.replicate n (.step i false)

-- A client comes to the instance `p`, and its thread notices it.
def visit (p : PipeId) : List (Move Thread Operation Bool) :=
  .call (.client p) .connectPipe :: steps (.client p) 2 ++ .call (.waiter p) (.waiter p) :: steps (.waiter p) 4

def visits : List (Move Thread Operation Bool) :=
  .call .listener .waitForPipe :: steps .listener 5 ++ visit 0 ++ steps .listener 6 ++
  .call .listener .waitForPipe :: visit 1 ++ steps .listener 4 ++ [.step .listener true, .step .listener false]

def loses (c : system.Config) : Bool :=
  c.returns .listener fun
    | .waitForPipe, s, .error (.io _) =>
      decide (s.snd.taken = [0] ∧ c.mem.snd.taken = [0, 1] ∧ c.mem.snd.lost = [1])
    | _, _, _ => false

theorem custody_lost :
    ∃ c s e, c.Returning .listener .waitForPipe s (.error (.io e)) ∧
      s.snd.taken = [0] ∧ c.mem.snd.taken = [0, 1] ∧ c.mem.snd.lost = [1] ∧ Custody c := by
  have ⟨c, steps, _, hc⟩ := System.run_test (S := system) (O := oracle.ghost Track.record) (c := start)
    (l := visits) (p := loses) trivial (by decide +kernel)
  have ⟨o, s, v, ret, test⟩ := System.Config.returning hc
  split at test
  case h_2 => cases test
  case h_1 =>
    have ⟨before, taken, lost⟩ := of_decide_eq_true test
    exact ⟨c, s, _, ret, before, taken, lost, custody (.intro start_initial steps)⟩

end NamedPipe
