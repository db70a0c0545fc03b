import ShmemIpc.Ring.Ending
import ShmemIpc.Ring.Total

open Ring

-- A queue of messages, with the buffer and the vector of the one who takes them out. `taken` is what
-- has been taken out, where `none` is a message that was too long for the buffer.
@[ext] structure Queue where
  pending : List Bytes
  taken   : List (Option Bytes)
  buf     : Bytes
  out     : List Bytes

namespace Queue

def push (q : Queue) (ps : List Bytes) : Queue :=
  { q with pending := q.pending ++ ps }

def pop (q : Queue) : Option (Bytes × Queue) :=
  match q.pending with
  | []      => none
  | p :: ps => some (p, { q with pending := ps, taken := q.taken ++ [some p] })

-- The message goes to the buffer, or is lost.
def popInto (q : Queue) : Option (Except Error Nat × Queue) :=
  match q.pending with
  | []      => none
  | p :: ps =>
    if p.length ≤ q.buf.length then
      some (.ok p.length,
        { q with pending := ps, taken := q.taken ++ [some p], buf := p ++ q.buf.drop p.length })
    else
      some (.error (.messageTooLarge p.length q.buf.length), { q with pending := ps, taken := q.taken ++ [none] })

-- The first `k` messages go to the vector.
def drain (q : Queue) (k : Nat) : Queue :=
  { q with
    pending := q.pending.drop k
    taken   := q.taken ++ (q.pending.take k).map some
    out     := q.out ++ q.pending.take k }

-- Nothing was there to be taken out.
def Empty (q : Queue) (ps : List Bytes) (q' : Queue) : Prop :=
  q.pending = [] ∧ q' = q.push ps

-- What a call does to the queue, if the messages `ps` arrive meanwhile.
def Effect (q : Queue) (ps : List Bytes) (q' : Queue) : (o : Operation) → o.Ret → Prop
  | .recv .., .ok p | .recvAsync .., .ok p            => (q.push ps).pop = some (p, q')
  | .tryRecv _, .ok (some p)                          => (q.push ps).pop = some (p, q')
  | .tryRecv _, .ok none                              => q.Empty ps q'
  | .recvInto .., .ok n | .recvIntoAsync .., .ok n    => (q.push ps).popInto = some (.ok n, q')
  | .recvInto .., .error e | .recvIntoAsync .., .error e =>
      (q.push ps).popInto = some (.error e, q') ∨ q.Empty ps q'
  | .drainReady _ max, .ok k | .recvManyAsync _ _ max, .ok k =>
      q' = (q.push ps).drain k ∧ k ≤ (q.push ps).pending.length ∧ k ≤ max ∧ min max q.pending.length ≤ k
  | _, .error _                                       => q.Empty ps q'
  | _, .ok _                                          => True

-- A call that fails after some messages of a batch.
def Broken (q : Queue) (ps : List Bytes) (q' : Queue) : (o : Operation) → o.Ret → Prop
  | .drainReady .., .error _ | .recvManyAsync .., .error _ => ∃ k, q' = (q.push ps).drain k
  | _, _                                                   => False

-- The messages that the call asks for are there.
def Supplies (q : Queue) : Operation → Prop
  | .tryRecv _ | .recv .. | .recvAsync .. | .recvInto .. | .recvIntoAsync .. => q.pending ≠ []
  | .drainReady _ max | .recvManyAsync _ _ max                               => max ≤ q.pending.length
  | _                                                                        => False

-- The call does not wait for a message.
def Settles (q : Queue) : Operation → Prop
  | .tryRecv _ | .drainReady ..                                                                => True
  | .recv .. | .recvAsync .. | .recvInto .. | .recvIntoAsync .. | .recvManyAsync ..            => q.pending ≠ []
  | _                                                                                          => False

variable {q q' : Queue} {p : Bytes} {r : Option Bytes} {ps ms : List Bytes}

theorem pop_eq (pending : q.pending = p :: q'.pending) (taken : q'.taken = q.taken ++ [some p])
    (buf : q'.buf = q.buf) (out : q'.out = q.out) : q.pop = some (p, q') := by
  simp only [pop, pending, ← taken, ← buf, ← out]

theorem popInto_ok (pending : q.pending = p :: q'.pending) (taken : q'.taken = q.taken ++ [some p])
    (buf : q'.buf = p ++ q.buf.drop p.length) (out : q'.out = q.out) (fits : p.length ≤ q.buf.length) :
    q.popInto = some (.ok p.length, q') := by
  simp only [popInto, pending, if_pos fits, ← taken, ← buf, ← out]

theorem popInto_error (pending : q.pending = p :: q'.pending) (taken : q'.taken = q.taken ++ [none])
    (buf : q'.buf = q.buf) (out : q'.out = q.out) (long : q.buf.length < p.length) :
    q.popInto = some (.error (.messageTooLarge p.length q.buf.length), q') := by
  have long : ¬ p.length ≤ q.buf.length := Nat.not_le_of_lt long
  simp only [popInto, pending, if_neg long]
  simp only [← taken, ← buf, ← out]

theorem drain_eq (pending : q.pending = ms ++ q'.pending) (taken : q'.taken = q.taken ++ ms.map some)
    (buf : q'.buf = q.buf) (out : q'.out = q.out ++ ms) : q' = q.drain ms.length := by
  refine Queue.ext ?_ ?_ buf ?_
  · simp [drain, pending]
  · simp [drain, pending, taken]
  · simp [drain, pending, out]

@[simp] theorem push_nil : q.push [] = q := by
  simp [push]

-- A batch on a queue with one message.
theorem single_of_effect {h : Handle} {max : Nat} {v : Except Error Nat} (e : q.Effect [] q' (.drainReady h max) v)
    (pending : q.pending = [p]) (room : 0 < max) : v = .ok 1 ∧ q' = q.drain 1 := by
  cases v
  case error => exact nomatch pending.symm.trans e.left
  case ok k =>
    obtain ⟨rfl, most, -, least⟩ := e
    simp only [push_nil, pending, List.length_singleton] at most least
    have hk : k = 1 := Nat.le_antisymm most (Nat.le_trans (Nat.le_min.mpr ⟨room, Nat.le_refl 1⟩) least)
    subst hk
    exact ⟨rfl, by rw [push_nil]⟩

end Queue

def RingState.queue (v : RingState) : Queue where
  pending := v.sent.drop v.received.length
  taken   := v.received
  buf     := v.buf
  out     := v.out

namespace Link

variable {L : Link} {plat : Platform} {c : L.system.Config} {v w : RingState} {rs : List (Option Bytes)}
variable {ps ms : List Bytes} {b p : Bytes} {out : List Bytes}

section
variable (inv : L.Inv v) (inv' : L.Inv w) (arrived : w.sent = v.sent ++ ps)
include inv arrived

-- The queue in the state `v`, and what has arrived since.
theorem pending_push : (v.queue.push ps).pending = w.sent.drop v.received.length := by
  rw [arrived, List.drop_append_of_le_length inv.order]
  rfl

theorem head_of_found (found : w.sent[v.received.length]? = some p) (taken : w.received = v.received ++ [none]) :
    (v.queue.push ps).pending = p :: w.queue.pending := by
  have ⟨hlt, hp⟩ := List.getElem?_eq_some_iff.mp found
  have length : w.received.length = v.received.length + 1 := by simp [taken]
  rw [pending_push inv arrived, List.drop_eq_getElem_cons hlt, hp, ← length]
  rfl

theorem emptied_queue (all : v.sent.length ≤ v.received.length) (taken : w.received = v.received)
    (buf : w.buf = v.buf) (out : w.out = v.out) : v.queue.Empty ps w.queue := by
  refine ⟨List.drop_eq_nil_of_le all, Queue.ext ?_ taken buf out⟩
  rw [pending_push inv arrived, ← taken]
  rfl

include inv'

-- Messages that have been taken out one after the other stood at the head of the queue.
theorem pending_of_received (taken : w.received = v.received ++ ms.map some) :
    (v.queue.push ps).pending = ms ++ w.queue.pending := by
  have front : (w.sent.drop v.received.length).take ms.length = ms := by
    refine List.ext_getElem? fun j => ?_
    by_cases hj : j < ms.length
    case pos =>
      have known : w.received[v.received.length + j]? = some (some ms[j]) := by
        rw [taken, List.getElem?_append_right (Nat.le_add_right _ _)]
        simp [hj]
      rw [List.getElem?_take_of_lt hj, List.getElem?_drop, inv'.agrees _ _ known, List.getElem?_eq_getElem hj]
    case neg =>
      have hj := Nat.le_of_not_lt hj
      rw [List.getElem?_eq_none (by rw [List.length_take]; omega), List.getElem?_eq_none hj]
  have length : w.received.length = v.received.length + ms.length := by simp [taken]
  have rest : w.queue.pending = (w.sent.drop v.received.length).drop ms.length := by
    rw [List.drop_drop, ← length]
    rfl
  rw [pending_push inv arrived, rest]
  conv_lhs => rw [← List.take_append_drop ms.length (w.sent.drop v.received.length), front]

theorem head_of_received (taken : w.received = v.received ++ [some p]) :
    (v.queue.push ps).pending = p :: w.queue.pending :=
  pending_of_received inv inv' arrived (show w.received = v.received ++ [p].map some from taken)

end

-- What the answer of the receiver says about the queue. Only a fault ends a batch that has begun.
theorem effect_of_answer {o : Operation} {r : o.Ret} (ho : o.Receives) {s s' : State} (inv : L.Inv (L.ring s))
    (inv' : L.Inv (L.ring s')) (arrived : (L.ring s').sent = (L.ring s).sent ++ ps)
    (h : (receiveAnswer (L.ring s).sent.length (L.ring s).received (L.ring s).buf (L.ring s).out o r : L.Rx plat) s') :
    (L.ring s).queue.Effect ps (L.ring s').queue o r ∨
      (L.ring s).queue.Broken ps (L.ring s').queue o r ∧ (L.ring s').faulted = true := by
  generalize L.ring s = v at inv arrived h
  have popped {p} (h : (popped v.sent.length v.received v.buf v.out p : L.Rx plat) s') :
      (v.queue.push ps).pop = some (p, (L.ring s').queue) := by
    obtain ⟨_, hs, _⟩ := h
    exact Queue.pop_eq (head_of_received inv inv' arrived hs.received) hs.received hs.buf hs.out
  have filled {n} (h : (filled v.sent.length v.received v.buf v.out n : L.Rx plat) s') :
      (v.queue.push ps).popInto = some (.ok n, (L.ring s').queue) := by
    obtain ⟨p, ⟨_, hs, _⟩, rfl, fits⟩ := h
    exact Queue.popInto_ok (head_of_received inv inv' arrived hs.received) hs.received hs.buf hs.out fits
  have emptied {e} (h : (emptied v.sent.length v.received v.buf v.out e : L.Rx plat) s') :
      v.queue.Empty ps (L.ring s').queue := by
    obtain ⟨_, ⟨⟨hs, _⟩, all, _⟩, _⟩ := h
    exact emptied_queue inv arrived all hs.received hs.buf hs.out
  have spoiled {e} (h : (spoiled v.sent.length v.received v.buf v.out e : L.Rx plat) s') :
      (v.queue.push ps).popInto = some (.error e, (L.ring s').queue) ∨ v.queue.Empty ps (L.ring s').queue := by
    obtain ⟨_ | p, h⟩ := h
    case none   => exact .inr (emptied h)
    case some =>
      obtain ⟨⟨⟨_, hs, _⟩, found⟩, long, rfl⟩ := h
      exact .inl (Queue.popInto_error (head_of_found inv arrived found hs.received) hs.received hs.buf hs.out long)
  have batched {max k} (h : (batched v.sent.length max v.received v.buf v.out k : L.Rx plat) s') :
      (L.ring s').queue = (v.queue.push ps).drain k ∧ k ≤ (v.queue.push ps).pending.length ∧ k ≤ max ∧
        min max v.queue.pending.length ≤ k := by
    obtain ⟨ms, ⟨_, hs, _⟩, ⟨most, enough⟩, rfl⟩ := h
    have pending := pending_of_received inv inv' arrived hs.received
    have length : v.queue.pending.length = v.sent.length - v.received.length := List.length_drop
    exact ⟨Queue.drain_eq pending hs.received hs.buf hs.out, by simp [pending], most, by omega⟩
  have broken {e} (h : (broken v.sent.length v.received v.buf v.out e : L.Rx plat) s') :
      v.queue.Empty ps (L.ring s').queue ∨
        (∃ k, (L.ring s').queue = (v.queue.push ps).drain k) ∧ (L.ring s').faulted = true := by
    obtain ⟨ms, h, _, fault⟩ := h
    by_cases hm : ms = []
    case pos => subst hm; exact .inl (emptied (by simpa using h))
    case neg =>
      obtain ⟨_, ⟨⟨hs, _⟩, _⟩, _⟩ := h
      have pending := pending_of_received inv inv' arrived hs.received
      exact .inr ⟨⟨_, Queue.drain_eq pending hs.received hs.buf hs.out⟩, fault hm⟩
  cases o <;> cases r <;> try exact ho.elim
  case tryRecv.ok r =>
    cases r
    case some p => exact .inl (popped h)
    case none =>
      obtain ⟨⟨_, hs, _⟩, all⟩ := h
      exact .inl (emptied_queue inv arrived all hs.received hs.buf hs.out)
  all_goals first
    | exact .inl (popped h)
    | exact .inl (filled h)
    | exact .inl (emptied h)
    | exact .inl (spoiled h)
    | exact .inl (batched h)
    | exact broken h

variable {c c' : L.system.Config}

-- Outside the calls of the receiver, messages only arrive.
theorem pushed_of_step (h : L.system.Reachable (machine plat) c) (e : L.system.Step (machine plat) c c')
    (outside : c.thr L.rx = none ∨ c'.thr L.rx = none) :
    ∃ ps, (L.ring c'.mem).queue = (L.ring c.mem).queue.push ps := by
  have inv := inv_of_reachable h
  rcases change_of_step h e with same | ⟨i, a, ⟨o, s, k, next⟩, own, change⟩
  case inl => exact ⟨[], by simp [same, Queue.push]⟩
  case inr =>
    have other : i ≠ L.rx := by
      rintro rfl
      rcases outside with none | none
      · exact nomatch next.symm.trans none
      · exact own none
    have same := same_received change (.inl other)
    have ⟨ps, arrived⟩ := sent_stays inv change (List.prefix_refl _)
    refine ⟨ps, Queue.ext ?_ same.received same.buf same.out⟩
    rw [pending_push inv arrived.symm, ← same.received]
    rfl

-- A receiver that runs alone.

theorem receiver_of_idle (h : L.system.Reachable (machine plat) c) (idle : c.thr L.rx = none) :
    c.mem.fst.receiver L.hr = L.receiverAt c.mem (L.ring c.mem).received.length := by
  obtain ⟨rs, b, out, taken, own, _⟩ := (idle_of_reachable h idle).right rfl
  have receiver : c.mem.fst.receiver L.hr = _ := own.receiver
  rw [receiver, receiverAt, own.received, ← own.taken, ← own.received]
  rfl

theorem takes_of_pending (h : L.system.Reachable (machine plat) c) (idle : c.thr L.rx = none) {n : Nat}
    (there : n ≤ (L.ring c.mem).queue.pending.length) :
    ∃ z, (c.mem.fst.receiver L.hr).Takes c.mem.fst n z := by
  have hi := inv_of_reachable h
  have order := hi.order
  have length : (L.ring c.mem).queue.pending.length = (L.ring c.mem).sent.length - (L.ring c.mem).received.length :=
    List.length_drop
  rw [receiver_of_idle h idle]
  exact ⟨_, takes_records hi n (Nat.le_refl _) (by omega)⟩

theorem finds_of_pending (h : L.system.Reachable (machine plat) c) (idle : c.thr L.rx = none)
    (some_ : (L.ring c.mem).queue.pending ≠ []) : ∃ m, Total.Finds L.hr m c.mem.fst := by
  obtain ⟨z, m, found, _⟩ := takes_of_pending h idle (n := 1) (List.length_pos_iff.mpr some_)
  exact ⟨m, .of_next found⟩

-- No batch breaks off.
theorem supplied_alone (h : L.system.Reachable (machine plat) c) (idle : c.thr L.rx = none) {o : Operation}
    (can : L.Callable L.rx o c.mem) (supplies : (L.ring c.mem).queue.Supplies o) :
    o.code.Alone (worldMachine plat) L.rx c.mem.fst fun v _ => ∀ q q', ¬ Queue.Broken q [] q' o v := by
  have single (some_ : (L.ring c.mem).queue.pending ≠ []) := finds_of_pending h idle some_
  cases o
  case tryRecv h =>
    obtain ⟨attached, -, rfl⟩ := can
    obtain ⟨m, finds⟩ := single supplies
    obtain ⟨x, ha⟩ := attached _ rfl
    exact (Total.tryRecv_alone ha.shared finds).mono fun _ _ _ _ _ => id
  case recv h wait timeout =>
    obtain ⟨attached, -, rfl⟩ := can
    obtain ⟨m, finds⟩ := single supplies
    obtain ⟨x, ha⟩ := attached _ rfl
    exact (Total.then_takes ha.shared (Total.waitForMessage_alone finds) Total.takeMessage_straight).mono
      fun _ _ _ _ _ => id
  case recvInto h wait timeout =>
    obtain ⟨attached, -, rfl, -⟩ := can
    obtain ⟨m, finds⟩ := single supplies
    obtain ⟨x, ha⟩ := attached _ rfl
    exact (Total.then_takes ha.shared (Total.waitForMessage_alone finds) Total.takeMessageInto_straight).mono
      fun _ _ _ _ _ => id
  case recvAsync h wait =>
    obtain ⟨attached, -, rfl⟩ := can
    obtain ⟨m, finds⟩ := single supplies
    obtain ⟨x, ha⟩ := attached _ rfl
    exact (Total.then_takes ha.shared (Total.peekAsync_alone finds) Total.takeMessage_straight).mono fun _ _ _ _ _ => id
  case recvIntoAsync h wait =>
    obtain ⟨attached, -, rfl, -⟩ := can
    obtain ⟨m, finds⟩ := single supplies
    obtain ⟨x, ha⟩ := attached _ rfl
    exact (Total.then_takes ha.shared (Total.peekAsync_alone finds) Total.takeMessageInto_straight).mono
      fun _ _ _ _ _ => id
  case drainReady h max =>
    obtain ⟨-, -, rfl⟩ := can
    obtain ⟨z, takes⟩ := takes_of_pending h idle supplies
    exact (Total.drain_alone takes).mono fun _ _ hv _ _ => hv ▸ id
  case recvManyAsync h wait max =>
    obtain ⟨-, -, rfl⟩ := can
    obtain ⟨z, takes⟩ := takes_of_pending h idle supplies
    exact (Total.recvMany_alone takes).mono fun _ _ hv _ _ => hv ▸ id
  all_goals exact supplies.elim

theorem settled_alone (h : L.system.Reachable (machine plat) c) (idle : c.thr L.rx = none) {o : Operation}
    (can : L.Callable L.rx o c.mem) (settles : (L.ring c.mem).queue.Settles o) (free : c.mem.fst.locked L.hr = false) :
    o.code.Alone (promptWorld plat) L.rx c.mem.fst fun _ _ => True := by
  have owned {k : Handle} (hk : o.handle = some k) (mine : k = L.hr) : ∃ x, Total.Owns L.hr x c.mem.fst := by
    obtain ⟨x, ha⟩ := can.left k hk
    exact ⟨x, mine ▸ ha.receiver, mine ▸ ha.shared, free⟩
  have supplied (supplies : (L.ring c.mem).queue.Supplies o) :
    o.code.Alone (promptWorld plat) L.rx c.mem.fst fun _ _ => True :=
    (Prompt.promptly (supplied_alone h idle can supplies)).mono fun _ _ _ => trivial
  cases o
  case tryRecv k =>
    obtain ⟨x, owns⟩ := owned rfl can.right.right
    obtain rfl := can.right.right
    exact Total.tryRecv_looks owns
  case drainReady k max =>
    obtain ⟨x, owns⟩ := owned rfl can.right.right
    obtain rfl := can.right.right
    exact Total.drain_looks owns
  case recvManyAsync k wait max =>
    obtain ⟨x, owns⟩ := owned rfl can.right.right
    obtain rfl := can.right.right
    obtain ⟨m, finds⟩ := finds_of_pending h idle settles
    exact Total.recvMany_finds owns finds
  case recv | recvAsync | recvInto | recvIntoAsync => exact supplied settles
  all_goals exact settles.elim

-- What the receiver has done when it returns. Nothing arrives meanwhile.
theorem effect_alone {m : Machine ThreadId Act Act.Ret State} (le : m ≤ machine plat)
    (h : L.system.Reachable (machine plat) c) (idle : c.thr L.rx = none) {o : Operation}
    (can : L.Callable L.rx o c.mem) (ho : o.Receives) {Q : o.Ret → State → Prop}
    (alone : Program.Alone m L.rx o.code c.mem Q) :
    Program.Alone m L.rx o.code c.mem fun v t => Q v t ∧
      ((L.ring c.mem).queue.Effect [] (L.ring t).queue o v ∨
        (L.ring c.mem).queue.Broken [] (L.ring t).queue o v ∧ (L.ring t).faulted = true) := by
  have reach := h.step (.call idle can)
  have kept {d : L.system.Config} {a : Act} {r : a.Ret} {t : State} (hd : L.system.Reachable (machine plat) d)
      (next : d.Next L.rx a) (e : m.exec L.rx a d.mem r t) (same : (L.ring d.mem).sent = (L.ring c.mem).sent) :
      (L.ring t).sent = (L.ring c.mem).sent :=
    (same_sent (change_of_next hd next (le e)) (.inl (Ne.symm L.threads))).sent.trans same
  refine Program.Alone.mono (System.Reachable.alone
    (I := fun t => (L.ring t).sent = (L.ring c.mem).sent) le kept alone reach rfl
    (Function.update_self _ _ _) rfl) ?_
  rintro v t ⟨hq, same, d, hd, rfl, hr⟩
  have arrived : (L.ring d.mem).sent = (L.ring c.mem).sent ++ [] := by rw [same, List.append_nil]
  have answer := (answer_of_returning hd hr).right rfl
  exact ⟨hq, effect_of_answer ho (inv_of_reachable h) (inv_of_reachable hd) arrived answer⟩

-- The calls of the receiver are those of a queue.
structure Queued (plat : Platform) (c : L.system.Config) : Prop where
  -- a call does to the queue what its operation says, whatever the other calls are
  effects  : ∀ {o s r}, (L.ring c.mem).faulted = false → c.Returning L.rx o s r → o.Receives →
    ∃ ps, (L.ring c.mem).sent = (L.ring s).sent ++ ps ∧ (L.ring s).queue.Effect ps (L.ring c.mem).queue o r
  -- nothing else takes a message out of it
  arrivals : ∀ {c'}, L.system.Step (machine plat) c c' → c.thr L.rx = none ∨ c'.thr L.rx = none →
    ∃ ps, (L.ring c'.mem).queue = (L.ring c.mem).queue.push ps
  taken    : ∀ (j : Nat) (p : Bytes), (L.ring c.mem).queue.taken[j]? = some (some p) → (L.ring c.mem).sent[j]? = some p
  -- a call returns if nothing else runs and the messages are there, or if it does not wait and nobody observes the peer
  supplied : ∀ {o}, c.thr L.rx = none → L.Callable L.rx o c.mem → (L.ring c.mem).queue.Supplies o →
    o.code.Alone (machine plat) L.rx c.mem fun v t => (L.ring c.mem).queue.Effect [] (L.ring t).queue o v
  settled  : ∀ {o}, c.thr L.rx = none → L.Callable L.rx o c.mem → (L.ring c.mem).queue.Settles o →
    c.mem.fst.locked L.hr = false → o.code.Alone (promptMachine plat) L.rx c.mem fun v t =>
      (L.ring t).faulted = false → (L.ring c.mem).queue.Effect [] (L.ring t).queue o v

theorem receives_refine_queue (h : L.system.Reachable (machine plat) c) : L.Queued plat c := by
  constructor
  case effects =>
    intro o s r faultless hr ho
    have ⟨⟨ps, arrived⟩, inv⟩ := began_of_returning h hr
    have answer := (answer_of_returning h hr).right rfl
    refine ⟨ps, arrived.symm, (effect_of_answer ho inv (inv_of_reachable h) arrived.symm answer).resolve_right ?_⟩
    exact fun broken => absurd (broken.right.symm.trans faultless) (by decide)
  case arrivals => exact fun e => pushed_of_step h e
  case taken    => exact (inv_of_reachable h).agrees
  case supplied =>
    intro o idle can supplies
    have receives : o.Receives := by cases o <;> trivial
    have alone : Program.Alone (machine plat) L.rx o.code c.mem fun v _ => ∀ q q', ¬ Queue.Broken q [] q' o v := by
      refine .lift (m := worldMachine plat) Prod.fst ?runs And.left (supplied_alone h idle can supplies)
      case runs => exact fun e => ⟨_, (_, _), e, rfl⟩
    refine Program.Alone.mono (effect_alone Machine.le_rfl h idle can receives alone) fun v t hv => ?_
    exact hv.right.resolve_right fun broken => hv.left _ _ broken.left
  case settled =>
    intro o idle can settles free
    have receives : o.Receives := by cases o <;> trivial
    have alone : Program.Alone (promptMachine plat) L.rx o.code c.mem fun _ _ => True := by
      refine .lift (m := promptWorld plat) Prod.fst ?runs (.imp_left And.left) (settled_alone h idle can settles free)
      case runs => exact fun e => ⟨_, (_, _), ⟨e.left, rfl⟩, e.right⟩
    refine Program.Alone.mono (effect_alone Machine.restrict_le h idle can receives alone) fun v t hv faultless => ?_
    exact hv.right.resolve_right fun broken => absurd (broken.right.symm.trans faultless) (by decide)

-- The client has received a message that had not arrived when it began to look for it.
def receivedLater (c : ringA.system.Config) : Bool :=
  c.returns 1 fun
    | .tryRecv _, s, .ok (some p) => decide (p = [7, 8] ∧ (ringA.ring s).queue.pending = [])
    | _, _, _                     => false

theorem returning_of_receivedLater {c : ringA.system.Config} (h : receivedLater c = true) :
    ∃ h s, c.Returning ringA.rx (.tryRecv h) s (.ok (some [7, 8])) ∧ (ringA.ring s).queue.pending = [] := by
  have ⟨o, s, v, hr, hv⟩ := System.Config.returning h
  split at hv
  case h_2 => cases hv
  case h_1 h p =>
    obtain ⟨rfl, pending⟩ := of_decide_eq_true hv
    exact ⟨h, _, hr, pending⟩

-- A message is there, and the client can be called for a batch.
def holdsOne (max : Nat) (c : ringA.system.Config) : Bool :=
  decide ((c.thr 1).isNone ∧ ringA.system.callable 1 (.drainReady 1 max) c.mem) &&
    decide ((ringA.ring c.mem).queue.pending = [[7, 8]] ∧ c.mem.fst.locked 1 = false)

-- The client takes out a message that arrives while it is looking for it. Alone, it takes out the only message,
-- whatever the limit of the batch is.
theorem receives_refine_queue_message :
    (∃ (c : ringA.system.Config) (h : Handle) (s : State), c.Returning ringA.rx (.tryRecv h) s (.ok (some [7, 8])) ∧
      (ringA.ring s).queue.pending = [] ∧
      ∃ ps, (ringA.ring c.mem).sent = (ringA.ring s).sent ++ ps ∧
        ((ringA.ring s).queue.push ps).pop = some ([7, 8], (ringA.ring c.mem).queue)) ∧
    (∃ c : ringA.system.Config, (ringA.ring c.mem).queue.pending = [[7, 8]] ∧
      (Operation.drainReady 1 1).code.Alone (machine .linux) ringA.rx c.mem fun v t =>
        v = .ok 1 ∧ (ringA.ring t).queue = (ringA.ring c.mem).queue.drain 1) ∧
    ∃ c : ringA.system.Config, (ringA.ring c.mem).queue.pending = [[7, 8]] ∧
      (Operation.drainReady 1 5).code.Alone (promptMachine .linux) ringA.rx c.mem fun v t =>
        (ringA.ring t).faulted = false → v = .ok 1 ∧ (ringA.ring t).queue = (ringA.ring c.mem).queue.drain 1 := by
  refine ⟨?taken, ?supplied, ?settled⟩
  case taken =>
    have ⟨c, reach, _, hc⟩ := ringA.reaches (crateOracle .linux) (fun _ h => h)
      (l := .call 1 (.tryRecv 1) :: ringA.send ++ CrateMove.steps 1 22)
      (p := fun c => decide ((ringA.ring c.mem).faulted = false) && receivedLater c) (by decide +kernel)
    have ⟨faultless, hc⟩ := (Bool.and_eq_true _ _).mp hc
    have ⟨h, s, hr, pending⟩ := returning_of_receivedLater hc
    exact ⟨c, h, s, hr, pending, (receives_refine_queue reach).effects (of_decide_eq_true faultless) hr trivial⟩
  case supplied =>
    have ⟨c, reach, _, hc⟩ := ringA.reaches (crateOracle .linux) (fun _ h => h) (l := ringA.send) (p := holdsOne 1)
      (by decide +kernel)
    have ⟨start, there⟩ := (Bool.and_eq_true _ _).mp hc
    obtain ⟨idle, can⟩ := of_decide_eq_true start
    obtain ⟨pending, -⟩ := of_decide_eq_true there
    have supplies : 1 ≤ (ringA.ring c.mem).queue.pending.length := by rw [pending]; decide
    have alone := (receives_refine_queue reach).supplied (Option.isNone_iff_eq_none.mp idle) can supplies
    exact ⟨c, pending, alone.mono fun _ _ e => Queue.single_of_effect e pending (by decide)⟩
  case settled =>
    have ⟨c, reach, _, hc⟩ := ringA.reaches (crateOracle .linux) (fun _ h => h) (l := ringA.send) (p := holdsOne 5)
      (by decide +kernel)
    have ⟨start, there⟩ := (Bool.and_eq_true _ _).mp hc
    obtain ⟨idle, can⟩ := of_decide_eq_true start
    obtain ⟨pending, free⟩ := of_decide_eq_true there
    have alone := (receives_refine_queue reach).settled (Option.isNone_iff_eq_none.mp idle) can trivial free
    exact ⟨c, pending, alone.mono fun _ _ e faultless =>
      Queue.single_of_effect (e faultless) pending (by decide)⟩

end Link
