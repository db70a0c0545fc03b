import ShmemIpc.Header.Decision
import ShmemIpc.Header.Agreement

-- A client connects only if no half of the server has retired the channel.
namespace Header

open Assertion Channels Code Channel Effects

-- The notify words of a channel whose rings have the given size.
def notifyWords (b : FileId) (ringDataSize : Nat) : List Word :=
  let offsets := RingOffsets.new ringDataSize
  [.ring b offsets.ringAHeader .writerNotify, .ring b offsets.ringAHeader .readerNotify,
   .ring b offsets.ringBHeader .writerNotify, .ring b offsets.ringBHeader .readerNotify]

-- The words `ws` have been bumped, as the header says that the rings have the given size.
structure Bumped (b : FileId) (ringDataSize : Nat) (ws : List Word) (t : Events) : Prop where
  size  : ⟨.load (.global b .ringDataSize), ringDataSize⟩ ∈ t
  words : ∀ w ∈ ws, ∃ n, ⟨.fetchAdd w, n⟩ ∈ t

-- After the event `e`, the call has also done what `Q` says.
def After (e : Event Act Act.Ret) (Q : Events → Prop) (t : Events) : Prop :=
  ∃ u v, t = u ++ e :: v ∧ Q v

-- The call has retired the channel and has then woken both sides.
def Retires (b : FileId) (n : Nat) (t : Events) : Prop :=
  After (retires b n) (fun v => ∃ size, Bumped b size (notifyWords b size) v) t

-- What the call has seen of the states of channels.
def Sees (Z : FileId → Nat → Prop) (t : Events) : Prop :=
  ∀ c n, ⟨.load (.global c .state), n⟩ ∈ t → Z c n

def Unmapped (t : Events) : Prop :=
  ∀ x peer h, ⟨.newShared x peer, h⟩ ∉ t

def Looks (Z : FileId → Nat → Prop) (t : Events) : Prop :=
  Sees Z t ∧ Unmapped t

-- The call has mapped the channel `x` and no other one, and answers with its halves.
structure Maps (ch : Channel) (x : SharedChannel) (t : Events) : Prop where
  mapped : ∃ peer, ⟨.newShared x peer, ch.shared⟩ ∈ t
  only   : ∀ y peer h, ⟨.newShared y peer, h⟩ ∈ t → y = x

theorem After.last {e : Event Act Act.Ret} {t : Events} : After e (fun _ => True) (t ++ [e]) :=
  ⟨t, [], rfl, trivial⟩

theorem After.snoc {e e' : Event Act Act.Ret} {Q Q' : Events → Prop} {t : Events} (h : After e Q t)
    (hq : ∀ v, Q v → Q' (v ++ [e'])) : After e Q' (t ++ [e']) :=
  have ⟨u, v, ht, hv⟩ := h
  ⟨u, v ++ [e'], by simp [ht], hq v hv⟩

theorem Bumped.snoc {b : FileId} {n : Nat} {ws : List Word} {t : Events} {e : Event Act Act.Ret} (h : Bumped b n ws t) :
    Bumped b n ws (t ++ [e]) where
  size       := List.mem_append_left _ h.size
  words w hw := (h.words w hw).imp fun _ => List.mem_append_left _

theorem Bumped.bump {b : FileId} {n m : Nat} {ws : List Word} {w : Word} {t : Events} (h : Bumped b n ws t) :
    Bumped b n (ws ++ [w]) (t ++ [⟨.fetchAdd w, m⟩]) where
  size        := List.mem_append_left _ h.size
  words w' hw := by
    rcases List.mem_append.mp hw with hw | hw
    · exact (h.words w' hw).imp fun _ => List.mem_append_left _
    · obtain rfl := List.mem_singleton.mp hw
      exact ⟨m, List.mem_append_right _ (List.mem_singleton_self _)⟩

-- The actions that neither tell of a channel state nor map a channel.
def Blind : Act → Prop
  | .load (.global _ .state) | .newShared .. => False
  | _                                        => True

section
variable {Z : FileId → Nat → Prop} {t : Events} {a : Act} {r : a.Ret}

theorem Sees.snoc (ha : ∀ c, a ≠ .load (.global c .state)) (h : Sees Z t) : Sees Z (t ++ [⟨a, r⟩]) := by
  intro c n hm
  rcases List.mem_append.mp hm with hm | hm
  · exact h c n hm
  · cases List.mem_singleton.mp hm
    exact absurd rfl (ha c)

theorem Unmapped.snoc (ha : ∀ x peer, a ≠ .newShared x peer) (h : Unmapped t) : Unmapped (t ++ [⟨a, r⟩]) := by
  intro x peer n hm
  rcases List.mem_append.mp hm with hm | hm
  · exact h x peer n hm
  · cases List.mem_singleton.mp hm
    exact absurd rfl (ha x peer)

theorem Blind.not_load (ha : Blind a) (c : FileId) : a ≠ .load (.global c .state) := by
  rintro rfl
  exact ha

theorem Blind.not_newShared (ha : Blind a) (x : SharedChannel) (peer : Option ProcessIdentity) :
    a ≠ .newShared x peer := by
  rintro rfl
  exact ha

theorem Looks.snoc (ha : Blind a) (h : Looks Z t) : Looks Z (t ++ [⟨a, r⟩]) :=
  ⟨h.left.snoc ha.not_load, h.right.snoc ha.not_newShared⟩

theorem Looks.mono {Y : FileId → Nat → Prop} (hz : ∀ c n, Z c n → Y c n) (h : Looks Z t) : Looks Y t :=
  ⟨fun c n hm => hz c n (h.left c n hm), h.right⟩

theorem Looks.load {b : FileId} {n : Nat} (h : Looks Z t) :
    Looks (fun c m => Z c m ∨ c = b ∧ m = n) (t ++ [⟨.load (.global b .state), n⟩]) := by
  refine ⟨fun c m hm => ?_, h.right.snoc nofun⟩
  rcases List.mem_append.mp hm with hm | hm
  · exact .inl (h.left c m hm)
  · cases List.mem_singleton.mp hm
    exact .inr ⟨rfl, rfl⟩

theorem Maps.snoc {ch : Channel} {x : SharedChannel} (ha : Blind a) (h : Maps ch x t) : Maps ch x (t ++ [⟨a, r⟩]) where
  mapped            := h.mapped.imp fun _ => List.mem_append_left _
  only y peer k hm  := by
    rcases List.mem_append.mp hm with hm | hm
    · exact h.only y peer k hm
    · cases List.mem_singleton.mp hm
      exact absurd rfl (ha.not_newShared y peer)

theorem Maps.start {ch : Channel} {x : SharedChannel} {peer : Option ProcessIdentity} (h : Unmapped t) :
    Maps ch x (t ++ [⟨.newShared x peer, ch.shared⟩]) where
  mapped           := ⟨peer, List.mem_append_right _ (List.mem_singleton_self _)⟩
  only y peer k hm := by
    rcases List.mem_append.mp hm with hm | hm
    · exact absurd hm (h y peer k)
    · cases List.mem_singleton.mp hm
      rfl

end

-- Only `check_ready` itself reports that the connect timeout has elapsed.

theorem processStat_blind {pid : Nat} : Code.Only Blind (· ≠ .timedOut) (processStat pid) := by
  refine .act trivial fun r => ?_
  cases r
  case ok stat => exact .ofExcept fun e he => parseProcessStat_error he ▸ nofun
  case error e =>
    simp only
    split
    case isTrue  => exact .throw nofun
    case isFalse => exact .throw nofun

theorem isAlive_blind {identity : ProcessIdentity} :
    Code.Only Blind (· ≠ .timedOut) (ProcessMonitor.isAlive identity) := by
  refine .attempt processStat_blind fun r hr => ?_
  split
  case h_1 => exact .pure
  case h_2 => exact .pure
  case h_3 => exact .throw (hr _ rfl)

theorem open_blind {identity : ProcessIdentity} : Code.Only Blind (· ≠ .timedOut) (ProcessMonitor.open identity) := by
  unfold ProcessMonitor.open
  split
  case isTrue => exact .throw nofun
  case isFalse =>
    refine .bind isAlive_blind fun alive => ?_
    cases alive
    case true  => exact .pure
    case false => exact .throw nofun

theorem currentIdentity_blind : Code.Only Blind (fun _ => True) currentIdentity := by
  refine .act trivial fun pid => .attempt processStat_blind fun r _ => ?_
  split
  case h_1 => exact .pure
  case h_2 => exact .throw trivial
  case h_3 => exact .throw trivial

section
variable {h : Handle} {x : SharedChannel}

theorem terminal_untimed : Code.Only (fun _ => True) (· ≠ .timedOut) (SharedChannel.terminal h) := by
  refine .act trivial fun self => .act trivial fun state => ?_
  split
  all_goals first | exact .throw nofun | exact .pure

theorem finish_untimed : Code.Only (fun _ => True) (· ≠ .timedOut) (SharedChannel.finish h .peerDisconnected) :=
  (finish_ends (t := .peerDisconnected) nofun).weaken fun _ _ => trivial

theorem observe_untimed {peer : ProcessIdentity} {ms : Nat} :
    Code.Only (fun _ => True) (· ≠ .timedOut) (SharedChannel.observe h peer ms) := by
  refine .bind (isAlive_blind.weaken fun _ _ => trivial) fun alive => .bind ?_ fun _ => .perform trivial
  cases alive
  case true  => exact .pure
  case false => exact finish_untimed

theorem probe_untimed {ms : Nat} : Code.Only (fun _ => True) (· ≠ .timedOut) (SharedChannel.probe h x ms) := by
  refine .act trivial fun next => ?_
  split
  case isTrue => exact .pure
  refine .bind terminal_untimed fun _ => .act trivial fun peer => ?_
  cases peer
  case some peer => exact .bind observe_untimed fun _ => .pure
  case none =>
    refine .bind (peerIdentity_reads.weaken fun _ _ => trivial) fun identity => ?_
    refine .attempt (open_blind.weaken fun _ _ => trivial) fun r hr => ?_
    split
    case h_1 => exact .act trivial fun _ => .bind observe_untimed fun _ => .pure
    case h_2 => exact .bind finish_untimed fun _ => .bind terminal_untimed fun _ => .pure
    case h_3 => exact .throw (hr _ rfl)

end

section
variable {plat : Platform} {i : ThreadId} {l₀ : Log ThreadId Act Act.Ret}

-- What the thread has done since the log was `l₀`.
def trail (l₀ : Log ThreadId Act Act.Ret) (F : Events → Prop) : Assertion (decisionProtocol plat) i :=
  .since (m := machine plat) (fun e => e.left) l₀ F

-- What the protocol of the header tells.
def told (P : Assertion (headerProtocol plat) i) : Assertion (decisionProtocol plat) i :=
  P.logged.under

-- The thread has decided the end since the log was `l₀`.
def DecidedSince (i : ThreadId) (l₀ : Log ThreadId Act Act.Ret) (b : FileId) (e : Event Act Act.Ret)
    (s : State × Log ThreadId Act Act.Ret) : Prop :=
  b < s.fst.fst.files ∧ ∃ k, l₀.length ≤ k ∧ DecidedAt b k i e s.snd

theorem DecidedSince.exec {j : ThreadId} {a : Act} {r : a.Ret} {s s' : State × Log ThreadId Act Act.Ret} {b : FileId}
    {e : Event Act Act.Ret} (h : DecidedSince i l₀ b e s) (exec : (machine plat).logged.exec j a s r s') :
    DecidedSince i l₀ b e s' := by
  have ⟨old, k, hk, at_⟩ := h
  have ⟨old', same⟩ := old_of_exec exec.left old
  have log : s'.snd = s.snd ++ [(j, ⟨a, r⟩)] := exec.right
  exact ⟨old', k, hk, log ▸ at_.snoc same⟩

def decided (l₀ : Log ThreadId Act Act.Ret) (b : FileId) (e : Event Act Act.Ret) :
    Assertion (decisionProtocol plat) i :=
  .ofPersistent (DecidedSince i l₀ b e) fun _ _ exec h => h.exec exec.left

variable {α : Type} {F : Events → Prop} {P G : Assertion (decisionProtocol plat) i}
variable {M : α → Assertion (decisionProtocol plat) i} {E : Error → Assertion (decisionProtocol plat) i}
variable {h : Handle} {x : SharedChannel} {b : FileId}

theorem told_persistent {P : Assertion (headerProtocol plat) i} (h : P.Persistent) :
    (told P : Assertion (decisionProtocol plat) i).Persistent :=
  h.logged.under

theorem decided_persistent {e : Event Act Act.Ret} :
    (decided l₀ b e : Assertion (decisionProtocol plat) i).Persistent :=
  ⟨fun _ _ exec h => DecidedSince.exec h exec.left⟩

theorem trail_step {F' : Events → Prop} {a : Act} {r : a.Ret} {s s' : State × Log ThreadId Act Act.Ret}
    (h : (trail l₀ F : Assertion (decisionProtocol plat) i) s) (e : (machine plat).logged.exec i a s r s')
    (hF : ∀ t, F t → F' (t ++ [⟨a, r⟩])) : (trail l₀ F' : Assertion (decisionProtocol plat) i) s' := by
  have log : s'.snd = s.snd ++ [(i, ⟨a, r⟩)] := e.right
  show Log.Since i l₀ F' s'.snd
  rw [log]
  exact Log.Since.snoc h hF

theorem trail_mono {F' : Events → Prop} {s : State × Log ThreadId Act Act.Ret}
    (h : (trail l₀ F : Assertion (decisionProtocol plat) i) s) (hF : ∀ t, F t → F' t) :
    (trail l₀ F' : Assertion (decisionProtocol plat) i) s :=
  Log.Since.mono (show Log.Since i l₀ F s.snd from h) hF

theorem trail_length {s : State × Log ThreadId Act Act.Ret} (h : (trail l₀ F : Assertion (decisionProtocol plat) i) s) :
    l₀.length ≤ s.snd.length :=
  Log.Since.length_le (show Log.Since i l₀ F s.snd from h)

theorem trail_keeps {S : Act → Prop} (hF : ∀ {t a} {r : a.Ret}, S a → F t → F (t ++ [⟨a, r⟩])) :
    (trail l₀ F : Assertion (decisionProtocol plat) i).Keeps S where
  ok _ _ _       := trivial
  kept ha _ hp e := trail_step hp e.left fun _ => hF ha

-- The next action and its answer.
theorem trail_act (hg : G.Persistent) {a : Act} {F' : a.Ret → Events → Prop} (q : a.Ret → Prop)
    (hq : ∀ s r s', (decisionProtocol plat).inv s → (trail l₀ F ⊓ G) s → (machine plat).exec i a s.fst r s' → q r)
    (hF : ∀ t r, F t → F' r (t ++ [⟨a, r⟩])) {f : a.Ret → Routine α}
    (hf : ∀ r, q r → Spec (trail l₀ (F' r) ⊓ G) (f r) M E) : Spec (trail l₀ F ⊓ G) (Code.perform a >>= f) M E := by
  refine .act (fun r => trail l₀ (F' r) ⊓ G ⊓ .const (q r)) (fun _ _ _ => trivial) ?_ fun r => .assume (hf r)
  intro s r s' hi hs e
  exact ⟨⟨trail_step hs.left e.left fun t => hF t r, hg.stays hi trivial e hs.right⟩, hq s r _ hi hs e.left.left⟩

theorem trail_skip (hg : G.Persistent) {a : Act} {F' : a.Ret → Events → Prop} (hF : ∀ t r, F t → F' r (t ++ [⟨a, r⟩]))
    {f : a.Ret → Routine α} (hf : ∀ r, Spec (trail l₀ (F' r) ⊓ G) (f r) M E) :
    Spec (trail l₀ F ⊓ G) (Code.perform a >>= f) M E :=
  trail_act hg (fun _ => True) (fun _ _ _ _ _ _ => trivial) hF fun r _ => hf r

-- As `trail_act`, where nothing is asked of the call.
theorem any_act (hg : G.Persistent) {a : Act} (q : a.Ret → Prop)
    (hq : ∀ s r s', (decisionProtocol plat).inv s → (machine plat).exec i a s.fst r s' → q r) {f : a.Ret → Routine α}
    (hf : ∀ r, q r → Spec (trail l₀ (fun _ => True) ⊓ G) (f r) M E) :
    Spec (trail l₀ (fun _ => True) ⊓ G) (Code.perform a >>= f) M E :=
  trail_act hg q (fun s r s' hi _ => hq s r s' hi) (fun _ _ => id) hf

theorem any_skip (hg : G.Persistent) {a : Act} {f : a.Ret → Routine α}
    (hf : ∀ r, Spec (trail l₀ (fun _ => True) ⊓ G) (f r) M E) :
    Spec (trail l₀ (fun _ => True) ⊓ G) (Code.perform a >>= f) M E :=
  trail_skip hg (fun _ _ => id) hf

-- Code whose actions keep `F`, and then the rest.
theorem trail_pass {S : Act → Prop} (hF : ∀ {t a} {r : a.Ret}, S a → F t → F (t ++ [⟨a, r⟩])) (hg : G.Persistent)
    {β : Type} {p : Routine β} {V : Error → Prop} (hp : Code.Only S V p) (he : ∀ e, V e → trail l₀ F ⊓ G ≤ E e)
    {f : β → Routine α} (hf : ∀ y, Spec (trail l₀ F ⊓ G) (f y) M E) : Spec (trail l₀ F ⊓ G) (p >>= f) M E :=
  .pass ((trail_keeps hF).inf hg) hp he hf

theorem getShared_told (hg : G.Persistent) (hk : G ≤ told (knows h x)) (hF : ∀ {t e}, F t → F (t ++ [e]))
    {f : SharedChannel → Routine α} (hf : Spec (trail l₀ F ⊓ G) (f x) M E) :
    Spec (trail l₀ F ⊓ G) (getShared h >>= f) M E := by
  refine trail_act hg (· = x) (fun s y s' hi hs e => ?_) (fun _ _ => hF) fun y hy => hy ▸ hf
  have known : Knows h x (channels s.fst) := (hk s hi hs.right).right
  exact known.same y e.left.left

-- The four notify words.

theorem fetchAdd_bumps (hg : G.Persistent) {e : Event Act Act.Ret} {n : Nat} {ws : List Word} {w : Word}
    {f : Nat → Routine α} (hf : ∀ m, Spec (trail l₀ (After e (Bumped b n (ws ++ [w]))) ⊓ G) (f m) M E) :
    Spec (trail l₀ (After e (Bumped b n ws)) ⊓ G) (fetchAdd w >>= f) M E :=
  trail_skip hg (fun _ _ ht => ht.snoc fun _ => .bump) hf

theorem wakeRing_bumps (hg : G.Persistent) {e : Event Act Act.Ret} {n hdr : Nat} {ws : List Word} {w r : WaitSlot} :
    Spec (trail l₀ (After e (Bumped b n ws)) ⊓ G) (SharedChannel.wakeRing b hdr w r)
      (fun _ => trail l₀
      (After e (Bumped b n (ws ++ [.ring b hdr .writerNotify] ++ [.ring b hdr .readerNotify]))) ⊓ G) E := by
  have grows {ws : List Word} {t : Events} {e' : Event Act Act.Ret} (h : After e (Bumped b n ws) t) :
      After e (Bumped b n ws) (t ++ [e']) := h.snoc fun _ => .snoc
  refine fetchAdd_bumps hg fun _ => trail_skip hg (fun _ _ => grows) fun _ => fetchAdd_bumps hg fun _ => ?_
  exact .perform (fun _ _ _ => trivial) fun s r s' hi hs exec =>
    ⟨trail_step hs.left exec.left fun _ => grows, hg.stays hi trivial exec hs.right⟩

theorem wakeAll_bumps (hg : G.Persistent) (hk : G ≤ told (knows h x)) {n : Nat} :
    Spec (trail l₀ (After (retires x.base n) fun _ => True) ⊓ G) (SharedChannel.wakeAll h)
      (fun _ => trail l₀ (Retires x.base n) ⊓ G) E := by
  refine getShared_told hg hk (fun h => h.snoc fun _ _ => trivial) ?_
  have started {t : Events} {size : Nat} (ht : After (retires x.base n) (fun _ => True) t) :
      After (retires x.base n) (Bumped x.base size []) (t ++ [⟨.load (.global x.base .ringDataSize), size⟩]) :=
    ht.snoc fun v _ => ⟨List.mem_append_right _ (List.mem_singleton_self _), nofun⟩
  refine trail_skip hg (fun _ _ => started) fun size => ?_
  refine .bind (wakeRing_bumps hg) fun _ => (wakeRing_bumps hg).post (fun _ s hi hs => ?_) fun _ => le_rfl
  exact ⟨trail_mono hs.left fun _ ⟨u, v, ht, hv⟩ => ⟨u, v, ht, size, hv⟩, hs.right⟩

-- What an error of `check_ready` says.
def retired (l₀ : Log ThreadId Act Act.Ret) (b : FileId) (e : Error) : Assertion (decisionProtocol plat) i :=
  given (e = .timedOut) (ex fun n => trail l₀ (Retires b n) ⊓ decided l₀ b (retires b n))

theorem le_retired {e : Error} (he : e ≠ .timedOut) : P ≤ retired l₀ b e :=
  fun _ _ _ timed => absurd timed he

-- Code that does not time out.
theorem untimed (hg : G.Persistent) {β : Type} {p : Routine β} (hp : Code.Only (fun _ => True) (· ≠ .timedOut) p) :
    Spec (trail l₀ (fun _ => True) ⊓ G) p (fun _ => trail l₀ (fun _ => True) ⊓ G) (fun e => .const (e ≠ .timedOut)) :=
  (Spec.only ((trail_keeps fun _ _ => trivial).inf hg) hp).post (fun _ => le_rfl) fun _ _ _ hs => hs.right

theorem locked_untimed (hg : G.Persistent) {section_ : Routine Bool}
    (hp : Code.Only (fun _ => True) (· ≠ .timedOut) section_) :
    Spec (trail l₀ (fun _ => True) ⊓ G) (SharedChannel.locked h section_) (fun _ => trail l₀ (fun _ => True) ⊓ G)
      (fun e => .const (e ≠ .timedOut)) := by
  refine any_act (a := .lockPeer h) hg (fun r => ∀ e, r = .error e → e ≠ .timedOut) ?_ fun r hr => ?_
  · rintro s r s' _ ⟨⟨_, e⟩, _⟩ e' he
    split at e
    all_goals obtain ⟨rfl, _⟩ := e; cases he
    exact nofun
  refine .bind (untimed hg (.ofExcept hr)) fun _ => .handle (untimed hg hp) (fun r => ?_) fun e => ?_
  · exact any_skip hg fun _ => .ofExcept le_rfl
  · exact .skip (S := fun _ => True) (Assertion.Persistent.const.keeps fun _ _ _ => trivial) trivial fun _ =>
      .ofExcept le_rfl

theorem retire_decides (hg : G.Persistent) (hk : G ≤ told (knows h x)) {n : Nat}
    (hn : n < ChannelState.connected.toU32) :
    Spec (trail l₀ (fun _ => True) ⊓ G) (SharedChannel.retire h x n) (fun _ => trail l₀ (fun _ => True) ⊓ G)
      (retired l₀ x.base) := by
  refine any_skip hg fun t => ?_
  split
  case isTrue  => exact .pure le_rfl
  case isFalse =>
    let M : Except Nat Nat → Assertion (decisionProtocol plat) i :=
      either (trail l₀ (After (retires x.base n) fun _ => True) ⊓ (G ⊓ decided l₀ x.base (retires x.base n)))
        (trail l₀ (fun _ => True) ⊓ G)
    refine .act M (fun _ _ _ => trivial) (fun s r s' hi hs exec => ?_) fun r => ?_
    · have stays := hg.stays hi trivial exec hs.right
      cases r
      case error => exact ⟨trail_step hs.left exec.left fun _ _ => trivial, stays⟩
      case ok m =>
        obtain rfl : m = n := by
          rcases exec.left.left.left with ⟨_, hr, _⟩ | ⟨_, hr, _⟩ <;> cases hr
          rfl
        have known : Knows h x (channels s.fst) := (hk s hi hs.right).right
        have log : s'.snd = s.snd ++ [(i, retires x.base m)] := exec.left.right
        refine ⟨trail_step hs.left exec.left fun _ _ => After.last, stays, ?_⟩
        refine ⟨(old_of_exec exec.left.left known.old).left, s.snd.length, trail_length hs.left, ?_⟩
        rw [log]
        exact .of_last (.inr ⟨m, hn, rfl⟩)
    · cases r
      case error => exact .pure le_rfl
      case ok =>
        refine .bind (wakeAll_bumps (hg.inf decided_persistent) fun s hi hs => hk s hi hs.left) fun _ => .throw ?_
        exact fun _ _ hs _ => ⟨n, hs.left, hs.right.right⟩

theorem awaitConnected_decides (hg : G.Persistent) (hk : G ≤ told (knows h x)) :
    Spec (trail l₀ (fun _ => True) ⊓ G) (SharedChannel.awaitConnected h x) (fun _ => trail l₀ (fun _ => True) ⊓ G)
      (retired l₀ x.base) := by
  refine .loop (fun _ => trail l₀ (fun _ => True) ⊓ G) le_rfl fun _ => ?_
  refine any_act hg (· ≤ 5) ?_ fun n h5 => ?_
  · rintro s n s' hi ⟨⟨rfl, _⟩, _⟩
    exact hi.left.valid _
  have waiting (hn : n < ChannelState.connected.toU32) :
      Spec (trail l₀ (fun _ => True) ⊓ G) (SharedChannel.retire h x n)
        (Sum.elim (fun _ => trail l₀ (fun _ => True) ⊓ G) fun _ => trail l₀ (fun _ => True) ⊓ G) (retired l₀ x.base) :=
    (retire_decides hg hk hn).post (fun v => by cases v <;> exact le_rfl) fun _ => le_rfl
  obtain ⟨state, rfl⟩ := ChannelState.exists_toU32 h5
  cases state
  case serverReady | clientClaimed => exact waiting (by simp [ChannelState.toU32])
  case connected                   => exact .pure le_rfl
  all_goals exact .throw (le_retired (by simp))

theorem checkReady_decides (hg : G.Persistent) (hk : G ≤ told (knows h x)) :
    Spec (trail l₀ (fun _ => True) ⊓ G) (SharedChannel.checkReady h) (fun _ => ⊤) (retired l₀ x.base) := by
  refine getShared_told hg hk (fun _ => trivial) (.bind (awaitConnected_decides hg hk) fun ready => ?_)
  have untimed_le {e : Error} : .const (e ≠ .timedOut) ≤ (retired l₀ x.base e : Assertion (decisionProtocol plat) i) :=
    fun _ _ he timed => absurd timed he
  have last : Spec (trail l₀ (fun _ => True) ⊓ G) (do SharedChannel.terminal h; Pure.pure true) (fun _ => ⊤)
      (retired l₀ x.base) :=
    .bind ((untimed hg terminal_untimed).post (fun _ => le_rfl) fun _ => untimed_le) fun _ => .pure fun _ _ _ => trivial
  cases ready
  case false => exact .pure fun _ _ _ => trivial
  case true =>
    refine any_skip hg fun t => any_skip hg fun next => ?_
    split
    case isFalse => exact last
    case isTrue =>
      refine .bind ((locked_untimed hg probe_untimed).post (fun _ => le_rfl) fun _ => untimed_le) fun probed => ?_
      cases probed
      case true  => exact .pure fun _ _ _ => trivial
      case false => exact last

-- The client.

theorem wakeAll_blind {V : Error → Prop} : Code.Only Blind V (SharedChannel.wakeAll h) :=
  .act trivial fun _ => .act trivial fun _ =>
  .bind (.act trivial fun _ => .act trivial fun _ => .act trivial fun _ => .perform trivial) fun _ =>
  .act trivial fun _ => .act trivial fun _ => .act trivial fun _ => .perform trivial

theorem validateHeader_blind {n : Nat} {config : ChannelConfig} :
    Code.Only Blind (fun _ => True) (validateHeader b n config) := by
  refine .act trivial fun magic => ?_
  split
  case isTrue => exact .throw trivial
  refine .act trivial fun version => ?_
  split
  case isTrue => exact .throw trivial
  refine .act trivial fun size => ?_
  split
  case isTrue => exact .throw trivial
  exact .act trivial fun _ => .act trivial fun _ => .pure

theorem orFail_blind {r : Except IoError α} : Code.Only Blind (fun _ => True) (orFail r) := by
  cases r
  case ok    => exact .pure
  case error => exact .throw trivial

-- Code that keeps `F` as long as it is blind.
section
variable (hF : ∀ {t a} {r : a.Ret}, Blind a → F t → F (t ++ [⟨a, r⟩])) (hg : G.Persistent)
include hF hg

theorem blind_skip {a : Act} (ha : Blind a) {f : a.Ret → Routine α} (hf : ∀ r, Spec (trail l₀ F ⊓ G) (f r) M E) :
    Spec (trail l₀ F ⊓ G) (Code.perform a >>= f) M E :=
  trail_skip hg (fun _ _ => hF ha) hf

theorem blind_pass {β : Type} {p : Routine β} {V : Error → Prop} (hp : Code.Only Blind V p) {f : β → Routine α}
    (hf : ∀ y, Spec (trail l₀ F ⊓ G) (f y) M fun _ => ⊤) : Spec (trail l₀ F ⊓ G) (p >>= f) M fun _ => ⊤ :=
  trail_pass hF hg hp (fun _ _ _ _ _ => trivial) hf

end

theorem claim_decides (hF : ∀ {t a} {r : a.Ret}, Blind a → F t → F (t ++ [⟨a, r⟩])) (hg : G.Persistent)
    (ho : G ≤ told (atLeast b 0)) {identity : ProcessIdentity} :
    Spec (trail l₀ F ⊓ G) (claim b identity) (fun _ => trail l₀ F ⊓ (G ⊓ decided l₀ b (connects b))) (fun _ => ⊤) := by
  refine blind_skip hF hg (by trivial) fun r => ?_
  cases r
  case error => exact .throw fun _ _ _ => trivial
  case ok =>
    refine blind_skip hF hg (by trivial) fun _ => blind_skip hF hg (by trivial) fun _ => ?_
    let M : Except Nat Nat → Assertion (decisionProtocol plat) i :=
      either (trail l₀ F ⊓ (G ⊓ decided l₀ b (connects b))) ⊤
    refine .act M (fun _ _ _ => trivial) (fun s r s' hi hs exec => ?_) fun r => ?_
    · cases r
      case error => trivial
      case ok m =>
        obtain rfl : m = ChannelState.clientClaimed.toU32 := by
          rcases exec.left.left.left with ⟨_, hr, _⟩ | ⟨_, hr, _⟩ <;> cases hr
          rfl
        have known : AtLeast b 0 (channels s.fst) := (ho s hi hs.right).right
        have log : s'.snd = s.snd ++ [(i, connects b)] := exec.left.right
        refine ⟨trail_step hs.left exec.left fun _ => hF trivial, hg.stays hi trivial exec hs.right, ?_⟩
        refine ⟨(old_of_exec exec.left.left known.old).left, s.snd.length, trail_length hs.left, ?_⟩
        rw [log]
        exact .of_last (.inl rfl)
    · cases r
      case ok    => exact .pure le_rfl
      case error => exact .throw le_rfl

-- What the call of a client says that is connected.
def joined (l₀ : Log ThreadId Act Act.Ret) (ch : Channel) (Z : FileId → Nat → Prop) :
    Assertion (decisionProtocol plat) i :=
  ex fun x => trail l₀ (fun t => Sees (fun c n => Z c n ∨ c = x.base) t ∧ Maps ch x t) ⊓
    decided l₀ x.base (connects x.base)

theorem openFile_decides {p : String} {f : Except IoError FileId → Routine α}
    (hF : ∀ {t a} {r : a.Ret}, Blind a → F t → F (t ++ [⟨a, r⟩]))
    (ok : ∀ b, Spec (trail l₀ F ⊓ told (atLeast b 0)) (f (.ok b)) M E)
    (error : ∀ e, Spec (trail l₀ F) (f (.error e)) M E) :
    Spec (trail l₀ F) (openFile p >>= f) M E := by
  let N : Except IoError FileId → Assertion (decisionProtocol plat) i
    | .ok b    => trail l₀ F ⊓ told (atLeast b 0)
    | .error _ => trail l₀ F
  refine .act N (fun _ _ _ => trivial) (fun s r s' hi hs exec => ?_) fun r => ?_
  · have stays : (trail l₀ F : Assertion (decisionProtocol plat) i) s' := trail_step hs exec.left fun _ => hF trivial
    cases r
    case error => exact stays
    case ok b =>
      obtain ⟨⟨⟨⟨hs', hb⟩, hg⟩, _⟩, hinv, _⟩ := exec
      have same : channels s'.fst = channels s.fst := eq_of_frame (.same hs') (by rw [hg]; rfl) (by simp)
      have inv : (channels s'.fst).Inv := same ▸ hinv
      refine ⟨stays, inv, ?_, Nat.zero_le _⟩
      cases hpath : s.fst.fst.path p <;> simp only [hpath] at hb
      case some => exact same ▸ hb ▸ hinv.linked p _ hpath
  · cases r
    case ok b    => exact ok b
    case error e => exact error e

theorem fromShared_blind (hF : ∀ {t a} {r : a.Ret}, Blind a → F t → F (t ++ [⟨a, r⟩])) (hg : G.Persistent)
    {config : ChannelConfig} :
    Spec (trail l₀ F ⊓ G) (fromShared h config) (fun ch => trail l₀ F ⊓ G ⊓ .const (ch.shared = h)) E := by
  refine blind_skip hF hg (by trivial) fun self => blind_skip hF hg (by trivial) fun _ => ?_
  exact blind_skip hF hg (by trivial) fun _ => .pure fun _ _ hs => ⟨hs, rfl⟩

theorem newShared_maps {Z : FileId → Nat → Prop} {peer : Option ProcessIdentity} {config : ChannelConfig}
    (hg : G.Persistent)
    (hd : G ≤ decided l₀ x.base (connects x.base)) {M : Option Channel → Assertion (decisionProtocol plat) i}
    (hm : ∀ ch, joined l₀ ch Z ≤ M (some ch)) :
    Spec (trail l₀ (Looks fun c n => Z c n ∨ c = x.base) ⊓ G) (do
        let h ← newShared x peer
        SharedChannel.wakeAll h
        let channel ← fromShared h config
        Pure.pure (some channel)) M E := by
  let F (h : Handle) (t : Events) : Prop :=
    Sees (fun c n => Z c n ∨ c = x.base) t ∧ ∀ ch : Channel, ch.shared = h → Maps ch x t
  have keeps {h : Handle} {t : Events} {a : Act} {r : a.Ret} (ha : Blind a) (ht : F h t) : F h (t ++ [⟨a, r⟩]) :=
    ⟨ht.left.snoc ha.not_load, fun ch hc => (ht.right ch hc).snoc ha⟩
  have mapped (t : Events) (h : Handle) (ht : Looks (fun c n => Z c n ∨ c = x.base) t) :
      F h (t ++ [⟨.newShared x peer, h⟩]) :=
    ⟨ht.left.snoc nofun, fun ch hc => hc ▸ .start ht.right⟩
  refine trail_skip (a := .newShared x peer) hg mapped fun h => ?_
  refine trail_pass keeps hg (V := fun _ => False) wakeAll_blind nofun fun _ => ?_
  refine .bind (fromShared_blind (F := F h) keeps hg) fun ch => .assume fun hc => ?_
  refine .pure fun s hi hs => hm ch s hi ⟨x, ?_, hd s hi hs.right⟩
  exact trail_mono hs.left fun t ht => ⟨ht.left, ht.right ch hc⟩

theorem tryOpen_decides {Z : FileId → Nat → Prop} {name : String} {config : ChannelConfig}
    {identity : ProcessIdentity} :
    Spec (trail l₀ (Looks Z) : Assertion (decisionProtocol plat) i) (tryOpen name config identity)
      (fun | none => trail l₀ (Looks fun c n => Z c n ∨ n = 0) | some ch => joined l₀ ch Z) (fun _ => ⊤) := by
  have none_le {b : FileId} : trail l₀ (Looks Z) ⊓ told (atLeast b 0) ≤
      (trail l₀ (Looks fun c n => Z c n ∨ n = 0) : Assertion (decisionProtocol plat) i) :=
    fun _ _ hs => trail_mono hs.left fun _ => .mono fun _ _ => .inl
  have seen_le {b : FileId} (n : Nat) : trail l₀ (Looks fun c m => Z c m ∨ c = b ∧ m = n) ⊓ told (atLeast b 0) ≤
      (trail l₀ (Looks fun c m => Z c m ∨ c = b) ⊓ told (atLeast b 0) : Assertion (decisionProtocol plat) i) :=
    fun _ _ hs => ⟨trail_mono hs.left fun _ => .mono fun _ _ => .imp_right And.left, hs.right⟩
  refine openFile_decides .snoc (fun file => ?_) fun e => ?_
  case refine_2 =>
    simp only
    split
    case isTrue  => exact .pure fun _ _ hs => trail_mono hs fun _ => .mono fun _ _ => .inl
    case isFalse => exact .throw fun _ _ _ => trivial
  case refine_1 =>
    have hg : (told (atLeast file 0) : Assertion (decisionProtocol plat) i).Persistent :=
      told_persistent fact_persistent
    refine blind_skip .snoc hg (by trivial) fun len => blind_pass .snoc hg orFail_blind fun len => ?_
    split
    case isTrue  => exact .pure none_le
    refine blind_skip .snoc hg (by trivial) fun _ => blind_pass .snoc hg orFail_blind fun mapLen => ?_
    refine trail_skip hg (fun t r => Looks.load) fun n => ?_
    split
    case h_1 =>
      refine .pre ?_ (seen_le n)
      refine blind_pass .snoc hg validateHeader_blind fun server => blind_pass .snoc hg open_blind fun _ => ?_
      refine blind_skip .snoc hg (by trivial) fun _ => blind_skip .snoc hg (by trivial) fun _ => ?_
      refine blind_pass .snoc hg orFail_blind fun _ => .bind (claim_decides .snoc hg le_rfl) fun _ => ?_
      have hg' : (told (atLeast file 0) ⊓ decided l₀ file
        (connects file) : Assertion (decisionProtocol plat) i).Persistent :=
        hg.inf decided_persistent
      refine blind_skip .snoc hg' (by trivial) fun started => ?_
      refine newShared_maps (x := ⟨.client, file, name, started, config.connectTimeout⟩) hg' (fun _ _ hs => hs.right) ?_
      exact fun _ => le_rfl
    case h_2 hn =>
      obtain rfl := ChannelState.fromU32_eq_some.mp hn
      exact .pure fun _ _ hs => trail_mono hs.left fun _ => .mono fun _ _ => .imp_right And.right
    all_goals exact .throw fun _ _ _ => trivial

theorem openWithConfig_decides {name : String} {config : ChannelConfig} :
    Spec (trail l₀ (Looks fun _ _ => True) : Assertion (decisionProtocol plat) i) (openWithConfig name config)
      (fun ch => joined l₀ ch fun _ _ => True) (fun _ => ⊤) := by
  have hg : (⊤ : Assertion (decisionProtocol plat) i).Persistent := .top
  refine .pre (P := trail l₀ (Looks fun _ _ => True) ⊓ ⊤) ?_ fun _ _ hs => ⟨hs, trivial⟩
  refine blind_pass .snoc hg (V := fun _ => True) (.ofExcept fun _ _ => trivial) fun _ => ?_
  refine blind_pass .snoc hg currentIdentity_blind fun identity => blind_skip .snoc hg (by trivial) fun t => ?_
  refine .loop (fun _ => trail l₀ (Looks fun _ _ => True) ⊓ ⊤) le_rfl fun _ => ?_
  refine .bind (tryOpen_decides.pre fun _ _ hs => hs.left) fun o => ?_
  cases o
  case some ch => exact .pure le_rfl
  case none =>
    refine .pre (P := trail l₀ (Looks fun _ _ => True) ⊓ ⊤) ?_ fun _ _ hs =>
      ⟨trail_mono hs fun _ => .mono fun _ _ _ => trivial, trivial⟩
    refine blind_skip .snoc hg (by trivial) fun now => ?_
    split
    case isTrue  => exact .throw fun _ _ _ => trivial
    case isFalse => exact .pure le_rfl

-- What the answer of an operation that was called in the state `s` says of the log.
def reveals (s : State × Log ThreadId Act Act.Ret) : (o : Operation) → o.Ret → Assertion (decisionProtocol plat) i
  | .tryOpen .., .ok none      => trail s.snd (Looks fun _ n => False ∨ n = 0)
  | .tryOpen .., .ok (some ch) => joined s.snd ch fun _ _ => False
  | .open .., .ok ch           => joined s.snd ch fun _ _ => True
  | .checkReady h, .error e    => match s.fst.fst.shared h with
    | some x => retired s.snd x.base e
    | none   => ⊤
  | _, _                       => ⊤

theorem free_reveals {s : State × Log ThreadId Act Act.Ret} {o : Operation}
    (ho : ∀ v : o.Ret, (reveals s o v : Assertion (decisionProtocol plat) i) = ⊤) :
    o.code.Triple (⊤ : Assertion (decisionProtocol plat) i) fun v => reveals s o v :=
  have keeps : (⊤ : Assertion (decisionProtocol plat) i).Keeps fun _ => True :=
    Persistent.top.keeps fun _ _ _ => trivial
  (Program.Triple.only keeps .all).post fun v _ _ _ => by rw [ho v]; trivial

end

def decisions (plat : Platform) : Verified crateSystem.logged (decisionProtocol plat) where
  idle _       := ⊤
  post _ o s v := reveals s o v
  init {s} hs  := by
    obtain ⟨s, l⟩ := s
    obtain rfl : l = [] := hs.right
    exact ⟨⟨((verified plat).init hs.left).left, Decided.start⟩, fun _ => trivial⟩
  spec := by
    intro i o s hi _ can
    have start {F : Events → Prop} (h : F []) : (trail s.snd F : Assertion (decisionProtocol plat) i) s :=
      Log.Since.start h
    have here {P : Assertion (decisionProtocol plat) i} (hs : P s) (triple : o.code.Triple P fun v => reveals s o v) :
        ∃ P : Assertion (decisionProtocol plat) i, P s ∧ o.code.Triple P fun v => ⊤ ⊓ reveals s o v :=
      ⟨P, hs, triple.post fun _ _ _ h => ⟨trivial, h⟩⟩
    cases o
    case tryOpen name config identity =>
      refine here (start (F := Looks fun _ _ => False) ⟨nofun, nofun⟩)
        (Program.Triple.post (fun v => ?_) tryOpen_decides)
      match v with
      | .ok none | .ok (some _) => exact le_rfl
      | .error _                => exact fun _ _ _ => trivial
    case «open» name config =>
      refine here (start (F := Looks fun _ _ => True) ⟨nofun, nofun⟩)
        (Program.Triple.post (fun v => ?_) openWithConfig_decides)
      cases v <;> exact fun _ _ h => h
    case checkReady h =>
      obtain ⟨x, ha⟩ := can.left h rfl
      have known : (told (owns h x) : Assertion (decisionProtocol plat) i) s := ⟨hi.left, owns_of_attached hi.left ha⟩
      refine here (P := trail s.snd (fun _ => True) ⊓ told (owns h x)) ⟨start trivial, known⟩
        (Program.Triple.post (fun v => ?_)
        (checkReady_decides (told_persistent owns_persistent) fun _ _ hs => ⟨hs.left, hs.right.left⟩))
      cases v
      case ok      => exact fun _ _ _ => trivial
      case error e => simp only [reveals, ha.shared]; exact le_rfl
    all_goals exact here trivial (free_reveals fun v => by cases v <;> rfl)

end Header
