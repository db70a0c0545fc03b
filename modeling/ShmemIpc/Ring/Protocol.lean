import ShmemIpc.Ring.Invariant
import ShmemIpc.Header.Protocol

open Function Window Ring

namespace Link

variable (L : Link)

-- Between its steps a thread has its cached cursor up to date, except before the step that updates it.
structure Calm (i : ThreadId) (v : RingState) : Prop where
  sender   : i = L.tx → v.sender.cachedWc = v.wc
  receiver : i = L.rx → v.receiver.cachedRc = v.rc

-- What an action needs, for it to change the ring in one of the allowed ways.
def Allowed (i : ThreadId) (a : Act) (v : RingState) : Prop :=
  match a with
  | .store (.ring b hd .writeCursor) n note =>
      b = L.base → hd = L.header → i = L.tx ∧ 3 ≤ v.state ∧ ∃ p, note = .publish p ∧
        n = wrap64 (v.wc + frameSize p) ∧ L.Free (total v.sent + frameSize p) v ∧
        Holds v.cell (total v.sent) (record v.sent.length p)
  | .store (.ring b hd .readCursor) n note  =>
      b = L.base → hd = L.header → i = L.rx ∧ ∃ r p, note = .commit r ∧
        n = wrap64 (v.rc + frameSize p) ∧ v.sent[v.received.length]? = some p ∧
        (r = some p ∨ r = none ∧ L.discards)
  | .store (.global b .clientPid) n _       => b = L.base → n ≠ 0
  | .store (.global b .serverPid) _ _       => b ≠ L.base
  | .fetchAdd w                             => w.IsNotify
  | .compareExchange w _ new                => ∃ b, w = .global b .state ∧ (b = L.base → new = 3 → v.clientPid ≠ 0)
  | .compareExchangeWeak w _ new            => ∃ b, w = .global b .state ∧ (b = L.base → new = 3 → v.clientPid ≠ 0)
  | .writeByte b addr _                     =>
      b = L.base → L.data ≤ addr → addr < L.data + L.size →
        i = L.tx ∧ ∃ q, addr = L.data + q % L.size ∧ total v.sent ≤ q ∧ L.Free (q + 1) v
  | .readByte b addr                        =>
      i = L.rx → b = L.base ∧ v.receiver.expectedSeq = wrap32 (v.received.length + 1) ∧
        ∃ p t, v.sent[v.received.length]? = some p ∧ t < frameSize p ∧ addr = L.data + (v.taken + t) % L.size
  | .sub a b                                =>
      (∃ x y, a = wrap64 x ∧ b = wrap64 y ∧ y ≤ x ∧ (x ≤ total v.sent ∨ x = L.size)) ∧
      (i = L.rx → b = v.rc ∧ (a = b ∨ ∃ p, v.sent[v.received.length]? = some p ∧ frameSize p ≤ wrapSub64 a b))
  | .setSender h x                          =>
      h = L.hs → i = L.tx ∧ ∃ n r c, x = L.sender n v.wc r ∧ r = wrap64 c ∧ c ≤ v.taken ∧
        total v.sent ≤ c + L.size
  | .setReceiver h x                        => h = L.hr → i = L.rx ∧ ∃ n, x = L.receiver n v.rc
  | _                                       => True

def Updates (L : Link) : Act → Prop
  | .setSender h _   => h = L.hs
  | .setReceiver h _ => h = L.hr
  | _                => False

structure Ok (i : ThreadId) (a : Act) (v : RingState) : Prop where
  calm    : Updates L a ∨ L.Calm i v
  allowed : L.Allowed i a v

variable {L} {i : ThreadId} {a : Act} {plat : Platform} {s s' : World} {g g' : History}

-- The words that the ring consists of, with those that tell of its two processes.
def words (L : Link) : List Word :=
  [L.writeCursor, L.readCursor, .global L.base .state, .global L.base .serverPid,
    .global L.base .clientPid]

theorem ring_stored {w : Word} {n : Nat} (hf : g'.faults = g.faults)
    (hl : g'.ledger = g.ledger) (hw : ∀ w' ∈ L.words, w' ≠ w) :
    L.ring (s.stored w n, g') = L.ring (s, g) := by
  simp only [words, List.forall_mem_cons] at hw
  obtain ⟨hwc, hrc, hst, hsp, hcp, -⟩ := hw
  simp [Link.ring, World.stored, update_of_ne, hwc, hrc, hst, hsp, hcp, hl, hf]

theorem ring_frame {parts : List Piece} (h : s.Frame parts s') (hl : g'.ledger = g.ledger)
    (hf : g'.faults L.rx = g.faults L.rx)
    (hp : ∀ p ∈ [Piece.word, .byte, .files, .sender, .receiver, .buf, .out], p ∉ parts) :
    L.ring (s', g') = L.ring (s, g) := by
  simp only [List.forall_mem_cons] at hp
  obtain ⟨hw, hb, hfi, hs, hr, hbu, ho, -⟩ := hp
  simp only [Link.ring, h.word hw, h.byte hb, h.files hfi, h.sender hs, h.receiver hr, h.buf hbu, h.out ho, hl, hf]

theorem faults_eq {r : a.Ret} (h : a.faulty r = false) : (g.record i a r s).faults = g.faults := by
  simp [History.record, h]

theorem Change.of_eq {v v' : RingState} (h : v' = v) : L.Change i a v v' :=
  h ▸ .keep

-- An answer of the observer.
theorem Change.of_fault {r : a.Ret} (hs : s' = s) (hl : (g.record i a r s).ledger = g.ledger) :
    L.Change i a (L.ring (s, g)) (L.ring (s', g.record i a r s)) := by
  subst hs
  by_cases hf : a.faulty r = true ∧ i = L.rx
  case pos =>
    obtain ⟨hf, rfl⟩ := hf
    have hr : L.ring (s', g.record L.rx a r s') = { L.ring (s', g) with faulted := true } := by
      simp only [Link.ring, hl]
      simp [History.record, hf]
    exact hr ▸ .fault rfl
  case neg =>
    have same : (g.record i a r s').faults L.rx = g.faults L.rx := by
      by_cases hi : L.rx = i
      case pos => subst hi; simp_all [History.record]
      case neg => simp [History.record, update_of_ne hi]
    exact .of_eq (ring_frame (.same rfl) hl same (by simp))

-- The stores to the cursors.

theorem ring_published {n : Nat} {p : Bytes} (hf : g'.faults = g.faults)
    (hl : g'.ledger = g.ledger.append L.base L.header p) : L.ring (s.stored L.writeCursor n, g') =
      { L.ring (s, g) with wc := n, sent := (L.ring (s, g)).sent ++ [p] } := by
  simp [Link.ring, World.stored, hl, hf, Ledger.append, writeCursor, readCursor]

theorem ring_committed {n : Nat} {p : Option Bytes} (hf : g'.faults = g.faults)
    (hl : g'.ledger = g.ledger.consume L.base L.header p) : L.ring (s.stored L.readCursor n, g') =
      { L.ring (s, g) with rc := n, received := (L.ring (s, g)).received ++ [p] } := by
  simp [Link.ring, World.stored, hl, hf, Ledger.consume, writeCursor, readCursor]

theorem ring_advanced {n : Nat} (hf : g'.faults = g.faults) (hs : g'.ledger.sent = g.ledger.sent)
    (hr : g'.ledger.received = g.ledger.received) :
    L.ring (s.stored (.global L.base .state) n, g') =
      { L.ring (s, g) with state := n, sealed := (g'.ledger.sealed L.base).map (· L.header) } := by
  simp [Link.ring, World.stored, hs, hr, hf, writeCursor, readCursor]

theorem ring_identified {n : Nat} (hf : g'.faults = g.faults) (hl : g'.ledger = g.ledger) :
    L.ring (s.stored (.global L.base .clientPid) n, g') = { L.ring (s, g) with clientPid := n } := by
  simp [Link.ring, World.stored, hl, hf, writeCursor, readCursor]

-- The byte at a position, and the private halves.

theorem ring_written {q : Nat} {x : UInt8} (hf : g'.faults = g.faults) (hl : g'.ledger = g.ledger) :
    L.ring ({ s with byte := update s.byte L.base (update (s.byte L.base) (L.data + q % L.size) x) }, g') =
      { L.ring (s, g) with cell := Window.write L.size (L.ring (s, g)).cell q x } := by
  simp only [Link.ring, hl, hf, update_self, RingState.mk.injEq, true_and, and_true]
  exact funext fun p => by simp [Window.write, update_apply]

theorem ring_sender {x : RingSender} (hf : g'.faults = g.faults) (hl : g'.ledger = g.ledger) :
    L.ring ({ s with sender := update s.sender L.hs x }, g') = { L.ring (s, g) with sender := x } := by
  simp [Link.ring, hl, hf]

theorem ring_receiver {x : RingReceiver} (hf : g'.faults = g.faults) (hl : g'.ledger = g.ledger) :
    L.ring ({ s with receiver := update s.receiver L.hr x }, g') = { L.ring (s, g) with receiver := x } := by
  simp [Link.ring, hl, hf]

theorem ring_buf {b : Bytes} (hf : g'.faults = g.faults) (hl : g'.ledger = g.ledger) :
    L.ring ({ s with buf := update s.buf L.rx b }, g') = { L.ring (s, g) with buf := b } := by
  simp [Link.ring, hl, hf]

theorem ring_out {o : List Bytes} (hf : g'.faults = g.faults) (hl : g'.ledger = g.ledger) :
    L.ring ({ s with out := update s.out L.rx o }, g') = { L.ring (s, g) with out := o } := by
  simp [Link.ring, hl, hf]

-- The cursors of another ring.
theorem ring_other {b hd : Nat} {f : RingField} {n : Nat} (h : ¬ (b = L.base ∧ hd = L.header))
    (hf : g'.faults = g.faults)
    (hl : (∃ p, g'.ledger = g.ledger.append b hd p) ∨ (∃ p, g'.ledger = g.ledger.consume b hd p) ∨
      g'.ledger = g.ledger) :
    L.ring (s.stored (.ring b hd f) n, g') = L.ring (s, g) := by
  have lists : g'.ledger.sent L.base L.header = g.ledger.sent L.base L.header ∧
      g'.ledger.received L.base L.header = g.ledger.received L.base L.header ∧
      g'.ledger.sealed = g.ledger.sealed := by
    rcases hl with ⟨p, hl⟩ | ⟨p, hl⟩ | hl <;> rw [hl]
    case inr.inr => exact ⟨rfl, rfl, rfl⟩
    all_goals
      by_cases hb : L.base = b
      · have hh : L.header ≠ hd := fun hh => h ⟨hb.symm, hh.symm⟩
        simp [Ledger.append, Ledger.consume, ← hb, hh]
      · simp [Ledger.append, Ledger.consume, hb]
  obtain ⟨hs, hr, hse⟩ := lists
  have hw : Word.ring b hd f ≠ L.writeCursor := fun he => by cases he; exact h ⟨rfl, rfl⟩
  have hr' : Word.ring b hd f ≠ L.readCursor := fun he => by cases he; exact h ⟨rfl, rfl⟩
  simp [Link.ring, World.stored, update_of_ne, hw.symm, hr'.symm, hs, hr, hse, hf]

theorem Change.of_store {w : Word} {n : Nat} {note : Note} (ok : L.Ok i (.store w n note) (L.ring (s, g)))
    (header : HeaderOk i (.store w n note) (channels (s, g))) :
    L.Change i (.store w n note) (L.ring (s, g)) (L.ring (s.stored w n, g.record i (.store w n note) () s)) := by
  have faults : (g.record i (.store w n note) () s).faults = g.faults := faults_eq rfl
  have calm : L.Calm i (L.ring (s, g)) := ok.calm.resolve_left id
  have allowed := ok.allowed
  cases w
  case ring b hd f =>
    cases f
    case writeCursor =>
      by_cases here : b = L.base ∧ hd = L.header
      case pos =>
        obtain ⟨rfl, rfl⟩ := here
        obtain ⟨mine, ready, p, rfl, rfl, free, written⟩ := allowed rfl rfl
        exact ring_published (L := L) faults rfl ▸ .publish rfl mine (calm.sender mine) free written ready
      case neg =>
        refine .of_eq (ring_other here faults ?_)
        cases note
        case publish p => exact .inl ⟨p, rfl⟩
        all_goals exact .inr (.inr rfl)
    case readCursor =>
      by_cases here : b = L.base ∧ hd = L.header
      case pos =>
        obtain ⟨rfl, rfl⟩ := here
        obtain ⟨mine, r, p, rfl, rfl, head, what⟩ := allowed rfl rfl
        exact ring_committed (L := L) faults rfl ▸ .commit rfl mine (calm.receiver mine) head what
      case neg =>
        refine .of_eq (ring_other here faults ?_)
        cases note
        case commit p => exact .inr (.inl ⟨p, rfl⟩)
        all_goals exact .inr (.inr rfl)
    all_goals exact .of_eq (ring_stored faults rfl (by simp [words, writeCursor, readCursor]))
  case global b f =>
    have same (h : b = L.base → f ≠ .state ∧ f ≠ .serverPid ∧ f ≠ .clientPid) :
        L.ring (s.stored (.global b f) n, g.record i (.store (.global b f) n note) () s) = L.ring (s, g) := by
      refine ring_stored faults rfl ?_
      simp only [words, List.forall_mem_cons, writeCursor, readCursor]
      refine ⟨nofun, nofun, ?_, ?_, ?_, nofun⟩
      · rintro ⟨⟩; exact (h rfl).left rfl
      · rintro ⟨⟩; exact (h rfl).right.left rfl
      · rintro ⟨⟩; exact (h rfl).right.right rfl
    by_cases hb : b = L.base
    case neg => exact .of_eq (same fun h => absurd h hb)
    case pos =>
      subst hb
      cases f
      case state =>
        obtain ⟨rfl, _, _, at_⟩ := header
        have at_ : (L.ring (s, g)).state = 0 := at_
        have up := Change.advance (L := L) (i := i) (a := .store (.global L.base .state) 1 note) (v := L.ring (s, g))
          (n := 1) (by omega) (by omega) nofun
        rw [ring_advanced faults rfl rfl]
        exact up
      case serverPid => exact absurd rfl allowed
      case clientPid =>
        rw [ring_identified faults rfl]
        exact .identify (allowed rfl)
      all_goals exact .of_eq (same fun _ => ⟨nofun, nofun, nofun⟩)

-- A successful exchange.
theorem Change.of_exchange {w : Word} {cur new : Nat} {r : a.Ret} (hw : s.word w = cur)
    (hl : ∀ b, w = .global b .state → (g.record i a r s).ledger = g.ledger.transition b new)
    (hf : a.faulty r = false)
    (allowed : ∃ b, w = .global b .state ∧ (b = L.base → new = 3 → (L.ring (s, g)).clientPid ≠ 0))
    (fwd : Forward w cur new) :
    L.Change i a (L.ring (s, g)) (L.ring (s.stored w new, g.record i a r s)) := by
  obtain ⟨b, rfl, named⟩ := allowed
  obtain ⟨_, open_, up, valid⟩ := fwd
  have hl := hl b rfl
  have faults := faults_eq (g := g) (i := i) (s := s) hf
  by_cases hb : b = L.base
  case pos =>
    subst hb
    have at_ : (L.ring (s, g)).state = cur := hw
    have ends : ((g.ledger.transition L.base new).sealed L.base).map (· L.header) =
        if 4 ≤ new then some ((L.ring (s, g)).sealed.getD (L.ring (s, g)).sent) else (L.ring (s, g)).sealed := by
      rw [Ledger.transition_sealed valid]
      split
      case isTrue  => cases hs : g.ledger.sealed L.base <;> simp [Link.ring, hs]
      case isFalse => rfl
    rw [ring_advanced faults (by rw [hl, Ledger.transition_sent]) (by rw [hl, Ledger.transition_received]), hl,
      ends]
    exact .advance (by omega) (by omega) (named rfl)
  case neg =>
    refine .of_eq ?_
    have hw' : ∀ f, Word.global L.base f ≠ .global b .state := fun _ h => by cases h; exact hb rfl
    simp only [Link.ring, World.stored, hl, faults, Ledger.transition_sent, Ledger.transition_received,
      Ledger.transition_sealed_of_ne (Ne.symm hb), update_of_ne (hw' _)]
    rfl

theorem Change.of_write {b : FileId} {addr : Nat} {x : UInt8} {r : Unit}
    (allowed : L.Allowed i (.writeByte b addr x) (L.ring (s, g))) :
    L.Change i (.writeByte b addr x) (L.ring (s, g))
      (L.ring ({ s with byte := update s.byte b (update (s.byte b) addr x) },
        g.record i (.writeByte b addr x) r s)) := by
  have faults : (g.record i (.writeByte b addr x) r s).faults = g.faults := faults_eq rfl
  have size := L.size_pos
  by_cases here : b = L.base ∧ L.data ≤ addr ∧ addr < L.data + L.size
  case pos =>
    obtain ⟨rfl, lo, hi⟩ := here
    obtain ⟨mine, q, rfl, above, free⟩ := allowed rfl lo hi
    rw [ring_written faults rfl]
    exact .write rfl mine above free
  case neg =>
    refine .of_eq ?_
    have cell : ∀ p, update s.byte b (update (s.byte b) addr x) L.base (L.data + p % L.size) =
        s.byte L.base (L.data + p % L.size) := by
      intro p
      have hp : p % L.size < L.size := Nat.mod_lt _ (by omega)
      by_cases hb : L.base = b
      case pos =>
        subst hb
        have ha : L.data + p % L.size ≠ addr := fun h => here ⟨rfl, by omega, by omega⟩
        simp [ha]
      case neg => simp [hb]
    simp only [Link.ring, cell, faults]
    rfl

theorem Change.of_step {r : a.Ret} (hi : L.Inv (L.ring (s, g))) (ok : L.Ok i a (L.ring (s, g)))
    (header : HeaderOk i a (channels (s, g)))
    (e : World.exec plat i a s r s') : L.Change i a (L.ring (s, g)) (L.ring (s', g.record i a r s)) := by
  have frame := World.frame e
  have allowed := ok.allowed
  cases a
  case store w n note =>
    cases e
    exact .of_store ok header
  case fetchAdd w =>
    obtain ⟨_, rfl⟩ := e
    refine .of_eq (ring_stored (faults_eq rfl) rfl ?_)
    rcases w with _ | ⟨b, hd, f⟩
    case global => exact allowed.elim
    case ring =>
      cases f <;> first | exact allowed.elim | simp [words, writeCursor, readCursor]
  case compareExchange w cur new =>
    rcases e with ⟨hw, rfl, rfl⟩ | ⟨_, rfl, rfl⟩
    case inl => exact .of_exchange hw (by rintro b rfl; rfl) rfl allowed header
    case inr =>
      exact .of_eq (ring_frame (.same rfl) Ledger.record_failed.left (congrFun (faults_eq rfl) _) (by simp))
  case compareExchangeWeak w cur new =>
    rcases e with ⟨hw, rfl, rfl⟩ | ⟨rfl, rfl⟩
    case inl => exact .of_exchange hw (by rintro b rfl; rfl) rfl allowed header
    case inr =>
      exact .of_eq (ring_frame (.same rfl) Ledger.record_failed.right (congrFun (faults_eq rfl) _) (by simp))
  case writeByte b addr x => cases e; exact .of_write allowed
  case setSender h x =>
    cases e
    by_cases hh : h = L.hs
    case pos =>
      subst hh
      obtain ⟨mine, n, rc, c, rfl, fresh, old, room⟩ := allowed rfl
      rw [ring_sender (faults_eq rfl) rfl]
      exact .sender rfl mine fresh old room
    case neg => exact .of_eq (by simp [Link.ring, update_of_ne (Ne.symm hh), History.record, Ledger.record, Act.faulty])
  case setReceiver h x =>
    cases e
    by_cases hh : h = L.hr
    case pos =>
      subst hh
      obtain ⟨mine, n, rfl⟩ := allowed rfl
      rw [ring_receiver (faults_eq rfl) rfl]
      exact .receiver rfl mine
    case neg => exact .of_eq (by simp [Link.ring, update_of_ne (Ne.symm hh), History.record, Ledger.record, Act.faulty])
  case setBuf b =>
    cases e
    by_cases hi : i = L.rx
    case pos =>
      subst hi
      rw [ring_buf (faults_eq rfl) rfl]
      exact .buf rfl rfl
    case neg => exact .of_eq (by simp [Link.ring, update_of_ne (Ne.symm hi), History.record, Ledger.record, Act.faulty])
  case setOut o =>
    cases e
    by_cases hi : i = L.rx
    case pos =>
      subst hi
      rw [ring_out (faults_eq rfl) rfl]
      exact .out rfl rfl
    case neg => exact .of_eq (by simp [Link.ring, update_of_ne (Ne.symm hi), History.record, Ledger.record, Act.faulty])
  case createNew p =>
    rcases e with ⟨_, rfl, rfl⟩ | ⟨⟨_⟩, rfl⟩
    case inl =>
      have hne : L.base ≠ s.files := Nat.ne_of_lt hi.old
      have hr : L.ring (s.created p s.files, g.record i (.createNew p) (.ok s.files) s) =
          { L.ring (s, g) with files := s.files + 1 } := by
        simp [Link.ring, World.created, writeCursor, readCursor, hne, History.record, Ledger.record, Act.faulty]
      exact hr ▸ .create (Nat.le_succ _)
    case inr => exact .of_eq (ring_frame (.same rfl) rfl (congrFun (faults_eq rfl) _) (by simp))
  case lockPeer h =>
    obtain ⟨_, e⟩ := e
    split at e
    case isTrue => obtain ⟨rfl, rfl⟩ := e; exact .of_fault rfl rfl
    case isFalse =>
      obtain ⟨rfl, rfl⟩ := e
      exact .of_eq (ring_frame frame rfl (congrFun (faults_eq rfl) _) (by simp [Act.parts]))
  case readProcStat pid => exact .of_fault e.left rfl
  all_goals exact .of_eq (ring_frame frame rfl (congrFun (faults_eq rfl) _) (by simp [Act.parts]))

-- The effects of the actions that the two threads take on the ring.
section
variable {s s' : State}

theorem exec_load {w : Word} {r : Nat} (e : (machine plat).exec i (.load w) s r s') :
    r = s.fst.word w ∧ L.ring s' = L.ring s := by
  obtain ⟨⟨rfl, hs⟩, hg⟩ := e
  refine ⟨rfl, ring_frame (.same hs) ?_ ?_ (by simp)⟩
  · rw [hg]; rfl
  · rw [hg]; exact congrFun (faults_eq rfl) _

theorem exec_writeByte {q : Nat} {x : UInt8} {r : Unit}
    (e : (machine plat).exec i (.writeByte L.base (L.data + q % L.size) x) s r s') :
    L.ring s' = { L.ring s with cell := Window.write L.size (L.ring s).cell q x } := by
  obtain ⟨s', g'⟩ := s'
  obtain ⟨rfl, rfl⟩ : s' = _ ∧ g' = _ := e
  exact ring_written (faults_eq rfl) rfl

theorem exec_setSender {x : RingSender} {r : Unit} (e : (machine plat).exec i (.setSender L.hs x) s r s') :
    L.ring s' = { L.ring s with sender := x } := by
  obtain ⟨s', g'⟩ := s'
  obtain ⟨rfl, rfl⟩ : s' = _ ∧ g' = _ := e
  exact ring_sender (faults_eq rfl) rfl

theorem exec_setReceiver {x : RingReceiver} {r : Unit}
    (e : (machine plat).exec i (.setReceiver L.hr x) s r s') :
    L.ring s' = { L.ring s with receiver := x } := by
  obtain ⟨s', g'⟩ := s'
  obtain ⟨rfl, rfl⟩ : s' = _ ∧ g' = _ := e
  exact ring_receiver (faults_eq rfl) rfl

theorem exec_publish {n : Nat} {p : Bytes} {r : Unit}
    (e : (machine plat).exec i (.store L.writeCursor n (.publish p)) s r s') :
    L.ring s' = { L.ring s with wc := n, sent := (L.ring s).sent ++ [p] } := by
  obtain ⟨s', g'⟩ := s'
  obtain ⟨rfl, rfl⟩ : s' = _ ∧ g' = _ := e
  exact ring_published (faults_eq rfl) rfl

theorem exec_commit {n : Nat} {p : Option Bytes} {r : Unit}
    (e : (machine plat).exec i (.store L.readCursor n (.commit p)) s r s') :
    L.ring s' = { L.ring s with rc := n, received := (L.ring s).received ++ [p] } := by
  obtain ⟨s', g'⟩ := s'
  obtain ⟨rfl, rfl⟩ : s' = _ ∧ g' = _ := e
  exact ring_committed (faults_eq rfl) rfl

theorem exec_setBuf {b : Bytes} {r : Unit} (e : (machine plat).exec L.rx (.setBuf b) s r s') :
    L.ring s' = { L.ring s with buf := b } := by
  obtain ⟨s', g'⟩ := s'
  obtain ⟨rfl, rfl⟩ : s' = _ ∧ g' = _ := e
  exact ring_buf (faults_eq rfl) rfl

theorem exec_setOut {o : List Bytes} {r : Unit} (e : (machine plat).exec L.rx (.setOut o) s r s') :
    L.ring s' = { L.ring s with out := o } := by
  obtain ⟨s', g'⟩ := s'
  obtain ⟨rfl, rfl⟩ : s' = _ ∧ g' = _ := e
  exact ring_out (faults_eq rfl) rfl

end
end Link

def Link.protocol (L : Link) (plat : Platform) : Protocol ((machine plat).under (headerProtocol plat)) where
  inv s    := L.Inv (L.ring s)
  ok i a s := L.Ok i a (L.ring s)
  preserves := by
    rintro i a ⟨s, g⟩ r ⟨s', g'⟩ hi ok ⟨⟨e, hg⟩, _, header⟩
    obtain rfl : g' = _ := hg
    exact hi.change (.of_step hi ok header e)

-- What the two threads know.

abbrev Link.Tx (L : Link) (plat : Platform) :=
  Assertion (L.protocol plat) L.tx

abbrev Link.Rx (L : Link) (plat : Platform) :=
  Assertion (L.protocol plat) L.rx
