import ShmemIpc.Execution.Run
import ShmemIpc.Execution.Frame
import ShmemIpc.Library.Alone
import ShmemIpc.Ring.Record

-- Creating a channel, where each of the system calls may fail.

open Function

-- What the system calls of a call answer. `create_new` also fails if the path exists.
structure Faults where
  stat    : Except IoError (List Char)
  waitSet : Except IoError Unit
  create  : Option IoError
  setLen  : Option IoError
  mapMut  : Option IoError

namespace Faults

def exec (d : Faults) (plat : Platform) (i : ThreadId) : (a : Act) → World → a.Ret → World → Prop
  | .readProcStat _, s, r, s' => r = d.stat ∧ s' = s
  | .newWaitSet, s, r, s'     => r = d.waitSet ∧ s' = s
  | .createNew p, s, r, s'    =>
    match d.create, s.path p with
    | some e, _      => r = .error e ∧ s' = s
    | none, some _   => r = .error ⟨.alreadyExists, "File exists"⟩ ∧ s' = s
    | none, none     => r = .ok s.files ∧ s' = s.created p s.files
  | .setLen b n, s, r, s'     =>
    match d.setLen with
    | some e => r = .error e ∧ s' = s
    | none   => r = .ok () ∧ s' = { s with len := update s.len b n }
  | .mapMut b, s, r, s'       =>
    match d.mapMut with
    | some e => r = .error e ∧ s' = s
    | none   => r = .ok (s.len b) ∧ s' = s
  | a, s, r, s'               => World.exec plat i a s r s'

def machine (d : Faults) (plat : Platform) : Machine ThreadId Act Act.Ret World where
  exec := d.exec plat

-- All this is possible in the world if `/proc` answers so.
theorem world_exec {d : Faults} {plat : Platform} {i : ThreadId} {a : Act} {s s' : World} {r : a.Ret}
    (h : ∀ pid, World.exec plat i (.readProcStat pid) s d.stat s) (e : d.exec plat i a s r s') :
    World.exec plat i a s r s' := by
  cases a
  case readProcStat pid => exact e.left ▸ e.right ▸ h pid
  case newWaitSet       => exact e.right
  case createNew p      =>
    simp only [exec] at e
    split at e
    case h_1      => exact .inr ⟨e.left ▸ .intro _, e.right⟩
    case h_2      => exact .inr ⟨e.left ▸ .intro _, e.right⟩
    case h_3 free => exact .inl ⟨free, e⟩
  case setLen           =>
    simp only [exec] at e
    split at e
    case h_1 => exact .inr ⟨e.left ▸ .intro _, e.right⟩
    case h_2 => exact .inl e
  case mapMut           =>
    simp only [exec] at e
    split at e
    case h_1 => exact ⟨.inr (e.left ▸ .intro _), e.right⟩
    case h_2 => exact ⟨.inl e.left, e.right⟩
  all_goals exact e

end Faults

-- What the process learns of itself.

def Faults.read (d : Faults) : Except Error (Nat × Bool) :=
  match d.stat with
  | .ok t    => parseProcessStat t
  | .error e => .error (if e.kind = .notFound then .peerDisconnected else .io e)

def Faults.identity (d : Faults) (pid : Nat) : Except Error ProcessIdentity :=
  match d.read with
  | .ok (birth, _)           => .ok ⟨pid, birth⟩
  | .error .peerDisconnected => .error .unsupportedPlatform
  | .error e                 => .error e

-- The file system as a map of paths to contents.

structure Contents where
  len    : Nat
  global : GlobalField → Nat
  ring   : Nat → RingField → Nat
  byte   : Nat → UInt8

def World.contents (s : World) (b : FileId) : Contents :=
  ⟨s.len b, fun f => s.word (.global b f), fun h f => s.word (.ring b h f), s.byte b⟩

def World.fileSystem (s : World) (p : String) : Option Contents :=
  (s.path p).map s.contents

-- The header of a channel that waits for its client.
structure Contents.Ready (x : Contents) (config : ChannelConfig) (server : ProcessIdentity) : Prop where
  len     : x.len = (RingOffsets.new config.ringSize).totalSize
  magic   : x.global .magic = MAGIC
  version : x.global .version = VERSION
  size    : x.global .ringDataSize = config.ringSize
  server  : x.global .serverPid = server.pid ∧ x.global .serverBirth = server.birth
  client  : x.global .clientPid = 0 ∧ x.global .clientBirth = 0
  state   : x.global .state = ChannelState.serverReady.toU32
  rings   : ∀ f, x.ring (RingOffsets.new config.ringSize).ringAHeader f = 0 ∧
    x.ring (RingOffsets.new config.ringSize).ringBHeader f = 0

-- The call has created the whole channel, or nothing.
def AllOrNothing (d : Faults) (i : ThreadId) (name : String) (config : ChannelConfig) (s : World) :
    Except Error Channel → World → Prop
  | .ok _, s'    =>
    s.fileSystem (shmPath name) = none ∧ (∀ p ≠ shmPath name, s'.fileSystem p = s.fileSystem p) ∧
    ∃ x server, s'.fileSystem (shmPath name) = some x ∧ d.identity (s.process i).pid = .ok server ∧
    x.Ready config server
  | .error _, s' => s'.fileSystem = s.fileSystem

-- The call creates the file.
structure Faults.Creates (d : Faults) (i : ThreadId) (name : String) (config : ChannelConfig) (s : World) : Prop where
  valid    : validateConfig config = .ok ()
  identity : ∃ server, d.identity (s.process i).pid = .ok server
  waitSet  : d.waitSet = .ok ()
  create   : d.create = none
  free     : s.path (shmPath name) = none

-- `create_with_config` behind the creation of the file.
def Channel.afterCreate (name : String) (config : ChannelConfig) (identity : ProcessIdentity) (waitKey : Nat)
    (file : FileId) :
    Routine Channel := do
  orFail (← setLen file (RingOffsets.new config.ringSize).totalSize)
  let _ ← orFail (← mapMut file)
  initHeader file config identity waitKey
  store (.global file .state) ChannelState.serverReady.toU32
  let started ← now
  let h ← newShared ⟨.server, file, name, started, config.connectTimeout⟩ none
  fromShared h config

namespace Faults

variable {d : Faults} {plat : Platform} {i : ThreadId} {s : World} {name : String} {config : ChannelConfig}

theorem processStat_alone {pid : Nat} :
    (processStat pid).Alone (d.machine plat) i s fun v s' => v = d.read ∧ s' = s := by
  refine .step (fun _ _ => Iff.rfl) ?_
  cases hs : d.stat
  case ok t =>
    show (Code.ofExcept (parseProcessStat t)).Alone (d.machine plat) i s _
    cases hp : parseProcessStat t
    case ok    => exact .pure ⟨by simp [read, hs, hp], rfl⟩
    case error => exact .throw ⟨by simp [read, hs, hp], rfl⟩
  case error e =>
    show (if e.kind = .notFound then fail .peerDisconnected else fail (.io e)).Alone (d.machine plat) i s _
    by_cases missing : e.kind = .notFound
    case pos => rw [if_pos missing]; exact .throw ⟨by simp [read, hs, missing], rfl⟩
    case neg => rw [if_neg missing]; exact .throw ⟨by simp [read, hs, missing], rfl⟩

theorem currentIdentity_alone :
    currentIdentity.Alone (d.machine plat) i s fun v s' => v = d.identity (s.process i).pid ∧ s' = s := by
  refine .step (fun _ _ => Iff.rfl) (.attempt processStat_alone ?_)
  rintro v s' ⟨rfl, rfl⟩
  cases hr : d.read
  case ok x    => exact .pure ⟨by simp [identity, hr], rfl⟩
  case error e =>
    cases e
    all_goals exact .throw ⟨by simp [identity, hr], rfl⟩

theorem orFail_alone {α : Type} {r : Except IoError α} :
    (orFail r).Alone (d.machine plat) i s fun v s' => v = r.mapError .io ∧ s' = s := by
  cases r
  case ok    => exact .pure ⟨rfl, rfl⟩
  case error => exact .throw ⟨rfl, rfl⟩

theorem create_alone {Q : Except Error Channel → World → Prop}
    (stops : ¬ d.Creates i name config s → ∀ e, Q (.error e) s)
    (goes : d.Creates i name config s → ∀ server key, d.identity (s.process i).pid = .ok server →
      (Channel.afterCreate name config server key s.files).Alone (d.machine plat) i
      (s.created (shmPath name) s.files) Q) :
    (Channel.createWithConfig name config).Alone (d.machine plat) i s Q := by
  refine .bind (M := fun v t => v = validateConfig config ∧ t = s) (.ofExcept ⟨rfl, rfl⟩) ?_ ?_
  case refine_2 =>
    rintro e t ⟨hv, rfl⟩
    exact stops (fun h => nomatch hv.trans h.valid) e
  rintro _ t ⟨valid, rfl⟩
  refine .bind currentIdentity_alone ?_ ?_
  case refine_2 =>
    rintro e t ⟨hv, rfl⟩
    exact stops (fun h => nomatch hv.trans h.identity.choose_spec) e
  rintro server t ⟨identity, rfl⟩
  refine .act ⟨0, t, rfl⟩ ?_
  rintro key t' rfl
  refine .step (fun _ _ => Iff.rfl) (.bind orFail_alone ?_ ?_)
  case refine_2 =>
    rintro e t ⟨hv, rfl⟩
    exact stops (fun h => by rw [h.waitSet] at hv; cases hv) e
  rintro _ t ⟨waitSet, rfl⟩
  have waitSet : d.waitSet = .ok () := by
    cases hw : d.waitSet
    case ok    => rfl
    case error => rw [hw] at waitSet; cases waitSet
  cases hc : d.create
  case some e =>
    have exec (r : Except IoError FileId) (t' : World) : (d.machine plat).exec i (.createNew (shmPath name)) t r t' ↔
        r = .error e ∧ t' = t := by simp [machine, exec, hc]
    refine .step exec (.bind orFail_alone nofun ?_)
    rintro e t ⟨_, rfl⟩
    exact stops (fun h => nomatch hc.symm.trans h.create) e
  case none =>
    cases hp : t.path (shmPath name)
    case some b =>
      have exec (r : Except IoError FileId) (t' : World) : (d.machine plat).exec i (.createNew (shmPath name)) t r t' ↔
          r = .error ⟨.alreadyExists, "File exists"⟩ ∧ t' = t := by simp [machine, exec, hc, hp]
      refine .step exec (.bind orFail_alone nofun ?_)
      rintro e t ⟨_, rfl⟩
      exact stops (fun h => nomatch hp.symm.trans h.free) e
    case none =>
      have exec (r : Except IoError FileId) (t' : World) : (d.machine plat).exec i (.createNew (shmPath name)) t r t' ↔
          r = .ok t.files ∧ t' = t.created (shmPath name) t.files := by simp [machine, exec, hc, hp]
      refine .step exec (.bind orFail_alone ?_ nofun)
      rintro file t' ⟨hf, rfl⟩
      cases hf
      exact goes ⟨valid.symm, ⟨server, identity.symm⟩, waitSet, hc, hp⟩ server key identity.symm

theorem store_alone {w : Word} {n : Nat} {note : Note} {α : Type} {f : Unit → Routine α}
    {Q : Except Error α → World → Prop}
    (h : (f ()).Alone (d.machine plat) i (s.stored w n) Q) : (store w n note >>= f).Alone (d.machine plat) i s Q :=
  .step (v := ()) (fun _ _ => ⟨fun e => ⟨rfl, e⟩, And.right⟩) h

end Faults

def Word.file : Word → FileId
  | .global b _ | .ring b _ _ => b

-- Only words of the file `b` have changed.
structure Inside (b : FileId) (s s' : World) : Prop where
  words : ∀ w, w.file ≠ b → s'.word w = s.word w
  same  : s' = { s with word := s'.word }

namespace Inside

variable {b : FileId} {s s' t : World}

theorem refl : Inside b s s where
  words _ _ := rfl
  same      := rfl

theorem stored {w : Word} {n : Nat} (h : Inside b s s') (hw : w.file = b) : Inside b s (s'.stored w n) where
  words v hv := by
    have ne : v ≠ w := fun same => hv (same ▸ hw)
    simpa [World.stored, ne] using h.words v hv
  same := by
    conv => lhs; rw [World.stored, h.same]
    rfl

theorem contents (h : Inside b s s') {b' : FileId} (ne : b' ≠ b) : s'.contents b' = s.contents b' := by
  have global (f : GlobalField) : s'.word (.global b' f) = s.word (.global b' f) := h.words _ ne
  have ring (k : Nat) (f : RingField) : s'.word (.ring b' k f) = s.word (.ring b' k f) := h.words _ ne
  have len : s'.len = s.len := by rw [h.same]
  have byte : s'.byte = s.byte := by rw [h.same]
  simp only [World.contents, global, ring, len, byte]

end Inside

def World.cleared (s : World) (b : FileId) (header : Nat) : World :=
  s |>.stored (.ring b header .writeCursor) 0 |>.stored (.ring b header .writerNotify) 0
    |>.stored (.ring b header .writerParked) 0 |>.stored (.ring b header .readCursor) 0
    |>.stored (.ring b header .readerNotify) 0 |>.stored (.ring b header .readerParked) 0

-- The file `b` with the fields that `init_header` begins with.
def World.named (s : World) (b : FileId) (config : ChannelConfig) (server : ProcessIdentity) (key : Nat) : World :=
  s |>.stored (.global b .magic) MAGIC |>.stored (.global b .version) VERSION
    |>.stored (.global b .ringDataSize) (wrap32 config.ringSize) |>.stored (.global b .serverPid) server.pid
    |>.stored (.global b .serverBirth) server.birth |>.stored (.global b .waitKey) key
    |>.stored (.global b .clientPid) 0 |>.stored (.global b .clientBirth) 0

def World.inited (s : World) (b : FileId) (config : ChannelConfig) (server : ProcessIdentity) (key : Nat) : World :=
  (s.named b config server key).cleared b (RingOffsets.new config.ringSize).ringAHeader
    |>.cleared b (RingOffsets.new config.ringSize).ringBHeader

theorem Inside.cleared {b : FileId} {s s' : World} {header : Nat} (h : Inside b s s') :
    Inside b s (s'.cleared b header) :=
  h |>.stored rfl |>.stored rfl |>.stored rfl |>.stored rfl |>.stored rfl |>.stored rfl

theorem Inside.named {b : FileId} {s : World} {config : ChannelConfig} {server : ProcessIdentity} {key : Nat} :
    Inside b s (s.named b config server key) := by
  unfold World.named
  iterate 8 refine .stored ?_ rfl
  exact .refl

theorem Inside.inited {b : FileId} {s : World} {config : ChannelConfig} {server : ProcessIdentity} {key : Nat} :
    Inside b s (s.inited b config server key) :=
  .cleared (.cleared .named)

theorem cleared_global {s : World} {b : FileId} {header : Nat} {field : GlobalField} :
    (s.cleared b header).word (.global b field) = s.word (.global b field) := by
  simp [World.cleared, World.stored]

theorem cleared_ring {s : World} {b : FileId} {header h : Nat} {field : RingField} :
    (s.cleared b header).word (.ring b h field) = if h = header then 0 else s.word (.ring b h field) := by
  cases field <;> simp [World.cleared, World.stored, update_apply]

-- The fields of the header of a new channel.
def headerField (config : ChannelConfig) (server : ProcessIdentity) (key : Nat) : GlobalField → Nat
  | .magic                    => MAGIC
  | .version                  => VERSION
  | .ringDataSize             => wrap32 config.ringSize
  | .serverPid                => server.pid
  | .serverBirth              => server.birth
  | .waitKey                  => key
  | .clientPid | .clientBirth => 0
  | .state                    => ChannelState.serverReady.toU32

def World.advertised (s : World) (b : FileId) (config : ChannelConfig) (server : ProcessIdentity) (key : Nat) : World :=
  (s.inited b config server key).stored (.global b .state) ChannelState.serverReady.toU32

section
variable {b : FileId} {s : World} {config : ChannelConfig} {server : ProcessIdentity} {key : Nat}

theorem Inside.advertised : Inside b s (s.advertised b config server key) :=
  .stored .inited rfl

theorem advertised_global {f : GlobalField} :
    (s.advertised b config server key).word (.global b f) = headerField config server key f := by
  rw [World.advertised, World.inited]
  cases f
  case state => simp [World.stored, headerField]
  all_goals simp [World.stored, cleared_global, World.named, headerField]

theorem advertised_ring {h : Nat} {f : RingField}
    (hh : h ∈ [(RingOffsets.new config.ringSize).ringAHeader, (RingOffsets.new config.ringSize).ringBHeader]) :
    (s.advertised b config server key).word (.ring b h f) = 0 := by
  have state :
      (s.advertised b config server key).word (.ring b h f) = (s.inited b config server key).word (.ring b h f) := by
    simp [World.advertised, World.stored]
  rw [state, World.inited, cleared_ring, cleared_ring]
  simp only [List.mem_cons, List.not_mem_nil, or_false] at hh
  rcases hh with rfl | rfl
  · simp
  · simp

theorem ready_of_fields (valid : validateConfig config = .ok ())
    (len : s.len b = (RingOffsets.new config.ringSize).totalSize)
    (global : ∀ f, s.word (.global b f) = headerField config server key f)
    (ring : ∀ h ∈ [(RingOffsets.new config.ringSize).ringAHeader, (RingOffsets.new config.ringSize).ringBHeader], ∀ f,
      s.word (.ring b h f) = 0) : (s.contents b).Ready config server where
  len     := len
  magic   := global .magic
  version := global .version
  size    := by
    have ⟨k, _, hk, size⟩ := Ring.ringSize_eq valid
    exact (global .ringDataSize).trans (Nat.mod_eq_of_lt (size ▸ Nat.pow_lt_pow_right (by omega) hk))
  server  := ⟨global .serverPid, global .serverBirth⟩
  client  := ⟨global .clientPid, global .clientBirth⟩
  state   := global .state
  rings f := ⟨ring _ (by simp) f, ring _ (by simp) f⟩

end

namespace Faults

variable {d : Faults} {plat : Platform} {i : ThreadId} {s : World} {name : String} {config : ChannelConfig}
variable {b : FileId} {server : ProcessIdentity} {key : Nat}

theorem initRingHeader_alone {header : Nat} :
    (Channel.initRingHeader b header).Alone (d.machine plat) i s fun v s' => v = .ok () ∧ s' = s.cleared b header := by
  refine store_alone (store_alone (store_alone (store_alone (store_alone ?_))))
  exact .last ⟨(), _, rfl⟩ fun _ _ e => ⟨rfl, e⟩

theorem initHeader_alone : (Channel.initHeader b config server key).Alone (d.machine plat) i s fun v s' =>
    v = .ok () ∧ s' = s.inited b config server key := by
  refine store_alone
    (store_alone (store_alone (store_alone (store_alone (store_alone (store_alone (store_alone ?_)))))))
  refine .bind initRingHeader_alone ?_ nofun
  rintro _ t ⟨_, rfl⟩
  exact initRingHeader_alone

-- The rest of the call changes no file.
structure SameFiles (s s' : World) : Prop where
  path : s'.path = s.path
  len  : s'.len = s.len
  word : s'.word = s.word
  byte : s'.byte = s.byte

theorem SameFiles.contents {s' : World} (h : SameFiles s s') : s'.contents = s.contents := by
  funext b
  simp only [World.contents, h.len, h.word, h.byte]

theorem fromShared_alone {h : Handle} {x : SharedChannel} (hx : s.shared h = some x) :
    (Channel.fromShared h config).Alone (d.machine plat) i s fun v s' => (∃ ch, v = .ok ch) ∧ SameFiles s s' := by
  have exec (r : SharedChannel) (t : World) : (d.machine plat).exec i (.getShared h) s r t ↔ r = x ∧ t = s := by
    simp [machine, exec, World.exec, hx, eq_comm]
  refine .step exec (.step (v := ()) (fun _ _ => ⟨fun e => ⟨rfl, e⟩, And.right⟩) ?_)
  refine .step (v := ()) (fun _ _ => ⟨fun e => ⟨rfl, e⟩, And.right⟩) ?_
  exact .pure ⟨⟨_, rfl⟩, rfl, rfl, rfl, rfl⟩

theorem newChannel_alone :
    (do
      let started ← now
      let h ← newShared ⟨.server, b, name, started, config.connectTimeout⟩ none
      Channel.fromShared h config : Routine Channel).Alone (d.machine plat) i s fun v s' =>
      (∃ ch, v = .ok ch) ∧ SameFiles s s' := by
  refine .act ⟨_, _, Nat.le_refl _, rfl⟩ ?_
  rintro started _ ⟨_, rfl⟩
  refine .act ⟨_, _, rfl, rfl⟩ ?_
  rintro h _ ⟨_, rfl⟩
  refine (fromShared_alone (update_self _ _ _)).mono fun v t same => ⟨same.left, ?_⟩
  exact ⟨same.right.path, same.right.len, same.right.word, same.right.byte⟩

-- The files of the world before, and a channel in the file `b`.
structure Published (b : FileId) (config : ChannelConfig) (server : ProcessIdentity) (s s' : World) : Prop where
  path   : s'.path = s.path
  others : ∀ b' ≠ b, s'.contents b' = s.contents b'
  ready  : (s'.contents b).Ready config server

theorem afterCreate_alone (valid : validateConfig config = .ok ()) (setLen : d.setLen = none)
    (mapMut : d.mapMut = none) :
    (Channel.afterCreate name config server key b).Alone (d.machine plat) i s fun v s' =>
      (∃ ch, v = .ok ch) ∧ Published b config server s s' := by
  let sized : World := { s with len := update s.len b (RingOffsets.new config.ringSize).totalSize }
  have resized (r : Except IoError Unit) (t : World) :
      (d.machine plat).exec i (.setLen b (RingOffsets.new config.ringSize).totalSize) s r t ↔
      r = .ok () ∧ t = sized := by
    simp [machine, exec, setLen, sized]
  have mapped (r : Except IoError Nat) (t : World) :
      (d.machine plat).exec i (.mapMut b) sized r t ↔ r = .ok (sized.len b) ∧ t = sized := by
    simp [machine, exec, mapMut]
  refine .step resized (.bind orFail_alone ?_ nofun)
  rintro _ _ ⟨_, rfl⟩
  refine .step mapped (.bind orFail_alone ?_ nofun)
  rintro _ _ ⟨_, rfl⟩
  refine .bind initHeader_alone ?_ nofun
  rintro _ _ ⟨_, rfl⟩
  refine store_alone (newChannel_alone.mono fun v s' h => ⟨h.left, ?_⟩)
  have same : SameFiles (sized.advertised b config server key) s' := h.right
  have inside : Inside b sized (sized.advertised b config server key) := .advertised
  constructor
  case path => rw [same.path, inside.same]
  case others =>
    intro b' ne
    have old : sized.contents b' = s.contents b' := by simp [World.contents, sized, ne]
    rw [same.contents, inside.contents ne, old]
  case ready =>
    have global (f : GlobalField) : s'.word (.global b f) = headerField config server key f := by
      rw [same.word, advertised_global]
    refine ready_of_fields valid ?_ global fun h hh f => ?_
    · rw [same.len, inside.same]
      exact update_self _ _ _
    · rw [same.word, advertised_ring hh]

theorem afterCreate_fails (h : d.setLen ≠ none ∨ d.mapMut ≠ none) :
    (Channel.afterCreate name config server key b).Alone (d.machine plat) i s fun v s' =>
      (∃ e, v = .error e) ∧ s'.path = s.path := by
  cases hl : d.setLen
  case some e =>
    have exec (r : Except IoError Unit) (t : World) :
        (d.machine plat).exec i (.setLen b (RingOffsets.new config.ringSize).totalSize) s r t ↔
        r = .error e ∧ t = s := by
      simp [machine, exec, hl]
    refine .step exec (.bind orFail_alone nofun ?_)
    rintro e t ⟨_, rfl⟩
    exact ⟨⟨e, rfl⟩, rfl⟩
  case none =>
    let sized : World := { s with len := update s.len b (RingOffsets.new config.ringSize).totalSize }
    have resized (r : Except IoError Unit) (t : World) :
        (d.machine plat).exec i (.setLen b (RingOffsets.new config.ringSize).totalSize) s r t ↔
        r = .ok () ∧ t = sized := by
      simp [machine, exec, hl, sized]
    refine .step resized (.bind orFail_alone ?_ nofun)
    rintro _ _ ⟨_, rfl⟩
    cases hm : d.mapMut
    case none   => exact absurd hm (h.resolve_left (not_not.mpr hl))
    case some e =>
      have mapped (r : Except IoError Nat) (t : World) :
          (d.machine plat).exec i (.mapMut b) sized r t ↔ r = .error e ∧ t = sized := by simp [machine, exec, hm]
      refine .step mapped (.bind orFail_alone nofun ?_)
      rintro e _ ⟨_, rfl⟩
      exact ⟨⟨e, rfl⟩, rfl⟩

-- The path of a file that exists.
def Linked (s : World) : Prop :=
  ∀ p b, s.path p = some b → b < s.files

-- Every file system that the world can have is of this kind.
theorem Linked.exec {a : Act} {s' : World} {r : a.Ret} (h : Linked s) (e : World.exec plat i a s r s') : Linked s' := by
  by_cases change : a.parts = [.path] ∨ a.parts = [.path, .len, .word, .byte, .files]
  case neg =>
    have path : s'.path = s.path := (World.frame e).path fun hp => by cases a <;> simp [Act.parts] at hp change
    have files : s'.files = s.files := (World.frame e).files fun hf => by cases a <;> simp [Act.parts] at hf change
    intro p b hb
    exact files ▸ h p b (path ▸ hb)
  case pos =>
    intro p b hb
    cases a <;> simp only [Act.parts] at change <;> try exact absurd change (by decide)
    case createNew q =>
      rcases e with ⟨_, _, rfl⟩ | ⟨_, rfl⟩
      case inr => exact h p b hb
      case inl =>
        by_cases same : p = q
        · simp only [World.created, same, update_self, Option.some.injEq] at hb
          exact hb ▸ Nat.lt_succ_self _
        · simp only [World.created, update_of_ne same] at hb
          exact Nat.lt_succ_of_lt (h p b hb)
    case removeFile q =>
      rcases e with ⟨_, _, rfl⟩ | ⟨_, rfl⟩
      case inr => exact h p b hb
      case inl =>
        by_cases same : p = q
        · simp [same] at hb
        · exact h p b (by simpa [same] using hb)

theorem created_contents {p : String} {b' : FileId} (ne : b' ≠ b) : (s.created p b).contents b' = s.contents b' := by
  simp [World.contents, World.created, ne]

theorem create_atomic (linked : Linked s)
    (whole : ¬ (d.Creates i name config s ∧ (d.setLen ≠ none ∨ d.mapMut ≠ none))) :
    (Channel.createWithConfig name config).Alone (d.machine plat) i s (AllOrNothing d i name config s) := by
  refine create_alone (fun _ _ => rfl) fun creates server key identity => ?_
  have ⟨setLen, mapMut⟩ : d.setLen = none ∧ d.mapMut = none := by simpa [creates] using whole
  refine (afterCreate_alone creates.valid setLen mapMut).mono fun v s' h => ?_
  obtain ⟨⟨ch, rfl⟩, published⟩ := h
  have path : s'.path = update s.path (shmPath name) (some s.files) := published.path
  refine ⟨by simp [World.fileSystem, creates.free], fun p hp => ?_, s'.contents s.files, server, ?_, identity,
    published.ready⟩
  · rw [World.fileSystem, World.fileSystem, path, update_of_ne hp]
    refine Option.map_congr fun b hb => ?_
    have ne : b ≠ s.files := Nat.ne_of_lt (linked p b hb)
    rw [published.others b ne, created_contents ne]
  · rw [World.fileSystem, path, update_self]
    rfl

theorem create_leaves (creates : d.Creates i name config s) (h : d.setLen ≠ none ∨ d.mapMut ≠ none) :
    (Channel.createWithConfig name config).Alone (d.machine plat) i s fun v s' =>
      (∃ e, v = .error e) ∧ s'.path = update s.path (shmPath name) (some s.files) := by
  refine create_alone (fun h => absurd creates h) fun _ server key _ => ?_
  exact afterCreate_fails h

theorem create_all_or_nothing (linked : Linked s) :
    (Channel.createWithConfig name config).Alone (d.machine plat) i s (AllOrNothing d i name config s) ↔
      ¬ (d.Creates i name config s ∧ (d.setLen ≠ none ∨ d.mapMut ≠ none)) := by
  refine ⟨fun atomic ⟨creates, h⟩ => ?_, create_atomic linked⟩
  have ⟨v, s', ends, fails⟩ := Program.Alone.exists_both atomic (create_leaves creates h)
  obtain ⟨⟨e, rfl⟩, path⟩ := fails
  have same : s'.fileSystem (shmPath name) = s.fileSystem (shmPath name) := congrFun ends _
  simp [World.fileSystem, path, creates.free] at same

-- All calls succeed.
def none : Faults where
  stat    := .ok "1 (a) S 1 1 1 1 1 1 1 1 1 1 1 1 1 1 1 1 1 1 100".toList
  waitSet := .ok ()
  create  := .none
  setLen  := .none
  mapMut  := .none

-- There is no memory for the mapping.
def unmapped : Faults :=
  { none with mapMut := some ⟨.other, "Cannot allocate memory"⟩ }

abbrev small : ChannelConfig :=
  ⟨64, ⟨1⟩, 1000⟩

theorem linked_start : Linked World.start :=
  nofun

theorem create_all_or_nothing_start :
    (Channel.createWithConfig "a" small).Alone (none.machine .linux) 0 World.start
      (AllOrNothing none 0 "a" small World.start) :=
  (create_all_or_nothing linked_start).mpr fun h => by simpa [none] using h.right

-- The channel cannot be created any more.
theorem create_not_atomic :
    (¬ (Channel.createWithConfig "a" small).Alone (unmapped.machine .linux) 0 World.start
      (AllOrNothing unmapped 0 "a" small World.start)) ∧
    (Channel.createWithConfig "a" small).Alone (unmapped.machine .linux) 0 World.start fun v s =>
      (∃ e, v = .error e) ∧ s.path (shmPath "a") = some 0 ∧
        (Channel.createWithConfig "a" small).Alone (none.machine .linux) 0 s fun v _ => ∃ e, v = .error e := by
  have creates : unmapped.Creates 0 "a" small World.start := ⟨by decide, ⟨⟨1, 100⟩, by rfl⟩, rfl, rfl, rfl⟩
  have fails : unmapped.setLen ≠ .none ∨ unmapped.mapMut ≠ .none := .inr nofun
  have leaves := @create_leaves _ .linux _ _ _ _ creates fails
  constructor
  case left  =>
    intro atomic
    have ⟨v, s, ends, ⟨e, he⟩, path⟩ := Program.Alone.exists_both atomic leaves
    subst he
    have same : s.fileSystem (shmPath "a") = World.start.fileSystem (shmPath "a") := congrFun ends _
    simp [World.fileSystem, path, creates.free] at same
  case right =>
    refine leaves.mono fun v s h => ?_
    have found : s.path (shmPath "a") = some 0 := by rw [h.right, update_self]; rfl
    refine ⟨h.left, found, create_alone (fun _ e => ⟨e, rfl⟩) fun again => ?_⟩
    exact nomatch found.symm.trans again.free

end Faults
