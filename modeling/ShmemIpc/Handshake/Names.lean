import ShmemIpc.Library.Fields
import ShmemIpc.Handshake.Code

namespace Handshake

open Fields

-- What a listener makes a connection name of.
structure Ticket where
  name     : String
  identity : ProcessIdentity
  serial   : Nat
  counter  : Nat
  deriving DecidableEq, Repr

namespace Ticket

def text (t : Ticket) : String :=
  connNameText t.name (incarnationText t.identity t.serial) t.counter

variable {t u : Ticket}

theorem toList_text : t.text.toList =
    (((t.name.toList ++ ['.', 'c', 'o', 'n', 'n'] ++ '.' :: Nat.toDigits 10 t.identity.pid) ++
      '.' :: Nat.toDigits 16 t.identity.birth) ++ '.' :: Nat.toDigits 16 t.serial) ++
      '.' :: Nat.toDigits 10 t.counter := by
  have conn : ".conn.".toList = ['.', 'c', 'o', 'n', 'n', '.'] := rfl
  have dot : ".".toList = ['.'] := rfl
  simp [text, connNameText, incarnationText, lowerHex, conn, dot]

-- A name may contain dots of its own, as the fields after it contain none.
theorem text_inj (h : t.text = u.text) : t = u := by
  have dec {n : Nat} : '.' ∉ Nat.toDigits 10 n := dot_not_mem_toDigits (by decide)
  have hex {n : Nat} : '.' ∉ Nat.toDigits 16 n := dot_not_mem_toDigits (by decide)
  have h : t.text.toList = u.text.toList := congrArg _ h
  rw [toList_text, toList_text] at h
  have ⟨h, counter⟩ := last_inj dec dec h
  have ⟨h, serial⟩ := last_inj hex hex h
  have ⟨h, birth⟩ := last_inj hex hex h
  have ⟨h, pid⟩ := last_inj dec dec h
  obtain ⟨name, ⟨p, b⟩, s, c⟩ := t
  obtain rfl := toDigits_inj (by decide) (by decide) counter
  obtain rfl := toDigits_inj (by decide) (by decide) serial
  obtain rfl := toDigits_inj (by decide) (by decide) birth
  obtain rfl := toDigits_inj (by decide) (by decide) pid
  obtain rfl := String.toList_inj.mp (List.append_cancel_right h)
  rfl

end Ticket

theorem shmPath_inj {x y : String} (h : shmPath x = shmPath y) : x = y := by
  unfold shmPath at h
  exact (String.append_right_inj _).mp h

-- A name is no longer than its path.
theorem length_shmPath {x : String} : (Utf8.encode x.toList).length ≤ (Utf8.encode (shmPath x).toList).length := by
  have path : (shmPath x).toList = "/dev/shm/shmem_ipc_".toList ++ x.toList := String.toList_append
  rw [path, Utf8.encode_append, List.length_append]
  exact Nat.le_add_left ..

theorem handshakePath_inj {x y : String} (h : handshakePath x = handshakePath y) : x = y := by
  unfold handshakePath at h
  exact (String.append_right_inj _).mp ((String.append_left_inj _).mp h)

-- What a server sends.

def frame (name : String) : Bytes :=
  lenToLeBytes (Utf8.encode name.toList).length ++ Utf8.encode name.toList

theorem lenFromLeBytes_toLeBytes {n : Nat} : lenFromLeBytes (lenToLeBytes n) = n % 2 ^ 16 := by
  simp only [lenFromLeBytes, lenToLeBytes, UInt8.toNat_ofNat']
  omega

-- What a client makes of the first part of a frame.
theorem decode_of_prefix {name : String} {len buf : Bytes} (h : len ++ buf <+: frame name) (hl : len.length = 2)
    (hb : buf.length = lenFromLeBytes len) (small : (Utf8.encode name.toList).length < 2 ^ 16) :
    Utf8.decode buf = some name.toList := by
  obtain ⟨rest, h⟩ := h
  rw [frame, List.append_assoc] at h
  obtain ⟨rfl, text⟩ := List.append_inj h hl
  rw [lenFromLeBytes_toLeBytes, Nat.mod_eq_of_lt small] at hb
  obtain ⟨rfl, -⟩ := List.append_inj (text.trans (List.append_nil _).symm) hb
  exact Utf8.decode_encode

end Handshake
