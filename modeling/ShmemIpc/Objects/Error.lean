import Mathlib.Algebra.Group.Nat.Defs

-- The kinds of `std::io::ErrorKind` that the code tells apart, and the others.
inductive IoErrorKind
  | notFound
  | alreadyExists
  | invalidInput
  | invalidData
  | unsupported
  | other
  deriving DecidableEq, Repr

structure IoError where
  kind    : IoErrorKind
  message : String
  deriving DecidableEq, Repr

inductive Error
  | timedOut
  | peerDisconnected
  | messageTooLarge (size max : Nat)
  | channelClosed
  | invalidHeader
  | unsupportedPlatform
  | sequenceMismatch (expected got : Nat)
  | io (e : IoError)
  deriving DecidableEq, Repr

namespace Error

-- The two errors by which an operation reports a terminal channel state.
def Terminal : Error → Prop
  | channelClosed | peerDisconnected => True
  | _                                => False

instance : DecidablePred Terminal
  | channelClosed | peerDisconnected => isTrue trivial
  | timedOut | messageTooLarge .. | invalidHeader | unsupportedPlatform | sequenceMismatch .. | io _ =>
    isFalse id

-- The errors by which a receiver reports a record that it cannot take.
def Framing : Error → Prop
  | messageTooLarge .. | sequenceMismatch .. => True
  | _                                        => False

end Error
