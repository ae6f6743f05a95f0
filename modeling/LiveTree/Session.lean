import LiveTree.Attributes
import LiveTree.Bytes
import LiveTree.Fault
import LiveTree.Settings

/-!
# Sessions

What lies between opening a file and closing it: a content fixed at the start that reads look at,
and a buffer that writes fill. Nothing written reaches the node before the close.
-/

namespace LiveTree

/-- An open session. -/
structure Session where
  path : String
  access : Access
  /-- What reads see. -/
  snapshot : Bytes
  /-- What writes have put together. -/
  pending : Bytes := #[]
  /-- Whether a write or a truncation has touched `pending`. -/
  dirty : Bool := false
deriving DecidableEq, Repr

namespace Session

/-- The part of the snapshot a read sees, if the session may read. -/
def read (s : Session) (offset size : Nat) : Except Fault Bytes :=
  if s.access.read then .ok (s.snapshot.slice offset size)
  else .error (.accessConflict (s.path ++ " not opened for reading"))

/-- The session after writing `data` at `offset` into the pending buffer. -/
def write (s : Session) (offset : Nat) (data : Bytes) : Except Fault Session :=
  if !s.access.write then .error (.accessConflict (s.path ++ " not opened for writing"))
  else if maxPendingBytes < offset + data.size then .error (.tooLarge maxPendingBytes)
  else .ok { s with pending := s.pending.overlay offset data, dirty := true }

/-- The session with its pending buffer cut to `size`; it cannot grow. -/
def truncate (s : Session) (size : Nat) : Except Fault Session :=
  if s.pending.size < size then
    .error (.unsupported ("growing " ++ s.path ++ " to " ++ toString size ++ " bytes"))
  else .ok { s with pending := s.pending.take size, dirty := true }

/-- What the close of the session hands on: the pending buffer, if a write session touched it. -/
def commit? (s : Session) : Option Bytes :=
  if s.access.write && s.dirty then some s.pending else none

end Session

end LiveTree
