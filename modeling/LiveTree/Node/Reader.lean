import LiveTree.Bytes
import LiveTree.Fault
import LiveTree.Settings

/-!
# Readers

A reader answers reads at an offset with at most so many octets as asked for, and has an end: at and
past it there is nothing. Out of such reads, which may come back short, larger ones are put
together: `upTo` reads a range, `drain` all that is left.
-/

namespace LiveTree

/-- Something that can be read in parts. -/
structure Reader where
  /-- The part of at most `size` octets at `offset`. -/
  read : (offset size : Nat) → Except Fault Bytes
  /-- Nothing is read at or past this offset. -/
  extent : Nat
  read_past : ∀ offset size part, read offset size = .ok part → extent ≤ offset → part = #[]

namespace Reader

/-- Reads on at `offset` behind `got`, until there are `want` octets or nothing more comes. At least
one read is made. -/
def upTo (r : Reader) (offset want : Nat) (got : Bytes) : Except Fault Bytes :=
  match r.read (offset + got.size) (min (want - got.size) readChunk) with
  | .error fault => .error fault
  | .ok part =>
    if _h : part.size = 0 ∨ want ≤ got.size + part.size then .ok (got ++ part)
    else r.upTo offset want (got ++ part)
termination_by want - got.size
decreasing_by
  simp only [not_or, Nat.not_le, Array.size_append] at _h ⊢
  omega

/-- What is read at or past the end is what was there before. -/
theorem upTo_past {r : Reader} {offset want : Nat} {got all : Bytes}
    (h : r.upTo offset want got = .ok all) (he : r.extent ≤ offset + got.size) : all = got := by
  rw [upTo] at h
  split at h
  · cases h
  · next part hp =>
    have : part = #[] := r.read_past _ _ _ hp he
    subst this
    simpa using h.symm

/-- Reads all that stands at and behind `position`, by ranges of `readChunk` octets, until one is
empty. `got` stands before it. -/
def drainOnto (r : Reader) (got : Bytes) (position : Nat) : Except Fault Bytes :=
  match _h : r.upTo position readChunk #[] with
  | .error fault => .error fault
  | .ok part =>
    if _h' : part.size = 0 then .ok got else r.drainOnto (got ++ part) (position + part.size)
termination_by r.extent - position
decreasing_by
  have : position < r.extent := by
    refine Nat.lt_of_not_le fun hle => ?_
    have := upTo_past _h (by simpa using hle)
    subst this
    simp at _h'
  omega

/-- Reads all that stands at and behind `position`. -/
def drain (r : Reader) (position : Nat) : Except Fault Bytes := r.drainOnto #[] position

/-- A reader that fails always. -/
def failing (fault : Fault) : Reader where
  read _ _ := .error fault
  extent := 0
  read_past _ _ _ h _ := nomatch h

end Reader

end LiveTree
