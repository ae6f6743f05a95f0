import LiveTree.Text.Identifier.Table

/-!
# Identifier characters

The Unicode properties `XID_Start` and `XID_Continue`.
-/

namespace LiveTree.Text.Identifier

/-- Whether `n` lies in one of the ranges. -/
def inTable (table : List (List (Nat × Nat))) (n : Nat) : Bool :=
  table.any (·.any fun (first, last) => first ≤ n && n ≤ last)

/-- Whether `c` has the property `XID_Start`. -/
def isStart (c : Char) : Bool :=
  if c.toNat < 0x80 then c.isAlpha else inTable startTable c.toNat

/-- Whether `c` has the property `XID_Continue`. -/
def isContinue (c : Char) : Bool :=
  if c.toNat < 0x80 then c.isAlphanum || c == '_'
  else inTable startTable c.toNat || inTable moreTable c.toNat

/-- What begins an identifier also continues one. -/
theorem isContinue_of_isStart {c : Char} (h : isStart c = true) : isContinue c = true := by
  unfold isStart at h
  unfold isContinue
  split at h <;> simp_all [Char.isAlphanum]

end LiveTree.Text.Identifier
