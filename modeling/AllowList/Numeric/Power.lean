/-!
# Powers

Powers of two bound what machine numbers hold; powers of ten move the point of
a decimal.
-/

namespace AllowList.Numeric

/-- A power of two. -/
def twoTo (n : Nat) : Nat :=
  Nat.pow 2 n

/-- A power of ten. -/
def tenTo (n : Nat) : Nat :=
  Nat.pow 10 n

/-- How many values an unsigned number of 64 bits has. -/
def wordCount : Nat :=
  twoTo 64

end AllowList.Numeric
