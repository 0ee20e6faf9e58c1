/-!
# Magnitudes

Counts of rows and costs are only estimated.  A magnitude is ten times the binary logarithm of an estimate, rounded,
so that products become sums and a table tells what a sum becomes.
-/

namespace RecordTables.Engine

/-- Ten times the binary logarithm of an estimate. -/
abbrev Magnitude := Int

namespace Magnitude

/-- The magnitude of a count, from its greatest bit and the three bits after it. -/
def ofCount (n : Nat) : Magnitude :=
  if n < 2 then 0
  else
    let k := n.log2
    let lead := if 3 ≤ k then n >>> (k - 3) else n <<< (3 - k)
    10 * k + [0, 2, 3, 5, 6, 7, 8, 9][lead % 8]?.getD 0

/-- What the smaller one of two estimates adds to the magnitude of the greater one, from their difference. -/
def gain (difference : Nat) : Magnitude :=
  if difference ≤ 1 then 10
  else if difference ≤ 3 then 9
  else if difference ≤ 5 then 8
  else if difference ≤ 8 then 7
  else if difference ≤ 11 then 6
  else if difference ≤ 14 then 5
  else if difference ≤ 18 then 4
  else if difference ≤ 24 then 3
  else if difference ≤ 31 then 2
  else if difference ≤ 49 then 1
  else 0

/-- The magnitude of a sum. -/
def plus (a b : Magnitude) : Magnitude := max a b + gain (a - b).natAbs

/-- The magnitude of the binary logarithm of an estimate. -/
def log (m : Magnitude) : Magnitude := if m ≤ 10 then 0 else ofCount m.toNat - 33

end Magnitude

end RecordTables.Engine
