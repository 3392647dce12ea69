/-
Reckoner.Power — how a power of a natural number is read.

A library of algebra reads every power as one in a monoid. The widths of words and the
scales of numbers are powers of natural numbers, and here they are those of the core
library whatever else is imported: the kernel evaluates these, and the lemmas on `Nat`
are about them.
-/

attribute [instance (2000), default_instance 10001] instPowNat
