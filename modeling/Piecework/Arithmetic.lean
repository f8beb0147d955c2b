/-
# Piecework.Arithmetic — powers and sums are the ones of the core library.

Definitions of this library are read next to theories that bring powers and sums of their own, under the
same signs.  Here the signs are settled: a power has a natural exponent and is the one that every natural
and whole number has by itself, and a sum starts at the numeral zero.
-/
namespace Piecework

attribute [default_instance 20000] instPowNat

attribute [scoped instance (high)] instPowNat Zero.ofOfNat0

end Piecework
