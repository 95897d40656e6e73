/-!
# Powers and sums of numbers

Powers and sums are those of the core library. An algebraic hierarchy in scope brings instances of
its own for both, and `2 ^ n` would mean one thing in a module that sees it and another in one that
does not.
-/

namespace WeakIntern

attribute [instance (high), default_instance high] instPowNat

attribute [instance (high)] Zero.ofOfNat0

end WeakIntern
