/-!
# Powers of natural numbers

The power of two natural numbers is that of the core library, whatever other instances are in scope.
-/

attribute [instance (high), default_instance high] instPowNat
