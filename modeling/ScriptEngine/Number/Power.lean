/-!
# Powers

Powers are those of the core library. Without this the text `2 ^ n` would mean the power of a monoid in a module that imports
algebra, and not the power that the program computes.
-/

attribute [instance (20000), default_instance (20000)] instPowNat
