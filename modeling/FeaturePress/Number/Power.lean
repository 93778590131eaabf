/-! Powers of the two bases in which numbers are kept and written. -/

namespace FeaturePress

/-- Two raised to a power. -/
def twoTo (exponent : Nat) : Nat := Nat.pow 2 exponent

/-- Ten raised to a power. -/
def tenTo (exponent : Nat) : Nat := Nat.pow 10 exponent

end FeaturePress
