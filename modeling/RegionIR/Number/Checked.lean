import RegionIR.Fault

/-!
# Checked arithmetic

Steps on counts and on 128-bit words that refuse to leave their range. The
bounds of integer types are computed with these steps, so that "no bound is
computed by a step that overflows" is a statement about the result. So is "no
handle is given out twice": a counter of handles does not go on past its end.
-/

namespace RegionIR

/-- Words of 128 bits; a payload reads them as signed, an upper bound as unsigned. -/
abbrev Word128 := BitVec 128

namespace Checked

/-- The number after that of a counter, which is a word of 32 bits. -/
def succ (n : Nat) : Except Fault Nat :=
  if n + 1 < UInt32.size then .ok (n + 1) else .error (.overflow .add)

/-- The difference of two counts. -/
def sub (a b : Nat) : Except Fault Nat :=
  if b ≤ a then .ok (a - b) else .error (.overflow .subtract)

/-- The difference of two words without sign. -/
def subWord (a b : Word128) : Except Fault Word128 :=
  if b.toNat ≤ a.toNat then .ok (a - b) else .error (.overflow .subtract)

/-- The negative of a signed word; the least word has none. -/
def negWord (a : Word128) : Except Fault Word128 :=
  if a = BitVec.intMin 128 then .error (.overflow .negate) else .ok (-a)

/-- A word moved to the left by fewer places than it has. -/
def shiftLeftWord (a : Word128) (places : Nat) : Except Fault Word128 :=
  if places < 128 then .ok (a <<< places) else .error (.overflow .shiftLeft)

end Checked

end RegionIR
