/-!
# The curve secp256k1

Points of `y² = x³ + 7` over a prime field, in Jacobian coordinates: `(x, y, z)` stands for the
affine point `(x / z², y / z³)`, and `z = 0` for the point at infinity. Coordinates are natural
numbers below the field's prime.
-/

namespace StackScript.Schnorr.Curve

/-- The prime of the field of coordinates. -/
def fieldPrime : Nat := 0xfffffffffffffffffffffffffffffffffffffffffffffffffffffffefffffc2f

/-- The number of points, a prime. -/
def groupOrder : Nat := 0xfffffffffffffffffffffffffffffffebaaedce6af48a03bbfd25e8cd0364141

/-- The product in the field. -/
def mulField (a b : Nat) : Nat := a * b % fieldPrime

/-- The difference in the field. -/
def subField (a b : Nat) : Nat := (a + fieldPrime - b) % fieldPrime

/-- A power in the field, for exponents below `2 ^ 256`. -/
def powField (base exponent : Nat) : Nat :=
  (List.range 256).foldl (fun power i =>
    let square := mulField power power
    if exponent.testBit (255 - i) then mulField square base else square) 1

/-- The inverse in the field. -/
def invField (a : Nat) : Nat := powField a (fieldPrime - 2)

/-- A point in Jacobian coordinates. -/
structure Point where
  x : Nat
  y : Nat
  z : Nat

/-- The point at infinity. -/
def Point.infinity : Point := ⟨1, 1, 0⟩

/-- The generator of the group. -/
def Point.generator : Point :=
  ⟨0x79be667ef9dcbbac55a06295ce870b07029bfcdb2dce28d959f2815b16f81798,
    0x483ada7726a3c4655da4fbfc0e1108a8fd17b448a68554199c47d08ffb10d4b8, 1⟩

/-- The sum of a point with itself. -/
def Point.double (p : Point) : Point :=
  if p.y = 0 then .infinity
  else
    let yy := mulField p.y p.y
    let s := mulField 4 (mulField p.x yy)
    let m := mulField 3 (mulField p.x p.x)
    let x := subField (mulField m m) (mulField 2 s)
    let y := subField (mulField m (subField s x)) (mulField 8 (mulField yy yy))
    ⟨x, y, mulField 2 (mulField p.y p.z)⟩

/-- The sum of two points. -/
def Point.add (p q : Point) : Point :=
  if p.z = 0 then q
  else if q.z = 0 then p
  else
    let pzz := mulField p.z p.z
    let qzz := mulField q.z q.z
    let u₁ := mulField p.x qzz
    let u₂ := mulField q.x pzz
    let s₁ := mulField p.y (mulField qzz q.z)
    let s₂ := mulField q.y (mulField pzz p.z)
    if u₁ = u₂ then
      if s₁ = s₂ then p.double else .infinity
    else
      let h := subField u₂ u₁
      let r := subField s₂ s₁
      let hh := mulField h h
      let hhh := mulField hh h
      let v := mulField u₁ hh
      let x := subField (subField (mulField r r) hhh) (mulField 2 v)
      let y := subField (mulField r (subField v x)) (mulField s₁ hhh)
      ⟨x, y, mulField h (mulField p.z q.z)⟩

/-- The sum of `scalar` copies of a point, for scalars below `2 ^ 256`. -/
def Point.mul (scalar : Nat) (p : Point) : Point :=
  (List.range 256).foldl (fun sum i =>
    let twice := sum.double
    if scalar.testBit (255 - i) then twice.add p else twice) .infinity

/-- The affine coordinates of a point that is not at infinity. -/
def Point.affine? (p : Point) : Option (Nat × Nat) :=
  if p.z = 0 then none
  else
    let inverse := invField p.z
    let square := mulField inverse inverse
    some (mulField p.x square, mulField p.y (mulField square inverse))

/-- The point with the given first coordinate and an even second one, if there is one. -/
def Point.lift? (x : Nat) : Option Point :=
  if fieldPrime ≤ x then none
  else
    let c := (mulField x (mulField x x) + 7) % fieldPrime
    let y := powField c ((fieldPrime + 1) / 4)
    if mulField y y ≠ c then none
    else some ⟨x, if y % 2 = 0 then y else fieldPrime - y, 1⟩

end StackScript.Schnorr.Curve
