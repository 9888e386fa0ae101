import VenueSigner.Positional
/-!
The elliptic curve secp256k1, `y² = x³ + 7` modulo a prime: the multiples of its base point,
computed on triples so that only one inverse is needed.
-/

namespace VenueSigner.Secp256k1

def prime : Nat := 2 ^ 256 - 2 ^ 32 - 977

/-- The order of the base point, a prime. -/
def order : Nat := 0xFFFFFFFFFFFFFFFFFFFFFFFFFFFFFFFEBAAEDCE6AF48A03BBFD25E8CD0364141

def baseX : Nat := 0x79BE667EF9DCBBAC55A06295CE870B07029BFCDB2DCE28D959F2815B16F81798

def baseY : Nat := 0x483ADA7726A3C4655DA4FBFC0E1108A8FD17B448A68554199C47D08FFB10D4B8

def powMod (m base exponent : Nat) : Nat :=
  if exponent = 0 then 1 % m
  else
    let half := powMod m base (exponent / 2)
    let square := half * half % m
    if exponent % 2 = 1 then square * base % m else square

def inverseMod (m n : Nat) : Nat :=
  powMod m n (m - 2)

def sub (a b : Nat) : Nat :=
  (a + prime - b) % prime

/-- The point `(x / z², y / z³)`, or the neutral element if `z` is zero. -/
structure Point where
  x : Nat
  y : Nat
  z : Nat

namespace Point

def neutral : Point := ⟨1, 1, 0⟩

def base : Point := ⟨baseX, baseY, 1⟩

def double (p : Point) : Point :=
  let yy := p.y * p.y % prime
  let s := 4 * p.x * yy % prime
  let m := 3 * p.x * p.x % prime
  let x := sub (m * m % prime) (2 * s % prime)
  ⟨x, sub (m * sub s x % prime) (8 * yy * yy % prime), 2 * p.y * p.z % prime⟩

def add (p q : Point) : Point :=
  if p.z = 0 then q
  else if q.z = 0 then p
  else
    let pzz := p.z * p.z % prime
    let qzz := q.z * q.z % prime
    let u := p.x * qzz % prime
    let v := q.x * pzz % prime
    let s := p.y * qzz * q.z % prime
    let t := q.y * pzz * p.z % prime
    if u = v then if s = t then double p else neutral
    else
      let h := sub v u
      let r := sub t s
      let hh := h * h % prime
      let hhh := h * hh % prime
      let w := u * hh % prime
      let x := sub (sub (r * r % prime) hhh) (2 * w % prime)
      ⟨x, sub (r * sub w x % prime) (s * hhh % prime), p.z * q.z * h % prime⟩

def mul (n : Nat) (p : Point) : Point :=
  if n = 0 then neutral
  else
    let twice := double (mul (n / 2) p)
    if n % 2 = 1 then add twice p else twice

def coordinates (p : Point) : Nat × Nat :=
  let i := inverseMod prime p.z
  let ii := i * i % prime
  (p.x * ii % prime, p.y * ii * i % prime)

end Point

def baseMultiple (n : Nat) : Nat × Nat :=
  (Point.mul n Point.base).coordinates

end VenueSigner.Secp256k1
