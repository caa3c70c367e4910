import PacketTypings.Decimal.Binary64

/-! The shortest decimal that reads back as a given binary64 value. The decimal grids
`10 ^ e, 2 * 10 ^ e, …` are tried from coarse to fine. A point of a grid lies in the interval of
numbers that round to the value only if one of the value's two neighbours on that grid does. -/

namespace PacketTypings

/-- The number `digits * 10 ^ exponent`. -/
structure Decimal where
  digits : Nat
  exponent : Int
deriving DecidableEq, Repr

namespace Binary64

/-- All numbers in units of `unit / den` grid points: the value is `4 * m` of them, and the numbers
that round to it lie between `low` and `high`, ends included when `m` is even. -/
structure Gap where
  value : Nat
  low : Nat
  high : Nat
  closed : Bool

/-- Below a power of two the grid is twice as fine, so the gap is half as wide there. -/
def gap (x : Binary64) : Gap :=
  let m := x.significand
  let narrow := x.fraction = 0 ∧ 1 < x.exponentField
  ⟨4 * m, 4 * m - (if narrow then 1 else 2), 4 * m + 2, m % 2 = 0⟩

def Gap.contains (g : Gap) (unit den point : Nat) : Bool :=
  if g.closed then g.low * unit ≤ point * den ∧ point * den ≤ g.high * unit
  else g.low * unit < point * den ∧ point * den < g.high * unit

/-- The point of the grid of step `10 ^ e` that reads back as `x` and is nearest to it; of two
equally near ones the even one. -/
def onGrid? (x : Binary64) (e : Int) : Option Nat :=
  let g := x.gap
  let q := x.exponent - 2
  let unit := Nat.pow 2 q.toNat * Nat.pow 10 (-e).toNat
  let den := Nat.pow 2 (-q).toNat * Nat.pow 10 e.toNat
  let below := g.value * unit / den
  let above := below + 1
  match g.contains unit den below, g.contains unit den above with
  | false, false => none
  | true, false => some below
  | false, true => some above
  | true, true =>
    let down := g.value * unit - below * den
    let up := above * den - g.value * unit
    if down < up ∨ (down = up ∧ below % 2 = 0) then some below else some above

/-- A grid that is too coarse for `x`: `30103 / 100000` is a little more than the logarithm of
two. -/
def coarsest (x : Binary64) : Int := (x.exponent + 53) * 30103 / 100000 + 1

/-- Seventeen digits always read back, so the search ends within the twenty grids. -/
def shortest (x : Binary64) : Decimal :=
  let found := (List.range 20).findSome? fun (i : Nat) =>
    (x.onGrid? (x.coarsest - i)).map (⟨·, x.coarsest - i⟩)
  found.getD ⟨0, 0⟩

end Binary64
end PacketTypings
