import LinkAdaptation.RateGroup

/-! The throughput to be expected of each rate when every frame arrives. A zero
marks an index at which the group has no rate. -/

namespace LinkAdaptation

abbrev CeilingRow := Vector Nat ratesPerGroup

structure CeilingTable where
  rows : Vector CeilingRow groupCount
  deriving DecidableEq, Repr

namespace CeilingTable

def row (t : CeilingTable) (g : RateGroup) : CeilingRow :=
  have h := g.slot_lt
  t.rows[g.slot]

def ceiling (t : CeilingTable) (g : RateGroup) (index : Nat) : Nat :=
  (t.row g)[index]?.getD 0

def best (t : CeilingTable) (g : RateGroup) : Nat := (t.row g).foldl max 0

def rates (t : CeilingTable) (g : RateGroup) : List Nat :=
  (List.range ratesPerGroup).filter (t.ceiling g · != 0)

/-- The groups at 20 MHz besides the legacy one. They never use the last index. -/
def narrowGroups : List RateGroup :=
  [.siso, .mimo].flatMap fun mode =>
    [.long, .short].flatMap fun guard =>
      [.off, .on].map fun aggregation => ⟨mode, .mhz20, guard, aggregation⟩

def check (t : CeilingTable) : Except Fault Unit :=
  if t.rows.all (·.any (· != 0)) && narrowGroups.all (t.ceiling · (ratesPerGroup - 1) == 0) then
    .ok ()
  else
    .error .configuration

def expected : CeilingTable := ⟨#v[
  -- legacy
  #v[7, 13, 35, 58, 40, 57, 72, 98, 121, 154, 177, 186, 0, 0, 0],
  -- SISO, 20 MHz
  #v[0, 0, 0, 0, 42, 0, 76, 102, 124, 159, 183, 193, 202, 216, 0],
  #v[0, 0, 0, 0, 46, 0, 82, 110, 132, 168, 192, 202, 210, 225, 0],
  #v[0, 0, 0, 0, 49, 0, 97, 145, 192, 285, 375, 420, 464, 551, 0],
  #v[0, 0, 0, 0, 54, 0, 108, 160, 213, 315, 415, 465, 513, 608, 0],
  -- SISO, 40 MHz
  #v[0, 0, 0, 0, 77, 0, 127, 160, 184, 220, 242, 250, 257, 269, 275],
  #v[0, 0, 0, 0, 83, 0, 135, 169, 193, 229, 250, 257, 264, 275, 280],
  #v[0, 0, 0, 0, 101, 0, 199, 295, 389, 570, 744, 828, 911, 1070, 1173],
  #v[0, 0, 0, 0, 112, 0, 220, 326, 429, 629, 819, 912, 1000, 1173, 1284],
  -- SISO, 80 MHz
  #v[0, 0, 0, 0, 130, 0, 191, 223, 244, 273, 288, 294, 298, 305, 308],
  #v[0, 0, 0, 0, 138, 0, 200, 231, 251, 279, 293, 298, 302, 308, 312],
  #v[0, 0, 0, 0, 217, 0, 429, 634, 834, 1220, 1585, 1760, 1931, 2258, 2466],
  #v[0, 0, 0, 0, 241, 0, 475, 701, 921, 1343, 1741, 1931, 2117, 2468, 2691],
  -- SISO, 160 MHz
  #v[0, 0, 0, 0, 191, 0, 244, 288, 298, 308, 313, 318, 323, 328, 330],
  #v[0, 0, 0, 0, 200, 0, 251, 293, 302, 312, 317, 322, 327, 332, 334],
  #v[0, 0, 0, 0, 439, 0, 875, 1307, 1736, 2584, 3419, 3831, 4240, 5049, 5581],
  #v[0, 0, 0, 0, 488, 0, 972, 1451, 1925, 2864, 3785, 4240, 4691, 5581, 6165],
  -- MIMO, 20 MHz
  #v[0, 0, 0, 0, 74, 0, 123, 155, 179, 213, 235, 243, 250, 261, 0],
  #v[0, 0, 0, 0, 81, 0, 131, 164, 187, 221, 242, 250, 256, 267, 0],
  #v[0, 0, 0, 0, 98, 0, 193, 286, 375, 550, 718, 799, 878, 1032, 0],
  #v[0, 0, 0, 0, 109, 0, 214, 316, 414, 607, 790, 879, 965, 1132, 0],
  -- MIMO, 40 MHz
  #v[0, 0, 0, 0, 123, 0, 182, 214, 235, 264, 279, 285, 289, 296, 300],
  #v[0, 0, 0, 0, 131, 0, 191, 222, 242, 270, 284, 289, 293, 300, 303],
  #v[0, 0, 0, 0, 200, 0, 390, 571, 741, 1067, 1365, 1505, 1640, 1894, 2053],
  #v[0, 0, 0, 0, 221, 0, 430, 630, 816, 1169, 1490, 1641, 1784, 2053, 2221],
  -- MIMO, 80 MHz
  #v[0, 0, 0, 0, 182, 0, 240, 264, 278, 299, 308, 311, 313, 317, 319],
  #v[0, 0, 0, 0, 190, 0, 247, 269, 282, 302, 310, 313, 315, 319, 320],
  #v[0, 0, 0, 0, 428, 0, 833, 1215, 1577, 2254, 2863, 3147, 3418, 3913, 4219],
  #v[0, 0, 0, 0, 474, 0, 920, 1338, 1732, 2464, 3116, 3418, 3705, 4225, 4545],
  -- MIMO, 160 MHz
  #v[0, 0, 0, 0, 240, 0, 278, 308, 313, 319, 322, 324, 328, 330, 334],
  #v[0, 0, 0, 0, 247, 0, 282, 310, 315, 320, 323, 325, 329, 332, 338],
  #v[0, 0, 0, 0, 875, 0, 1735, 2582, 3414, 5043, 6619, 7389, 8147, 9629, 10592],
  #v[0, 0, 0, 0, 971, 0, 1925, 2861, 3779, 5574, 7304, 8147, 8976, 10592, 11640]]⟩

theorem ceiling_of_le (t : CeilingTable) (g : RateGroup) {index : Nat}
    (h : ratesPerGroup ≤ index) : t.ceiling g index = 0 := by
  simp [ceiling, Nat.not_lt.2 h]

end CeilingTable

end LinkAdaptation
