/-!
# `Proposals.Text.Uppercase` — capital letters

The capital form of a text, character by character, by the full case mapping of the character
standard (version 14): a character may become two or three.

## Contents
- `capitalRuns`: runs of characters with one capital each.
- `capitalExpansions`: characters whose capital form is longer.
- `upperChar`, `uppercase`, `lowerAscii`.
-/

namespace Proposals.Text

/-- Runs `(first, last, step, shift)`: each `step`-th character from `first` to `last` has its
capital `shift` code points away. -/
def capitalRuns : List (Nat × Nat × Nat × Int) := [
  (0x00b5, 0x00b5, 1, 743), (0x00e0, 0x00f6, 1, -32), (0x00f8, 0x00fe, 1, -32),
  (0x00ff, 0x00ff, 1, 121), (0x0101, 0x012f, 2, -1), (0x0131, 0x0131, 1, -232),
  (0x0133, 0x0137, 2, -1), (0x013a, 0x0148, 2, -1), (0x014b, 0x0177, 2, -1),
  (0x017a, 0x017e, 2, -1), (0x017f, 0x017f, 1, -300), (0x0180, 0x0180, 1, 195),
  (0x0183, 0x0185, 2, -1), (0x0188, 0x0188, 1, -1), (0x018c, 0x018c, 1, -1),
  (0x0192, 0x0192, 1, -1), (0x0195, 0x0195, 1, 97), (0x0199, 0x0199, 1, -1),
  (0x019a, 0x019a, 1, 163), (0x019e, 0x019e, 1, 130), (0x01a1, 0x01a5, 2, -1),
  (0x01a8, 0x01a8, 1, -1), (0x01ad, 0x01ad, 1, -1), (0x01b0, 0x01b0, 1, -1),
  (0x01b4, 0x01b6, 2, -1), (0x01b9, 0x01b9, 1, -1), (0x01bd, 0x01bd, 1, -1),
  (0x01bf, 0x01bf, 1, 56), (0x01c5, 0x01c5, 1, -1), (0x01c6, 0x01c6, 1, -2),
  (0x01c8, 0x01c8, 1, -1), (0x01c9, 0x01c9, 1, -2), (0x01cb, 0x01cb, 1, -1),
  (0x01cc, 0x01cc, 1, -2), (0x01ce, 0x01dc, 2, -1), (0x01dd, 0x01dd, 1, -79),
  (0x01df, 0x01ef, 2, -1), (0x01f2, 0x01f2, 1, -1), (0x01f3, 0x01f3, 1, -2),
  (0x01f5, 0x01f5, 1, -1), (0x01f9, 0x021f, 2, -1), (0x0223, 0x0233, 2, -1),
  (0x023c, 0x023c, 1, -1), (0x023f, 0x0240, 1, 10815), (0x0242, 0x0242, 1, -1),
  (0x0247, 0x024f, 2, -1), (0x0250, 0x0250, 1, 10783), (0x0251, 0x0251, 1, 10780),
  (0x0252, 0x0252, 1, 10782), (0x0253, 0x0253, 1, -210), (0x0254, 0x0254, 1, -206),
  (0x0256, 0x0257, 1, -205), (0x0259, 0x0259, 1, -202), (0x025b, 0x025b, 1, -203),
  (0x025c, 0x025c, 1, 42319), (0x0260, 0x0260, 1, -205), (0x0261, 0x0261, 1, 42315),
  (0x0263, 0x0263, 1, -207), (0x0265, 0x0265, 1, 42280), (0x0266, 0x0266, 1, 42308),
  (0x0268, 0x0268, 1, -209), (0x0269, 0x0269, 1, -211), (0x026a, 0x026a, 1, 42308),
  (0x026b, 0x026b, 1, 10743), (0x026c, 0x026c, 1, 42305), (0x026f, 0x026f, 1, -211),
  (0x0271, 0x0271, 1, 10749), (0x0272, 0x0272, 1, -213), (0x0275, 0x0275, 1, -214),
  (0x027d, 0x027d, 1, 10727), (0x0280, 0x0280, 1, -218), (0x0282, 0x0282, 1, 42307),
  (0x0283, 0x0283, 1, -218), (0x0287, 0x0287, 1, 42282), (0x0288, 0x0288, 1, -218),
  (0x0289, 0x0289, 1, -69), (0x028a, 0x028b, 1, -217), (0x028c, 0x028c, 1, -71),
  (0x0292, 0x0292, 1, -219), (0x029d, 0x029d, 1, 42261), (0x029e, 0x029e, 1, 42258),
  (0x0345, 0x0345, 1, 84), (0x0371, 0x0373, 2, -1), (0x0377, 0x0377, 1, -1),
  (0x037b, 0x037d, 1, 130), (0x03ac, 0x03ac, 1, -38), (0x03ad, 0x03af, 1, -37),
  (0x03b1, 0x03c1, 1, -32), (0x03c2, 0x03c2, 1, -31), (0x03c3, 0x03cb, 1, -32),
  (0x03cc, 0x03cc, 1, -64), (0x03cd, 0x03ce, 1, -63), (0x03d0, 0x03d0, 1, -62),
  (0x03d1, 0x03d1, 1, -57), (0x03d5, 0x03d5, 1, -47), (0x03d6, 0x03d6, 1, -54),
  (0x03d7, 0x03d7, 1, -8), (0x03d9, 0x03ef, 2, -1), (0x03f0, 0x03f0, 1, -86),
  (0x03f1, 0x03f1, 1, -80), (0x03f2, 0x03f2, 1, 7), (0x03f3, 0x03f3, 1, -116),
  (0x03f5, 0x03f5, 1, -96), (0x03f8, 0x03f8, 1, -1), (0x03fb, 0x03fb, 1, -1),
  (0x0430, 0x044f, 1, -32), (0x0450, 0x045f, 1, -80), (0x0461, 0x0481, 2, -1),
  (0x048b, 0x04bf, 2, -1), (0x04c2, 0x04ce, 2, -1), (0x04cf, 0x04cf, 1, -15),
  (0x04d1, 0x052f, 2, -1), (0x0561, 0x0586, 1, -48), (0x10d0, 0x10fa, 1, 3008),
  (0x10fd, 0x10ff, 1, 3008), (0x13f8, 0x13fd, 1, -8), (0x1c80, 0x1c80, 1, -6254),
  (0x1c81, 0x1c81, 1, -6253), (0x1c82, 0x1c82, 1, -6244), (0x1c83, 0x1c84, 1, -6242),
  (0x1c85, 0x1c85, 1, -6243), (0x1c86, 0x1c86, 1, -6236), (0x1c87, 0x1c87, 1, -6181),
  (0x1c88, 0x1c88, 1, 35266), (0x1d79, 0x1d79, 1, 35332), (0x1d7d, 0x1d7d, 1, 3814),
  (0x1d8e, 0x1d8e, 1, 35384), (0x1e01, 0x1e95, 2, -1), (0x1e9b, 0x1e9b, 1, -59),
  (0x1ea1, 0x1eff, 2, -1), (0x1f00, 0x1f07, 1, 8), (0x1f10, 0x1f15, 1, 8), (0x1f20, 0x1f27, 1, 8),
  (0x1f30, 0x1f37, 1, 8), (0x1f40, 0x1f45, 1, 8), (0x1f51, 0x1f57, 2, 8), (0x1f60, 0x1f67, 1, 8),
  (0x1f70, 0x1f71, 1, 74), (0x1f72, 0x1f75, 1, 86), (0x1f76, 0x1f77, 1, 100),
  (0x1f78, 0x1f79, 1, 128), (0x1f7a, 0x1f7b, 1, 112), (0x1f7c, 0x1f7d, 1, 126),
  (0x1fb0, 0x1fb1, 1, 8), (0x1fbe, 0x1fbe, 1, -7205), (0x1fd0, 0x1fd1, 1, 8),
  (0x1fe0, 0x1fe1, 1, 8), (0x1fe5, 0x1fe5, 1, 7), (0x214e, 0x214e, 1, -28),
  (0x2170, 0x217f, 1, -16), (0x2184, 0x2184, 1, -1), (0x24d0, 0x24e9, 1, -26),
  (0x2c30, 0x2c5f, 1, -48), (0x2c61, 0x2c61, 1, -1), (0x2c65, 0x2c65, 1, -10795),
  (0x2c66, 0x2c66, 1, -10792), (0x2c68, 0x2c6c, 2, -1), (0x2c73, 0x2c73, 1, -1),
  (0x2c76, 0x2c76, 1, -1), (0x2c81, 0x2ce3, 2, -1), (0x2cec, 0x2cee, 2, -1),
  (0x2cf3, 0x2cf3, 1, -1), (0x2d00, 0x2d25, 1, -7264), (0x2d27, 0x2d27, 1, -7264),
  (0x2d2d, 0x2d2d, 1, -7264), (0xa641, 0xa66d, 2, -1), (0xa681, 0xa69b, 2, -1),
  (0xa723, 0xa72f, 2, -1), (0xa733, 0xa76f, 2, -1), (0xa77a, 0xa77c, 2, -1),
  (0xa77f, 0xa787, 2, -1), (0xa78c, 0xa78c, 1, -1), (0xa791, 0xa793, 2, -1),
  (0xa794, 0xa794, 1, 48), (0xa797, 0xa7a9, 2, -1), (0xa7b5, 0xa7c3, 2, -1),
  (0xa7c8, 0xa7ca, 2, -1), (0xa7d1, 0xa7d1, 1, -1), (0xa7d7, 0xa7d9, 2, -1),
  (0xa7f6, 0xa7f6, 1, -1), (0xab53, 0xab53, 1, -928), (0xab70, 0xabbf, 1, -38864),
  (0xff41, 0xff5a, 1, -32), (0x10428, 0x1044f, 1, -40), (0x104d8, 0x104fb, 1, -40),
  (0x10597, 0x105a1, 1, -39), (0x105a3, 0x105b1, 1, -39), (0x105b3, 0x105b9, 1, -39),
  (0x105bb, 0x105bc, 1, -39), (0x10cc0, 0x10cf2, 1, -64), (0x118c0, 0x118df, 1, -32),
  (0x16e60, 0x16e7f, 1, -32), (0x1e922, 0x1e943, 1, -34)]

/-- Characters whose capital form has more than one character. -/
def capitalExpansions : List (Nat × List Nat) := [
  (0x00df, [0x0053, 0x0053]), (0x0149, [0x02bc, 0x004e]), (0x01f0, [0x004a, 0x030c]),
  (0x0390, [0x0399, 0x0308, 0x0301]), (0x03b0, [0x03a5, 0x0308, 0x0301]),
  (0x0587, [0x0535, 0x0552]), (0x1e96, [0x0048, 0x0331]), (0x1e97, [0x0054, 0x0308]),
  (0x1e98, [0x0057, 0x030a]), (0x1e99, [0x0059, 0x030a]), (0x1e9a, [0x0041, 0x02be]),
  (0x1f50, [0x03a5, 0x0313]), (0x1f52, [0x03a5, 0x0313, 0x0300]),
  (0x1f54, [0x03a5, 0x0313, 0x0301]), (0x1f56, [0x03a5, 0x0313, 0x0342]),
  (0x1f80, [0x1f08, 0x0399]), (0x1f81, [0x1f09, 0x0399]), (0x1f82, [0x1f0a, 0x0399]),
  (0x1f83, [0x1f0b, 0x0399]), (0x1f84, [0x1f0c, 0x0399]), (0x1f85, [0x1f0d, 0x0399]),
  (0x1f86, [0x1f0e, 0x0399]), (0x1f87, [0x1f0f, 0x0399]), (0x1f88, [0x1f08, 0x0399]),
  (0x1f89, [0x1f09, 0x0399]), (0x1f8a, [0x1f0a, 0x0399]), (0x1f8b, [0x1f0b, 0x0399]),
  (0x1f8c, [0x1f0c, 0x0399]), (0x1f8d, [0x1f0d, 0x0399]), (0x1f8e, [0x1f0e, 0x0399]),
  (0x1f8f, [0x1f0f, 0x0399]), (0x1f90, [0x1f28, 0x0399]), (0x1f91, [0x1f29, 0x0399]),
  (0x1f92, [0x1f2a, 0x0399]), (0x1f93, [0x1f2b, 0x0399]), (0x1f94, [0x1f2c, 0x0399]),
  (0x1f95, [0x1f2d, 0x0399]), (0x1f96, [0x1f2e, 0x0399]), (0x1f97, [0x1f2f, 0x0399]),
  (0x1f98, [0x1f28, 0x0399]), (0x1f99, [0x1f29, 0x0399]), (0x1f9a, [0x1f2a, 0x0399]),
  (0x1f9b, [0x1f2b, 0x0399]), (0x1f9c, [0x1f2c, 0x0399]), (0x1f9d, [0x1f2d, 0x0399]),
  (0x1f9e, [0x1f2e, 0x0399]), (0x1f9f, [0x1f2f, 0x0399]), (0x1fa0, [0x1f68, 0x0399]),
  (0x1fa1, [0x1f69, 0x0399]), (0x1fa2, [0x1f6a, 0x0399]), (0x1fa3, [0x1f6b, 0x0399]),
  (0x1fa4, [0x1f6c, 0x0399]), (0x1fa5, [0x1f6d, 0x0399]), (0x1fa6, [0x1f6e, 0x0399]),
  (0x1fa7, [0x1f6f, 0x0399]), (0x1fa8, [0x1f68, 0x0399]), (0x1fa9, [0x1f69, 0x0399]),
  (0x1faa, [0x1f6a, 0x0399]), (0x1fab, [0x1f6b, 0x0399]), (0x1fac, [0x1f6c, 0x0399]),
  (0x1fad, [0x1f6d, 0x0399]), (0x1fae, [0x1f6e, 0x0399]), (0x1faf, [0x1f6f, 0x0399]),
  (0x1fb2, [0x1fba, 0x0399]), (0x1fb3, [0x0391, 0x0399]), (0x1fb4, [0x0386, 0x0399]),
  (0x1fb6, [0x0391, 0x0342]), (0x1fb7, [0x0391, 0x0342, 0x0399]), (0x1fbc, [0x0391, 0x0399]),
  (0x1fc2, [0x1fca, 0x0399]), (0x1fc3, [0x0397, 0x0399]), (0x1fc4, [0x0389, 0x0399]),
  (0x1fc6, [0x0397, 0x0342]), (0x1fc7, [0x0397, 0x0342, 0x0399]), (0x1fcc, [0x0397, 0x0399]),
  (0x1fd2, [0x0399, 0x0308, 0x0300]), (0x1fd3, [0x0399, 0x0308, 0x0301]),
  (0x1fd6, [0x0399, 0x0342]), (0x1fd7, [0x0399, 0x0308, 0x0342]),
  (0x1fe2, [0x03a5, 0x0308, 0x0300]), (0x1fe3, [0x03a5, 0x0308, 0x0301]),
  (0x1fe4, [0x03a1, 0x0313]), (0x1fe6, [0x03a5, 0x0342]), (0x1fe7, [0x03a5, 0x0308, 0x0342]),
  (0x1ff2, [0x1ffa, 0x0399]), (0x1ff3, [0x03a9, 0x0399]), (0x1ff4, [0x038f, 0x0399]),
  (0x1ff6, [0x03a9, 0x0342]), (0x1ff7, [0x03a9, 0x0342, 0x0399]), (0x1ffc, [0x03a9, 0x0399]),
  (0xfb00, [0x0046, 0x0046]), (0xfb01, [0x0046, 0x0049]), (0xfb02, [0x0046, 0x004c]),
  (0xfb03, [0x0046, 0x0046, 0x0049]), (0xfb04, [0x0046, 0x0046, 0x004c]),
  (0xfb05, [0x0053, 0x0054]), (0xfb06, [0x0053, 0x0054]), (0xfb13, [0x0544, 0x0546]),
  (0xfb14, [0x0544, 0x0535]), (0xfb15, [0x0544, 0x053b]), (0xfb16, [0x054e, 0x0546]),
  (0xfb17, [0x0544, 0x053d])]

/-- The capital form of one character. -/
def upperChar (c : Char) : List Char :=
  if c.toNat < 128 then [c.toUpper]
  else match capitalExpansions.find? (·.1 == c.toNat) with
    | some (_, points) => points.map Char.ofNat
    | none =>
      match capitalRuns.find? fun (first, last, step, _) =>
          decide (first ≤ c.toNat) && decide (c.toNat ≤ last) && (c.toNat - first) % step == 0 with
      | some (_, _, _, shift) => [Char.ofNat ((c.toNat : Int) + shift).toNat]
      | none => [c]

/-- The capital form of a text. -/
def uppercase (cs : List Char) : List Char := cs.flatMap upperChar

/-- Small letters for the capital letters of ASCII, all else unchanged. This decides every
comparison with an ASCII word that has no `k`: no other character has a small form among the
remaining letters. -/
def lowerAscii (cs : List Char) : List Char := cs.map Char.toLower

end Proposals.Text
