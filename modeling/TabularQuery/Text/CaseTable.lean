/-!
Letter case of the Unicode standard: simple mappings as runs of code points with one shift, and
mappings to several letters one by one.
-/

namespace TabularQuery.Text

/-- Every `step`-th code point from `first` to `last` maps to the one `shift` places on. -/
structure CaseRun where
  first : Nat
  last : Nat
  step : Nat
  shift : Int

def CaseRun.map? (run : CaseRun) (c : Nat) : Option Nat :=
  if run.first ≤ c && c ≤ run.last && (c - run.first) % run.step = 0 then
    some (c + run.shift).toNat
  else none

def CaseRun.every (step : Nat) : Nat × Nat × Int → CaseRun
  | (first, last, shift) => ⟨first, last, step, shift⟩

def CaseRun.single : Nat × Int → CaseRun
  | (c, shift) => ⟨c, c, 1, shift⟩

/-- Simple mappings to lower case. -/
def lowerRuns : List CaseRun :=
  List.map (CaseRun.every 1) [
  (0x41, 0x5a, 32), (0xc0, 0xd6, 32), (0xd8, 0xde, 32), (0x189, 0x18a, 205), (0x1b1, 0x1b2, 217),
  (0x388, 0x38a, 37), (0x38e, 0x38f, 63), (0x391, 0x3a1, 32), (0x3a3, 0x3ab, 32),
  (0x3fd, 0x3ff, -130), (0x400, 0x40f, 80), (0x410, 0x42f, 32), (0x531, 0x556, 48),
  (0x10a0, 0x10c5, 7264), (0x13a0, 0x13ef, 38864), (0x13f0, 0x13f5, 8), (0x1c90, 0x1cba, -3008),
  (0x1cbd, 0x1cbf, -3008), (0x1f08, 0x1f0f, -8), (0x1f18, 0x1f1d, -8), (0x1f28, 0x1f2f, -8),
  (0x1f38, 0x1f3f, -8), (0x1f48, 0x1f4d, -8), (0x1f68, 0x1f6f, -8), (0x1f88, 0x1f8f, -8),
  (0x1f98, 0x1f9f, -8), (0x1fa8, 0x1faf, -8), (0x1fb8, 0x1fb9, -8), (0x1fba, 0x1fbb, -74),
  (0x1fc8, 0x1fcb, -86), (0x1fd8, 0x1fd9, -8), (0x1fda, 0x1fdb, -100), (0x1fe8, 0x1fe9, -8),
  (0x1fea, 0x1feb, -112), (0x1ff8, 0x1ff9, -128), (0x1ffa, 0x1ffb, -126), (0x2160, 0x216f, 16),
  (0x24b6, 0x24cf, 26), (0x2c00, 0x2c2f, 48), (0x2c7e, 0x2c7f, -10815), (0xff21, 0xff3a, 32),
  (0x10400, 0x10427, 40), (0x104b0, 0x104d3, 40), (0x10570, 0x1057a, 39), (0x1057c, 0x1058a, 39),
  (0x1058c, 0x10592, 39), (0x10594, 0x10595, 39), (0x10c80, 0x10cb2, 64), (0x10d50, 0x10d65, 32),
  (0x118a0, 0x118bf, 32), (0x16e40, 0x16e5f, 32), (0x1e900, 0x1e921, 34)] ++
  List.map (CaseRun.every 2) [
  (0x100, 0x12e, 1), (0x132, 0x136, 1), (0x139, 0x147, 1), (0x14a, 0x176, 1), (0x179, 0x17d, 1),
  (0x182, 0x184, 1), (0x1a0, 0x1a4, 1), (0x1b3, 0x1b5, 1), (0x1cb, 0x1db, 1), (0x1de, 0x1ee, 1),
  (0x1f2, 0x1f4, 1), (0x1f8, 0x21e, 1), (0x222, 0x232, 1), (0x246, 0x24e, 1), (0x370, 0x372, 1),
  (0x3d8, 0x3ee, 1), (0x460, 0x480, 1), (0x48a, 0x4be, 1), (0x4c1, 0x4cd, 1), (0x4d0, 0x52e, 1),
  (0x1e00, 0x1e94, 1), (0x1ea0, 0x1efe, 1), (0x1f59, 0x1f5f, -8), (0x2c67, 0x2c6b, 1),
  (0x2c80, 0x2ce2, 1), (0x2ceb, 0x2ced, 1), (0xa640, 0xa66c, 1), (0xa680, 0xa69a, 1),
  (0xa722, 0xa72e, 1), (0xa732, 0xa76e, 1), (0xa779, 0xa77b, 1), (0xa77e, 0xa786, 1),
  (0xa790, 0xa792, 1), (0xa796, 0xa7a8, 1), (0xa7b4, 0xa7c2, 1), (0xa7c7, 0xa7c9, 1),
  (0xa7d6, 0xa7da, 1)] ++
  List.map CaseRun.single [
  (0x178, -121), (0x181, 210), (0x186, 206), (0x187, 1), (0x18b, 1), (0x18e, 79), (0x18f, 202),
  (0x190, 203), (0x191, 1), (0x193, 205), (0x194, 207), (0x196, 211), (0x197, 209), (0x198, 1),
  (0x19c, 211), (0x19d, 213), (0x19f, 214), (0x1a6, 218), (0x1a7, 1), (0x1a9, 218), (0x1ac, 1),
  (0x1ae, 218), (0x1af, 1), (0x1b7, 219), (0x1b8, 1), (0x1bc, 1), (0x1c4, 2), (0x1c5, 1),
  (0x1c7, 2), (0x1c8, 1), (0x1ca, 2), (0x1f1, 2), (0x1f6, -97), (0x1f7, -56), (0x220, -130),
  (0x23a, 10795), (0x23b, 1), (0x23d, -163), (0x23e, 10792), (0x241, 1), (0x243, -195),
  (0x244, 69), (0x245, 71), (0x376, 1), (0x37f, 116), (0x386, 38), (0x38c, 64), (0x3cf, 8),
  (0x3f4, -60), (0x3f7, 1), (0x3f9, -7), (0x3fa, 1), (0x4c0, 15), (0x10c7, 7264), (0x10cd, 7264),
  (0x1e9e, -7615), (0x1fbc, -9), (0x1fcc, -9), (0x1fec, -7), (0x1ffc, -9), (0x2126, -7517),
  (0x212a, -8383), (0x212b, -8262), (0x2132, 28), (0x2183, 1), (0x2c60, 1), (0x2c62, -10743),
  (0x2c63, -3814), (0x2c64, -10727), (0x2c6d, -10780), (0x2c6e, -10749), (0x2c6f, -10783),
  (0x2c70, -10782), (0x2c72, 1), (0x2c75, 1), (0x2cf2, 1), (0xa77d, -35332), (0xa78b, 1),
  (0xa78d, -42280), (0xa7aa, -42308), (0xa7ab, -42319), (0xa7ac, -42315), (0xa7ad, -42305),
  (0xa7ae, -42308), (0xa7b0, -42258), (0xa7b1, -42282), (0xa7b2, -42261), (0xa7b3, 928),
  (0xa7c4, -48), (0xa7c5, -42307), (0xa7c6, -35384), (0xa7cb, -42343), (0xa7cc, 1), (0xa7d0, 1),
  (0xa7dc, -42561), (0xa7f5, 1)]

/-- Simple mappings to upper case. -/
def upperRuns : List CaseRun :=
  List.map (CaseRun.every 1) [
  (0x61, 0x7a, -32), (0xe0, 0xf6, -32), (0xf8, 0xfe, -32), (0x23f, 0x240, 10815),
  (0x256, 0x257, -205), (0x28a, 0x28b, -217), (0x37b, 0x37d, 130), (0x3ad, 0x3af, -37),
  (0x3b1, 0x3c1, -32), (0x3c3, 0x3cb, -32), (0x3cd, 0x3ce, -63), (0x430, 0x44f, -32),
  (0x450, 0x45f, -80), (0x561, 0x586, -48), (0x10d0, 0x10fa, 3008), (0x10fd, 0x10ff, 3008),
  (0x13f8, 0x13fd, -8), (0x1c83, 0x1c84, -6242), (0x1f00, 0x1f07, 8), (0x1f10, 0x1f15, 8),
  (0x1f20, 0x1f27, 8), (0x1f30, 0x1f37, 8), (0x1f40, 0x1f45, 8), (0x1f60, 0x1f67, 8),
  (0x1f70, 0x1f71, 74), (0x1f72, 0x1f75, 86), (0x1f76, 0x1f77, 100), (0x1f78, 0x1f79, 128),
  (0x1f7a, 0x1f7b, 112), (0x1f7c, 0x1f7d, 126), (0x1fb0, 0x1fb1, 8), (0x1fd0, 0x1fd1, 8),
  (0x1fe0, 0x1fe1, 8), (0x2170, 0x217f, -16), (0x24d0, 0x24e9, -26), (0x2c30, 0x2c5f, -48),
  (0x2d00, 0x2d25, -7264), (0xab70, 0xabbf, -38864), (0xff41, 0xff5a, -32),
  (0x10428, 0x1044f, -40), (0x104d8, 0x104fb, -40), (0x10597, 0x105a1, -39),
  (0x105a3, 0x105b1, -39), (0x105b3, 0x105b9, -39), (0x105bb, 0x105bc, -39),
  (0x10cc0, 0x10cf2, -64), (0x10d70, 0x10d85, -32), (0x118c0, 0x118df, -32),
  (0x16e60, 0x16e7f, -32), (0x1e922, 0x1e943, -34)] ++
  List.map (CaseRun.every 2) [
  (0x101, 0x12f, -1), (0x133, 0x137, -1), (0x13a, 0x148, -1), (0x14b, 0x177, -1),
  (0x17a, 0x17e, -1), (0x183, 0x185, -1), (0x1a1, 0x1a5, -1), (0x1b4, 0x1b6, -1),
  (0x1ce, 0x1dc, -1), (0x1df, 0x1ef, -1), (0x1f9, 0x21f, -1), (0x223, 0x233, -1),
  (0x247, 0x24f, -1), (0x371, 0x373, -1), (0x3d9, 0x3ef, -1), (0x461, 0x481, -1),
  (0x48b, 0x4bf, -1), (0x4c2, 0x4ce, -1), (0x4d1, 0x52f, -1), (0x1e01, 0x1e95, -1),
  (0x1ea1, 0x1eff, -1), (0x1f51, 0x1f57, 8), (0x2c68, 0x2c6c, -1), (0x2c81, 0x2ce3, -1),
  (0x2cec, 0x2cee, -1), (0xa641, 0xa66d, -1), (0xa681, 0xa69b, -1), (0xa723, 0xa72f, -1),
  (0xa733, 0xa76f, -1), (0xa77a, 0xa77c, -1), (0xa77f, 0xa787, -1), (0xa791, 0xa793, -1),
  (0xa797, 0xa7a9, -1), (0xa7b5, 0xa7c3, -1), (0xa7c8, 0xa7ca, -1), (0xa7d7, 0xa7db, -1)] ++
  List.map CaseRun.single [
  (0xb5, 743), (0xff, 121), (0x131, -232), (0x17f, -300), (0x180, 195), (0x188, -1), (0x18c, -1),
  (0x192, -1), (0x195, 97), (0x199, -1), (0x19a, 163), (0x19b, 42561), (0x19e, 130), (0x1a8, -1),
  (0x1ad, -1), (0x1b0, -1), (0x1b9, -1), (0x1bd, -1), (0x1bf, 56), (0x1c5, -1), (0x1c6, -2),
  (0x1c8, -1), (0x1c9, -2), (0x1cb, -1), (0x1cc, -2), (0x1dd, -79), (0x1f2, -1), (0x1f3, -2),
  (0x1f5, -1), (0x23c, -1), (0x242, -1), (0x250, 10783), (0x251, 10780), (0x252, 10782),
  (0x253, -210), (0x254, -206), (0x259, -202), (0x25b, -203), (0x25c, 42319), (0x260, -205),
  (0x261, 42315), (0x263, -207), (0x264, 42343), (0x265, 42280), (0x266, 42308), (0x268, -209),
  (0x269, -211), (0x26a, 42308), (0x26b, 10743), (0x26c, 42305), (0x26f, -211), (0x271, 10749),
  (0x272, -213), (0x275, -214), (0x27d, 10727), (0x280, -218), (0x282, 42307), (0x283, -218),
  (0x287, 42282), (0x288, -218), (0x289, -69), (0x28c, -71), (0x292, -219), (0x29d, 42261),
  (0x29e, 42258), (0x345, 84), (0x377, -1), (0x3ac, -38), (0x3c2, -31), (0x3cc, -64),
  (0x3d0, -62), (0x3d1, -57), (0x3d5, -47), (0x3d6, -54), (0x3d7, -8), (0x3f0, -86), (0x3f1, -80),
  (0x3f2, 7), (0x3f3, -116), (0x3f5, -96), (0x3f8, -1), (0x3fb, -1), (0x4cf, -15),
  (0x1c80, -6254), (0x1c81, -6253), (0x1c82, -6244), (0x1c85, -6243), (0x1c86, -6236),
  (0x1c87, -6181), (0x1c88, 35266), (0x1d79, 35332), (0x1d7d, 3814), (0x1d8e, 35384),
  (0x1e9b, -59), (0x1fbe, -7205), (0x1fe5, 7), (0x214e, -28), (0x2184, -1), (0x2c61, -1),
  (0x2c65, -10795), (0x2c66, -10792), (0x2c73, -1), (0x2c76, -1), (0x2cf3, -1), (0x2d27, -7264),
  (0x2d2d, -7264), (0xa78c, -1), (0xa794, 48), (0xa7cd, -1), (0xa7d1, -1), (0xa7f6, -1),
  (0xab53, -928)]

/-- Lower case forms of several letters. -/
def lowerSequences : List (Nat × List Nat) := [
  (0x130, [0x69, 0x307])]

/-- Sixteen Greek letters with an iota below, small and titlecase, whose capitals have it beside them. -/
def withIota : Nat × Nat → List (Nat × List Nat)
  | (first, capital) => (List.range 16).map fun i => (first + i, [capital + i % 8, 0x399])

/-- Upper case forms of several letters. -/
def upperSequences : List (Nat × List Nat) :=
  [(0x1f80, 0x1f08), (0x1f90, 0x1f28), (0x1fa0, 0x1f68)].flatMap withIota ++ [
  (0xdf, [0x53, 0x53]), (0x149, [0x2bc, 0x4e]), (0x1f0, [0x4a, 0x30c]),
  (0x390, [0x399, 0x308, 0x301]), (0x3b0, [0x3a5, 0x308, 0x301]), (0x587, [0x535, 0x552]),
  (0x1e96, [0x48, 0x331]), (0x1e97, [0x54, 0x308]), (0x1e98, [0x57, 0x30a]),
  (0x1e99, [0x59, 0x30a]), (0x1e9a, [0x41, 0x2be]), (0x1f50, [0x3a5, 0x313]),
  (0x1f52, [0x3a5, 0x313, 0x300]), (0x1f54, [0x3a5, 0x313, 0x301]),
  (0x1f56, [0x3a5, 0x313, 0x342]), (0x1fb2, [0x1fba, 0x399]), (0x1fb3, [0x391, 0x399]),
  (0x1fb4, [0x386, 0x399]), (0x1fb6, [0x391, 0x342]), (0x1fb7, [0x391, 0x342, 0x399]),
  (0x1fbc, [0x391, 0x399]), (0x1fc2, [0x1fca, 0x399]), (0x1fc3, [0x397, 0x399]),
  (0x1fc4, [0x389, 0x399]), (0x1fc6, [0x397, 0x342]), (0x1fc7, [0x397, 0x342, 0x399]),
  (0x1fcc, [0x397, 0x399]), (0x1fd2, [0x399, 0x308, 0x300]), (0x1fd3, [0x399, 0x308, 0x301]),
  (0x1fd6, [0x399, 0x342]), (0x1fd7, [0x399, 0x308, 0x342]), (0x1fe2, [0x3a5, 0x308, 0x300]),
  (0x1fe3, [0x3a5, 0x308, 0x301]), (0x1fe4, [0x3a1, 0x313]), (0x1fe6, [0x3a5, 0x342]),
  (0x1fe7, [0x3a5, 0x308, 0x342]), (0x1ff2, [0x1ffa, 0x399]), (0x1ff3, [0x3a9, 0x399]),
  (0x1ff4, [0x38f, 0x399]), (0x1ff6, [0x3a9, 0x342]), (0x1ff7, [0x3a9, 0x342, 0x399]),
  (0x1ffc, [0x3a9, 0x399]), (0xfb00, [0x46, 0x46]), (0xfb01, [0x46, 0x49]),
  (0xfb02, [0x46, 0x4c]), (0xfb03, [0x46, 0x46, 0x49]), (0xfb04, [0x46, 0x46, 0x4c]),
  (0xfb05, [0x53, 0x54]), (0xfb06, [0x53, 0x54]), (0xfb13, [0x544, 0x546]),
  (0xfb14, [0x544, 0x535]), (0xfb15, [0x544, 0x53b]), (0xfb16, [0x54e, 0x546]),
  (0xfb17, [0x544, 0x53d])]

end TabularQuery.Text
