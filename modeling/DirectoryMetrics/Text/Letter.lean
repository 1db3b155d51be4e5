namespace DirectoryMetrics.Text

/-!
Letter case over all of Unicode. A table lists runs of code points: first, last and the distance
between neighbours, so that alphabets whose two cases alternate take one entry.
-/

abbrev CaseRun := Nat × Nat × Nat

def CaseRun.has (run : CaseRun) (code : Nat) : Bool :=
  run.1 ≤ code && code ≤ run.2.1 && (code - run.1) % run.2.2 == 0

def upperRuns : List CaseRun := [
    (0x41, 0x5a, 1), (0xc0, 0xd6, 1), (0xd8, 0xde, 1), (0x100, 0x136, 2), (0x139, 0x147, 2),
    (0x14a, 0x178, 2), (0x179, 0x17d, 2), (0x181, 0x182, 1), (0x184, 0x186, 2),
    (0x187, 0x189, 2), (0x18a, 0x18b, 1), (0x18e, 0x191, 1), (0x193, 0x194, 1),
    (0x196, 0x198, 1), (0x19c, 0x19d, 1), (0x19f, 0x1a0, 1), (0x1a2, 0x1a6, 2),
    (0x1a7, 0x1a9, 2), (0x1ac, 0x1ae, 2), (0x1af, 0x1b1, 2), (0x1b2, 0x1b3, 1),
    (0x1b5, 0x1b7, 2), (0x1b8, 0x1b8, 1), (0x1bc, 0x1bc, 1), (0x1c4, 0x1c4, 1),
    (0x1c7, 0x1c7, 1), (0x1ca, 0x1ca, 1), (0x1cd, 0x1db, 2), (0x1de, 0x1ee, 2),
    (0x1f1, 0x1f1, 1), (0x1f4, 0x1f6, 2), (0x1f7, 0x1f8, 1), (0x1fa, 0x232, 2),
    (0x23a, 0x23b, 1), (0x23d, 0x23e, 1), (0x241, 0x243, 2), (0x244, 0x246, 1),
    (0x248, 0x24e, 2), (0x370, 0x372, 2), (0x376, 0x376, 1), (0x37f, 0x37f, 1),
    (0x386, 0x388, 2), (0x389, 0x38a, 1), (0x38c, 0x38e, 2), (0x38f, 0x391, 2),
    (0x392, 0x3a1, 1), (0x3a3, 0x3ab, 1), (0x3cf, 0x3cf, 1), (0x3d2, 0x3d4, 1),
    (0x3d8, 0x3ee, 2), (0x3f4, 0x3f4, 1), (0x3f7, 0x3f9, 2), (0x3fa, 0x3fa, 1),
    (0x3fd, 0x42f, 1), (0x460, 0x480, 2), (0x48a, 0x4c0, 2), (0x4c1, 0x4cd, 2),
    (0x4d0, 0x52e, 2), (0x531, 0x556, 1), (0x10a0, 0x10c5, 1), (0x10c7, 0x10c7, 1),
    (0x10cd, 0x10cd, 1), (0x13a0, 0x13f5, 1), (0x1c89, 0x1c89, 1), (0x1c90, 0x1cba, 1),
    (0x1cbd, 0x1cbf, 1), (0x1e00, 0x1e94, 2), (0x1e9e, 0x1efe, 2), (0x1f08, 0x1f0f, 1),
    (0x1f18, 0x1f1d, 1), (0x1f28, 0x1f2f, 1), (0x1f38, 0x1f3f, 1), (0x1f48, 0x1f4d, 1),
    (0x1f59, 0x1f5f, 2), (0x1f68, 0x1f6f, 1), (0x1fb8, 0x1fbb, 1), (0x1fc8, 0x1fcb, 1),
    (0x1fd8, 0x1fdb, 1), (0x1fe8, 0x1fec, 1), (0x1ff8, 0x1ffb, 1), (0x2102, 0x2102, 1),
    (0x2107, 0x2107, 1), (0x210b, 0x210d, 1), (0x2110, 0x2112, 1), (0x2115, 0x2115, 1),
    (0x2119, 0x211d, 1), (0x2124, 0x212a, 2), (0x212b, 0x212d, 1), (0x2130, 0x2133, 1),
    (0x213e, 0x213f, 1), (0x2145, 0x2145, 1), (0x2160, 0x216f, 1), (0x2183, 0x2183, 1),
    (0x24b6, 0x24cf, 1), (0x2c00, 0x2c2f, 1), (0x2c60, 0x2c62, 2), (0x2c63, 0x2c64, 1),
    (0x2c67, 0x2c6d, 2), (0x2c6e, 0x2c70, 1), (0x2c72, 0x2c72, 1), (0x2c75, 0x2c75, 1),
    (0x2c7e, 0x2c80, 1), (0x2c82, 0x2ce2, 2), (0x2ceb, 0x2ced, 2), (0x2cf2, 0x2cf2, 1),
    (0xa640, 0xa66c, 2), (0xa680, 0xa69a, 2), (0xa722, 0xa72e, 2), (0xa732, 0xa76e, 2),
    (0xa779, 0xa77d, 2), (0xa77e, 0xa786, 2), (0xa78b, 0xa78d, 2), (0xa790, 0xa792, 2),
    (0xa796, 0xa7aa, 2), (0xa7ab, 0xa7ae, 1), (0xa7b0, 0xa7b4, 1), (0xa7b6, 0xa7c4, 2),
    (0xa7c5, 0xa7c7, 1), (0xa7c9, 0xa7cb, 2), (0xa7cc, 0xa7cc, 1), (0xa7d0, 0xa7d0, 1),
    (0xa7d6, 0xa7dc, 2), (0xa7f5, 0xa7f5, 1), (0xff21, 0xff3a, 1), (0x10400, 0x10427, 1),
    (0x104b0, 0x104d3, 1), (0x10570, 0x1057a, 1), (0x1057c, 0x1058a, 1), (0x1058c, 0x10592, 1),
    (0x10594, 0x10595, 1), (0x10c80, 0x10cb2, 1), (0x10d50, 0x10d65, 1), (0x118a0, 0x118bf, 1),
    (0x16e40, 0x16e5f, 1), (0x1d400, 0x1d419, 1), (0x1d434, 0x1d44d, 1), (0x1d468, 0x1d481, 1),
    (0x1d49c, 0x1d49e, 2), (0x1d49f, 0x1d49f, 1), (0x1d4a2, 0x1d4a2, 1), (0x1d4a5, 0x1d4a6, 1),
    (0x1d4a9, 0x1d4ac, 1), (0x1d4ae, 0x1d4b5, 1), (0x1d4d0, 0x1d4e9, 1), (0x1d504, 0x1d505, 1),
    (0x1d507, 0x1d50a, 1), (0x1d50d, 0x1d514, 1), (0x1d516, 0x1d51c, 1), (0x1d538, 0x1d539, 1),
    (0x1d53b, 0x1d53e, 1), (0x1d540, 0x1d544, 1), (0x1d546, 0x1d546, 1), (0x1d54a, 0x1d550, 1),
    (0x1d56c, 0x1d585, 1), (0x1d5a0, 0x1d5b9, 1), (0x1d5d4, 0x1d5ed, 1), (0x1d608, 0x1d621, 1),
    (0x1d63c, 0x1d655, 1), (0x1d670, 0x1d689, 1), (0x1d6a8, 0x1d6c0, 1), (0x1d6e2, 0x1d6fa, 1),
    (0x1d71c, 0x1d734, 1), (0x1d756, 0x1d76e, 1), (0x1d790, 0x1d7a8, 1), (0x1d7ca, 0x1d7ca, 1),
    (0x1e900, 0x1e921, 1), (0x1f130, 0x1f149, 1), (0x1f150, 0x1f169, 1), (0x1f170, 0x1f189, 1)]

def lowerRuns : List CaseRun := [
    (0x61, 0x7a, 1), (0xaa, 0xaa, 1), (0xb5, 0xb5, 1), (0xba, 0xba, 1), (0xdf, 0xf6, 1),
    (0xf8, 0xff, 1), (0x101, 0x137, 2), (0x138, 0x148, 2), (0x149, 0x177, 2), (0x17a, 0x17e, 2),
    (0x17f, 0x180, 1), (0x183, 0x185, 2), (0x188, 0x188, 1), (0x18c, 0x18d, 1),
    (0x192, 0x192, 1), (0x195, 0x195, 1), (0x199, 0x19b, 1), (0x19e, 0x19e, 1),
    (0x1a1, 0x1a5, 2), (0x1a8, 0x1aa, 2), (0x1ab, 0x1ad, 2), (0x1b0, 0x1b0, 1),
    (0x1b4, 0x1b6, 2), (0x1b9, 0x1ba, 1), (0x1bd, 0x1bf, 1), (0x1c6, 0x1c6, 1),
    (0x1c9, 0x1c9, 1), (0x1cc, 0x1dc, 2), (0x1dd, 0x1ef, 2), (0x1f0, 0x1f0, 1),
    (0x1f3, 0x1f5, 2), (0x1f9, 0x233, 2), (0x234, 0x239, 1), (0x23c, 0x23c, 1),
    (0x23f, 0x240, 1), (0x242, 0x242, 1), (0x247, 0x24f, 2), (0x250, 0x293, 1),
    (0x295, 0x2b8, 1), (0x2c0, 0x2c1, 1), (0x2e0, 0x2e4, 1), (0x345, 0x345, 1),
    (0x371, 0x373, 2), (0x377, 0x377, 1), (0x37a, 0x37d, 1), (0x390, 0x390, 1),
    (0x3ac, 0x3ce, 1), (0x3d0, 0x3d1, 1), (0x3d5, 0x3d7, 1), (0x3d9, 0x3ef, 2),
    (0x3f0, 0x3f3, 1), (0x3f5, 0x3f5, 1), (0x3f8, 0x3f8, 1), (0x3fb, 0x3fc, 1),
    (0x430, 0x45f, 1), (0x461, 0x481, 2), (0x48b, 0x4bf, 2), (0x4c2, 0x4ce, 2),
    (0x4cf, 0x52f, 2), (0x560, 0x588, 1), (0x10d0, 0x10fa, 1), (0x10fd, 0x10ff, 1),
    (0x13f8, 0x13fd, 1), (0x1c80, 0x1c88, 1), (0x1c8a, 0x1c8a, 1), (0x1d00, 0x1dbf, 1),
    (0x1e01, 0x1e95, 2), (0x1e96, 0x1e9d, 1), (0x1e9f, 0x1eff, 2), (0x1f00, 0x1f07, 1),
    (0x1f10, 0x1f15, 1), (0x1f20, 0x1f27, 1), (0x1f30, 0x1f37, 1), (0x1f40, 0x1f45, 1),
    (0x1f50, 0x1f57, 1), (0x1f60, 0x1f67, 1), (0x1f70, 0x1f7d, 1), (0x1f80, 0x1f87, 1),
    (0x1f90, 0x1f97, 1), (0x1fa0, 0x1fa7, 1), (0x1fb0, 0x1fb4, 1), (0x1fb6, 0x1fb7, 1),
    (0x1fbe, 0x1fbe, 1), (0x1fc2, 0x1fc4, 1), (0x1fc6, 0x1fc7, 1), (0x1fd0, 0x1fd3, 1),
    (0x1fd6, 0x1fd7, 1), (0x1fe0, 0x1fe7, 1), (0x1ff2, 0x1ff4, 1), (0x1ff6, 0x1ff7, 1),
    (0x2071, 0x2071, 1), (0x207f, 0x207f, 1), (0x2090, 0x209c, 1), (0x210a, 0x210a, 1),
    (0x210e, 0x210f, 1), (0x2113, 0x2113, 1), (0x212f, 0x212f, 1), (0x2134, 0x2134, 1),
    (0x2139, 0x2139, 1), (0x213c, 0x213d, 1), (0x2146, 0x2149, 1), (0x214e, 0x214e, 1),
    (0x2170, 0x217f, 1), (0x2184, 0x2184, 1), (0x24d0, 0x24e9, 1), (0x2c30, 0x2c5f, 1),
    (0x2c61, 0x2c61, 1), (0x2c65, 0x2c66, 1), (0x2c68, 0x2c6c, 2), (0x2c71, 0x2c73, 2),
    (0x2c74, 0x2c76, 2), (0x2c77, 0x2c7d, 1), (0x2c81, 0x2ce3, 2), (0x2ce4, 0x2ce4, 1),
    (0x2cec, 0x2cee, 2), (0x2cf3, 0x2cf3, 1), (0x2d00, 0x2d25, 1), (0x2d27, 0x2d27, 1),
    (0x2d2d, 0x2d2d, 1), (0xa641, 0xa66d, 2), (0xa681, 0xa69b, 2), (0xa69c, 0xa69d, 1),
    (0xa723, 0xa72f, 2), (0xa730, 0xa731, 1), (0xa733, 0xa76f, 2), (0xa770, 0xa778, 1),
    (0xa77a, 0xa77c, 2), (0xa77f, 0xa787, 2), (0xa78c, 0xa78e, 2), (0xa791, 0xa793, 2),
    (0xa794, 0xa795, 1), (0xa797, 0xa7a9, 2), (0xa7af, 0xa7af, 1), (0xa7b5, 0xa7c3, 2),
    (0xa7c8, 0xa7ca, 2), (0xa7cd, 0xa7cd, 1), (0xa7d1, 0xa7db, 2), (0xa7f6, 0xa7f8, 2),
    (0xa7f9, 0xa7fa, 1), (0xab30, 0xab5a, 1), (0xab5c, 0xab68, 1), (0xab70, 0xabbf, 1),
    (0xfb00, 0xfb06, 1), (0xfb13, 0xfb17, 1), (0xff41, 0xff5a, 1), (0x10428, 0x1044f, 1),
    (0x104d8, 0x104fb, 1), (0x10597, 0x105a1, 1), (0x105a3, 0x105b1, 1), (0x105b3, 0x105b9, 1),
    (0x105bb, 0x105bc, 1), (0x10780, 0x10780, 1), (0x10783, 0x10785, 1), (0x10787, 0x107b0, 1),
    (0x107b2, 0x107ba, 1), (0x10cc0, 0x10cf2, 1), (0x10d70, 0x10d85, 1), (0x118c0, 0x118df, 1),
    (0x16e60, 0x16e7f, 1), (0x1d41a, 0x1d433, 1), (0x1d44e, 0x1d454, 1), (0x1d456, 0x1d467, 1),
    (0x1d482, 0x1d49b, 1), (0x1d4b6, 0x1d4b9, 1), (0x1d4bb, 0x1d4bd, 2), (0x1d4be, 0x1d4c3, 1),
    (0x1d4c5, 0x1d4cf, 1), (0x1d4ea, 0x1d503, 1), (0x1d51e, 0x1d537, 1), (0x1d552, 0x1d56b, 1),
    (0x1d586, 0x1d59f, 1), (0x1d5ba, 0x1d5d3, 1), (0x1d5ee, 0x1d607, 1), (0x1d622, 0x1d63b, 1),
    (0x1d656, 0x1d66f, 1), (0x1d68a, 0x1d6a5, 1), (0x1d6c2, 0x1d6da, 1), (0x1d6dc, 0x1d6e1, 1),
    (0x1d6fc, 0x1d714, 1), (0x1d716, 0x1d71b, 1), (0x1d736, 0x1d74e, 1), (0x1d750, 0x1d755, 1),
    (0x1d770, 0x1d788, 1), (0x1d78a, 0x1d78f, 1), (0x1d7aa, 0x1d7c2, 1), (0x1d7c4, 0x1d7c9, 1),
    (0x1d7cb, 0x1d7cb, 1), (0x1df00, 0x1df09, 1), (0x1df0b, 0x1df1e, 1), (0x1df25, 0x1df2a, 1),
    (0x1e030, 0x1e06d, 1), (0x1e922, 0x1e943, 1)]

def loweringRuns : List (CaseRun × Int) := [
    ((0x41, 0x5a, 1), 32), ((0xc0, 0xd6, 1), 32), ((0xd8, 0xde, 1), 32), ((0x100, 0x12e, 2), 1),
    ((0x132, 0x136, 2), 1), ((0x139, 0x147, 2), 1), ((0x14a, 0x176, 2), 1),
    ((0x178, 0x178, 1), -121), ((0x179, 0x17d, 2), 1), ((0x181, 0x181, 1), 210),
    ((0x182, 0x184, 2), 1), ((0x186, 0x186, 1), 206), ((0x187, 0x187, 1), 1),
    ((0x189, 0x18a, 1), 205), ((0x18b, 0x18b, 1), 1), ((0x18e, 0x18e, 1), 79),
    ((0x18f, 0x18f, 1), 202), ((0x190, 0x190, 1), 203), ((0x191, 0x191, 1), 1),
    ((0x193, 0x193, 1), 205), ((0x194, 0x194, 1), 207), ((0x196, 0x196, 1), 211),
    ((0x197, 0x197, 1), 209), ((0x198, 0x198, 1), 1), ((0x19c, 0x19c, 1), 211),
    ((0x19d, 0x19d, 1), 213), ((0x19f, 0x19f, 1), 214), ((0x1a0, 0x1a4, 2), 1),
    ((0x1a6, 0x1a6, 1), 218), ((0x1a7, 0x1a7, 1), 1), ((0x1a9, 0x1a9, 1), 218),
    ((0x1ac, 0x1ac, 1), 1), ((0x1ae, 0x1ae, 1), 218), ((0x1af, 0x1af, 1), 1),
    ((0x1b1, 0x1b2, 1), 217), ((0x1b3, 0x1b5, 2), 1), ((0x1b7, 0x1b7, 1), 219),
    ((0x1b8, 0x1b8, 1), 1), ((0x1bc, 0x1bc, 1), 1), ((0x1c4, 0x1c4, 1), 2),
    ((0x1c5, 0x1c5, 1), 1), ((0x1c7, 0x1c7, 1), 2), ((0x1c8, 0x1c8, 1), 1),
    ((0x1ca, 0x1ca, 1), 2), ((0x1cb, 0x1db, 2), 1), ((0x1de, 0x1ee, 2), 1),
    ((0x1f1, 0x1f1, 1), 2), ((0x1f2, 0x1f4, 2), 1), ((0x1f6, 0x1f6, 1), -97),
    ((0x1f7, 0x1f7, 1), -56), ((0x1f8, 0x21e, 2), 1), ((0x220, 0x220, 1), -130),
    ((0x222, 0x232, 2), 1), ((0x23a, 0x23a, 1), 10795), ((0x23b, 0x23b, 1), 1),
    ((0x23d, 0x23d, 1), -163), ((0x23e, 0x23e, 1), 10792), ((0x241, 0x241, 1), 1),
    ((0x243, 0x243, 1), -195), ((0x244, 0x244, 1), 69), ((0x245, 0x245, 1), 71),
    ((0x246, 0x24e, 2), 1), ((0x370, 0x372, 2), 1), ((0x376, 0x376, 1), 1),
    ((0x37f, 0x37f, 1), 116), ((0x386, 0x386, 1), 38), ((0x388, 0x38a, 1), 37),
    ((0x38c, 0x38c, 1), 64), ((0x38e, 0x38f, 1), 63), ((0x391, 0x3a1, 1), 32),
    ((0x3a3, 0x3ab, 1), 32), ((0x3cf, 0x3cf, 1), 8), ((0x3d8, 0x3ee, 2), 1),
    ((0x3f4, 0x3f4, 1), -60), ((0x3f7, 0x3f7, 1), 1), ((0x3f9, 0x3f9, 1), -7),
    ((0x3fa, 0x3fa, 1), 1), ((0x3fd, 0x3ff, 1), -130), ((0x400, 0x40f, 1), 80),
    ((0x410, 0x42f, 1), 32), ((0x460, 0x480, 2), 1), ((0x48a, 0x4be, 2), 1),
    ((0x4c0, 0x4c0, 1), 15), ((0x4c1, 0x4cd, 2), 1), ((0x4d0, 0x52e, 2), 1),
    ((0x531, 0x556, 1), 48), ((0x10a0, 0x10c5, 1), 7264), ((0x10c7, 0x10c7, 1), 7264),
    ((0x10cd, 0x10cd, 1), 7264), ((0x13a0, 0x13ef, 1), 38864), ((0x13f0, 0x13f5, 1), 8),
    ((0x1c89, 0x1c89, 1), 1), ((0x1c90, 0x1cba, 1), -3008), ((0x1cbd, 0x1cbf, 1), -3008),
    ((0x1e00, 0x1e94, 2), 1), ((0x1e9e, 0x1e9e, 1), -7615), ((0x1ea0, 0x1efe, 2), 1),
    ((0x1f08, 0x1f0f, 1), -8), ((0x1f18, 0x1f1d, 1), -8), ((0x1f28, 0x1f2f, 1), -8),
    ((0x1f38, 0x1f3f, 1), -8), ((0x1f48, 0x1f4d, 1), -8), ((0x1f59, 0x1f5f, 2), -8),
    ((0x1f68, 0x1f6f, 1), -8), ((0x1f88, 0x1f8f, 1), -8), ((0x1f98, 0x1f9f, 1), -8),
    ((0x1fa8, 0x1faf, 1), -8), ((0x1fb8, 0x1fb9, 1), -8), ((0x1fba, 0x1fbb, 1), -74),
    ((0x1fbc, 0x1fbc, 1), -9), ((0x1fc8, 0x1fcb, 1), -86), ((0x1fcc, 0x1fcc, 1), -9),
    ((0x1fd8, 0x1fd9, 1), -8), ((0x1fda, 0x1fdb, 1), -100), ((0x1fe8, 0x1fe9, 1), -8),
    ((0x1fea, 0x1feb, 1), -112), ((0x1fec, 0x1fec, 1), -7), ((0x1ff8, 0x1ff9, 1), -128),
    ((0x1ffa, 0x1ffb, 1), -126), ((0x1ffc, 0x1ffc, 1), -9), ((0x2126, 0x2126, 1), -7517),
    ((0x212a, 0x212a, 1), -8383), ((0x212b, 0x212b, 1), -8262), ((0x2132, 0x2132, 1), 28),
    ((0x2160, 0x216f, 1), 16), ((0x2183, 0x2183, 1), 1), ((0x24b6, 0x24cf, 1), 26),
    ((0x2c00, 0x2c2f, 1), 48), ((0x2c60, 0x2c60, 1), 1), ((0x2c62, 0x2c62, 1), -10743),
    ((0x2c63, 0x2c63, 1), -3814), ((0x2c64, 0x2c64, 1), -10727), ((0x2c67, 0x2c6b, 2), 1),
    ((0x2c6d, 0x2c6d, 1), -10780), ((0x2c6e, 0x2c6e, 1), -10749), ((0x2c6f, 0x2c6f, 1), -10783),
    ((0x2c70, 0x2c70, 1), -10782), ((0x2c72, 0x2c72, 1), 1), ((0x2c75, 0x2c75, 1), 1),
    ((0x2c7e, 0x2c7f, 1), -10815), ((0x2c80, 0x2ce2, 2), 1), ((0x2ceb, 0x2ced, 2), 1),
    ((0x2cf2, 0x2cf2, 1), 1), ((0xa640, 0xa66c, 2), 1), ((0xa680, 0xa69a, 2), 1),
    ((0xa722, 0xa72e, 2), 1), ((0xa732, 0xa76e, 2), 1), ((0xa779, 0xa77b, 2), 1),
    ((0xa77d, 0xa77d, 1), -35332), ((0xa77e, 0xa786, 2), 1), ((0xa78b, 0xa78b, 1), 1),
    ((0xa78d, 0xa78d, 1), -42280), ((0xa790, 0xa792, 2), 1), ((0xa796, 0xa7a8, 2), 1),
    ((0xa7aa, 0xa7aa, 1), -42308), ((0xa7ab, 0xa7ab, 1), -42319), ((0xa7ac, 0xa7ac, 1), -42315),
    ((0xa7ad, 0xa7ad, 1), -42305), ((0xa7ae, 0xa7ae, 1), -42308), ((0xa7b0, 0xa7b0, 1), -42258),
    ((0xa7b1, 0xa7b1, 1), -42282), ((0xa7b2, 0xa7b2, 1), -42261), ((0xa7b3, 0xa7b3, 1), 928),
    ((0xa7b4, 0xa7c2, 2), 1), ((0xa7c4, 0xa7c4, 1), -48), ((0xa7c5, 0xa7c5, 1), -42307),
    ((0xa7c6, 0xa7c6, 1), -35384), ((0xa7c7, 0xa7c9, 2), 1), ((0xa7cb, 0xa7cb, 1), -42343),
    ((0xa7cc, 0xa7cc, 1), 1), ((0xa7d0, 0xa7d0, 1), 1), ((0xa7d6, 0xa7da, 2), 1),
    ((0xa7dc, 0xa7dc, 1), -42561), ((0xa7f5, 0xa7f5, 1), 1), ((0xff21, 0xff3a, 1), 32),
    ((0x10400, 0x10427, 1), 40), ((0x104b0, 0x104d3, 1), 40), ((0x10570, 0x1057a, 1), 39),
    ((0x1057c, 0x1058a, 1), 39), ((0x1058c, 0x10592, 1), 39), ((0x10594, 0x10595, 1), 39),
    ((0x10c80, 0x10cb2, 1), 64), ((0x10d50, 0x10d65, 1), 32), ((0x118a0, 0x118bf, 1), 32),
    ((0x16e40, 0x16e5f, 1), 32), ((0x1e900, 0x1e921, 1), 34)]

def isUpper (c : Char) : Bool :=
  if c.toNat < 0x80 then c.isUpper else upperRuns.any (·.has c.toNat)

def isLower (c : Char) : Bool :=
  if c.toNat < 0x80 then c.isLower else lowerRuns.any (·.has c.toNat)

/-- The small form of a letter; only a capital I with a dot has one of two characters. -/
def lower (c : Char) : List Char :=
  if c.toNat < 0x80 then [c.toLower]
  else if c.toNat = 0x130 then ['i', Char.ofNat 0x307]
  else
    match loweringRuns.find? (·.1.has c.toNat) with
    | some (_, distance) => [Char.ofNat (c.toNat + distance).toNat]
    | none => [c]

end DirectoryMetrics.Text
