import FixWire.Text.CharSet

/-!
# Letter case

The characters with the Unicode properties Lowercase and Uppercase. They decide where a name is split
into words.
-/

namespace FixWire.Text

/-- The characters with the property Lowercase. -/
def lowercase : CharSet := [
  .run 0x61 0x7a, .one 0xaa, .one 0xb5, .one 0xba, .run 0xdf 0xf6, .run 0xf8 0xff,
  .alternate 0x101 0x135, .run 0x137 0x138, .alternate 0x13a 0x146, .run 0x148 0x149,
  .alternate 0x14b 0x177, .alternate 0x17a 0x17c, .run 0x17e 0x180, .alternate 0x183 0x185,
  .one 0x188, .run 0x18c 0x18d, .one 0x192, .one 0x195, .run 0x199 0x19b, .one 0x19e,
  .alternate 0x1a1 0x1a5, .one 0x1a8, .run 0x1aa 0x1ab, .one 0x1ad, .one 0x1b0,
  .alternate 0x1b4 0x1b6, .run 0x1b9 0x1ba, .run 0x1bd 0x1bf, .one 0x1c6, .one 0x1c9,
  .alternate 0x1cc 0x1da, .run 0x1dc 0x1dd, .alternate 0x1df 0x1ed, .run 0x1ef 0x1f0,
  .alternate 0x1f3 0x1f5, .alternate 0x1f9 0x231, .run 0x233 0x239, .one 0x23c, .run 0x23f 0x240,
  .one 0x242, .alternate 0x247 0x24d, .run 0x24f 0x293, .run 0x296 0x2b8, .run 0x2c0 0x2c1,
  .run 0x2e0 0x2e4, .one 0x345, .alternate 0x371 0x373, .one 0x377, .run 0x37a 0x37d, .one 0x390,
  .run 0x3ac 0x3ce, .run 0x3d0 0x3d1, .run 0x3d5 0x3d7, .alternate 0x3d9 0x3ed, .run 0x3ef 0x3f3,
  .one 0x3f5, .one 0x3f8, .run 0x3fb 0x3fc, .run 0x430 0x45f, .alternate 0x461 0x481,
  .alternate 0x48b 0x4bf, .alternate 0x4c2 0x4cc, .run 0x4ce 0x4cf, .alternate 0x4d1 0x52f,
  .run 0x560 0x588, .run 0x10d0 0x10fa, .run 0x10fc 0x10ff, .run 0x13f8 0x13fd,
  .run 0x1c80 0x1c88, .one 0x1c8a, .run 0x1d00 0x1dbf, .alternate 0x1e01 0x1e93,
  .run 0x1e95 0x1e9d, .alternate 0x1e9f 0x1efd, .run 0x1eff 0x1f07, .run 0x1f10 0x1f15,
  .run 0x1f20 0x1f27, .run 0x1f30 0x1f37, .run 0x1f40 0x1f45, .run 0x1f50 0x1f57,
  .run 0x1f60 0x1f67, .run 0x1f70 0x1f7d, .run 0x1f80 0x1f87, .run 0x1f90 0x1f97,
  .run 0x1fa0 0x1fa7, .run 0x1fb0 0x1fb4, .run 0x1fb6 0x1fb7, .one 0x1fbe, .run 0x1fc2 0x1fc4,
  .run 0x1fc6 0x1fc7, .run 0x1fd0 0x1fd3, .run 0x1fd6 0x1fd7, .run 0x1fe0 0x1fe7,
  .run 0x1ff2 0x1ff4, .run 0x1ff6 0x1ff7, .one 0x2071, .one 0x207f, .run 0x2090 0x209c,
  .one 0x210a, .run 0x210e 0x210f, .one 0x2113, .one 0x212f, .one 0x2134, .one 0x2139,
  .run 0x213c 0x213d, .run 0x2146 0x2149, .one 0x214e, .run 0x2170 0x217f, .one 0x2184,
  .run 0x24d0 0x24e9, .run 0x2c30 0x2c5f, .one 0x2c61, .run 0x2c65 0x2c66,
  .alternate 0x2c68 0x2c6c, .one 0x2c71, .run 0x2c73 0x2c74, .run 0x2c76 0x2c7d,
  .alternate 0x2c81 0x2ce1, .run 0x2ce3 0x2ce4, .alternate 0x2cec 0x2cee, .one 0x2cf3,
  .run 0x2d00 0x2d25, .one 0x2d27, .one 0x2d2d, .alternate 0xa641 0xa66d,
  .alternate 0xa681 0xa699, .run 0xa69b 0xa69d, .alternate 0xa723 0xa72d, .run 0xa72f 0xa731,
  .alternate 0xa733 0xa76d, .run 0xa76f 0xa778, .alternate 0xa77a 0xa77c,
  .alternate 0xa77f 0xa787, .alternate 0xa78c 0xa78e, .one 0xa791, .run 0xa793 0xa795,
  .alternate 0xa797 0xa7a9, .one 0xa7af, .alternate 0xa7b5 0xa7c3, .alternate 0xa7c8 0xa7ca,
  .alternate 0xa7cd 0xa7db, .run 0xa7f1 0xa7f4, .one 0xa7f6, .run 0xa7f8 0xa7fa,
  .run 0xab30 0xab5a, .run 0xab5c 0xab69, .run 0xab70 0xabbf, .run 0xfb00 0xfb06,
  .run 0xfb13 0xfb17, .run 0xff41 0xff5a, .run 0x10428 0x1044f, .run 0x104d8 0x104fb,
  .run 0x10597 0x105a1, .run 0x105a3 0x105b1, .run 0x105b3 0x105b9, .run 0x105bb 0x105bc,
  .one 0x10780, .run 0x10783 0x10785, .run 0x10787 0x107b0, .run 0x107b2 0x107ba,
  .run 0x10cc0 0x10cf2, .run 0x10d70 0x10d85, .run 0x118c0 0x118df, .run 0x16e60 0x16e7f,
  .run 0x16ebb 0x16ed3, .run 0x1d41a 0x1d433, .run 0x1d44e 0x1d454, .run 0x1d456 0x1d467,
  .run 0x1d482 0x1d49b, .run 0x1d4b6 0x1d4b9, .one 0x1d4bb, .run 0x1d4bd 0x1d4c3,
  .run 0x1d4c5 0x1d4cf, .run 0x1d4ea 0x1d503, .run 0x1d51e 0x1d537, .run 0x1d552 0x1d56b,
  .run 0x1d586 0x1d59f, .run 0x1d5ba 0x1d5d3, .run 0x1d5ee 0x1d607, .run 0x1d622 0x1d63b,
  .run 0x1d656 0x1d66f, .run 0x1d68a 0x1d6a5, .run 0x1d6c2 0x1d6da, .run 0x1d6dc 0x1d6e1,
  .run 0x1d6fc 0x1d714, .run 0x1d716 0x1d71b, .run 0x1d736 0x1d74e, .run 0x1d750 0x1d755,
  .run 0x1d770 0x1d788, .run 0x1d78a 0x1d78f, .run 0x1d7aa 0x1d7c2, .run 0x1d7c4 0x1d7c9,
  .one 0x1d7cb, .run 0x1df00 0x1df09, .run 0x1df0b 0x1df1e, .run 0x1df25 0x1df2a,
  .run 0x1e030 0x1e06d, .run 0x1e922 0x1e943]

/-- The characters with the property Uppercase. -/
def uppercase : CharSet := [
  .run 0x41 0x5a, .run 0xc0 0xd6, .run 0xd8 0xde, .alternate 0x100 0x136, .alternate 0x139 0x147,
  .alternate 0x14a 0x176, .run 0x178 0x179, .alternate 0x17b 0x17d, .run 0x181 0x182, .one 0x184,
  .run 0x186 0x187, .run 0x189 0x18b, .run 0x18e 0x191, .run 0x193 0x194, .run 0x196 0x198,
  .run 0x19c 0x19d, .run 0x19f 0x1a0, .alternate 0x1a2 0x1a4, .run 0x1a6 0x1a7, .one 0x1a9,
  .one 0x1ac, .run 0x1ae 0x1af, .run 0x1b1 0x1b3, .one 0x1b5, .run 0x1b7 0x1b8, .one 0x1bc,
  .one 0x1c4, .one 0x1c7, .one 0x1ca, .alternate 0x1cd 0x1db, .alternate 0x1de 0x1ee, .one 0x1f1,
  .one 0x1f4, .run 0x1f6 0x1f8, .alternate 0x1fa 0x232, .run 0x23a 0x23b, .run 0x23d 0x23e,
  .one 0x241, .run 0x243 0x246, .alternate 0x248 0x24e, .alternate 0x370 0x372, .one 0x376,
  .one 0x37f, .one 0x386, .run 0x388 0x38a, .one 0x38c, .run 0x38e 0x38f, .run 0x391 0x3a1,
  .run 0x3a3 0x3ab, .one 0x3cf, .run 0x3d2 0x3d4, .alternate 0x3d8 0x3ee, .one 0x3f4, .one 0x3f7,
  .run 0x3f9 0x3fa, .run 0x3fd 0x42f, .alternate 0x460 0x480, .alternate 0x48a 0x4be,
  .run 0x4c0 0x4c1, .alternate 0x4c3 0x4cd, .alternate 0x4d0 0x52e, .run 0x531 0x556,
  .run 0x10a0 0x10c5, .one 0x10c7, .one 0x10cd, .run 0x13a0 0x13f5, .one 0x1c89,
  .run 0x1c90 0x1cba, .run 0x1cbd 0x1cbf, .alternate 0x1e00 0x1e94, .alternate 0x1e9e 0x1efe,
  .run 0x1f08 0x1f0f, .run 0x1f18 0x1f1d, .run 0x1f28 0x1f2f, .run 0x1f38 0x1f3f,
  .run 0x1f48 0x1f4d, .alternate 0x1f59 0x1f5f, .run 0x1f68 0x1f6f, .run 0x1fb8 0x1fbb,
  .run 0x1fc8 0x1fcb, .run 0x1fd8 0x1fdb, .run 0x1fe8 0x1fec, .run 0x1ff8 0x1ffb, .one 0x2102,
  .one 0x2107, .run 0x210b 0x210d, .run 0x2110 0x2112, .one 0x2115, .run 0x2119 0x211d,
  .alternate 0x2124 0x2128, .run 0x212a 0x212d, .run 0x2130 0x2133, .run 0x213e 0x213f,
  .one 0x2145, .run 0x2160 0x216f, .one 0x2183, .run 0x24b6 0x24cf, .run 0x2c00 0x2c2f,
  .one 0x2c60, .run 0x2c62 0x2c64, .alternate 0x2c67 0x2c6b, .run 0x2c6d 0x2c70, .one 0x2c72,
  .one 0x2c75, .run 0x2c7e 0x2c80, .alternate 0x2c82 0x2ce2, .alternate 0x2ceb 0x2ced,
  .one 0x2cf2, .alternate 0xa640 0xa66c, .alternate 0xa680 0xa69a, .alternate 0xa722 0xa72e,
  .alternate 0xa732 0xa76e, .alternate 0xa779 0xa77b, .run 0xa77d 0xa77e,
  .alternate 0xa780 0xa786, .alternate 0xa78b 0xa78d, .alternate 0xa790 0xa792,
  .alternate 0xa796 0xa7a8, .run 0xa7aa 0xa7ae, .run 0xa7b0 0xa7b4, .alternate 0xa7b6 0xa7c2,
  .run 0xa7c4 0xa7c7, .one 0xa7c9, .run 0xa7cb 0xa7cc, .alternate 0xa7ce 0xa7dc, .one 0xa7f5,
  .run 0xff21 0xff3a, .run 0x10400 0x10427, .run 0x104b0 0x104d3, .run 0x10570 0x1057a,
  .run 0x1057c 0x1058a, .run 0x1058c 0x10592, .run 0x10594 0x10595, .run 0x10c80 0x10cb2,
  .run 0x10d50 0x10d65, .run 0x118a0 0x118bf, .run 0x16e40 0x16e5f, .run 0x16ea0 0x16eb8,
  .run 0x1d400 0x1d419, .run 0x1d434 0x1d44d, .run 0x1d468 0x1d481, .one 0x1d49c,
  .run 0x1d49e 0x1d49f, .one 0x1d4a2, .run 0x1d4a5 0x1d4a6, .run 0x1d4a9 0x1d4ac,
  .run 0x1d4ae 0x1d4b5, .run 0x1d4d0 0x1d4e9, .run 0x1d504 0x1d505, .run 0x1d507 0x1d50a,
  .run 0x1d50d 0x1d514, .run 0x1d516 0x1d51c, .run 0x1d538 0x1d539, .run 0x1d53b 0x1d53e,
  .run 0x1d540 0x1d544, .one 0x1d546, .run 0x1d54a 0x1d550, .run 0x1d56c 0x1d585,
  .run 0x1d5a0 0x1d5b9, .run 0x1d5d4 0x1d5ed, .run 0x1d608 0x1d621, .run 0x1d63c 0x1d655,
  .run 0x1d670 0x1d689, .run 0x1d6a8 0x1d6c0, .run 0x1d6e2 0x1d6fa, .run 0x1d71c 0x1d734,
  .run 0x1d756 0x1d76e, .run 0x1d790 0x1d7a8, .one 0x1d7ca, .run 0x1e900 0x1e921,
  .run 0x1f130 0x1f149, .run 0x1f150 0x1f169, .run 0x1f170 0x1f189]

/-- A small letter. -/
def isLower (c : Char) : Bool :=
  lowercase.contains c

/-- A capital letter. -/
def isUpper (c : Char) : Bool :=
  uppercase.contains c

end FixWire.Text
