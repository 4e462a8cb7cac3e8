import FixWire.Text.CharSet

/-!
# Characters that do not show by themselves

Two sets of characters that a quoted text writes by their number : those that attach to the character before
them, and those that print nothing of their own : controls, formats, fillers, surrogates, private and
unassigned code points and every separator but the space.
-/

namespace FixWire.Text

/-- The marks that attach to the character before them : the characters with the property Grapheme_Extend,
without the two halfwidth sound marks, which are letters with a place of their own. -/
def graphemeExtenders : CharSet := [
  .run 0x300 0x36f, .run 0x483 0x489, .run 0x591 0x5bd, .one 0x5bf, .run 0x5c1 0x5c2,
  .run 0x5c4 0x5c5, .one 0x5c7, .run 0x610 0x61a, .run 0x64b 0x65f, .one 0x670, .run 0x6d6 0x6dc,
  .run 0x6df 0x6e4, .run 0x6e7 0x6e8, .run 0x6ea 0x6ed, .one 0x711, .run 0x730 0x74a,
  .run 0x7a6 0x7b0, .run 0x7eb 0x7f3, .one 0x7fd, .run 0x816 0x819, .run 0x81b 0x823,
  .run 0x825 0x827, .run 0x829 0x82d, .run 0x859 0x85b, .run 0x897 0x89f, .run 0x8ca 0x8e1,
  .run 0x8e3 0x902, .alternate 0x93a 0x93c, .run 0x941 0x948, .one 0x94d, .run 0x951 0x957,
  .run 0x962 0x963, .one 0x981, .alternate 0x9bc 0x9be, .run 0x9c1 0x9c4, .one 0x9cd, .one 0x9d7,
  .run 0x9e2 0x9e3, .one 0x9fe, .run 0xa01 0xa02, .one 0xa3c, .run 0xa41 0xa42, .run 0xa47 0xa48,
  .run 0xa4b 0xa4d, .one 0xa51, .run 0xa70 0xa71, .one 0xa75, .run 0xa81 0xa82, .one 0xabc,
  .run 0xac1 0xac5, .run 0xac7 0xac8, .one 0xacd, .run 0xae2 0xae3, .run 0xafa 0xaff, .one 0xb01,
  .one 0xb3c, .run 0xb3e 0xb3f, .run 0xb41 0xb44, .one 0xb4d, .run 0xb55 0xb57, .run 0xb62 0xb63,
  .one 0xb82, .alternate 0xbbe 0xbc0, .one 0xbcd, .one 0xbd7, .one 0xc00, .one 0xc04, .one 0xc3c,
  .run 0xc3e 0xc40, .run 0xc46 0xc48, .run 0xc4a 0xc4d, .run 0xc55 0xc56, .run 0xc62 0xc63,
  .one 0xc81, .one 0xcbc, .run 0xcbf 0xcc0, .one 0xcc2, .run 0xcc6 0xcc8, .run 0xcca 0xccd,
  .run 0xcd5 0xcd6, .run 0xce2 0xce3, .run 0xd00 0xd01, .run 0xd3b 0xd3c, .one 0xd3e,
  .run 0xd41 0xd44, .one 0xd4d, .one 0xd57, .run 0xd62 0xd63, .one 0xd81, .one 0xdca, .one 0xdcf,
  .run 0xdd2 0xdd4, .one 0xdd6, .one 0xddf, .one 0xe31, .run 0xe34 0xe3a, .run 0xe47 0xe4e,
  .one 0xeb1, .run 0xeb4 0xebc, .run 0xec8 0xece, .run 0xf18 0xf19, .alternate 0xf35 0xf39,
  .run 0xf71 0xf7e, .run 0xf80 0xf84, .run 0xf86 0xf87, .run 0xf8d 0xf97, .run 0xf99 0xfbc,
  .one 0xfc6, .run 0x102d 0x1030, .run 0x1032 0x1037, .run 0x1039 0x103a, .run 0x103d 0x103e,
  .run 0x1058 0x1059, .run 0x105e 0x1060, .run 0x1071 0x1074, .one 0x1082, .run 0x1085 0x1086,
  .one 0x108d, .one 0x109d, .run 0x135d 0x135f, .run 0x1712 0x1715, .run 0x1732 0x1734,
  .run 0x1752 0x1753, .run 0x1772 0x1773, .run 0x17b4 0x17b5, .run 0x17b7 0x17bd, .one 0x17c6,
  .run 0x17c9 0x17d3, .one 0x17dd, .run 0x180b 0x180d, .one 0x180f, .run 0x1885 0x1886,
  .one 0x18a9, .run 0x1920 0x1922, .run 0x1927 0x1928, .one 0x1932, .run 0x1939 0x193b,
  .run 0x1a17 0x1a18, .one 0x1a1b, .one 0x1a56, .run 0x1a58 0x1a5e, .alternate 0x1a60 0x1a62,
  .run 0x1a65 0x1a6c, .run 0x1a73 0x1a7c, .one 0x1a7f, .run 0x1ab0 0x1add, .run 0x1ae0 0x1aeb,
  .run 0x1b00 0x1b03, .run 0x1b34 0x1b3d, .run 0x1b42 0x1b44, .run 0x1b6b 0x1b73,
  .run 0x1b80 0x1b81, .run 0x1ba2 0x1ba5, .run 0x1ba8 0x1bad, .one 0x1be6, .run 0x1be8 0x1be9,
  .one 0x1bed, .run 0x1bef 0x1bf3, .run 0x1c2c 0x1c33, .run 0x1c36 0x1c37, .run 0x1cd0 0x1cd2,
  .run 0x1cd4 0x1ce0, .run 0x1ce2 0x1ce8, .one 0x1ced, .one 0x1cf4, .run 0x1cf8 0x1cf9,
  .run 0x1dc0 0x1dff, .one 0x200c, .run 0x20d0 0x20f0, .run 0x2cef 0x2cf1, .one 0x2d7f,
  .run 0x2de0 0x2dff, .run 0x302a 0x302f, .run 0x3099 0x309a, .run 0xa66f 0xa672,
  .run 0xa674 0xa67d, .run 0xa69e 0xa69f, .run 0xa6f0 0xa6f1, .one 0xa802, .one 0xa806,
  .one 0xa80b, .run 0xa825 0xa826, .one 0xa82c, .run 0xa8c4 0xa8c5, .run 0xa8e0 0xa8f1,
  .one 0xa8ff, .run 0xa926 0xa92d, .run 0xa947 0xa951, .one 0xa953, .run 0xa980 0xa982,
  .one 0xa9b3, .run 0xa9b6 0xa9b9, .run 0xa9bc 0xa9bd, .one 0xa9c0, .one 0xa9e5,
  .run 0xaa29 0xaa2e, .run 0xaa31 0xaa32, .run 0xaa35 0xaa36, .one 0xaa43, .one 0xaa4c,
  .one 0xaa7c, .one 0xaab0, .run 0xaab2 0xaab4, .run 0xaab7 0xaab8, .run 0xaabe 0xaabf,
  .one 0xaac1, .run 0xaaec 0xaaed, .one 0xaaf6, .one 0xabe5, .one 0xabe8, .one 0xabed,
  .one 0xfb1e, .run 0xfe00 0xfe0f, .run 0xfe20 0xfe2f, .one 0x101fd, .one 0x102e0,
  .run 0x10376 0x1037a, .run 0x10a01 0x10a03, .run 0x10a05 0x10a06, .run 0x10a0c 0x10a0f,
  .run 0x10a38 0x10a3a, .one 0x10a3f, .run 0x10ae5 0x10ae6, .run 0x10d24 0x10d27,
  .run 0x10d69 0x10d6d, .run 0x10eab 0x10eac, .run 0x10efa 0x10eff, .run 0x10f46 0x10f50,
  .run 0x10f82 0x10f85, .one 0x11001, .run 0x11038 0x11046, .one 0x11070, .run 0x11073 0x11074,
  .run 0x1107f 0x11081, .run 0x110b3 0x110b6, .run 0x110b9 0x110ba, .one 0x110c2,
  .run 0x11100 0x11102, .run 0x11127 0x1112b, .run 0x1112d 0x11134, .one 0x11173,
  .run 0x11180 0x11181, .run 0x111b6 0x111be, .one 0x111c0, .run 0x111c9 0x111cc, .one 0x111cf,
  .run 0x1122f 0x11231, .run 0x11234 0x11237, .one 0x1123e, .one 0x11241, .one 0x112df,
  .run 0x112e3 0x112ea, .run 0x11300 0x11301, .run 0x1133b 0x1133c, .alternate 0x1133e 0x11340,
  .one 0x1134d, .one 0x11357, .run 0x11366 0x1136c, .run 0x11370 0x11374, .one 0x113b8,
  .run 0x113bb 0x113c0, .one 0x113c2, .one 0x113c5, .run 0x113c7 0x113c9, .run 0x113ce 0x113d0,
  .one 0x113d2, .run 0x113e1 0x113e2, .run 0x11438 0x1143f, .run 0x11442 0x11444, .one 0x11446,
  .one 0x1145e, .one 0x114b0, .run 0x114b3 0x114b8, .one 0x114ba, .one 0x114bd,
  .run 0x114bf 0x114c0, .run 0x114c2 0x114c3, .one 0x115af, .run 0x115b2 0x115b5,
  .run 0x115bc 0x115bd, .run 0x115bf 0x115c0, .run 0x115dc 0x115dd, .run 0x11633 0x1163a,
  .one 0x1163d, .run 0x1163f 0x11640, .alternate 0x116ab 0x116ad, .run 0x116b0 0x116b7,
  .alternate 0x1171d 0x1171f, .run 0x11722 0x11725, .run 0x11727 0x1172b, .run 0x1182f 0x11837,
  .run 0x11839 0x1183a, .one 0x11930, .run 0x1193b 0x1193e, .one 0x11943, .run 0x119d4 0x119d7,
  .run 0x119da 0x119db, .one 0x119e0, .run 0x11a01 0x11a0a, .run 0x11a33 0x11a38,
  .run 0x11a3b 0x11a3e, .one 0x11a47, .run 0x11a51 0x11a56, .run 0x11a59 0x11a5b,
  .run 0x11a8a 0x11a96, .run 0x11a98 0x11a99, .one 0x11b60, .run 0x11b62 0x11b64, .one 0x11b66,
  .run 0x11c30 0x11c36, .run 0x11c38 0x11c3d, .one 0x11c3f, .run 0x11c92 0x11ca7,
  .run 0x11caa 0x11cb0, .run 0x11cb2 0x11cb3, .run 0x11cb5 0x11cb6, .run 0x11d31 0x11d36,
  .one 0x11d3a, .run 0x11d3c 0x11d3d, .run 0x11d3f 0x11d45, .one 0x11d47, .run 0x11d90 0x11d91,
  .alternate 0x11d95 0x11d97, .run 0x11ef3 0x11ef4, .run 0x11f00 0x11f01, .run 0x11f36 0x11f3a,
  .run 0x11f40 0x11f42, .one 0x11f5a, .one 0x13440, .run 0x13447 0x13455, .run 0x1611e 0x16129,
  .run 0x1612d 0x1612f, .run 0x16af0 0x16af4, .run 0x16b30 0x16b36, .one 0x16f4f,
  .run 0x16f8f 0x16f92, .one 0x16fe4, .run 0x16ff0 0x16ff1, .run 0x1bc9d 0x1bc9e,
  .run 0x1cf00 0x1cf2d, .run 0x1cf30 0x1cf46, .run 0x1d165 0x1d169, .run 0x1d16d 0x1d172,
  .run 0x1d17b 0x1d182, .run 0x1d185 0x1d18b, .run 0x1d1aa 0x1d1ad, .run 0x1d242 0x1d244,
  .run 0x1da00 0x1da36, .run 0x1da3b 0x1da6c, .one 0x1da75, .one 0x1da84, .run 0x1da9b 0x1da9f,
  .run 0x1daa1 0x1daaf, .run 0x1e000 0x1e006, .run 0x1e008 0x1e018, .run 0x1e01b 0x1e021,
  .run 0x1e023 0x1e024, .run 0x1e026 0x1e02a, .one 0x1e08f, .run 0x1e130 0x1e136, .one 0x1e2ae,
  .run 0x1e2ec 0x1e2ef, .run 0x1e4ec 0x1e4ef, .run 0x1e5ee 0x1e5ef, .one 0x1e6e3, .one 0x1e6e6,
  .run 0x1e6ee 0x1e6ef, .one 0x1e6f5, .run 0x1e8d0 0x1e8d6, .run 0x1e944 0x1e94a,
  .run 0xe0020 0xe007f, .run 0xe0100 0xe01ef]

/-- The characters that print nothing of their own. The fillers among them are letters with the property
Default_Ignorable_Code_Point. -/
def unprintables : CharSet := [
  .run 0x0 0x1f, .run 0x7f 0xa0, .one 0xad, .run 0x378 0x379, .run 0x380 0x383,
  .alternate 0x38b 0x38d, .one 0x3a2, .one 0x530, .run 0x557 0x558, .run 0x58b 0x58c, .one 0x590,
  .run 0x5c8 0x5cf, .run 0x5eb 0x5ee, .run 0x5f5 0x605, .one 0x61c, .one 0x6dd, .run 0x70e 0x70f,
  .run 0x74b 0x74c, .run 0x7b2 0x7bf, .run 0x7fb 0x7fc, .run 0x82e 0x82f, .one 0x83f,
  .run 0x85c 0x85d, .one 0x85f, .run 0x86b 0x86f, .run 0x890 0x896, .one 0x8e2, .one 0x984,
  .run 0x98d 0x98e, .run 0x991 0x992, .one 0x9a9, .one 0x9b1, .run 0x9b3 0x9b5, .run 0x9ba 0x9bb,
  .run 0x9c5 0x9c6, .run 0x9c9 0x9ca, .run 0x9cf 0x9d6, .run 0x9d8 0x9db, .one 0x9de,
  .run 0x9e4 0x9e5, .run 0x9ff 0xa00, .one 0xa04, .run 0xa0b 0xa0e, .run 0xa11 0xa12, .one 0xa29,
  .one 0xa31, .one 0xa34, .one 0xa37, .run 0xa3a 0xa3b, .one 0xa3d, .run 0xa43 0xa46,
  .run 0xa49 0xa4a, .run 0xa4e 0xa50, .run 0xa52 0xa58, .one 0xa5d, .run 0xa5f 0xa65,
  .run 0xa77 0xa80, .one 0xa84, .one 0xa8e, .one 0xa92, .one 0xaa9, .one 0xab1, .one 0xab4,
  .run 0xaba 0xabb, .one 0xac6, .one 0xaca, .run 0xace 0xacf, .run 0xad1 0xadf, .run 0xae4 0xae5,
  .run 0xaf2 0xaf8, .one 0xb00, .one 0xb04, .run 0xb0d 0xb0e, .run 0xb11 0xb12, .one 0xb29,
  .one 0xb31, .one 0xb34, .run 0xb3a 0xb3b, .run 0xb45 0xb46, .run 0xb49 0xb4a, .run 0xb4e 0xb54,
  .run 0xb58 0xb5b, .one 0xb5e, .run 0xb64 0xb65, .run 0xb78 0xb81, .one 0xb84, .run 0xb8b 0xb8d,
  .one 0xb91, .run 0xb96 0xb98, .alternate 0xb9b 0xb9d, .run 0xba0 0xba2, .run 0xba5 0xba7,
  .run 0xbab 0xbad, .run 0xbba 0xbbd, .run 0xbc3 0xbc5, .one 0xbc9, .run 0xbce 0xbcf,
  .run 0xbd1 0xbd6, .run 0xbd8 0xbe5, .run 0xbfb 0xbff, .one 0xc0d, .one 0xc11, .one 0xc29,
  .run 0xc3a 0xc3b, .one 0xc45, .one 0xc49, .run 0xc4e 0xc54, .one 0xc57, .one 0xc5b,
  .run 0xc5e 0xc5f, .run 0xc64 0xc65, .run 0xc70 0xc76, .one 0xc8d, .one 0xc91, .one 0xca9,
  .one 0xcb4, .run 0xcba 0xcbb, .one 0xcc5, .one 0xcc9, .run 0xcce 0xcd4, .run 0xcd7 0xcdb,
  .one 0xcdf, .run 0xce4 0xce5, .one 0xcf0, .run 0xcf4 0xcff, .one 0xd0d, .one 0xd11, .one 0xd45,
  .one 0xd49, .run 0xd50 0xd53, .run 0xd64 0xd65, .one 0xd80, .one 0xd84, .run 0xd97 0xd99,
  .one 0xdb2, .one 0xdbc, .run 0xdbe 0xdbf, .run 0xdc7 0xdc9, .run 0xdcb 0xdce,
  .alternate 0xdd5 0xdd7, .run 0xde0 0xde5, .run 0xdf0 0xdf1, .run 0xdf5 0xe00, .run 0xe3b 0xe3e,
  .run 0xe5c 0xe80, .alternate 0xe83 0xe85, .one 0xe8b, .alternate 0xea4 0xea6, .run 0xebe 0xebf,
  .alternate 0xec5 0xec7, .one 0xecf, .run 0xeda 0xedb, .run 0xee0 0xeff, .one 0xf48,
  .run 0xf6d 0xf70, .one 0xf98, .one 0xfbd, .one 0xfcd, .run 0xfdb 0xfff, .one 0x10c6,
  .run 0x10c8 0x10cc, .run 0x10ce 0x10cf, .run 0x115f 0x1160, .one 0x1249, .run 0x124e 0x124f,
  .alternate 0x1257 0x1259, .run 0x125e 0x125f, .one 0x1289, .run 0x128e 0x128f, .one 0x12b1,
  .run 0x12b6 0x12b7, .alternate 0x12bf 0x12c1, .run 0x12c6 0x12c7, .one 0x12d7, .one 0x1311,
  .run 0x1316 0x1317, .run 0x135b 0x135c, .run 0x137d 0x137f, .run 0x139a 0x139f,
  .run 0x13f6 0x13f7, .run 0x13fe 0x13ff, .one 0x1680, .run 0x169d 0x169f, .run 0x16f9 0x16ff,
  .run 0x1716 0x171e, .run 0x1737 0x173f, .run 0x1754 0x175f, .one 0x176d, .one 0x1771,
  .run 0x1774 0x177f, .run 0x17de 0x17df, .run 0x17ea 0x17ef, .run 0x17fa 0x17ff, .one 0x180e,
  .run 0x181a 0x181f, .run 0x1879 0x187f, .run 0x18ab 0x18af, .run 0x18f6 0x18ff, .one 0x191f,
  .run 0x192c 0x192f, .run 0x193c 0x193f, .run 0x1941 0x1943, .run 0x196e 0x196f,
  .run 0x1975 0x197f, .run 0x19ac 0x19af, .run 0x19ca 0x19cf, .run 0x19db 0x19dd,
  .run 0x1a1c 0x1a1d, .one 0x1a5f, .run 0x1a7d 0x1a7e, .run 0x1a8a 0x1a8f, .run 0x1a9a 0x1a9f,
  .run 0x1aae 0x1aaf, .run 0x1ade 0x1adf, .run 0x1aec 0x1aff, .one 0x1b4d, .run 0x1bf4 0x1bfb,
  .run 0x1c38 0x1c3a, .run 0x1c4a 0x1c4c, .run 0x1c8b 0x1c8f, .run 0x1cbb 0x1cbc,
  .run 0x1cc8 0x1ccf, .run 0x1cfb 0x1cff, .run 0x1f16 0x1f17, .run 0x1f1e 0x1f1f,
  .run 0x1f46 0x1f47, .run 0x1f4e 0x1f4f, .alternate 0x1f58 0x1f5e, .run 0x1f7e 0x1f7f,
  .one 0x1fb5, .one 0x1fc5, .run 0x1fd4 0x1fd5, .one 0x1fdc, .run 0x1ff0 0x1ff1, .one 0x1ff5,
  .run 0x1fff 0x200f, .run 0x2028 0x202f, .run 0x205f 0x206f, .run 0x2072 0x2073, .one 0x208f,
  .run 0x209d 0x209f, .run 0x20c2 0x20cf, .run 0x20f1 0x20ff, .run 0x218c 0x218f,
  .run 0x242a 0x243f, .run 0x244b 0x245f, .run 0x2b74 0x2b75, .run 0x2cf4 0x2cf8, .one 0x2d26,
  .run 0x2d28 0x2d2c, .run 0x2d2e 0x2d2f, .run 0x2d68 0x2d6e, .run 0x2d71 0x2d7e,
  .run 0x2d97 0x2d9f, .one 0x2da7, .one 0x2daf, .one 0x2db7, .one 0x2dbf, .one 0x2dc7,
  .one 0x2dcf, .one 0x2dd7, .one 0x2ddf, .run 0x2e5e 0x2e7f, .one 0x2e9a, .run 0x2ef4 0x2eff,
  .run 0x2fd6 0x2fef, .one 0x3000, .one 0x3040, .run 0x3097 0x3098, .run 0x3100 0x3104,
  .one 0x3130, .one 0x3164, .one 0x318f, .run 0x31e6 0x31ee, .one 0x321f, .run 0xa48d 0xa48f,
  .run 0xa4c7 0xa4cf, .run 0xa62c 0xa63f, .run 0xa6f8 0xa6ff, .run 0xa7dd 0xa7f0,
  .run 0xa82d 0xa82f, .run 0xa83a 0xa83f, .run 0xa878 0xa87f, .run 0xa8c6 0xa8cd,
  .run 0xa8da 0xa8df, .run 0xa954 0xa95e, .run 0xa97d 0xa97f, .one 0xa9ce, .run 0xa9da 0xa9dd,
  .one 0xa9ff, .run 0xaa37 0xaa3f, .run 0xaa4e 0xaa4f, .run 0xaa5a 0xaa5b, .run 0xaac3 0xaada,
  .run 0xaaf7 0xab00, .run 0xab07 0xab08, .run 0xab0f 0xab10, .run 0xab17 0xab1f, .one 0xab27,
  .one 0xab2f, .run 0xab6c 0xab6f, .run 0xabee 0xabef, .run 0xabfa 0xabff, .run 0xd7a4 0xd7af,
  .run 0xd7c7 0xd7ca, .run 0xd7fc 0xf8ff, .run 0xfa6e 0xfa6f, .run 0xfada 0xfaff,
  .run 0xfb07 0xfb12, .run 0xfb18 0xfb1c, .one 0xfb37, .alternate 0xfb3d 0xfb3f, .one 0xfb42,
  .one 0xfb45, .run 0xfdd0 0xfdef, .run 0xfe1a 0xfe1f, .one 0xfe53, .one 0xfe67,
  .run 0xfe6c 0xfe6f, .one 0xfe75, .run 0xfefd 0xff00, .one 0xffa0, .run 0xffbf 0xffc1,
  .run 0xffc8 0xffc9, .run 0xffd0 0xffd1, .run 0xffd8 0xffd9, .run 0xffdd 0xffdf, .one 0xffe7,
  .run 0xffef 0xfffb, .run 0xfffe 0xffff, .one 0x1000c, .one 0x10027, .one 0x1003b, .one 0x1003e,
  .run 0x1004e 0x1004f, .run 0x1005e 0x1007f, .run 0x100fb 0x100ff, .run 0x10103 0x10106,
  .run 0x10134 0x10136, .one 0x1018f, .run 0x1019d 0x1019f, .run 0x101a1 0x101cf,
  .run 0x101fe 0x1027f, .run 0x1029d 0x1029f, .run 0x102d1 0x102df, .run 0x102fc 0x102ff,
  .run 0x10324 0x1032c, .run 0x1034b 0x1034f, .run 0x1037b 0x1037f, .one 0x1039e,
  .run 0x103c4 0x103c7, .run 0x103d6 0x103ff, .run 0x1049e 0x1049f, .run 0x104aa 0x104af,
  .run 0x104d4 0x104d7, .run 0x104fc 0x104ff, .run 0x10528 0x1052f, .run 0x10564 0x1056e,
  .one 0x1057b, .one 0x1058b, .one 0x10593, .one 0x10596, .one 0x105a2, .one 0x105b2,
  .one 0x105ba, .run 0x105bd 0x105bf, .run 0x105f4 0x105ff, .run 0x10737 0x1073f,
  .run 0x10756 0x1075f, .run 0x10768 0x1077f, .one 0x10786, .one 0x107b1, .run 0x107bb 0x107ff,
  .run 0x10806 0x10807, .one 0x10809, .one 0x10836, .run 0x10839 0x1083b, .run 0x1083d 0x1083e,
  .one 0x10856, .run 0x1089f 0x108a6, .run 0x108b0 0x108df, .one 0x108f3, .run 0x108f6 0x108fa,
  .run 0x1091c 0x1091e, .run 0x1093a 0x1093e, .run 0x1095a 0x1097f, .run 0x109b8 0x109bb,
  .run 0x109d0 0x109d1, .one 0x10a04, .run 0x10a07 0x10a0b, .one 0x10a14, .one 0x10a18,
  .run 0x10a36 0x10a37, .run 0x10a3b 0x10a3e, .run 0x10a49 0x10a4f, .run 0x10a59 0x10a5f,
  .run 0x10aa0 0x10abf, .run 0x10ae7 0x10aea, .run 0x10af7 0x10aff, .run 0x10b36 0x10b38,
  .run 0x10b56 0x10b57, .run 0x10b73 0x10b77, .run 0x10b92 0x10b98, .run 0x10b9d 0x10ba8,
  .run 0x10bb0 0x10bff, .run 0x10c49 0x10c7f, .run 0x10cb3 0x10cbf, .run 0x10cf3 0x10cf9,
  .run 0x10d28 0x10d2f, .run 0x10d3a 0x10d3f, .run 0x10d66 0x10d68, .run 0x10d86 0x10d8d,
  .run 0x10d90 0x10e5f, .one 0x10e7f, .one 0x10eaa, .run 0x10eae 0x10eaf, .run 0x10eb2 0x10ec1,
  .run 0x10ec8 0x10ecf, .run 0x10ed9 0x10ef9, .run 0x10f28 0x10f2f, .run 0x10f5a 0x10f6f,
  .run 0x10f8a 0x10faf, .run 0x10fcc 0x10fdf, .run 0x10ff7 0x10fff, .run 0x1104e 0x11051,
  .run 0x11076 0x1107e, .one 0x110bd, .run 0x110c3 0x110cf, .run 0x110e9 0x110ef,
  .run 0x110fa 0x110ff, .one 0x11135, .run 0x11148 0x1114f, .run 0x11177 0x1117f, .one 0x111e0,
  .run 0x111f5 0x111ff, .one 0x11212, .run 0x11242 0x1127f, .alternate 0x11287 0x11289,
  .one 0x1128e, .one 0x1129e, .run 0x112aa 0x112af, .run 0x112eb 0x112ef, .run 0x112fa 0x112ff,
  .one 0x11304, .run 0x1130d 0x1130e, .run 0x11311 0x11312, .one 0x11329, .one 0x11331,
  .one 0x11334, .one 0x1133a, .run 0x11345 0x11346, .run 0x11349 0x1134a, .run 0x1134e 0x1134f,
  .run 0x11351 0x11356, .run 0x11358 0x1135c, .run 0x11364 0x11365, .run 0x1136d 0x1136f,
  .run 0x11375 0x1137f, .one 0x1138a, .run 0x1138c 0x1138d, .one 0x1138f, .one 0x113b6,
  .one 0x113c1, .run 0x113c3 0x113c4, .one 0x113c6, .one 0x113cb, .one 0x113d6,
  .run 0x113d9 0x113e0, .run 0x113e3 0x113ff, .one 0x1145c, .run 0x11462 0x1147f,
  .run 0x114c8 0x114cf, .run 0x114da 0x1157f, .run 0x115b6 0x115b7, .run 0x115de 0x115ff,
  .run 0x11645 0x1164f, .run 0x1165a 0x1165f, .run 0x1166d 0x1167f, .run 0x116ba 0x116bf,
  .run 0x116ca 0x116cf, .run 0x116e4 0x116ff, .run 0x1171b 0x1171c, .run 0x1172c 0x1172f,
  .run 0x11747 0x117ff, .run 0x1183c 0x1189f, .run 0x118f3 0x118fe, .run 0x11907 0x11908,
  .run 0x1190a 0x1190b, .one 0x11914, .one 0x11917, .one 0x11936, .run 0x11939 0x1193a,
  .run 0x11947 0x1194f, .run 0x1195a 0x1199f, .run 0x119a8 0x119a9, .run 0x119d8 0x119d9,
  .run 0x119e5 0x119ff, .run 0x11a48 0x11a4f, .run 0x11aa3 0x11aaf, .run 0x11af9 0x11aff,
  .run 0x11b0a 0x11b5f, .run 0x11b68 0x11bbf, .run 0x11be2 0x11bef, .run 0x11bfa 0x11bff,
  .one 0x11c09, .one 0x11c37, .run 0x11c46 0x11c4f, .run 0x11c6d 0x11c6f, .run 0x11c90 0x11c91,
  .one 0x11ca8, .run 0x11cb7 0x11cff, .one 0x11d07, .one 0x11d0a, .run 0x11d37 0x11d39,
  .one 0x11d3b, .one 0x11d3e, .run 0x11d48 0x11d4f, .run 0x11d5a 0x11d5f, .one 0x11d66,
  .one 0x11d69, .one 0x11d8f, .one 0x11d92, .run 0x11d99 0x11d9f, .run 0x11daa 0x11daf,
  .run 0x11ddc 0x11ddf, .run 0x11dea 0x11edf, .run 0x11ef9 0x11eff, .one 0x11f11,
  .run 0x11f3b 0x11f3d, .run 0x11f5b 0x11faf, .run 0x11fb1 0x11fbf, .run 0x11ff2 0x11ffe,
  .run 0x1239a 0x123ff, .one 0x1246f, .run 0x12475 0x1247f, .run 0x12544 0x12f8f,
  .run 0x12ff3 0x12fff, .run 0x13430 0x1343f, .run 0x13456 0x1345f, .run 0x143fb 0x143ff,
  .run 0x14647 0x160ff, .run 0x1613a 0x167ff, .run 0x16a39 0x16a3f, .one 0x16a5f,
  .run 0x16a6a 0x16a6d, .one 0x16abf, .run 0x16aca 0x16acf, .run 0x16aee 0x16aef,
  .run 0x16af6 0x16aff, .run 0x16b46 0x16b4f, .one 0x16b5a, .one 0x16b62, .run 0x16b78 0x16b7c,
  .run 0x16b90 0x16d3f, .run 0x16d7a 0x16e3f, .run 0x16e9b 0x16e9f, .run 0x16eb9 0x16eba,
  .run 0x16ed4 0x16eff, .run 0x16f4b 0x16f4e, .run 0x16f88 0x16f8e, .run 0x16fa0 0x16fdf,
  .run 0x16fe5 0x16fef, .run 0x16ff7 0x16fff, .run 0x18cd6 0x18cfe, .run 0x18d1f 0x18d7f,
  .run 0x18df3 0x1afef, .one 0x1aff4, .one 0x1affc, .one 0x1afff, .run 0x1b123 0x1b131,
  .run 0x1b133 0x1b14f, .run 0x1b153 0x1b154, .run 0x1b156 0x1b163, .run 0x1b168 0x1b16f,
  .run 0x1b2fc 0x1bbff, .run 0x1bc6b 0x1bc6f, .run 0x1bc7d 0x1bc7f, .run 0x1bc89 0x1bc8f,
  .run 0x1bc9a 0x1bc9b, .run 0x1bca0 0x1cbff, .run 0x1ccfd 0x1ccff, .run 0x1ceb4 0x1ceb9,
  .run 0x1ced1 0x1cedf, .run 0x1cef1 0x1ceff, .run 0x1cf2e 0x1cf2f, .run 0x1cf47 0x1cf4f,
  .run 0x1cfc4 0x1cfff, .run 0x1d0f6 0x1d0ff, .run 0x1d127 0x1d128, .run 0x1d173 0x1d17a,
  .run 0x1d1eb 0x1d1ff, .run 0x1d246 0x1d2bf, .run 0x1d2d4 0x1d2df, .run 0x1d2f4 0x1d2ff,
  .run 0x1d357 0x1d35f, .run 0x1d379 0x1d3ff, .one 0x1d455, .one 0x1d49d, .run 0x1d4a0 0x1d4a1,
  .run 0x1d4a3 0x1d4a4, .run 0x1d4a7 0x1d4a8, .one 0x1d4ad, .alternate 0x1d4ba 0x1d4bc,
  .one 0x1d4c4, .one 0x1d506, .run 0x1d50b 0x1d50c, .one 0x1d515, .one 0x1d51d, .one 0x1d53a,
  .one 0x1d53f, .one 0x1d545, .run 0x1d547 0x1d549, .one 0x1d551, .run 0x1d6a6 0x1d6a7,
  .run 0x1d7cc 0x1d7cd, .run 0x1da8c 0x1da9a, .one 0x1daa0, .run 0x1dab0 0x1deff,
  .run 0x1df1f 0x1df24, .run 0x1df2b 0x1dfff, .one 0x1e007, .run 0x1e019 0x1e01a, .one 0x1e022,
  .one 0x1e025, .run 0x1e02b 0x1e02f, .run 0x1e06e 0x1e08e, .run 0x1e090 0x1e0ff,
  .run 0x1e12d 0x1e12f, .run 0x1e13e 0x1e13f, .run 0x1e14a 0x1e14d, .run 0x1e150 0x1e28f,
  .run 0x1e2af 0x1e2bf, .run 0x1e2fa 0x1e2fe, .run 0x1e300 0x1e4cf, .run 0x1e4fa 0x1e5cf,
  .run 0x1e5fb 0x1e5fe, .run 0x1e600 0x1e6bf, .one 0x1e6df, .run 0x1e6f6 0x1e6fd,
  .run 0x1e700 0x1e7df, .one 0x1e7e7, .one 0x1e7ec, .one 0x1e7ef, .one 0x1e7ff,
  .run 0x1e8c5 0x1e8c6, .run 0x1e8d7 0x1e8ff, .run 0x1e94c 0x1e94f, .run 0x1e95a 0x1e95d,
  .run 0x1e960 0x1ec70, .run 0x1ecb5 0x1ed00, .run 0x1ed3e 0x1edff, .one 0x1ee04, .one 0x1ee20,
  .one 0x1ee23, .run 0x1ee25 0x1ee26, .one 0x1ee28, .one 0x1ee33, .alternate 0x1ee38 0x1ee3a,
  .run 0x1ee3c 0x1ee41, .run 0x1ee43 0x1ee46, .alternate 0x1ee48 0x1ee4c, .one 0x1ee50,
  .one 0x1ee53, .run 0x1ee55 0x1ee56, .alternate 0x1ee58 0x1ee60, .one 0x1ee63,
  .run 0x1ee65 0x1ee66, .one 0x1ee6b, .one 0x1ee73, .one 0x1ee78, .alternate 0x1ee7d 0x1ee7f,
  .one 0x1ee8a, .run 0x1ee9c 0x1eea0, .one 0x1eea4, .one 0x1eeaa, .run 0x1eebc 0x1eeef,
  .run 0x1eef2 0x1efff, .run 0x1f02c 0x1f02f, .run 0x1f094 0x1f09f, .run 0x1f0af 0x1f0b0,
  .one 0x1f0c0, .one 0x1f0d0, .run 0x1f0f6 0x1f0ff, .run 0x1f1ae 0x1f1e5, .run 0x1f203 0x1f20f,
  .run 0x1f23c 0x1f23f, .run 0x1f249 0x1f24f, .run 0x1f252 0x1f25f, .run 0x1f266 0x1f2ff,
  .run 0x1f6d9 0x1f6db, .run 0x1f6ed 0x1f6ef, .run 0x1f6fd 0x1f6ff, .run 0x1f7da 0x1f7df,
  .run 0x1f7ec 0x1f7ef, .run 0x1f7f1 0x1f7ff, .run 0x1f80c 0x1f80f, .run 0x1f848 0x1f84f,
  .run 0x1f85a 0x1f85f, .run 0x1f888 0x1f88f, .run 0x1f8ae 0x1f8af, .run 0x1f8bc 0x1f8bf,
  .run 0x1f8c2 0x1f8cf, .run 0x1f8d9 0x1f8ff, .run 0x1fa58 0x1fa5f, .run 0x1fa6e 0x1fa6f,
  .run 0x1fa7d 0x1fa7f, .run 0x1fa8b 0x1fa8d, .one 0x1fac7, .run 0x1fac9 0x1facc,
  .run 0x1fadd 0x1fade, .run 0x1faeb 0x1faee, .run 0x1faf9 0x1faff, .one 0x1fb93,
  .run 0x1fbfb 0x1ffff, .run 0x2a6e0 0x2a6ff, .run 0x2b81e 0x2b81f, .run 0x2ceae 0x2ceaf,
  .run 0x2ebe1 0x2ebef, .run 0x2ee5e 0x2f7ff, .run 0x2fa1e 0x2ffff, .run 0x3134b 0x3134f,
  .run 0x3347a 0xe00ff, .run 0xe01f0 0x10ffff]

/-- A character that a quoted text shows as it stands. -/
def isShown (c : Char) : Bool :=
  !graphemeExtenders.contains c && !unprintables.contains c

end FixWire.Text
