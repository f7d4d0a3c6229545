import EntityAtlas.Text.Charset

/-!
# Upper case

The full upper-case mapping: most letters have one upper-case letter, some (such as `ß`) become several.
-/

namespace EntityAtlas.Text

def upperLetters : Charset :=
  [65, 91, 192, 215, 216, 223, 256, 257, 258, 259, 260, 261, 262, 263, 264, 265, 266, 267, 268, 269, 270, 271,
   272, 273, 274, 275, 276, 277, 278, 279, 280, 281, 282, 283, 284, 285, 286, 287, 288, 289, 290, 291, 292,
   293, 294, 295, 296, 297, 298, 299, 300, 301, 302, 303, 304, 305, 306, 307, 308, 309, 310, 311, 313, 314,
   315, 316, 317, 318, 319, 320, 321, 322, 323, 324, 325, 326, 327, 328, 330, 331, 332, 333, 334, 335, 336,
   337, 338, 339, 340, 341, 342, 343, 344, 345, 346, 347, 348, 349, 350, 351, 352, 353, 354, 355, 356, 357,
   358, 359, 360, 361, 362, 363, 364, 365, 366, 367, 368, 369, 370, 371, 372, 373, 374, 375, 376, 378, 379,
   380, 381, 382, 385, 387, 388, 389, 390, 392, 393, 396, 398, 402, 403, 405, 406, 409, 412, 414, 415, 417,
   418, 419, 420, 421, 422, 424, 425, 426, 428, 429, 430, 432, 433, 436, 437, 438, 439, 441, 444, 445, 452,
   453, 455, 456, 458, 459, 461, 462, 463, 464, 465, 466, 467, 468, 469, 470, 471, 472, 473, 474, 475, 476,
   478, 479, 480, 481, 482, 483, 484, 485, 486, 487, 488, 489, 490, 491, 492, 493, 494, 495, 497, 498, 500,
   501, 502, 505, 506, 507, 508, 509, 510, 511, 512, 513, 514, 515, 516, 517, 518, 519, 520, 521, 522, 523,
   524, 525, 526, 527, 528, 529, 530, 531, 532, 533, 534, 535, 536, 537, 538, 539, 540, 541, 542, 543, 544,
   545, 546, 547, 548, 549, 550, 551, 552, 553, 554, 555, 556, 557, 558, 559, 560, 561, 562, 563, 570, 572,
   573, 575, 577, 578, 579, 583, 584, 585, 586, 587, 588, 589, 590, 591, 880, 881, 882, 883, 886, 887, 895,
   896, 902, 903, 904, 907, 908, 909, 910, 912, 913, 930, 931, 940, 975, 976, 978, 981, 984, 985, 986, 987,
   988, 989, 990, 991, 992, 993, 994, 995, 996, 997, 998, 999, 1000, 1001, 1002, 1003, 1004, 1005, 1006, 1007,
   1012, 1013, 1015, 1016, 1017, 1019, 1021, 1072, 1120, 1121, 1122, 1123, 1124, 1125, 1126, 1127, 1128, 1129,
   1130, 1131, 1132, 1133, 1134, 1135, 1136, 1137, 1138, 1139, 1140, 1141, 1142, 1143, 1144, 1145, 1146, 1147,
   1148, 1149, 1150, 1151, 1152, 1153, 1162, 1163, 1164, 1165, 1166, 1167, 1168, 1169, 1170, 1171, 1172, 1173,
   1174, 1175, 1176, 1177, 1178, 1179, 1180, 1181, 1182, 1183, 1184, 1185, 1186, 1187, 1188, 1189, 1190, 1191,
   1192, 1193, 1194, 1195, 1196, 1197, 1198, 1199, 1200, 1201, 1202, 1203, 1204, 1205, 1206, 1207, 1208, 1209,
   1210, 1211, 1212, 1213, 1214, 1215, 1216, 1218, 1219, 1220, 1221, 1222, 1223, 1224, 1225, 1226, 1227, 1228,
   1229, 1230, 1232, 1233, 1234, 1235, 1236, 1237, 1238, 1239, 1240, 1241, 1242, 1243, 1244, 1245, 1246, 1247,
   1248, 1249, 1250, 1251, 1252, 1253, 1254, 1255, 1256, 1257, 1258, 1259, 1260, 1261, 1262, 1263, 1264, 1265,
   1266, 1267, 1268, 1269, 1270, 1271, 1272, 1273, 1274, 1275, 1276, 1277, 1278, 1279, 1280, 1281, 1282, 1283,
   1284, 1285, 1286, 1287, 1288, 1289, 1290, 1291, 1292, 1293, 1294, 1295, 1296, 1297, 1298, 1299, 1300, 1301,
   1302, 1303, 1304, 1305, 1306, 1307, 1308, 1309, 1310, 1311, 1312, 1313, 1314, 1315, 1316, 1317, 1318, 1319,
   1320, 1321, 1322, 1323, 1324, 1325, 1326, 1327, 1329, 1367, 4256, 4294, 4295, 4296, 4301, 4302, 5024, 5110,
   7312, 7355, 7357, 7360, 7680, 7681, 7682, 7683, 7684, 7685, 7686, 7687, 7688, 7689, 7690, 7691, 7692, 7693,
   7694, 7695, 7696, 7697, 7698, 7699, 7700, 7701, 7702, 7703, 7704, 7705, 7706, 7707, 7708, 7709, 7710, 7711,
   7712, 7713, 7714, 7715, 7716, 7717, 7718, 7719, 7720, 7721, 7722, 7723, 7724, 7725, 7726, 7727, 7728, 7729,
   7730, 7731, 7732, 7733, 7734, 7735, 7736, 7737, 7738, 7739, 7740, 7741, 7742, 7743, 7744, 7745, 7746, 7747,
   7748, 7749, 7750, 7751, 7752, 7753, 7754, 7755, 7756, 7757, 7758, 7759, 7760, 7761, 7762, 7763, 7764, 7765,
   7766, 7767, 7768, 7769, 7770, 7771, 7772, 7773, 7774, 7775, 7776, 7777, 7778, 7779, 7780, 7781, 7782, 7783,
   7784, 7785, 7786, 7787, 7788, 7789, 7790, 7791, 7792, 7793, 7794, 7795, 7796, 7797, 7798, 7799, 7800, 7801,
   7802, 7803, 7804, 7805, 7806, 7807, 7808, 7809, 7810, 7811, 7812, 7813, 7814, 7815, 7816, 7817, 7818, 7819,
   7820, 7821, 7822, 7823, 7824, 7825, 7826, 7827, 7828, 7829, 7838, 7839, 7840, 7841, 7842, 7843, 7844, 7845,
   7846, 7847, 7848, 7849, 7850, 7851, 7852, 7853, 7854, 7855, 7856, 7857, 7858, 7859, 7860, 7861, 7862, 7863,
   7864, 7865, 7866, 7867, 7868, 7869, 7870, 7871, 7872, 7873, 7874, 7875, 7876, 7877, 7878, 7879, 7880, 7881,
   7882, 7883, 7884, 7885, 7886, 7887, 7888, 7889, 7890, 7891, 7892, 7893, 7894, 7895, 7896, 7897, 7898, 7899,
   7900, 7901, 7902, 7903, 7904, 7905, 7906, 7907, 7908, 7909, 7910, 7911, 7912, 7913, 7914, 7915, 7916, 7917,
   7918, 7919, 7920, 7921, 7922, 7923, 7924, 7925, 7926, 7927, 7928, 7929, 7930, 7931, 7932, 7933, 7934, 7935,
   7944, 7952, 7960, 7966, 7976, 7984, 7992, 8000, 8008, 8014, 8025, 8026, 8027, 8028, 8029, 8030, 8031, 8032,
   8040, 8048, 8120, 8124, 8136, 8140, 8152, 8156, 8168, 8173, 8184, 8188, 8450, 8451, 8455, 8456, 8459, 8462,
   8464, 8467, 8469, 8470, 8473, 8478, 8484, 8485, 8486, 8487, 8488, 8489, 8490, 8494, 8496, 8500, 8510, 8512,
   8517, 8518, 8544, 8560, 8579, 8580, 9398, 9424, 11264, 11312, 11360, 11361, 11362, 11365, 11367, 11368,
   11369, 11370, 11371, 11372, 11373, 11377, 11378, 11379, 11381, 11382, 11390, 11393, 11394, 11395, 11396,
   11397, 11398, 11399, 11400, 11401, 11402, 11403, 11404, 11405, 11406, 11407, 11408, 11409, 11410, 11411,
   11412, 11413, 11414, 11415, 11416, 11417, 11418, 11419, 11420, 11421, 11422, 11423, 11424, 11425, 11426,
   11427, 11428, 11429, 11430, 11431, 11432, 11433, 11434, 11435, 11436, 11437, 11438, 11439, 11440, 11441,
   11442, 11443, 11444, 11445, 11446, 11447, 11448, 11449, 11450, 11451, 11452, 11453, 11454, 11455, 11456,
   11457, 11458, 11459, 11460, 11461, 11462, 11463, 11464, 11465, 11466, 11467, 11468, 11469, 11470, 11471,
   11472, 11473, 11474, 11475, 11476, 11477, 11478, 11479, 11480, 11481, 11482, 11483, 11484, 11485, 11486,
   11487, 11488, 11489, 11490, 11491, 11499, 11500, 11501, 11502, 11506, 11507, 42560, 42561, 42562, 42563,
   42564, 42565, 42566, 42567, 42568, 42569, 42570, 42571, 42572, 42573, 42574, 42575, 42576, 42577, 42578,
   42579, 42580, 42581, 42582, 42583, 42584, 42585, 42586, 42587, 42588, 42589, 42590, 42591, 42592, 42593,
   42594, 42595, 42596, 42597, 42598, 42599, 42600, 42601, 42602, 42603, 42604, 42605, 42624, 42625, 42626,
   42627, 42628, 42629, 42630, 42631, 42632, 42633, 42634, 42635, 42636, 42637, 42638, 42639, 42640, 42641,
   42642, 42643, 42644, 42645, 42646, 42647, 42648, 42649, 42650, 42651, 42786, 42787, 42788, 42789, 42790,
   42791, 42792, 42793, 42794, 42795, 42796, 42797, 42798, 42799, 42802, 42803, 42804, 42805, 42806, 42807,
   42808, 42809, 42810, 42811, 42812, 42813, 42814, 42815, 42816, 42817, 42818, 42819, 42820, 42821, 42822,
   42823, 42824, 42825, 42826, 42827, 42828, 42829, 42830, 42831, 42832, 42833, 42834, 42835, 42836, 42837,
   42838, 42839, 42840, 42841, 42842, 42843, 42844, 42845, 42846, 42847, 42848, 42849, 42850, 42851, 42852,
   42853, 42854, 42855, 42856, 42857, 42858, 42859, 42860, 42861, 42862, 42863, 42873, 42874, 42875, 42876,
   42877, 42879, 42880, 42881, 42882, 42883, 42884, 42885, 42886, 42887, 42891, 42892, 42893, 42894, 42896,
   42897, 42898, 42899, 42902, 42903, 42904, 42905, 42906, 42907, 42908, 42909, 42910, 42911, 42912, 42913,
   42914, 42915, 42916, 42917, 42918, 42919, 42920, 42921, 42922, 42927, 42928, 42933, 42934, 42935, 42936,
   42937, 42938, 42939, 42940, 42941, 42942, 42943, 42944, 42945, 42946, 42947, 42948, 42952, 42953, 42954,
   42960, 42961, 42966, 42967, 42968, 42969, 42997, 42998, 65313, 65339, 66560, 66600, 66736, 66772, 66928,
   66939, 66940, 66955, 66956, 66963, 66964, 66966, 68736, 68787, 71840, 71872, 93760, 93792, 119808, 119834,
   119860, 119886, 119912, 119938, 119964, 119965, 119966, 119968, 119970, 119971, 119973, 119975, 119977,
   119981, 119982, 119990, 120016, 120042, 120068, 120070, 120071, 120075, 120077, 120085, 120086, 120093,
   120120, 120122, 120123, 120127, 120128, 120133, 120134, 120135, 120138, 120145, 120172, 120198, 120224,
   120250, 120276, 120302, 120328, 120354, 120380, 120406, 120432, 120458, 120488, 120513, 120546, 120571,
   120604, 120629, 120662, 120687, 120720, 120745, 120778, 120779, 125184, 125218, 127280, 127306, 127312,
   127338, 127344, 127370]

/-- A letter of upper case. -/
def isUpper (c : Char) : Bool :=
  if c.toNat < 128 then c.isUpper else upperLetters.contains c

namespace Upper

/-- A stretch of letters `first`, `first + step`, … `last` whose upper-case letters run in parallel from `image`. -/
structure Run where
  first : Nat
  last : Nat
  step : Nat
  image : Nat
  deriving DecidableEq, Repr

/-- The upper-case code point of a member of the run. -/
def Run.image? (r : Run) (n : Nat) : Option Nat :=
  if r.first ≤ n && n ≤ r.last && (n - r.first) % r.step == 0 then some (r.image + (n - r.first)) else none

/-- The letters with one upper-case letter, beyond ASCII. -/
def runs : List Run :=
  [⟨181,181,1,924⟩, ⟨224,246,1,192⟩, ⟨248,254,1,216⟩, ⟨255,255,1,376⟩, ⟨257,303,2,256⟩, ⟨305,305,1,73⟩,
   ⟨307,311,2,306⟩, ⟨314,328,2,313⟩, ⟨331,375,2,330⟩, ⟨378,382,2,377⟩, ⟨383,383,1,83⟩, ⟨384,384,1,579⟩,
   ⟨387,389,2,386⟩, ⟨392,392,1,391⟩, ⟨396,396,1,395⟩, ⟨402,402,1,401⟩, ⟨405,405,1,502⟩, ⟨409,409,1,408⟩,
   ⟨410,410,1,573⟩, ⟨414,414,1,544⟩, ⟨417,421,2,416⟩, ⟨424,424,1,423⟩, ⟨429,429,1,428⟩, ⟨432,432,1,431⟩,
   ⟨436,438,2,435⟩, ⟨441,441,1,440⟩, ⟨445,445,1,444⟩, ⟨447,447,1,503⟩, ⟨453,453,1,452⟩, ⟨454,454,1,452⟩,
   ⟨456,456,1,455⟩, ⟨457,457,1,455⟩, ⟨459,459,1,458⟩, ⟨460,460,1,458⟩, ⟨462,476,2,461⟩, ⟨477,477,1,398⟩,
   ⟨479,495,2,478⟩, ⟨498,498,1,497⟩, ⟨499,499,1,497⟩, ⟨501,501,1,500⟩, ⟨505,543,2,504⟩, ⟨547,563,2,546⟩,
   ⟨572,572,1,571⟩, ⟨575,576,1,11390⟩, ⟨578,578,1,577⟩, ⟨583,591,2,582⟩, ⟨592,592,1,11375⟩, ⟨593,593,1,11373⟩,
   ⟨594,594,1,11376⟩, ⟨595,595,1,385⟩, ⟨596,596,1,390⟩, ⟨598,599,1,393⟩, ⟨601,601,1,399⟩, ⟨603,603,1,400⟩,
   ⟨604,604,1,42923⟩, ⟨608,608,1,403⟩, ⟨609,609,1,42924⟩, ⟨611,611,1,404⟩, ⟨613,613,1,42893⟩,
   ⟨614,614,1,42922⟩, ⟨616,616,1,407⟩, ⟨617,617,1,406⟩, ⟨618,618,1,42926⟩, ⟨619,619,1,11362⟩,
   ⟨620,620,1,42925⟩, ⟨623,623,1,412⟩, ⟨625,625,1,11374⟩, ⟨626,626,1,413⟩, ⟨629,629,1,415⟩, ⟨637,637,1,11364⟩,
   ⟨640,640,1,422⟩, ⟨642,642,1,42949⟩, ⟨643,643,1,425⟩, ⟨647,647,1,42929⟩, ⟨648,648,1,430⟩, ⟨649,649,1,580⟩,
   ⟨650,651,1,433⟩, ⟨652,652,1,581⟩, ⟨658,658,1,439⟩, ⟨669,669,1,42930⟩, ⟨670,670,1,42928⟩, ⟨837,837,1,921⟩,
   ⟨881,883,2,880⟩, ⟨887,887,1,886⟩, ⟨891,893,1,1021⟩, ⟨940,940,1,902⟩, ⟨941,943,1,904⟩, ⟨945,961,1,913⟩,
   ⟨962,962,1,931⟩, ⟨963,971,1,931⟩, ⟨972,972,1,908⟩, ⟨973,974,1,910⟩, ⟨976,976,1,914⟩, ⟨977,977,1,920⟩,
   ⟨981,981,1,934⟩, ⟨982,982,1,928⟩, ⟨983,983,1,975⟩, ⟨985,1007,2,984⟩, ⟨1008,1008,1,922⟩, ⟨1009,1009,1,929⟩,
   ⟨1010,1010,1,1017⟩, ⟨1011,1011,1,895⟩, ⟨1013,1013,1,917⟩, ⟨1016,1016,1,1015⟩, ⟨1019,1019,1,1018⟩,
   ⟨1072,1103,1,1040⟩, ⟨1104,1119,1,1024⟩, ⟨1121,1153,2,1120⟩, ⟨1163,1215,2,1162⟩, ⟨1218,1230,2,1217⟩,
   ⟨1231,1231,1,1216⟩, ⟨1233,1327,2,1232⟩, ⟨1377,1414,1,1329⟩, ⟨4304,4346,1,7312⟩, ⟨4349,4351,1,7357⟩,
   ⟨5112,5117,1,5104⟩, ⟨7296,7296,1,1042⟩, ⟨7297,7297,1,1044⟩, ⟨7298,7298,1,1054⟩, ⟨7299,7300,1,1057⟩,
   ⟨7301,7301,1,1058⟩, ⟨7302,7302,1,1066⟩, ⟨7303,7303,1,1122⟩, ⟨7304,7304,1,42570⟩, ⟨7545,7545,1,42877⟩,
   ⟨7549,7549,1,11363⟩, ⟨7566,7566,1,42950⟩, ⟨7681,7829,2,7680⟩, ⟨7835,7835,1,7776⟩, ⟨7841,7935,2,7840⟩,
   ⟨7936,7943,1,7944⟩, ⟨7952,7957,1,7960⟩, ⟨7968,7975,1,7976⟩, ⟨7984,7991,1,7992⟩, ⟨8000,8005,1,8008⟩,
   ⟨8017,8023,2,8025⟩, ⟨8032,8039,1,8040⟩, ⟨8048,8049,1,8122⟩, ⟨8050,8053,1,8136⟩, ⟨8054,8055,1,8154⟩,
   ⟨8056,8057,1,8184⟩, ⟨8058,8059,1,8170⟩, ⟨8060,8061,1,8186⟩, ⟨8112,8113,1,8120⟩, ⟨8126,8126,1,921⟩,
   ⟨8144,8145,1,8152⟩, ⟨8160,8161,1,8168⟩, ⟨8165,8165,1,8172⟩, ⟨8526,8526,1,8498⟩, ⟨8560,8575,1,8544⟩,
   ⟨8580,8580,1,8579⟩, ⟨9424,9449,1,9398⟩, ⟨11312,11359,1,11264⟩, ⟨11361,11361,1,11360⟩, ⟨11365,11365,1,570⟩,
   ⟨11366,11366,1,574⟩, ⟨11368,11372,2,11367⟩, ⟨11379,11379,1,11378⟩, ⟨11382,11382,1,11381⟩,
   ⟨11393,11491,2,11392⟩, ⟨11500,11502,2,11499⟩, ⟨11507,11507,1,11506⟩, ⟨11520,11557,1,4256⟩,
   ⟨11559,11559,1,4295⟩, ⟨11565,11565,1,4301⟩, ⟨42561,42605,2,42560⟩, ⟨42625,42651,2,42624⟩,
   ⟨42787,42799,2,42786⟩, ⟨42803,42863,2,42802⟩, ⟨42874,42876,2,42873⟩, ⟨42879,42887,2,42878⟩,
   ⟨42892,42892,1,42891⟩, ⟨42897,42899,2,42896⟩, ⟨42900,42900,1,42948⟩, ⟨42903,42921,2,42902⟩,
   ⟨42933,42947,2,42932⟩, ⟨42952,42954,2,42951⟩, ⟨42961,42961,1,42960⟩, ⟨42967,42969,2,42966⟩,
   ⟨42998,42998,1,42997⟩, ⟨43859,43859,1,42931⟩, ⟨43888,43967,1,5024⟩, ⟨65345,65370,1,65313⟩,
   ⟨66600,66639,1,66560⟩, ⟨66776,66811,1,66736⟩, ⟨66967,66977,1,66928⟩, ⟨66979,66993,1,66940⟩,
   ⟨66995,67001,1,66956⟩, ⟨67003,67004,1,66964⟩, ⟨68800,68850,1,68736⟩, ⟨71872,71903,1,71840⟩,
   ⟨93792,93823,1,93760⟩, ⟨125218,125251,1,125184⟩]

/-- The letters whose upper case takes several characters. -/
def expansions : List (Nat × List Nat) :=
  [(223,[83,83]), (329,[700,78]), (496,[74,780]), (912,[921,776,769]), (944,[933,776,769]),
   (1415,[1333,1362]), (7830,[72,817]), (7831,[84,776]), (7832,[87,778]), (7833,[89,778]), (7834,[65,702]),
   (8016,[933,787]), (8018,[933,787,768]), (8020,[933,787,769]), (8022,[933,787,834]), (8064,[7944,921]),
   (8065,[7945,921]), (8066,[7946,921]), (8067,[7947,921]), (8068,[7948,921]), (8069,[7949,921]),
   (8070,[7950,921]), (8071,[7951,921]), (8072,[7944,921]), (8073,[7945,921]), (8074,[7946,921]),
   (8075,[7947,921]), (8076,[7948,921]), (8077,[7949,921]), (8078,[7950,921]), (8079,[7951,921]),
   (8080,[7976,921]), (8081,[7977,921]), (8082,[7978,921]), (8083,[7979,921]), (8084,[7980,921]),
   (8085,[7981,921]), (8086,[7982,921]), (8087,[7983,921]), (8088,[7976,921]), (8089,[7977,921]),
   (8090,[7978,921]), (8091,[7979,921]), (8092,[7980,921]), (8093,[7981,921]), (8094,[7982,921]),
   (8095,[7983,921]), (8096,[8040,921]), (8097,[8041,921]), (8098,[8042,921]), (8099,[8043,921]),
   (8100,[8044,921]), (8101,[8045,921]), (8102,[8046,921]), (8103,[8047,921]), (8104,[8040,921]),
   (8105,[8041,921]), (8106,[8042,921]), (8107,[8043,921]), (8108,[8044,921]), (8109,[8045,921]),
   (8110,[8046,921]), (8111,[8047,921]), (8114,[8122,921]), (8115,[913,921]), (8116,[902,921]),
   (8118,[913,834]), (8119,[913,834,921]), (8124,[913,921]), (8130,[8138,921]), (8131,[919,921]),
   (8132,[905,921]), (8134,[919,834]), (8135,[919,834,921]), (8140,[919,921]), (8146,[921,776,768]),
   (8147,[921,776,769]), (8150,[921,834]), (8151,[921,776,834]), (8162,[933,776,768]), (8163,[933,776,769]),
   (8164,[929,787]), (8166,[933,834]), (8167,[933,776,834]), (8178,[8186,921]), (8179,[937,921]),
   (8180,[911,921]), (8182,[937,834]), (8183,[937,834,921]), (8188,[937,921]), (64256,[70,70]),
   (64257,[70,73]), (64258,[70,76]), (64259,[70,70,73]), (64260,[70,70,76]), (64261,[83,84]), (64262,[83,84]),
   (64275,[1348,1350]), (64276,[1348,1333]), (64277,[1348,1339]), (64278,[1358,1350]), (64279,[1348,1341])]

end Upper

/-- The upper case of one character. -/
def upperChar (c : Char) : List Char :=
  if c.toNat < 128 then [c.toUpper]
  else match Upper.expansions.lookup c.toNat with
    | some image => image.map Char.ofNat
    | none => [match Upper.runs.findSome? (·.image? c.toNat) with
      | some image => Char.ofNat image
      | none => c]

/-- The upper case of a text. -/
def upper (s : String) : String :=
  String.ofList (s.toList.flatMap upperChar)

end EntityAtlas.Text
