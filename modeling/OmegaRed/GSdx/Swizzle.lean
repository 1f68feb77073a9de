import OmegaRed.Lib.Tables

/-! How the pixels of a format lie in GS memory: the tables, and the three address functions. -/

namespace OmegaRed.GSdx

open OmegaRed.Lib

/-- The block of each place of a page. -/
def blockTable32 : Table 3 2 :=
  #v[#v[0, 1, 4, 5, 16, 17, 20, 21],
    #v[2, 3, 6, 7, 18, 19, 22, 23],
    #v[8, 9, 12, 13, 24, 25, 28, 29],
    #v[10, 11, 14, 15, 26, 27, 30, 31]]

def blockTable32Z : Table 3 2 :=
  #v[#v[24, 25, 28, 29, 8, 9, 12, 13],
    #v[26, 27, 30, 31, 10, 11, 14, 15],
    #v[16, 17, 20, 21, 0, 1, 4, 5],
    #v[18, 19, 22, 23, 2, 3, 6, 7]]

def blockTable16 : Table 2 3 :=
  #v[#v[0, 2, 8, 10],
    #v[1, 3, 9, 11],
    #v[4, 6, 12, 14],
    #v[5, 7, 13, 15],
    #v[16, 18, 24, 26],
    #v[17, 19, 25, 27],
    #v[20, 22, 28, 30],
    #v[21, 23, 29, 31]]

def blockTable16S : Table 2 3 :=
  #v[#v[0, 2, 16, 18],
    #v[1, 3, 17, 19],
    #v[8, 10, 24, 26],
    #v[9, 11, 25, 27],
    #v[4, 6, 20, 22],
    #v[5, 7, 21, 23],
    #v[12, 14, 28, 30],
    #v[13, 15, 29, 31]]

def blockTable16Z : Table 2 3 :=
  #v[#v[24, 26, 16, 18],
    #v[25, 27, 17, 19],
    #v[28, 30, 20, 22],
    #v[29, 31, 21, 23],
    #v[8, 10, 0, 2],
    #v[9, 11, 1, 3],
    #v[12, 14, 4, 6],
    #v[13, 15, 5, 7]]

def blockTable16SZ : Table 2 3 :=
  #v[#v[24, 26, 8, 10],
    #v[25, 27, 9, 11],
    #v[16, 18, 0, 2],
    #v[17, 19, 1, 3],
    #v[28, 30, 12, 14],
    #v[29, 31, 13, 15],
    #v[20, 22, 4, 6],
    #v[21, 23, 5, 7]]

def blockTable8 : Table 3 2 :=
  #v[#v[0, 1, 4, 5, 16, 17, 20, 21],
    #v[2, 3, 6, 7, 18, 19, 22, 23],
    #v[8, 9, 12, 13, 24, 25, 28, 29],
    #v[10, 11, 14, 15, 26, 27, 30, 31]]

def blockTable4 : Table 2 3 :=
  #v[#v[0, 2, 8, 10],
    #v[1, 3, 9, 11],
    #v[4, 6, 12, 14],
    #v[5, 7, 13, 15],
    #v[16, 18, 24, 26],
    #v[17, 19, 25, 27],
    #v[20, 22, 28, 30],
    #v[21, 23, 29, 31]]

/-- The cell of each pixel of a block. -/
def columnTable32 : Table 3 3 :=
  #v[#v[0, 1, 4, 5, 8, 9, 12, 13],
    #v[2, 3, 6, 7, 10, 11, 14, 15],
    #v[16, 17, 20, 21, 24, 25, 28, 29],
    #v[18, 19, 22, 23, 26, 27, 30, 31],
    #v[32, 33, 36, 37, 40, 41, 44, 45],
    #v[34, 35, 38, 39, 42, 43, 46, 47],
    #v[48, 49, 52, 53, 56, 57, 60, 61],
    #v[50, 51, 54, 55, 58, 59, 62, 63]]

def columnTable16 : Table 4 3 :=
  #v[#v[0, 2, 8, 10, 16, 18, 24, 26, 1, 3, 9, 11, 17, 19, 25, 27],
    #v[4, 6, 12, 14, 20, 22, 28, 30, 5, 7, 13, 15, 21, 23, 29, 31],
    #v[32, 34, 40, 42, 48, 50, 56, 58, 33, 35, 41, 43, 49, 51, 57, 59],
    #v[36, 38, 44, 46, 52, 54, 60, 62, 37, 39, 45, 47, 53, 55, 61, 63],
    #v[64, 66, 72, 74, 80, 82, 88, 90, 65, 67, 73, 75, 81, 83, 89, 91],
    #v[68, 70, 76, 78, 84, 86, 92, 94, 69, 71, 77, 79, 85, 87, 93, 95],
    #v[96, 98, 104, 106, 112, 114, 120, 122, 97, 99, 105, 107, 113, 115, 121, 123],
    #v[100, 102, 108, 110, 116, 118, 124, 126, 101, 103, 109, 111, 117, 119, 125, 127]]

def columnTable8 : Table 4 4 :=
  #v[#v[0, 4, 16, 20, 32, 36, 48, 52, 2, 6, 18, 22, 34, 38, 50, 54],
    #v[8, 12, 24, 28, 40, 44, 56, 60, 10, 14, 26, 30, 42, 46, 58, 62],
    #v[33, 37, 49, 53, 1, 5, 17, 21, 35, 39, 51, 55, 3, 7, 19, 23],
    #v[41, 45, 57, 61, 9, 13, 25, 29, 43, 47, 59, 63, 11, 15, 27, 31],
    #v[96, 100, 112, 116, 64, 68, 80, 84, 98, 102, 114, 118, 66, 70, 82, 86],
    #v[104, 108, 120, 124, 72, 76, 88, 92, 106, 110, 122, 126, 74, 78, 90, 94],
    #v[65, 69, 81, 85, 97, 101, 113, 117, 67, 71, 83, 87, 99, 103, 115, 119],
    #v[73, 77, 89, 93, 105, 109, 121, 125, 75, 79, 91, 95, 107, 111, 123, 127],
    #v[128, 132, 144, 148, 160, 164, 176, 180, 130, 134, 146, 150, 162, 166, 178, 182],
    #v[136, 140, 152, 156, 168, 172, 184, 188, 138, 142, 154, 158, 170, 174, 186, 190],
    #v[161, 165, 177, 181, 129, 133, 145, 149, 163, 167, 179, 183, 131, 135, 147, 151],
    #v[169, 173, 185, 189, 137, 141, 153, 157, 171, 175, 187, 191, 139, 143, 155, 159],
    #v[224, 228, 240, 244, 192, 196, 208, 212, 226, 230, 242, 246, 194, 198, 210, 214],
    #v[232, 236, 248, 252, 200, 204, 216, 220, 234, 238, 250, 254, 202, 206, 218, 222],
    #v[193, 197, 209, 213, 225, 229, 241, 245, 195, 199, 211, 215, 227, 231, 243, 247],
    #v[201, 205, 217, 221, 233, 237, 249, 253, 203, 207, 219, 223, 235, 239, 251, 255]]

def columnTable4 : Table 5 4 :=
  #v[#v[0, 8, 32, 40, 64, 72, 96, 104, 2, 10, 34, 42, 66, 74, 98, 106,
       4, 12, 36, 44, 68, 76, 100, 108, 6, 14, 38, 46, 70, 78, 102, 110],
    #v[16, 24, 48, 56, 80, 88, 112, 120, 18, 26, 50, 58, 82, 90, 114, 122,
       20, 28, 52, 60, 84, 92, 116, 124, 22, 30, 54, 62, 86, 94, 118, 126],
    #v[65, 73, 97, 105, 1, 9, 33, 41, 67, 75, 99, 107, 3, 11, 35, 43,
       69, 77, 101, 109, 5, 13, 37, 45, 71, 79, 103, 111, 7, 15, 39, 47],
    #v[81, 89, 113, 121, 17, 25, 49, 57, 83, 91, 115, 123, 19, 27, 51, 59,
       85, 93, 117, 125, 21, 29, 53, 61, 87, 95, 119, 127, 23, 31, 55, 63],
    #v[192, 200, 224, 232, 128, 136, 160, 168, 194, 202, 226, 234, 130, 138, 162, 170,
       196, 204, 228, 236, 132, 140, 164, 172, 198, 206, 230, 238, 134, 142, 166, 174],
    #v[208, 216, 240, 248, 144, 152, 176, 184, 210, 218, 242, 250, 146, 154, 178, 186,
       212, 220, 244, 252, 148, 156, 180, 188, 214, 222, 246, 254, 150, 158, 182, 190],
    #v[129, 137, 161, 169, 193, 201, 225, 233, 131, 139, 163, 171, 195, 203, 227, 235,
       133, 141, 165, 173, 197, 205, 229, 237, 135, 143, 167, 175, 199, 207, 231, 239],
    #v[145, 153, 177, 185, 209, 217, 241, 249, 147, 155, 179, 187, 211, 219, 243, 251,
       149, 157, 181, 189, 213, 221, 245, 253, 151, 159, 183, 191, 215, 223, 247, 255],
    #v[256, 264, 288, 296, 320, 328, 352, 360, 258, 266, 290, 298, 322, 330, 354, 362,
       260, 268, 292, 300, 324, 332, 356, 364, 262, 270, 294, 302, 326, 334, 358, 366],
    #v[272, 280, 304, 312, 336, 344, 368, 376, 274, 282, 306, 314, 338, 346, 370, 378,
       276, 284, 308, 316, 340, 348, 372, 380, 278, 286, 310, 318, 342, 350, 374, 382],
    #v[321, 329, 353, 361, 257, 265, 289, 297, 323, 331, 355, 363, 259, 267, 291, 299,
       325, 333, 357, 365, 261, 269, 293, 301, 327, 335, 359, 367, 263, 271, 295, 303],
    #v[337, 345, 369, 377, 273, 281, 305, 313, 339, 347, 371, 379, 275, 283, 307, 315,
       341, 349, 373, 381, 277, 285, 309, 317, 343, 351, 375, 383, 279, 287, 311, 319],
    #v[448, 456, 480, 488, 384, 392, 416, 424, 450, 458, 482, 490, 386, 394, 418, 426,
       452, 460, 484, 492, 388, 396, 420, 428, 454, 462, 486, 494, 390, 398, 422, 430],
    #v[464, 472, 496, 504, 400, 408, 432, 440, 466, 474, 498, 506, 402, 410, 434, 442,
       468, 476, 500, 508, 404, 412, 436, 444, 470, 478, 502, 510, 406, 414, 438, 446],
    #v[385, 393, 417, 425, 449, 457, 481, 489, 387, 395, 419, 427, 451, 459, 483, 491,
       389, 397, 421, 429, 453, 461, 485, 493, 391, 399, 423, 431, 455, 463, 487, 495],
    #v[401, 409, 433, 441, 465, 473, 497, 505, 403, 411, 435, 443, 467, 475, 499, 507,
       405, 413, 437, 445, 469, 477, 501, 509, 407, 415, 439, 447, 471, 479, 503, 511]]

def MAX_PAGES : Nat := 512
def MAX_BLOCKS : Nat := 16384

/-- `n & ~0x1f` -/
def clear5 (n : Nat) : Nat := n / 32 * 32

/-- `(short)n` -/
def toShort (n : Int) : Int := n.bmod 65536

/-- `((y + 2) >> 2) & 1` for `y & 7`, which of two row offset tables a row of pixels has. -/
def rowParity (y : Nat) : Nat := ((y % 8 + 2) >>> 2) % 2

theorem rowParity_lt (y : Nat) : 2 * rowParity y < 2 ^ 4 := by
  have h : rowParity y < 2 := Nat.mod_lt _ (by decide)
  omega

theorem rowParity_mod (y : Nat) : 2 * rowParity (y % 2 ^ 4) = 2 * rowParity y := by
  rw [rowParity, Nat.mod_mod_of_dvd y (Nat.pow_dvd_pow 2 (by decide : 3 ≤ 4)), rowParity]

/-- The pages of a format: `pgs` and `bs` by their binary logarithms, and the two tables. A page
has 32 blocks. -/
structure Swizzle where
  pgx : Nat
  pgy : Nat
  bsx : Nat
  bsy : Nat
  blockTable : Table (pgx - bsx) (pgy - bsy)
  columnTable : Table bsx bsy
  /-- The row of pixels that gives a row its row offsets. -/
  like : Nat → Nat := fun _ => 0
  pgx_ge : 6 ≤ pgx := by decide
  pgy_ge : 5 ≤ pgy := by decide
  bsx_ge : 3 ≤ bsx := by decide
  bsy_ge : 3 ≤ bsy := by decide
  bsx_le : bsx ≤ pgx := by decide
  bsy_le : bsy ≤ pgy := by decide
  blocks_lt : ∀ v ∈ blockTable.entries, v < 32 := by decide +kernel
  blocks_nodup : blockTable.entries.Nodup := by exact nodup_of_distinct (by decide +kernel)
  columns_lt : ∀ v ∈ columnTable.entries, v < 2 ^ (bsx + bsy) := by decide +kernel
  columns_nodup : columnTable.entries.Nodup := by exact nodup_of_distinct (by decide +kernel)
  like_lt : ∀ y, like y < 2 ^ bsy := by exact fun _ => by decide
  like_mod : ∀ y, like (y % 2 ^ bsy) = like y := by exact fun _ => rfl
  blocks_apart : ∀ i < 2 ^ (pgy - bsy), ∀ j < 2 ^ (pgx - bsx),
    blockTable.get i j + blockTable.get 0 0 = blockTable.get i 0 + blockTable.get 0 j := by
      decide +kernel
  columns_apart : ∀ i < 2 ^ bsy, ∀ j < 2 ^ bsx,
    columnTable.get i j + columnTable.get (like i) 0 =
      columnTable.get i 0 + columnTable.get (like i) j := by decide +kernel

namespace Swizzle

variable (s : Swizzle)

def block (x y : Nat) : Nat := s.blockTable.get (y >>> s.bsy) (x >>> s.bsx)
def column (x y : Nat) : Nat := s.columnTable.get y x

def blockNumber (x y bp bw : Nat) : Nat :=
  bp + clear5 (y >>> (s.pgy - 5)) * (bw >>> (s.pgx - 6)) + clear5 (x >>> (s.pgx - 5)) +
    s.block x y

def pixelAddressOrg (x y bp bw : Nat) : Nat :=
  (s.blockNumber x y bp bw <<< (s.bsx + s.bsy)) + s.column x y

def pageOffset : Vector (Vector (Vector Nat (2 ^ s.pgx)) (2 ^ s.pgy)) 32 :=
  .ofFn fun bp => .ofFn fun y => .ofFn fun x => s.pixelAddressOrg x y bp 0

def pixelAddress (x y bp bw : Nat) : Nat :=
  let page := ((bp >>> 5) + (y >>> s.pgy) * (bw >>> (s.pgx - 6)) + (x >>> s.pgx)) % MAX_PAGES
  (page <<< (s.bsx + s.bsy + 5)) +
    ((s.pageOffset.get ⟨bp % 32, Nat.mod_lt _ (by decide)⟩).get
      ⟨y % 2 ^ s.pgy, Nat.mod_lt _ (Nat.two_pow_pos _)⟩).get
      ⟨x % 2 ^ s.pgx, Nat.mod_lt _ (Nat.two_pow_pos _)⟩

/-- `PixelAddress(x & 0x7ff, y, 0, 32) - PixelAddress(0, y, 0, 32)` -/
def rowOffset (y : Nat) : Vector Int 4096 :=
  .ofFn fun x => (s.pixelAddress (x.val % 2048) y 0 32 : Int) - s.pixelAddress 0 y 0 32

def blockOffset : Vector Int 256 :=
  .ofFn fun x => toShort ((s.blockNumber (x.val <<< 3) 0 0 32 : Int) - s.blockNumber 0 0 0 32)

end Swizzle

def swizzle32 : Swizzle where
  pgx := 6
  pgy := 5
  bsx := 3
  bsy := 3
  blockTable := blockTable32
  columnTable := columnTable32

def swizzle32Z : Swizzle where
  pgx := 6
  pgy := 5
  bsx := 3
  bsy := 3
  blockTable := blockTable32Z
  columnTable := columnTable32

def swizzle16 : Swizzle where
  pgx := 6
  pgy := 6
  bsx := 4
  bsy := 3
  blockTable := blockTable16
  columnTable := columnTable16

def swizzle16S : Swizzle where
  pgx := 6
  pgy := 6
  bsx := 4
  bsy := 3
  blockTable := blockTable16S
  columnTable := columnTable16

def swizzle16Z : Swizzle where
  pgx := 6
  pgy := 6
  bsx := 4
  bsy := 3
  blockTable := blockTable16Z
  columnTable := columnTable16

def swizzle16SZ : Swizzle where
  pgx := 6
  pgy := 6
  bsx := 4
  bsy := 3
  blockTable := blockTable16SZ
  columnTable := columnTable16

def swizzle8 : Swizzle where
  pgx := 7
  pgy := 6
  bsx := 4
  bsy := 4
  blockTable := blockTable8
  columnTable := columnTable8
  like := fun y => 2 * rowParity y
  like_lt := rowParity_lt
  like_mod := rowParity_mod

def swizzle4 : Swizzle where
  pgx := 7
  pgy := 7
  bsx := 5
  bsy := 4
  blockTable := blockTable4
  columnTable := columnTable4
  like := fun y => 2 * rowParity y
  like_lt := rowParity_lt
  like_mod := rowParity_mod

abbrev blockNumber32 := swizzle32.blockNumber
abbrev blockNumber32Z := swizzle32Z.blockNumber
abbrev blockNumber16 := swizzle16.blockNumber
abbrev blockNumber16S := swizzle16S.blockNumber
abbrev blockNumber16Z := swizzle16Z.blockNumber
abbrev blockNumber16SZ := swizzle16SZ.blockNumber
abbrev blockNumber8 := swizzle8.blockNumber
abbrev blockNumber4 := swizzle4.blockNumber


abbrev pixelAddress32 := swizzle32.pixelAddress
abbrev pixelAddress32Z := swizzle32Z.pixelAddress
abbrev pixelAddress16 := swizzle16.pixelAddress
abbrev pixelAddress16S := swizzle16S.pixelAddress
abbrev pixelAddress16Z := swizzle16Z.pixelAddress
abbrev pixelAddress16SZ := swizzle16SZ.pixelAddress
abbrev pixelAddress8 := swizzle8.pixelAddress
abbrev pixelAddress4 := swizzle4.pixelAddress

def rowOffset32 : Vector Int 4096 := swizzle32.rowOffset 0
def rowOffset32Z : Vector Int 4096 := swizzle32Z.rowOffset 0
def rowOffset16 : Vector Int 4096 := swizzle16.rowOffset 0
def rowOffset16S : Vector Int 4096 := swizzle16S.rowOffset 0
def rowOffset16Z : Vector Int 4096 := swizzle16Z.rowOffset 0
def rowOffset16SZ : Vector Int 4096 := swizzle16SZ.rowOffset 0
def rowOffset8 : Vector (Vector Int 4096) 2 :=
  #v[swizzle8.rowOffset 0, swizzle8.rowOffset 2]
def rowOffset4 : Vector (Vector Int 4096) 2 :=
  #v[swizzle4.rowOffset 0, swizzle4.rowOffset 2]

def blockOffset32 : Vector Int 256 := swizzle32.blockOffset
def blockOffset32Z : Vector Int 256 := swizzle32Z.blockOffset
def blockOffset16 : Vector Int 256 := swizzle16.blockOffset
def blockOffset16S : Vector Int 256 := swizzle16S.blockOffset
def blockOffset16Z : Vector Int 256 := swizzle16Z.blockOffset
def blockOffset16SZ : Vector Int 256 := swizzle16SZ.blockOffset
def blockOffset8 : Vector Int 256 := swizzle8.blockOffset
def blockOffset4 : Vector Int 256 := swizzle4.blockOffset

end OmegaRed.GSdx
