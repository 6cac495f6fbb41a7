import Exc.Lib.Blocks
import Mathlib.Data.BitVec
import Mathlib.Data.UInt

/-!
# The DES class

`DES::encrypt` and `DES::decrypt` of `util/cryption/DES/DES.cpp` and what they call. An
`unsigned long` is a word of `w` bits, with what is left above bit 31 when `w` is larger than 32.
The bytes that the functions get a pointer to are in a memory, so that the input and the output of
`des`, `cbc_enc` and `cbc_dec` may be at the same place; a null pointer is `none`. The local arrays
of a function are values.

In `scrunch` a byte is shifted as a `long`; where that reaches the sign bit the word has that bit
set.

`KnL` is what `deskey` returns: both functions call it first, so nothing else is left in the object
from an earlier call.
-/

set_option autoImplicit false
set_option relaxedAutoImplicit false

namespace Exc.Des

open Lib

/-- Eight bytes. -/
abbrev Block := Vector UInt8 8

abbrev Memory := ℕ → UInt8

/-! ### Tables -/

def bytebit : List ℕ :=
  [128, 64, 32, 16, 8, 4, 2, 1]

def bigbyte : List ℕ :=
  [0x800000, 0x400000, 0x200000, 0x100000, 0x80000, 0x40000, 0x20000, 0x10000, 0x8000, 0x4000,
   0x2000, 0x1000, 0x800, 0x400, 0x200, 0x100, 0x80, 0x40, 0x20, 0x10, 0x8, 0x4, 0x2, 0x1]

def pc1 : List ℕ :=
  [56, 48, 40, 32, 24, 16, 8, 0, 57, 49, 41, 33, 25, 17, 9, 1, 58, 50, 42, 34, 26, 18, 10, 2, 59,
   51, 43, 35, 62, 54, 46, 38, 30, 22, 14, 6, 61, 53, 45, 37, 29, 21, 13, 5, 60, 52, 44, 36, 28,
   20, 12, 4, 27, 19, 11, 3]

def totrot : List ℕ :=
  [1, 2, 4, 6, 8, 10, 12, 14, 15, 17, 19, 21, 23, 25, 27, 28]

def pc2 : List ℕ :=
  [13, 16, 10, 23, 0, 4, 2, 27, 14, 5, 20, 9, 22, 18, 11, 3, 25, 7, 15, 6, 26, 19, 12, 1, 40, 51,
   30, 36, 46, 54, 29, 39, 50, 44, 32, 47, 43, 48, 38, 55, 33, 52, 45, 41, 49, 35, 28, 31]

def SP1 : List ℕ :=
  [0x01010400, 0x00000000, 0x00010000, 0x01010404, 0x01010004, 0x00010404, 0x00000004,
   0x00010000, 0x00000400, 0x01010400, 0x01010404, 0x00000400, 0x01000404, 0x01010004,
   0x01000000, 0x00000004, 0x00000404, 0x01000400, 0x01000400, 0x00010400, 0x00010400,
   0x01010000, 0x01010000, 0x01000404, 0x00010004, 0x01000004, 0x01000004, 0x00010004,
   0x00000000, 0x00000404, 0x00010404, 0x01000000, 0x00010000, 0x01010404, 0x00000004,
   0x01010000, 0x01010400, 0x01000000, 0x01000000, 0x00000400, 0x01010004, 0x00010000,
   0x00010400, 0x01000004, 0x00000400, 0x00000004, 0x01000404, 0x00010404, 0x01010404,
   0x00010004, 0x01010000, 0x01000404, 0x01000004, 0x00000404, 0x00010404, 0x01010400,
   0x00000404, 0x01000400, 0x01000400, 0x00000000, 0x00010004, 0x00010400, 0x00000000,
   0x01010004]

def SP2 : List ℕ :=
  [0x80108020, 0x80008000, 0x00008000, 0x00108020, 0x00100000, 0x00000020, 0x80100020,
   0x80008020, 0x80000020, 0x80108020, 0x80108000, 0x80000000, 0x80008000, 0x00100000,
   0x00000020, 0x80100020, 0x00108000, 0x00100020, 0x80008020, 0x00000000, 0x80000000,
   0x00008000, 0x00108020, 0x80100000, 0x00100020, 0x80000020, 0x00000000, 0x00108000,
   0x00008020, 0x80108000, 0x80100000, 0x00008020, 0x00000000, 0x00108020, 0x80100020,
   0x00100000, 0x80008020, 0x80100000, 0x80108000, 0x00008000, 0x80100000, 0x80008000,
   0x00000020, 0x80108020, 0x00108020, 0x00000020, 0x00008000, 0x80000000, 0x00008020,
   0x80108000, 0x00100000, 0x80000020, 0x00100020, 0x80008020, 0x80000020, 0x00100020,
   0x00108000, 0x00000000, 0x80008000, 0x00008020, 0x80000000, 0x80100020, 0x80108020,
   0x00108000]

def SP3 : List ℕ :=
  [0x00000208, 0x08020200, 0x00000000, 0x08020008, 0x08000200, 0x00000000, 0x00020208,
   0x08000200, 0x00020008, 0x08000008, 0x08000008, 0x00020000, 0x08020208, 0x00020008,
   0x08020000, 0x00000208, 0x08000000, 0x00000008, 0x08020200, 0x00000200, 0x00020200,
   0x08020000, 0x08020008, 0x00020208, 0x08000208, 0x00020200, 0x00020000, 0x08000208,
   0x00000008, 0x08020208, 0x00000200, 0x08000000, 0x08020200, 0x08000000, 0x00020008,
   0x00000208, 0x00020000, 0x08020200, 0x08000200, 0x00000000, 0x00000200, 0x00020008,
   0x08020208, 0x08000200, 0x08000008, 0x00000200, 0x00000000, 0x08020008, 0x08000208,
   0x00020000, 0x08000000, 0x08020208, 0x00000008, 0x00020208, 0x00020200, 0x08000008,
   0x08020000, 0x08000208, 0x00000208, 0x08020000, 0x00020208, 0x00000008, 0x08020008,
   0x00020200]

def SP4 : List ℕ :=
  [0x00802001, 0x00002081, 0x00002081, 0x00000080, 0x00802080, 0x00800081, 0x00800001,
   0x00002001, 0x00000000, 0x00802000, 0x00802000, 0x00802081, 0x00000081, 0x00000000,
   0x00800080, 0x00800001, 0x00000001, 0x00002000, 0x00800000, 0x00802001, 0x00000080,
   0x00800000, 0x00002001, 0x00002080, 0x00800081, 0x00000001, 0x00002080, 0x00800080,
   0x00002000, 0x00802080, 0x00802081, 0x00000081, 0x00800080, 0x00800001, 0x00802000,
   0x00802081, 0x00000081, 0x00000000, 0x00000000, 0x00802000, 0x00002080, 0x00800080,
   0x00800081, 0x00000001, 0x00802001, 0x00002081, 0x00002081, 0x00000080, 0x00802081,
   0x00000081, 0x00000001, 0x00002000, 0x00800001, 0x00002001, 0x00802080, 0x00800081,
   0x00002001, 0x00002080, 0x00800000, 0x00802001, 0x00000080, 0x00800000, 0x00002000,
   0x00802080]

def SP5 : List ℕ :=
  [0x00000100, 0x02080100, 0x02080000, 0x42000100, 0x00080000, 0x00000100, 0x40000000,
   0x02080000, 0x40080100, 0x00080000, 0x02000100, 0x40080100, 0x42000100, 0x42080000,
   0x00080100, 0x40000000, 0x02000000, 0x40080000, 0x40080000, 0x00000000, 0x40000100,
   0x42080100, 0x42080100, 0x02000100, 0x42080000, 0x40000100, 0x00000000, 0x42000000,
   0x02080100, 0x02000000, 0x42000000, 0x00080100, 0x00080000, 0x42000100, 0x00000100,
   0x02000000, 0x40000000, 0x02080000, 0x42000100, 0x40080100, 0x02000100, 0x40000000,
   0x42080000, 0x02080100, 0x40080100, 0x00000100, 0x02000000, 0x42080000, 0x42080100,
   0x00080100, 0x42000000, 0x42080100, 0x02080000, 0x00000000, 0x40080000, 0x42000000,
   0x00080100, 0x02000100, 0x40000100, 0x00080000, 0x00000000, 0x40080000, 0x02080100,
   0x40000100]

def SP6 : List ℕ :=
  [0x20000010, 0x20400000, 0x00004000, 0x20404010, 0x20400000, 0x00000010, 0x20404010,
   0x00400000, 0x20004000, 0x00404010, 0x00400000, 0x20000010, 0x00400010, 0x20004000,
   0x20000000, 0x00004010, 0x00000000, 0x00400010, 0x20004010, 0x00004000, 0x00404000,
   0x20004010, 0x00000010, 0x20400010, 0x20400010, 0x00000000, 0x00404010, 0x20404000,
   0x00004010, 0x00404000, 0x20404000, 0x20000000, 0x20004000, 0x00000010, 0x20400010,
   0x00404000, 0x20404010, 0x00400000, 0x00004010, 0x20000010, 0x00400000, 0x20004000,
   0x20000000, 0x00004010, 0x20000010, 0x20404010, 0x00404000, 0x20400000, 0x00404010,
   0x20404000, 0x00000000, 0x20400010, 0x00000010, 0x00004000, 0x20400000, 0x00404010,
   0x00004000, 0x00400010, 0x20004010, 0x00000000, 0x20404000, 0x20000000, 0x00400010,
   0x20004010]

def SP7 : List ℕ :=
  [0x00200000, 0x04200002, 0x04000802, 0x00000000, 0x00000800, 0x04000802, 0x00200802,
   0x04200800, 0x04200802, 0x00200000, 0x00000000, 0x04000002, 0x00000002, 0x04000000,
   0x04200002, 0x00000802, 0x04000800, 0x00200802, 0x00200002, 0x04000800, 0x04000002,
   0x04200000, 0x04200800, 0x00200002, 0x04200000, 0x00000800, 0x00000802, 0x04200802,
   0x00200800, 0x00000002, 0x04000000, 0x00200800, 0x04000000, 0x00200800, 0x00200000,
   0x04000802, 0x04000802, 0x04200002, 0x04200002, 0x00000002, 0x00200002, 0x04000000,
   0x04000800, 0x00200000, 0x04200800, 0x00000802, 0x00200802, 0x04200800, 0x00000802,
   0x04000002, 0x04200802, 0x04200000, 0x00200800, 0x00000000, 0x00000002, 0x04200802,
   0x00000000, 0x00200802, 0x04200000, 0x00000800, 0x04000002, 0x04000800, 0x00000800,
   0x00200002]

def SP8 : List ℕ :=
  [0x10001040, 0x00001000, 0x00040000, 0x10041040, 0x10000000, 0x10001040, 0x00000040,
   0x10000000, 0x00040040, 0x10040000, 0x10041040, 0x00041000, 0x10041000, 0x00041040,
   0x00001000, 0x00000040, 0x10040000, 0x10000040, 0x10001000, 0x00001040, 0x00041000,
   0x00040040, 0x10040040, 0x10041000, 0x00001040, 0x00000000, 0x00000000, 0x10040040,
   0x10000040, 0x10001000, 0x00041040, 0x00040000, 0x00041040, 0x00040000, 0x10041000,
   0x00001000, 0x00000040, 0x10040040, 0x00001000, 0x00041040, 0x10001000, 0x00000040,
   0x10000040, 0x10040000, 0x10040040, 0x10000000, 0x00040000, 0x10001040, 0x00000000,
   0x10041040, 0x00040040, 0x10000040, 0x10040000, 0x10001000, 0x10001040, 0x00000000,
   0x10041040, 0x00041000, 0x00041000, 0x00001040, 0x00001040, 0x00040040, 0x10000000,
   0x10041000]

/-! ### Keys -/

/-- `Mode`. -/
inductive Mode
  | encrypt
  | decrypt
  deriving DecidableEq

/-- `pc1m[j]`. -/
def pc1m (key : Block) (j : ℕ) : Bool :=
  let l := pc1.getD j 0
  let m := l &&& 7
  ((key.toList.getD (l >>> 3) 0).toNat &&& bytebit.getD m 0) != 0

/-- `pcr[j]` in round `i`. -/
def pcr (key : Block) (i j : ℕ) : Bool :=
  let l := j + totrot.getD i 0
  if j < 28 then
    if l < 28 then pc1m key l else pc1m key (l - 28)
  else
    if l < 56 then pc1m key l else pc1m key (l - 28)

/-- `kn[m]` in round `i`, for the entries of `pc2` from `start` on. -/
def knPart (w : ℕ) (key : Block) (i start : ℕ) : BitVec w :=
  (List.range 24).foldl (fun kn j ↦
    if pcr key i (pc2.getD (j + start) 0) then kn ||| BitVec.ofNat w (bigbyte.getD j 0) else kn) 0

/-- An array of 32 words that a loop fills two at a time, in round `i` those at `m i`. -/
def fillPairs {w : ℕ} (m : ℕ → ℕ) (first second : ℕ → BitVec w) : List (BitVec w) :=
  (List.range 16).foldl (fun array i ↦ (array.set (m i) (first i)).set (m i + 1) (second i))
    (List.replicate 32 0)

/-- `m` in round `i` of `deskey`. -/
def Mode.position : Mode → ℕ → ℕ
  | .decrypt, i => (15 - i) <<< 1
  | .encrypt, i => i <<< 1

/-- `kn` in `deskey`. -/
def kn (w : ℕ) (key : Block) (md : Mode) : List (BitVec w) :=
  fillPairs md.position (fun i ↦ knPart w key i 0) fun i ↦ knPart w key i 24

/-- The two words that a round of `cookey` writes to `dough`. -/
def cook {w : ℕ} (raw0 raw1 : BitVec w) : BitVec w × BitVec w :=
  (((raw0 &&& 0x00fc0000) <<< 6) ||| ((raw0 &&& 0x00000fc0) <<< 10) |||
      ((raw1 &&& 0x00fc0000) >>> 10) ||| ((raw1 &&& 0x00000fc0) >>> 6),
    ((raw0 &&& 0x0003f000) <<< 12) ||| ((raw0 &&& 0x0000003f) <<< 16) |||
      ((raw1 &&& 0x0003f000) >>> 4) ||| (raw1 &&& 0x0000003f))

/-- `cookey`, up to the call of `usekey`. -/
def cookey {w : ℕ} (raw : List (BitVec w)) : List (BitVec w) :=
  let cooked := fun i ↦ cook (raw.getD (2 * i) 0) (raw.getD (2 * i + 1) 0)
  fillPairs (fun i ↦ 2 * i) (fun i ↦ (cooked i).1) fun i ↦ (cooked i).2

/-- `usekey`: the 32 words copied to `KnL`. -/
def usekey {w : ℕ} (source : List (BitVec w)) : List (BitVec w) :=
  source.take 32

/-- `deskey`, with `KnL` as its result. -/
def deskey (w : ℕ) (key : Block) (md : Mode) : List (BitVec w) :=
  usekey (cookey (kn w key md))

/-! ### One block -/

/-- `scrunch`. -/
def scrunch (w : ℕ) (outof : Block) : BitVec w × BitVec w :=
  let byte := fun i : Fin 8 ↦ (outof.get i).toBitVec.setWidth w &&& 0xff
  ((byte 0 <<< 24) ||| (byte 1 <<< 16) ||| (byte 2 <<< 8) ||| byte 3,
    (byte 4 <<< 24) ||| (byte 5 <<< 16) ||| (byte 6 <<< 8) ||| byte 7)

/-- `unscrun`. -/
def unscrun {w : ℕ} (outof : BitVec w × BitVec w) : Block :=
  let byte := fun word : BitVec w ↦ UInt8.ofBitVec ((word &&& 0xff).setWidth 8)
  #v[byte (outof.1 >>> 24), byte (outof.1 >>> 16), byte (outof.1 >>> 8), byte outof.1,
    byte (outof.2 >>> 24), byte (outof.2 >>> 16), byte (outof.2 >>> 8), byte outof.2]

variable {w : ℕ}

/-- An entry of a table of words. -/
def lookup (table : List ℕ) (index : BitVec w) : BitVec w :=
  BitVec.ofNat w (table.getD index.toNat 0)

/-- `fval` for one half of the block and two of the `keys`. -/
def fval (half : BitVec w) (keys : BitVec w × BitVec w) : BitVec w :=
  let work := ((half <<< 28) ||| (half >>> 4)) ^^^ keys.1
  let fval := lookup SP7 (work &&& 0x3f) ||| lookup SP5 ((work >>> 8) &&& 0x3f) |||
    lookup SP3 ((work >>> 16) &&& 0x3f) ||| lookup SP1 ((work >>> 24) &&& 0x3f)
  let work := half ^^^ keys.2
  fval ||| lookup SP8 (work &&& 0x3f) ||| lookup SP6 ((work >>> 8) &&& 0x3f) |||
    lookup SP4 ((work >>> 16) &&& 0x3f) ||| lookup SP2 ((work >>> 24) &&& 0x3f)

/-- `desfunc` before its loop. -/
def initialPart (block : BitVec w × BitVec w) : BitVec w × BitVec w :=
  let leftt := block.1
  let right := block.2
  let work := ((leftt >>> 4) ^^^ right) &&& 0x0f0f0f0f
  let right := right ^^^ work
  let leftt := leftt ^^^ (work <<< 4)
  let work := ((leftt >>> 16) ^^^ right) &&& 0x0000ffff
  let right := right ^^^ work
  let leftt := leftt ^^^ (work <<< 16)
  let work := ((right >>> 2) ^^^ leftt) &&& 0x33333333
  let leftt := leftt ^^^ work
  let right := right ^^^ (work <<< 2)
  let work := ((right >>> 8) ^^^ leftt) &&& 0x00ff00ff
  let leftt := leftt ^^^ work
  let right := right ^^^ (work <<< 8)
  let right := ((right <<< 1) ||| ((right >>> 31) &&& 1)) &&& 0xffffffff
  let work := (leftt ^^^ right) &&& 0xaaaaaaaa
  let leftt := leftt ^^^ work
  let right := right ^^^ work
  let leftt := ((leftt <<< 1) ||| ((leftt >>> 31) &&& 1)) &&& 0xffffffff
  (leftt, right)

/-- One round of the loop of `desfunc`. -/
def loopRound (keys : List (BitVec w)) (halves : BitVec w × BitVec w) (round : ℕ) :
    BitVec w × BitVec w :=
  let key := fun i ↦ keys.getD (4 * round + i) 0
  let leftt := halves.1 ^^^ fval halves.2 (key 0, key 1)
  let right := halves.2 ^^^ fval leftt (key 2, key 3)
  (leftt, right)

/-- `desfunc` after its loop: the new `block`. -/
def finalPart (halves : BitVec w × BitVec w) : BitVec w × BitVec w :=
  let leftt := halves.1
  let right := halves.2
  let right := (right <<< 31) ||| (right >>> 1)
  let work := (leftt ^^^ right) &&& 0xaaaaaaaa
  let leftt := leftt ^^^ work
  let right := right ^^^ work
  let leftt := (leftt <<< 31) ||| (leftt >>> 1)
  let work := ((leftt >>> 8) ^^^ right) &&& 0x00ff00ff
  let right := right ^^^ work
  let leftt := leftt ^^^ (work <<< 8)
  let work := ((leftt >>> 2) ^^^ right) &&& 0x33333333
  let right := right ^^^ work
  let leftt := leftt ^^^ (work <<< 2)
  let work := ((right >>> 16) ^^^ leftt) &&& 0x0000ffff
  let leftt := leftt ^^^ work
  let right := right ^^^ (work <<< 16)
  let work := ((right >>> 4) ^^^ leftt) &&& 0x0f0f0f0f
  let leftt := leftt ^^^ work
  let right := right ^^^ (work <<< 4)
  (right, leftt)

/-- `desfunc`. -/
def desfunc (block : BitVec w × BitVec w) (keys : List (BitVec w)) : BitVec w × BitVec w :=
  finalPart ((List.range 8).foldl (loopRound keys) (initialPart block))

/-- `des_block`, from eight bytes to eight bytes. -/
def desBlock (keys : List (BitVec w)) (input : Block) : Block :=
  unscrun (desfunc (scrunch w input) keys)

/-! ### Blocks in a row -/

/-- `des`. -/
def des (keys : List (BitVec w)) : ℕ → ℕ → ℕ → Memory → Memory
  | 0, _, _, memory => memory
  | blocks + 1, input, output, memory =>
    des keys blocks (input + 8) (output + 8)
      (writeBlock memory output (desBlock keys (readBlock 8 memory input)))

/-- `CBCbuf[j] = CBCVector[j] ^ buf[j]`. -/
def xorBlock (cbcVector buf : Block) : Block :=
  Vector.zipWith (· ^^^ ·) cbcVector buf

/-- The loop of `cbc_enc`. -/
def cbcEncLoop (keys : List (BitVec w)) : ℕ → Block → ℕ → ℕ → Memory → Memory
  | 0, _, _, _, memory => memory
  | blocks + 1, cbcVector, input, output, memory =>
    let inbuf := readBlock 8 memory input
    let memory := writeBlock memory output (desBlock keys (xorBlock cbcVector inbuf))
    let cbcVector := readBlock 8 memory output
    cbcEncLoop keys blocks cbcVector (input + 8) (output + 8) memory

/-- `cbc_enc`. -/
def cbcEnc (keys : List (BitVec w)) (blocks input output : ℕ) (memory : Memory) : Memory :=
  cbcEncLoop keys blocks (Vector.replicate 8 0) input output memory

/-- The loop of `cbc_dec`. -/
def cbcDecLoop (keys : List (BitVec w)) : ℕ → Block → ℕ → ℕ → Memory → Memory
  | 0, _, _, _, memory => memory
  | blocks + 1, cbcVector, input, output, memory =>
    let inbuf := readBlock 8 memory input
    let memory := writeBlock memory output (desBlock keys (readBlock 8 memory input))
    let cbcBuf := xorBlock cbcVector (readBlock 8 memory output)
    let memory := writeBlock memory output cbcBuf
    cbcDecLoop keys blocks inbuf (input + 8) (output + 8) memory

/-- `cbc_dec`. The first block is decrypted before the loop. -/
def cbcDec (keys : List (BitVec w)) (blocks input output : ℕ) (memory : Memory) : Memory :=
  let cbcVector := readBlock 8 memory input
  let memory := writeBlock memory output (desBlock keys (readBlock 8 memory input))
  cbcDecLoop keys (blocks - 1) cbcVector (input + 8) (output + 8) memory

/-- `DES::encrypt`: the code returned, and the memory. -/
def encrypt (w : ℕ) (key : Block) (data : Option ℕ) (blocks mode : ℤ) (memory : Memory) :
    ℤ × Memory :=
  match data with
  | none => (0, memory)
  | some data =>
    if blocks < 1 then (0, memory)
    else
      let keys := deskey w key .encrypt
      if mode = 1 then (1, cbcEnc keys blocks.toNat data data memory)
      else (1, des keys blocks.toNat data data memory)

/-- `DES::decrypt`. -/
def decrypt (w : ℕ) (key : Block) (data : Option ℕ) (blocks mode : ℤ) (memory : Memory) :
    ℤ × Memory :=
  match data with
  | none => (0, memory)
  | some data =>
    if blocks < 1 then (0, memory)
    else
      let keys := deskey w key .decrypt
      if mode = 1 then (1, cbcDec keys blocks.toNat data data memory)
      else (1, des keys blocks.toNat data data memory)

end Exc.Des
