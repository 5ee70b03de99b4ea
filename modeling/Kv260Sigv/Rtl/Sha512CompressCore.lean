import Kv260Sigv.Library.Registers

/-!
# `sha512_compress_core`

One SHA-512 compression: a block and a chaining value are loaded with `start`, one
round is done a cycle, and the new chaining value is the old one, as it is on the
input in the last round, plus the working variables.  Its reset is synchronous.
-/

set_option autoImplicit false

namespace Kv260Sigv

namespace Sha512CompressCore

/-- The registers. -/
structure State where
  busy : Bool
  done : Bool
  hOut : BitVec 512
  roundIndex : BitVec 7
  aReg : BitVec 64
  bReg : BitVec 64
  cReg : BitVec 64
  dReg : BitVec 64
  eReg : BitVec 64
  fReg : BitVec 64
  gReg : BitVec 64
  hReg : BitVec 64
  wMem : RegFile 16 64

/-- The inputs of a cycle. -/
structure Inputs where
  start : Bool
  hIn : BitVec 512
  blockIn : BitVec 1024

/-- `rotr64`. -/
def rotr64 (value : BitVec 64) (amount : ℕ) : BitVec 64 :=
  (value >>> amount) ||| (value <<< (64 - amount))

/-- `ch64`. -/
def ch64 (x y z : BitVec 64) : BitVec 64 := (x &&& y) ^^^ (~~~x &&& z)

/-- `maj64`. -/
def maj64 (x y z : BitVec 64) : BitVec 64 := (x &&& y) ^^^ (x &&& z) ^^^ (y &&& z)

/-- `big_sigma0`. -/
def bigSigma0 (x : BitVec 64) : BitVec 64 := rotr64 x 28 ^^^ rotr64 x 34 ^^^ rotr64 x 39

/-- `big_sigma1`. -/
def bigSigma1 (x : BitVec 64) : BitVec 64 := rotr64 x 14 ^^^ rotr64 x 18 ^^^ rotr64 x 41

/-- `small_sigma0`. -/
def smallSigma0 (x : BitVec 64) : BitVec 64 := rotr64 x 1 ^^^ rotr64 x 8 ^^^ (x >>> 7)

/-- `small_sigma1`. -/
def smallSigma1 (x : BitVec 64) : BitVec 64 := rotr64 x 19 ^^^ rotr64 x 61 ^^^ (x >>> 6)

/-- The listed cases of `round_constant`. -/
def roundConstants : List (BitVec 64) := [
  0x428a2f98d728ae22, 0x7137449123ef65cd, 0xb5c0fbcfec4d3b2f, 0xe9b5dba58189dbbc,
  0x3956c25bf348b538, 0x59f111f1b605d019, 0x923f82a4af194f9b, 0xab1c5ed5da6d8118,
  0xd807aa98a3030242, 0x12835b0145706fbe, 0x243185be4ee4b28c, 0x550c7dc3d5ffb4e2,
  0x72be5d74f27b896f, 0x80deb1fe3b1696b1, 0x9bdc06a725c71235, 0xc19bf174cf692694,
  0xe49b69c19ef14ad2, 0xefbe4786384f25e3, 0x0fc19dc68b8cd5b5, 0x240ca1cc77ac9c65,
  0x2de92c6f592b0275, 0x4a7484aa6ea6e483, 0x5cb0a9dcbd41fbd4, 0x76f988da831153b5,
  0x983e5152ee66dfab, 0xa831c66d2db43210, 0xb00327c898fb213f, 0xbf597fc7beef0ee4,
  0xc6e00bf33da88fc2, 0xd5a79147930aa725, 0x06ca6351e003826f, 0x142929670a0e6e70,
  0x27b70a8546d22ffc, 0x2e1b21385c26c926, 0x4d2c6dfc5ac42aed, 0x53380d139d95b3df,
  0x650a73548baf63de, 0x766a0abb3c77b2a8, 0x81c2c92e47edaee6, 0x92722c851482353b,
  0xa2bfe8a14cf10364, 0xa81a664bbc423001, 0xc24b8b70d0f89791, 0xc76c51a30654be30,
  0xd192e819d6ef5218, 0xd69906245565a910, 0xf40e35855771202a, 0x106aa07032bbd1b8,
  0x19a4c116b8d2d0c8, 0x1e376c085141ab53, 0x2748774cdf8eeb99, 0x34b0bcb5e19b48a8,
  0x391c0cb3c5c95a63, 0x4ed8aa4ae3418acb, 0x5b9cca4f7763e373, 0x682e6ff3d6b2b8a3,
  0x748f82ee5defb2fc, 0x78a5636f43172f60, 0x84c87814a1f0ab72, 0x8cc702081a6439ec,
  0x90befffa23631e28, 0xa4506cebde82bde9, 0xbef9a3f7b2c67915, 0xc67178f2e372532b,
  0xca273eceea26619c, 0xd186b8c721c0c207, 0xeada7dd6cde0eb1e, 0xf57d4f7fee6ed178,
  0x06f067aa72176fba, 0x0a637dc5a2c898a6, 0x113f9804bef90dae, 0x1b710b35131c471b,
  0x28db77f523047d84, 0x32caab7b40c72493, 0x3c9ebe0a15c9bebc, 0x431d67c49c100d4c,
  0x4cc5d4becb3e42b6, 0x597f299cfc657e2a, 0x5fcb6fab3ad6faec]

/-- `round_constant`, with its default. -/
def roundConstant (index : BitVec 7) : BitVec 64 :=
  roundConstants.getD index.toNat 0x6c44198c4a475817

/-- `w_new`. -/
def wNew (s : State) : BitVec 64 :=
  let wIdx : BitVec 4 := s.roundIndex.setWidth 4
  smallSigma1 (s.wMem.read (wIdx + 14).toNat) + s.wMem.read (wIdx + 9).toNat +
    smallSigma0 (s.wMem.read (wIdx + 1).toNat) + s.wMem.read wIdx.toNat

/-- `w_t`. -/
def wT (s : State) : BitVec 64 :=
  if s.roundIndex < 16 then s.wMem.read (s.roundIndex.setWidth 4).toNat else wNew s

/-- `temp1`. -/
def temp1 (s : State) : BitVec 64 :=
  s.hReg + bigSigma1 s.eReg + ch64 s.eReg s.fReg s.gReg + roundConstant s.roundIndex + wT s

/-- `temp2`. -/
def temp2 (s : State) : BitVec 64 := bigSigma0 s.aReg + maj64 s.aReg s.bReg s.cReg

/-- Eight words, the first in the high bits. -/
def concat8 (f : ℕ → BitVec 64) : BitVec 512 :=
  f 0 ++ (f 1 ++ (f 2 ++ (f 3 ++ (f 4 ++ (f 5 ++ (f 6 ++ f 7))))))

/-- `x[511 - 64 * i -: 64]`. -/
def word (x : BitVec 512) (i : ℕ) : BitVec 64 := x.extractLsb' (448 - 64 * i) 64

/-- `next_a .. next_h`. -/
def next (s : State) : ℕ → BitVec 64
  | 0 => temp1 s + temp2 s
  | 1 => s.aReg
  | 2 => s.bReg
  | 3 => s.cReg
  | 4 => s.dReg + temp1 s
  | 5 => s.eReg
  | 6 => s.fReg
  | _ => s.gReg

/-- The state after a cycle with `rst_n` low. -/
def reset : State := ⟨false, false, 0, 0, 0, 0, 0, 0, 0, 0, 0, 0, .zero⟩

/-- One clock cycle with `rst_n` high. -/
def step (i : Inputs) (s : State) : State :=
  if !s.busy then
    if i.start then
      { s with
        done := false
        busy := true
        roundIndex := 0
        aReg := word i.hIn 0
        bReg := word i.hIn 1
        cReg := word i.hIn 2
        dReg := word i.hIn 3
        eReg := word i.hIn 4
        fReg := word i.hIn 5
        gReg := word i.hIn 6
        hReg := word i.hIn 7
        wMem := .ofFn fun k => i.blockIn.extractLsb' (960 - k * 64) 64 }
    else { s with done := false }
  else
    let wMem :=
      if s.roundIndex < 16 then s.wMem
      else s.wMem.write (s.roundIndex.setWidth 4).toNat (wNew s)
    if s.roundIndex = 79 then
      { s with
        busy := false
        done := true
        wMem := wMem
        hOut := concat8 fun k => word i.hIn k + next s k }
    else
      { s with
        done := false
        roundIndex := s.roundIndex + 1
        wMem := wMem
        aReg := next s 0
        bReg := next s 1
        cReg := next s 2
        dReg := next s 3
        eReg := next s 4
        fReg := next s 5
        gReg := next s 6
        hReg := next s 7 }

end Sha512CompressCore

end Kv260Sigv
