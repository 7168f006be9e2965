import Mathlib.Logic.Function.Iterate

namespace BTagent

namespace Sha256

def roundConstants : List ℕ := [
    0x428a2f98, 0x71374491, 0xb5c0fbcf, 0xe9b5dba5, 0x3956c25b, 0x59f111f1, 0x923f82a4, 0xab1c5ed5,
    0xd807aa98, 0x12835b01, 0x243185be, 0x550c7dc3, 0x72be5d74, 0x80deb1fe, 0x9bdc06a7, 0xc19bf174,
    0xe49b69c1, 0xefbe4786, 0x0fc19dc6, 0x240ca1cc, 0x2de92c6f, 0x4a7484aa, 0x5cb0a9dc, 0x76f988da,
    0x983e5152, 0xa831c66d, 0xb00327c8, 0xbf597fc7, 0xc6e00bf3, 0xd5a79147, 0x06ca6351, 0x14292967,
    0x27b70a85, 0x2e1b2138, 0x4d2c6dfc, 0x53380d13, 0x650a7354, 0x766a0abb, 0x81c2c92e, 0x92722c85,
    0xa2bfe8a1, 0xa81a664b, 0xc24b8b70, 0xc76c51a3, 0xd192e819, 0xd6990624, 0xf40e3585, 0x106aa070,
    0x19a4c116, 0x1e376c08, 0x2748774c, 0x34b0bcb5, 0x391c0cb3, 0x4ed8aa4a, 0x5b9cca4f, 0x682e6ff3,
    0x748f82ee, 0x78a5636f, 0x84c87814, 0x8cc70208, 0x90befffa, 0xa4506ceb, 0xbef9a3f7, 0xc67178f2]

def initial : List ℕ := [
    0x6a09e667, 0xbb67ae85, 0x3c6ef372, 0xa54ff53a, 0x510e527f, 0x9b05688c, 0x1f83d9ab, 0x5be0cd19]

def word (n : ℕ) : ℕ := n % 4294967296

def rotateRight (x n : ℕ) : ℕ := word (x >>> n ||| x <<< (32 - n))

def smallSigma (a b shift x : ℕ) : ℕ := rotateRight x a ^^^ rotateRight x b ^^^ x >>> shift

def bigSigma (a b c x : ℕ) : ℕ := rotateRight x a ^^^ rotateRight x b ^^^ rotateRight x c

def bigEndian (bytes : List UInt8) : ℕ := bytes.foldl (fun n b => n * 256 + b.toNat) 0

def bytesOf : ℕ → ℕ → List UInt8
  | 0, _ => []
  | width + 1, n => bytesOf width (n / 256) ++ [UInt8.ofNat n]

def pad (bytes : List UInt8) : List UInt8 :=
  bytes ++ 0x80 :: List.replicate ((119 - bytes.length % 64) % 64) 0 ++ bytesOf 8 (bytes.length * 8)

def chunks {α : Type*} (size : ℕ) : ℕ → List α → List (List α)
  | 0, _ => []
  | count + 1, xs => xs.take size :: chunks size count (xs.drop size)

def extend (ws : List ℕ) : List ℕ :=
  word (smallSigma 17 19 10 (ws.getD 1 0) + ws.getD 6 0 + smallSigma 7 18 3 (ws.getD 14 0) +
    ws.getD 15 0) :: ws

def schedule (block : List UInt8) : List ℕ :=
  (extend^[48] ((chunks 4 16 block).map bigEndian).reverse).reverse

def round (state : List ℕ) (kw : ℕ × ℕ) : List ℕ :=
  match state with
  | [a, b, c, d, e, f, g, h] =>
      let choice := (e &&& f) ^^^ ((e ^^^ 0xffffffff) &&& g)
      let majority := (a &&& b) ^^^ (a &&& c) ^^^ (b &&& c)
      let t := h + bigSigma 6 11 25 e + choice + kw.1 + kw.2
      [word (t + bigSigma 2 13 22 a + majority), a, b, c, word (d + t), e, f, g]
  | _ => state

def compress (state : List ℕ) (block : List UInt8) : List ℕ :=
  List.zipWith (fun a b => word (a + b)) state
    ((List.zip roundConstants (schedule block)).foldl round state)

def hexByte (b : UInt8) : List Char := [(b.toNat / 16).digitChar, (b.toNat % 16).digitChar]

end Sha256

open Sha256 in
-- `hashlib.sha256(...).hexdigest()`
def sha256 (bytes : ByteArray) : String :=
  let padded := pad bytes.data.toList
  let words := (chunks 64 (padded.length / 64) padded).foldl compress initial
  String.ofList ((words.flatMap (bytesOf 4)).flatMap hexByte)

example : sha256 "abc".toByteArray =
    "ba7816bf8f01cfea414140de5dae2223b00361a396177a9cb410ff61f20015ad" := by decide +kernel

end BTagent
