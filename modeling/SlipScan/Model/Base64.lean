import Mathlib.Data.Nat.Notation

namespace SlipScan.Model.Base64

def alphabet : List Char :=
  "ABCDEFGHIJKLMNOPQRSTUVWXYZabcdefghijklmnopqrstuvwxyz0123456789+/".toList

def sextet (n : ℕ) : Char :=
  alphabet.getD (n &&& 63) '='

def encodeChunk (chunk : List UInt8) : List Char :=
  let n := (chunk.getD 0 0).toNat <<< 16 ||| (chunk.getD 1 0).toNat <<< 8 ||| (chunk.getD 2 0).toNat
  [sextet (n >>> 18), sextet (n >>> 12), if chunk.length > 1 then sextet (n >>> 6) else '=',
    if chunk.length > 2 then sextet n else '=']

def encode : List UInt8 → List Char
  | [] => []
  | a :: b :: c :: bytes => encodeChunk [a, b, c] ++ encode bytes
  | chunk => encodeChunk chunk

/-- `str::trim_end_matches` -/
def trimEndMatches (c : Char) (text : List Char) : List Char :=
  (text.reverse.dropWhile (· = c)).reverse

def replaceChar (c c' : Char) (text : List Char) : List Char :=
  text.map fun d ↦ if d = c then c' else d

def encodeUrlNopad (bytes : List UInt8) : List Char :=
  trimEndMatches '=' (replaceChar '/' '_' (replaceChar '+' '-' (encode bytes)))

def sextets : List Char → Except String (List ℕ)
  | [] => .ok []
  | c :: text =>
    if c = '=' then .ok []
    else
      match alphabet.idxOf? c with
      | none => .error s!"invalid base64 byte {(String.utf8EncodeChar c).headD 0}"
      | some v => (sextets text).map (v :: ·)

def decodeChunk (chunk : List ℕ) : List UInt8 :=
  let n := chunk.zipIdx.foldl (fun n (v, i) ↦ n ||| v <<< (18 - 6 * i)) 0
  [UInt8.ofNat (n >>> 16)] ++ (if chunk.length > 2 then [UInt8.ofNat (n >>> 8)] else []) ++
    (if chunk.length > 3 then [UInt8.ofNat n] else [])

def decodeChunks : List ℕ → List UInt8
  | [] => []
  | a :: b :: c :: d :: values => decodeChunk [a, b, c, d] ++ decodeChunks values
  | chunk => decodeChunk chunk

def decode (text : List Char) : Except String (List UInt8) :=
  (sextets text).map decodeChunks

def isAsciiWhitespace (c : Char) : Bool :=
  c ∈ [' ', '\t', '\n', '\x0C', '\r']

/-- Either alphabet, padded or not, with white space anywhere. -/
def decodeAny (text : List Char) : Except String (List UInt8) :=
  decode ((text.filter (!isAsciiWhitespace ·)).map fun
    | '-' => '+'
    | '_' => '/'
    | c => c)

end SlipScan.Model.Base64
