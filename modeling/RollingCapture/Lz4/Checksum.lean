/-! The 32-bit checksum of LZ4 frames: four lanes of multiply and rotate over 16-byte stripes, then
the rest by words and bytes, then a final mix. The seed is zero throughout. -/
namespace RollingCapture.Lz4.Checksum

def prime1 : UInt32 := 2654435761
def prime2 : UInt32 := 2246822519
def prime3 : UInt32 := 3266489917
def prime4 : UInt32 := 668265263
def prime5 : UInt32 := 374761393

def rotateLeft (x n : UInt32) : UInt32 := (x <<< n) ||| (x >>> (32 - n))

def word (a b c d : UInt8) : UInt32 :=
  a.toUInt32 ||| (b.toUInt32 <<< 8) ||| (c.toUInt32 <<< 16) ||| (d.toUInt32 <<< 24)

def lane (acc input : UInt32) : UInt32 := rotateLeft (acc + input * prime2) 13 * prime1

/-- Folds whole stripes into the four lanes. What is left is shorter than a stripe. -/
def stripes (v1 v2 v3 v4 : UInt32) :
    List UInt8 → (UInt32 × UInt32 × UInt32 × UInt32) × List UInt8
  | a :: b :: c :: d :: e :: f :: g :: h :: i :: j :: k :: l :: m :: n :: o :: p :: rest =>
    stripes (lane v1 (word a b c d)) (lane v2 (word e f g h)) (lane v3 (word i j k l))
      (lane v4 (word m n o p)) rest
  | rest => ((v1, v2, v3, v4), rest)

def tail (acc : UInt32) : List UInt8 → UInt32
  | a :: b :: c :: d :: rest => tail (rotateLeft (acc + word a b c d * prime3) 17 * prime4) rest
  | a :: rest => tail (rotateLeft (acc + a.toUInt32 * prime5) 11 * prime1) rest
  | [] => acc

def mix (acc : UInt32) : UInt32 :=
  let acc := (acc ^^^ (acc >>> 15)) * prime2
  let acc := (acc ^^^ (acc >>> 13)) * prime3
  acc ^^^ (acc >>> 16)

def ofBytes (bytes : List UInt8) : UInt32 :=
  let size := bytes.length
  let ((v1, v2, v3, v4), rest) := stripes (prime1 + prime2) prime2 0 (0 - prime1) bytes
  let acc :=
    if size < 16 then prime5
    else rotateLeft v1 1 + rotateLeft v2 7 + rotateLeft v3 12 + rotateLeft v4 18
  mix (tail (acc + size.toUInt32) rest)

end RollingCapture.Lz4.Checksum
