import Upipe.Common.Python

/-!
# MD5

The digest of a byte string as `hashlib.md5(..).hexdigest()` returns it: the message is padded to blocks
of 64 bytes, each block is mixed into a state of four words in 64 operations, and the digest is the last
state in little-endian order.
-/

namespace Upipe.Common

/-- The state between two operations, four words below `2^32`. -/
structure Md5State where
  a : ℕ
  b : ℕ
  c : ℕ
  d : ℕ

namespace Md5

/-- The integer parts of `2^32 * |sin(i)|`. -/
def sines : List ℕ :=
  [0xd76aa478, 0xe8c7b756, 0x242070db, 0xc1bdceee, 0xf57c0faf, 0x4787c62a, 0xa8304613, 0xfd469501,
    0x698098d8, 0x8b44f7af, 0xffff5bb1, 0x895cd7be, 0x6b901122, 0xfd987193, 0xa679438e, 0x49b40821,
    0xf61e2562, 0xc040b340, 0x265e5a51, 0xe9b6c7aa, 0xd62f105d, 0x02441453, 0xd8a1e681, 0xe7d3fbc8,
    0x21e1cde6, 0xc33707d6, 0xf4d50d87, 0x455a14ed, 0xa9e3e905, 0xfcefa3f8, 0x676f02d9, 0x8d2a4c8a,
    0xfffa3942, 0x8771f681, 0x6d9d6122, 0xfde5380c, 0xa4beea44, 0x4bdecfa9, 0xf6bb4b60, 0xbebfbc70,
    0x289b7ec6, 0xeaa127fa, 0xd4ef3085, 0x04881d05, 0xd9d4d039, 0xe6db99e5, 0x1fa27cf8, 0xc4ac5665,
    0xf4292244, 0x432aff97, 0xab9423a7, 0xfc93a039, 0x655b59c3, 0x8f0ccc92, 0xffeff47d, 0x85845dd1,
    0x6fa87e4f, 0xfe2ce6e0, 0xa3014314, 0x4e0811a1, 0xf7537e82, 0xbd3af235, 0x2ad7d2bb, 0xeb86d391]

/-- How far operation `i` rotates. -/
def shift (i : ℕ) : ℕ :=
  let row :=
    match i / 16 with
    | 0 => [7, 12, 17, 22]
    | 1 => [5, 9, 14, 20]
    | 2 => [4, 11, 16, 23]
    | _ => [6, 10, 15, 21]
  row.getD (i % 4) 0

def rotateLeft (x s : ℕ) : ℕ := (x <<< s) % 2 ^ 32 ||| x >>> (32 - s)

/-- The bits of a word that are not set. -/
def complement (x : ℕ) : ℕ := 0xffffffff ^^^ x

/-- The function of operation `i`, and the word of the block that it adds. -/
def mix (s : Md5State) (i : ℕ) : ℕ × ℕ :=
  match i / 16 with
  | 0 => ((s.b &&& s.c) ||| (complement s.b &&& s.d), i)
  | 1 => ((s.d &&& s.b) ||| (complement s.d &&& s.c), (5 * i + 1) % 16)
  | 2 => (s.b ^^^ s.c ^^^ s.d, (3 * i + 5) % 16)
  | _ => (s.c ^^^ (s.b ||| complement s.d), 7 * i % 16)

/-- The word that operation `i` computes. -/
def mixed (words : List ℕ) (s : Md5State) (sine : ℕ × ℕ) : ℕ :=
  let (f, g) := mix s sine.2
  (s.b + rotateLeft ((s.a + f + sine.1 + words.getD g 0) % 2 ^ 32) (shift sine.2)) % 2 ^ 32

/-- The operations of a block. The case split has each word evaluated before the next one. -/
def operate (words : List ℕ) : List (ℕ × ℕ) → Md5State → Md5State
  | [], s => s
  | sine :: rest, s =>
      match mixed words s sine with
      | 0 => operate words rest { a := s.d, b := 0, c := s.b, d := s.c }
      | b + 1 => operate words rest { a := s.d, b := b + 1, c := s.b, d := s.c }

/-- A block as sixteen words. -/
def blockWords (block : Bytes) : List ℕ :=
  (List.range 16).map fun k => leValue ((block.drop (4 * k)).take 4)

/-- One block. -/
def compress (s : Md5State) (block : Bytes) : Md5State :=
  let r := operate (blockWords block) sines.zipIdx s
  { a := (s.a + r.a) % 2 ^ 32
    b := (s.b + r.b) % 2 ^ 32
    c := (s.c + r.c) % 2 ^ 32
    d := (s.d + r.d) % 2 ^ 32 }

/-- The message with a one bit, zeros and its length in bits behind it. -/
def pad (message : Bytes) : Bytes :=
  message ++ 0x80 :: (List.replicate ((119 - message.length % 64) % 64) 0 ++
    leBytes 8 (8 * message.length % 2 ^ 64))

def initial : Md5State where
  a := 0x67452301
  b := 0xefcdab89
  c := 0x98badcfe
  d := 0x10325476

/-- The state behind the last block. -/
def digest (message : Bytes) : Md5State :=
  (List.range ((pad message).length / 64)).foldl
    (fun s k => compress s (((pad message).drop (64 * k)).take 64)) initial

def hexByte (b : UInt8) : List Char := [(b.toNat / 16).digitChar, (b.toNat % 16).digitChar]

end Md5

/-- `hashlib.md5(message).hexdigest()`. -/
def md5 (message : Bytes) : String :=
  let s := Md5.digest message
  String.ofList ((leBytes 4 s.a ++ leBytes 4 s.b ++ leBytes 4 s.c ++ leBytes 4 s.d).flatMap Md5.hexByte)

/-- A digest has 32 digits. -/
theorem length_md5 (message : Bytes) : (md5 message).length = 32 := by
  have hbytes : ∀ bytes : Bytes, (bytes.flatMap Md5.hexByte).length = 2 * bytes.length := by
    intro bytes
    induction bytes with
    | nil => rfl
    | cons b bytes ih =>
      rw [List.flatMap_cons, List.length_append, ih, List.length_cons, Md5.hexByte]
      simp only [List.length_cons, List.length_nil]
      omega
  rw [md5, String.length_ofList, hbytes]
  simp only [List.length_append, length_leBytes]

/-- The digits are hexadecimal. -/
theorem mem_md5 {message : Bytes} {ch : Char} (h : ch ∈ (md5 message).toList) : ∃ n < 16, ch = n.digitChar := by
  rw [md5, String.toList_ofList] at h
  obtain ⟨b, -, hb⟩ := List.mem_flatMap.mp h
  have hbyte : b.toNat < 256 := b.toNat_lt
  simp only [Md5.hexByte, List.mem_cons, List.not_mem_nil, or_false] at hb
  rcases hb with rfl | rfl
  · exact ⟨_, by omega, rfl⟩
  · exact ⟨_, by omega, rfl⟩

/-- The digests of the empty message and of a short one. -/
example : md5 [] = "d41d8cd98f00b204e9800998ecf8427e" ∧
    md5 [0x61, 0x62, 0x63] = "900150983cd24fb0d6963f7d28e17f72" := by
  decide +kernel

end Upipe.Common
