import Scriptlet.Text.Utf8

set_option autoImplicit false

/-!
# Digests

A *digest* makes twenty bytes of every message.  Hashes key strings by the sum of these bytes and
ask no more of it, so which digest it is belongs to what a program runs with (`Setup.digest`), and
what is proved of hashes is proved for every one.

The usual one is SHA-1: the five words that 80 rounds over every block of sixteen words leave.  The
message is padded with one set bit, zeros, and its length in bits, to whole blocks.
-/

namespace Scriptlet

/-- What makes twenty bytes of every message. -/
structure Digest where
  /-- the bytes made of a message -/
  bytes : List UInt8 → List UInt8
  length_bytes : ∀ message, (bytes message).length = 20

namespace Sha1

/-- The five words that are carried from block to block. -/
structure State where
  a : UInt32
  b : UInt32
  c : UInt32
  d : UInt32
  e : UInt32
  deriving DecidableEq, Repr, Inhabited

/-- The words before the first block. -/
def State.initial : State := ⟨0x67452301, 0xEFCDAB89, 0x98BADCFE, 0x10325476, 0xC3D2E1F0⟩

/-- The sum of two states, word by word. -/
def State.add (s t : State) : State := ⟨s.a + t.a, s.b + t.b, s.c + t.c, s.d + t.d, s.e + t.e⟩

/-- A word with its bits moved round to the left. -/
def rotate (distance : UInt32) (word : UInt32) : UInt32 :=
  (word <<< distance) ||| (word >>> (32 - distance))

/-- How a round mixes three of the words, with the constant it adds. -/
def mix (round : Nat) (s : State) : UInt32 :=
  if round < 20 then ((s.b &&& s.c) ||| ((~~~ s.b) &&& s.d)) + 0x5A827999
  else if round < 40 then (s.b ^^^ s.c ^^^ s.d) + 0x6ED9EBA1
  else if round < 60 then ((s.b &&& s.c) ||| (s.b &&& s.d) ||| (s.c &&& s.d)) + 0x8F1BBCDC
  else (s.b ^^^ s.c ^^^ s.d) + 0xCA62C1D6

/-- One round, with the word of the schedule that it takes in. -/
def step (round : Nat) (word : UInt32) (s : State) : State :=
  ⟨rotate 5 s.a + mix round s + s.e + word, s.a, rotate 30 s.b, s.c, s.d⟩

/-- The word of the schedule that follows sixteen others. -/
def scheduled (window : List UInt32) : UInt32 :=
  rotate 1 (window.getD 13 0 ^^^ window.getD 8 0 ^^^ window.getD 2 0 ^^^ window.getD 0 0)

/-- The last `remaining` of the 80 rounds; `window` holds the sixteen next words of the schedule. -/
def rounds : Nat → List UInt32 → State → State
  | 0, _, s => s
  | remaining + 1, window, s =>
    rounds remaining (window.tail ++ [scheduled window]) (step (79 - remaining) (window.headD 0) s)

/-- The state behind a block of sixteen words. -/
def compress (s : State) (block : List UInt32) : State := s.add (rounds 80 block s)

/-- Some bytes as words of four bytes, the highest first. -/
def words : List UInt8 → List UInt32
  | a :: b :: c :: d :: rest =>
    ((a.toUInt32 <<< 24) ||| (b.toUInt32 <<< 16) ||| (c.toUInt32 <<< 8) ||| d.toUInt32) ::
      words rest
  | _ => []

/-- The bytes of a word, the highest first. -/
def wordBytes (word : UInt32) : List UInt8 :=
  [(word >>> 24).toUInt8, (word >>> 16).toUInt8, (word >>> 8).toUInt8, word.toUInt8]

/-- The message filled up to whole blocks of 64 bytes. -/
def pad (message : List UInt8) : List UInt8 :=
  let bits := 8 * message.length
  message ++ 0x80 :: List.replicate ((119 - message.length % 64) % 64) 0 ++
    wordBytes (UInt32.ofNat (bits / 0x100000000)) ++ wordBytes (UInt32.ofNat bits)

/-- The state behind a number of blocks. -/
def compressBlocks : Nat → List UInt32 → State → State
  | 0, _, s => s
  | n + 1, blocks, s => compressBlocks n (blocks.drop 16) (compress s (blocks.take 16))

/-- The bytes made of a message. -/
def bytes (message : List UInt8) : List UInt8 :=
  let blocks := words (pad message)
  let s := compressBlocks (blocks.length / 16) blocks .initial
  wordBytes s.a ++ wordBytes s.b ++ wordBytes s.c ++ wordBytes s.d ++ wordBytes s.e

end Sha1

/-- SHA-1. -/
def Digest.sha1 : Digest := ⟨Sha1.bytes, fun _ => rfl⟩

end Scriptlet
