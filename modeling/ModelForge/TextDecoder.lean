import ModelForge.StreamDecoding

set_option autoImplicit false

/-!
# A streaming text decoder

The UTF-8 decoder of the web platform, byte by byte: bytes that are in no
sequence become U+FFFD, a byte order mark at the start is dropped, and a
sequence may go on in the next chunk.
-/
namespace ModelForge.TextDecoder

/-- The sequence that is being read: its code point so far, how many bytes it
takes and has, and the bounds of its next byte. -/
structure Decoder where
  codePoint : ℕ
  bytesNeeded : ℕ
  bytesSeen : ℕ
  lower : ℕ
  upper : ℕ
  bomSeen : Bool
  deriving DecidableEq

def replacement : Char := '\uFFFD'

namespace Decoder

def start : Decoder := ⟨0, 0, 0, 0x80, 0xBF, false⟩

def reset (d : Decoder) : Decoder := ⟨0, 0, 0, 0x80, 0xBF, d.bomSeen⟩

def lead (d : Decoder) (b : ℕ) : Decoder × List Char :=
  if b < 0x80 then (d, [Char.ofNat b])
  else if 0xC2 ≤ b ∧ b ≤ 0xDF then ({ d with bytesNeeded := 1, codePoint := b % 0x20 }, [])
  else if 0xE0 ≤ b ∧ b ≤ 0xEF then
    ({ d with
      lower := if b = 0xE0 then 0xA0 else d.lower
      upper := if b = 0xED then 0x9F else d.upper
      bytesNeeded := 2
      codePoint := b % 0x10 }, [])
  else if 0xF0 ≤ b ∧ b ≤ 0xF4 then
    ({ d with
      lower := if b = 0xF0 then 0x90 else d.lower
      upper := if b = 0xF4 then 0x8F else d.upper
      bytesNeeded := 3
      codePoint := b % 0x08 }, [])
  else (d, [replacement])

def continuation (d : Decoder) (b : ℕ) : Decoder × List Char :=
  if d.lower ≤ b ∧ b ≤ d.upper then
    let codePoint := d.codePoint * 0x40 + b % 0x40
    if d.bytesSeen + 1 = d.bytesNeeded then (d.reset, [Char.ofNat codePoint])
    else ({ d with lower := 0x80, upper := 0xBF, bytesSeen := d.bytesSeen + 1, codePoint := codePoint }, [])
  else
    let (d, text) := lead d.reset b
    (d, replacement :: text)

/-- The first character is not given out where it is the byte order mark. -/
def emit : Decoder × List Char → Decoder × List Char
  | (d, []) => (d, [])
  | (d, c :: rest) =>
    ({ d with bomSeen := true }, if !d.bomSeen && c = '\uFEFF' then rest else c :: rest)

def byte (d : Decoder) (b : UInt8) : Decoder × List Char :=
  emit (if d.bytesNeeded = 0 then d.lead b.toNat else d.continuation b.toNat)

/-- `decoder.decode(bytes, { stream: true })` -/
def decode (d : Decoder) : List UInt8 → Decoder × List Char
  | [] => (d, [])
  | b :: bytes =>
    let (d, text) := d.byte b
    let (d, more) := decode d bytes
    (d, text ++ more)

/-- What the end of the stream makes of a sequence that is not complete. -/
def flush (d : Decoder) : List Char := if d.bytesNeeded = 0 then [] else [replacement]

def decodeChunks : Decoder → List (List UInt8) → List (List Char)
  | _, [] => []
  | d, bytes :: chunks =>
    let (d, text) := d.decode bytes
    text :: decodeChunks d chunks

theorem decode_append (d : Decoder) (bytes more : List UInt8) :
    d.decode (bytes ++ more) =
      (((d.decode bytes).1.decode more).1, (d.decode bytes).2 ++ ((d.decode bytes).1.decode more).2) := by
  induction bytes generalizing d with
  | nil => rfl
  | cons b bytes ih =>
    simp only [List.cons_append, decode, ih, List.append_assoc]

/-- However the bytes are cut, the same text is read. -/
theorem decodeChunks_flatten (d : Decoder) (chunks : List (List UInt8)) :
    (d.decodeChunks chunks).flatten = (d.decode chunks.flatten).2 := by
  induction chunks generalizing d with
  | nil => rfl
  | cons bytes chunks ih =>
    simp only [decodeChunks, List.flatten_cons, decode_append, ih]

theorem flush_cases (d : Decoder) : d.flush = [] ∨ d.flush = [replacement] := by
  unfold flush
  split
  · exact .inl rfl
  · exact .inr rfl

end Decoder

-- an incomplete sequence, a byte that starts none, and the three bytes of the euro sign
example : (Decoder.start.decode [0xC3, 0x41, 0xFF, 0xE2, 0x82, 0xAC]).2 = ['\uFFFD', 'A', '\uFFFD', '€'] := by
  decide +kernel

end ModelForge.TextDecoder
