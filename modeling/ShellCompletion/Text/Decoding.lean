import ShellCompletion.Text.Digit

/-! Text decoded from bytes in the transformation formats of eight, sixteen and thirty-two
bits, and encoded as the bytes of a file or of an output stream. A failure to decode tells which
bytes are at fault and why. -/
namespace ShellCompletion.Text

/-- A transformation format; those of more than one byte have an order of bytes. -/
inductive Encoding where
  | utf8
  | utf16 (bigEndian : Bool)
  | utf32 (bigEndian : Bool)
deriving DecidableEq, Repr

/-- Why bytes are not text. -/
inductive DecodeFault where
  | badStart
  | badContinuation
  | endOfData
  | truncated
  | loneSurrogate
  | badSurrogate
  | surrogate
  | outOfRange
deriving DecidableEq, Repr

/-- A failure: the encoding, the fault, the place of the first byte at fault, that byte,
and how many bytes are at fault. -/
structure DecodeError where
  encoding : Encoding
  fault : DecodeFault
  start : Nat
  byte : UInt8
  size : Nat
deriving DecidableEq, Repr

def Encoding.name : Encoding → String
  | utf8 => "utf-8"
  | utf16 big => if big then "utf-16-be" else "utf-16-le"
  | utf32 big => if big then "utf-32-be" else "utf-32-le"

def DecodeFault.message : DecodeFault → String
  | badStart => "invalid start byte"
  | badContinuation => "invalid continuation byte"
  | endOfData => "unexpected end of data"
  | truncated => "truncated data"
  | loneSurrogate => "illegal encoding"
  | badSurrogate => "illegal UTF-16 surrogate"
  | surrogate => "code point in surrogate code point range"
  | outOfRange => "code point not in range(0x110000)"

def DecodeError.message (e : DecodeError) : String :=
  let place :=
    if e.size = 1 then "byte 0x" ++ String.ofList (hex 2 e.byte.toNat) ++ s!" in position {e.start}"
    else s!"bytes in position {e.start}-{e.start + e.size - 1}"
  "'" ++ e.encoding.name ++ "' codec can't decode " ++ place ++ ": " ++ e.fault.message

/-- What stands at the front of some bytes: a character or a fault, and how many bytes. -/
inductive Front where
  | char (c : Char) (size : Nat)
  | fault (f : DecodeFault) (size : Nat)
deriving DecidableEq, Repr

/-- How many bytes follow a first byte, and the range of the one that comes next. -/
def utf8Lead (b : Nat) : Option (Nat × Nat × Nat) :=
  if b < 0x80 then some (0, 0, 0)
  else if b < 0xC2 then none
  else if b < 0xE0 then some (1, 0x80, 0xBF)
  else if b = 0xE0 then some (2, 0xA0, 0xBF)
  else if b = 0xED then some (2, 0x80, 0x9F)
  else if b < 0xF0 then some (2, 0x80, 0xBF)
  else if b = 0xF0 then some (3, 0x90, 0xBF)
  else if b < 0xF4 then some (3, 0x80, 0xBF)
  else if b = 0xF4 then some (3, 0x80, 0x8F)
  else none

/-- The bytes that continue a character, `count` of them still missing after `size`. -/
def utf8Tail (count low high code size : Nat) (rest : List UInt8) : Front :=
  match count, rest with
  | 0, _ => .char (Char.ofNat code) size
  | _ + 1, [] => .fault .endOfData size
  | n + 1, b :: rest =>
    let b := b.toNat
    if low ≤ b && b ≤ high then utf8Tail n 0x80 0xBF (code * 64 + b % 64) (size + 1) rest
    else .fault .badContinuation size

def utf8Front (b : UInt8) (rest : List UInt8) : Front :=
  let n := b.toNat
  match utf8Lead n with
  | none => .fault .badStart 1
  | some (0, _, _) => .char (Char.ofNat n) 1
  | some (k, low, high) => utf8Tail k low high (n % Nat.pow 2 (6 - k)) 1 rest

def pair (big : Bool) (a b : UInt8) : Nat :=
  if big then a.toNat * 256 + b.toNat else b.toNat * 256 + a.toNat

def utf16Front (big : Bool) (a : UInt8) (rest : List UInt8) : Front :=
  match rest with
  | [] => .fault .truncated 1
  | b :: rest =>
    let n := pair big a b
    if n < 0xD800 || 0xDFFF < n then .char (Char.ofNat n) 2
    else if 0xDC00 ≤ n then .fault .loneSurrogate 2
    else match rest with
      | c :: d :: _ =>
        let m := pair big c d
        if m < 0xDC00 || 0xDFFF < m then .fault .badSurrogate 2
        else .char (Char.ofNat (0x10000 + (n - 0xD800) * 0x400 + (m - 0xDC00))) 4
      | rest => .fault .endOfData (2 + rest.length)

def utf32Front (big : Bool) (a : UInt8) (rest : List UInt8) : Front :=
  match rest with
  | b :: c :: d :: _ =>
    let n := if big then pair big a b * 65536 + pair big c d else pair big c d * 65536 + pair big a b
    if 0x110000 ≤ n then .fault .outOfRange 4
    else if 0xD800 ≤ n && n ≤ 0xDFFF then .fault .surrogate 4
    else .char (Char.ofNat n) 4
  | rest => .fault .truncated (1 + rest.length)

def Encoding.front : Encoding → UInt8 → List UInt8 → Front
  | utf8 => utf8Front
  | utf16 big => utf16Front big
  | utf32 big => utf32Front big

/-- Decode from a place on; each round takes at least one byte. -/
def decodeFrom (e : Encoding) : Nat → Nat → List UInt8 → List Char → Except DecodeError (List Char)
  | 0, _, _, done => .ok done.reverse
  | _, _, [], done => .ok done.reverse
  | fuel + 1, start, b :: rest, done =>
    match e.front b rest with
    | .char c size => decodeFrom e fuel (start + size) (rest.drop (size - 1)) (c :: done)
    | .fault f size => .error ⟨e, f, start, b, size⟩

/-- The text that bytes stand for, from a place on that counts from `start`. -/
def decode (e : Encoding) (start : Nat) (bytes : List UInt8) : Except DecodeError (List Char) :=
  decodeFrom e bytes.length start bytes []

/-- The bytes of a text. -/
def encodeUtf8 (s : String) : List UInt8 := s.toUTF8.toList

/-- The encoding of an output stream. -/
inductive Charset where
  | utf8
  /-- The characters of a table have their bytes; a text with any other character is refused. -/
  | table (codes : List (Char × List UInt8))
deriving DecidableEq, Repr

/-- The bytes of a text in an encoding that has all of its characters. -/
def Charset.encode : Charset → String → Option (List UInt8)
  | utf8, s => some (encodeUtf8 s)
  | table codes, s => (s.toList.mapM fun c => codes.lookup c).map (·.flatten)

end ShellCompletion.Text
