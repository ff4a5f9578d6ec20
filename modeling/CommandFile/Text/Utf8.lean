import CommandFile.Text.Literal
set_option autoImplicit false

/-!
UTF-8: writing characters as octets, and reading octets one at a time with an exact report of what
is wrong. A text with a sequence that no continuation can repair is refused as a whole. A text that
merely ends too early keeps the characters before the unfinished one, and so does a text that ends
after two octets of a surrogate, because these are taken for unfinished as long as more may come.
-/
namespace CommandFile.Text.Utf8

def encodeChar (c : Char) : List UInt8 :=
  let n := c.toNat
  if n < 0x80 then [.ofNat n]
  else if n < 0x800 then [.ofNat (0xC0 + n / 64), .ofNat (0x80 + n % 64)]
  else if n < 0x10000 then
    [.ofNat (0xE0 + n / 4096), .ofNat (0x80 + n / 64 % 64), .ofNat (0x80 + n % 64)]
  else
    [.ofNat (0xF0 + n / 262144), .ofNat (0x80 + n / 4096 % 64), .ofNat (0x80 + n / 64 % 64),
      .ofNat (0x80 + n % 64)]

def encode (cs : List Char) : List UInt8 := cs.flatMap encodeChar

@[simp] theorem encode_nil : encode [] = [] := rfl

@[simp] theorem encode_cons (c : Char) (cs : List Char) :
    encode (c :: cs) = encodeChar c ++ encode cs := rfl

theorem encode_append (as bs : List Char) : encode (as ++ bs) = encode as ++ encode bs := by
  simp [encode]

inductive Reason where
  | startOctet
  | continuation
  | truncated
  deriving DecidableEq

def Reason.text : Reason → String
  | .startOctet => "invalid start byte"
  | .continuation => "invalid continuation byte"
  | .truncated => "unexpected end of data"

/-- Octets that encode no character: the longest beginning of an encoding that they make up, or the
one octet that begins none. -/
structure Fault where
  reason : Reason
  position : Nat
  octets : List UInt8
  deriving DecidableEq

def Fault.place (f : Fault) : String :=
  match f.octets with
  | [octet] =>
    "byte 0x" ++ String.ofList (hexDigits 2 octet.toNat) ++ " in position " ++ toString f.position
  | octets =>
    "bytes in position " ++ toString f.position ++ "-" ++ toString (f.position + octets.length - 1)

def Fault.message (f : Fault) : String :=
  "'utf-8' codec can't decode " ++ f.place ++ ": " ++ f.reason.text

/-- A character of which at least one octet is still to come: the next one from `lower` to `upper`,
then `owed` more. The octets read are newest first and have contributed `value`. -/
structure Begun where
  value : Nat
  lower : Nat
  upper : Nat
  owed : Nat
  octets : List UInt8

/-- What the first octet of a longer encoding announces. The ranges leave out the encodings that
are longer than needed, the surrogates, and what lies beyond the last code point. -/
def begin? (octet : UInt8) : Option Begun :=
  let n := octet.toNat
  if n < 0xC2 then none
  else if n < 0xE0 then some ⟨n - 0xC0, 0x80, 0xBF, 0, [octet]⟩
  else if n < 0xF0 then
    some ⟨n - 0xE0, if n = 0xE0 then 0xA0 else 0x80, if n = 0xED then 0x9F else 0xBF, 1, [octet]⟩
  else if n < 0xF5 then
    some ⟨n - 0xF0, if n = 0xF0 then 0x90 else 0x80, if n = 0xF4 then 0x8F else 0xBF, 2, [octet]⟩
  else none

def Begun.isSurrogate (b : Begun) (octet : UInt8) : Bool :=
  b.octets == [0xED] && 0xA0 ≤ octet.toNat && octet.toNat ≤ 0xBF

structure Decoded where
  text : List Char
  tailFault : Option Fault

/-- Reads on from `position`, with the characters before it newest first. The position of a fault at
the end counts from the octets left over. -/
def decodeFrom (position : Nat) (text : List Char) :
    Option Begun → List UInt8 → Except Fault Decoded
  | none, [] => .ok ⟨text.reverse, none⟩
  | some b, [] => .ok ⟨text.reverse, some ⟨.truncated, 0, b.octets.reverse⟩⟩
  | none, octet :: rest =>
    if octet.toNat < 0x80 then
      decodeFrom (position + 1) (Char.ofNat octet.toNat :: text) none rest
    else match begin? octet with
      | some b => decodeFrom (position + 1) text (some b) rest
      | none => .error ⟨.startOctet, position, [octet]⟩
  | some b, octet :: rest =>
    if b.lower ≤ octet.toNat ∧ octet.toNat ≤ b.upper then
      let value := b.value * 64 + (octet.toNat - 0x80)
      match b.owed with
      | 0 => decodeFrom (position + 1) (Char.ofNat value :: text) none rest
      | owed + 1 =>
        decodeFrom (position + 1) text (some ⟨value, 0x80, 0xBF, owed, octet :: b.octets⟩) rest
    else if rest.isEmpty && b.isSurrogate octet then
      .ok ⟨text.reverse, some ⟨.continuation, 0, b.octets.reverse⟩⟩
    else .error ⟨.continuation, position - b.octets.length, b.octets.reverse⟩

def decode (octets : List UInt8) : Except Fault Decoded := decodeFrom 0 [] none octets

end CommandFile.Text.Utf8
