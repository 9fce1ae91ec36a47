import CallSchema.Text.Hex

set_option autoImplicit false

namespace CallSchema.Json

def escapeChar (c : Char) : Text :=
  if c = '"' then ['\\', '"']
  else if c = '\\' then ['\\', '\\']
  else if c = '\x08' then ['\\', 'b']
  else if c = '\x0c' then ['\\', 'f']
  else if c = '\n' then ['\\', 'n']
  else if c = '\r' then ['\\', 'r']
  else if c = '\t' then ['\\', 't']
  else if c.toNat < 0x20 then
    ['\\', 'u', '0', '0', Text.hexDigit (c.toNat / 16), Text.hexDigit (c.toNat % 16)]
  else [c]

def escape (t : Text) : Text := t.flatMap escapeChar

def shortEscape? (c : Char) : Option Char :=
  [('"', '"'), ('\\', '\\'), ('/', '/'), ('b', '\x08'), ('f', '\x0c'), ('n', '\n'), ('r', '\r'),
    ('t', '\t')].lookup c

def isHighSurrogate (n : Nat) : Bool := 0xd800 ≤ n && n < 0xdc00

def isLowSurrogate (n : Nat) : Bool := 0xdc00 ≤ n && n < 0xe000

def joinSurrogates (high low : Nat) : Nat := 0x10000 + (high - 0xd800) * 0x400 + (low - 0xdc00)

def unescape? : Text → Option Text
  | [] => some []
  | '\\' :: 'u' :: a :: b :: c :: d :: '\\' :: 'u' :: e :: f :: g :: h :: t => do
    let first ← Text.hexNumber? [a, b, c, d]
    if isHighSurrogate first then
      let second ← Text.hexNumber? [e, f, g, h]
      guard (isLowSurrogate second)
      return Char.ofNat (joinSurrogates first second) :: (← unescape? t)
    else
      guard (!isLowSurrogate first)
      return Char.ofNat first :: (← unescape? ('\\' :: 'u' :: e :: f :: g :: h :: t))
  | '\\' :: 'u' :: a :: b :: c :: d :: t => do
    let n ← Text.hexNumber? [a, b, c, d]
    guard (!isHighSurrogate n && !isLowSurrogate n)
    return Char.ofNat n :: (← unescape? t)
  | '\\' :: c :: t => do return (← shortEscape? c) :: (← unescape? t)
  | c :: t => if c = '\\' then none else (unescape? t).map (c :: ·)

end CallSchema.Json
