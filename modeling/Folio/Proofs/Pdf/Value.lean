import Folio.Pdf.Object

/-! # Values

What a reader of a file finds in its bytes. White space and comments separate words, a word is a
maximal run of regular bytes, and everything else begins with a byte that tells what it is. A
whole number may turn out to be the first part of a reference, which takes a look at the two
words behind it.
-/

namespace Folio.Pdf

inductive Value where
  | null
  | bool (b : Bool)
  | int (n : Int)
  /-- The number `digits / 10 ^ places`, with its sign. -/
  | real (negative : Bool) (digits places : Nat)
  | name (n : Bytes)
  | string (s : Bytes)
  | array (items : List Value)
  | dict (entries : List (Bytes × Value))
  | ref (id : ObjectId)

instance : Inhabited Value := ⟨.null⟩

def isSpace (b : UInt8) : Bool := [0, 9, 10, 12, 13, 32].contains b

def isDelimiter (b : UInt8) : Bool := (ascii "()<>[]{}/%").contains b

def isRegular (b : UInt8) : Bool := !isSpace b && !isDelimiter b

def charOf (b : UInt8) : Char := Char.ofNat b.toNat

def isDigit (b : UInt8) : Bool := (charOf b).isDigit

mutual

def skip : Bytes → Bytes
  | [] => []
  | b :: rest =>
    if isSpace b then skip rest
    else if b = byteOf '%' then skipComment rest
    else b :: rest

def skipComment : Bytes → Bytes
  | [] => []
  | b :: rest => if b = byteOf '\n' ∨ b = byteOf '\r' then skip rest else skipComment rest

end

def word (bytes : Bytes) : Bytes × Bytes :=
  ((skip bytes).takeWhile isRegular, (skip bytes).dropWhile isRegular)

def spelled (digits : Bytes) : Nat := Nat.ofDigitChars 10 (digits.map charOf) 0

def natural? (word : Bytes) : Option Nat :=
  if word ≠ [] ∧ word.all isDigit then some (spelled word) else none

def unsigned : Bytes → Bool × Bytes
  | [] => (false, [])
  | b :: rest =>
    if b = byteOf '-' then (true, rest)
    else if b = byteOf '+' then (false, rest)
    else (false, b :: rest)

def number? (word : Bytes) : Option Value :=
  let (negative, digits) := unsigned word
  let whole := digits.takeWhile isDigit
  match digits.dropWhile isDigit with
  | [] => (natural? whole).map fun (n : Nat) => .int (if negative then -n else n)
  | point :: fraction =>
    if point = byteOf '.' then
      (natural? (whole ++ fraction)).map fun n => .real negative n fraction.length
    else none

def generation? (bytes : Bytes) : Option (Nat × Bytes) :=
  let (digits, bytes) := word bytes
  let (mark, rest) := word bytes
  match natural? digits with
  | some generation => if mark = ascii "R" then some (generation, rest) else none
  | none => none

def wordValue? (w : Bytes) : Option Value :=
  if w = ascii "null" then some .null
  else if w = ascii "true" then some (.bool true)
  else if w = ascii "false" then some (.bool false)
  else number? w

def atom? (bytes : Bytes) : Option (Value × Bytes) :=
  let (w, rest) := word bytes
  match natural? w with
  | some n =>
    match generation? rest with
    | some (generation, rest) => some (.ref ⟨n, generation⟩, rest)
    | none => some (.int n, rest)
  | none => (wordValue? w).map (·, rest)

def hexValue? (b : UInt8) : Option Nat :=
  let c := charOf b
  if '0' ≤ c ∧ c ≤ '9' then some (c.toNat - 48)
  else if 'A' ≤ c ∧ c ≤ 'F' then some (c.toNat - 55)
  else if 'a' ≤ c ∧ c ≤ 'f' then some (c.toNat - 87)
  else none

/-- The bytes of a name behind its solidus: two digits behind a number sign stand for one byte. -/
def unescape : Bytes → Bytes
  | b :: high :: low :: rest =>
    if b = byteOf '#' then
      match hexValue? high, hexValue? low with
      | some h, some l => UInt8.ofNat (16 * h + l) :: unescape rest
      | _, _ => b :: unescape (high :: low :: rest)
    else b :: unescape (high :: low :: rest)
  | rest => rest

def nameFrom (bytes : Bytes) : Bytes × Bytes :=
  (unescape (bytes.takeWhile isRegular), bytes.dropWhile isRegular)

/-- Pairs of hexadecimal digits; a digit without a partner is followed by zero. -/
def hexBytes? : Bytes → Option Bytes
  | [] => some []
  | [high] => do return [UInt8.ofNat (16 * (← hexValue? high))]
  | high :: low :: rest => do
    return UInt8.ofNat (16 * (← hexValue? high) + (← hexValue? low)) :: (← hexBytes? rest)

def hexString? (bytes : Bytes) : Option (Bytes × Bytes) :=
  match bytes.dropWhile (· != byteOf '>') with
  | [] => none
  | _ :: rest =>
    (hexBytes? ((bytes.takeWhile (· != byteOf '>')).filter (!isSpace ·))).map (·, rest)

/-- What the last bytes of a string between parentheses leave open. -/
inductive Pending where
  | nothing
  | escape
  /-- Octal digits that spell a value, to which up to `more` belong. -/
  | octal (more value : Nat)
  /-- A carriage return, to which a line feed belongs. -/
  | lineEnd
  deriving Repr, DecidableEq

def escaped (b : UInt8) : UInt8 :=
  if b = byteOf 'n' then 10
  else if b = byteOf 'r' then 13
  else if b = byteOf 't' then 9
  else if b = byteOf 'b' then 8
  else if b = byteOf 'f' then 12
  else b

def isOctal (b : UInt8) : Bool := byteOf '0' ≤ b && b ≤ byteOf '7'

/-- A byte of a string with nothing open before it: the bytes it adds, and how the string goes on,
if it does. `depth` counts the open parentheses in the string. -/
def plainByte (depth : Nat) (b : UInt8) : Bytes × Option (Nat × Pending) :=
  if b = byteOf '\\' then ([], some (depth, .escape))
  else if b = byteOf '(' then ([b], some (depth + 1, .nothing))
  else if b = byteOf ')' then
    if depth = 0 then ([], none) else ([b], some (depth - 1, .nothing))
  else if b = byteOf '\r' then ([byteOf '\n'], some (depth, .lineEnd))
  else ([b], some (depth, .nothing))

/-- A byte of a string. Any end of a line is read as a line feed, and behind a backslash as
nothing. -/
def stringByte (depth : Nat) (pending : Pending) (b : UInt8) :
    Bytes × Option (Nat × Pending) :=
  match pending with
  | .nothing => plainByte depth b
  | .escape =>
    if isOctal b then ([], some (depth, .octal 2 (b.toNat - 48)))
    else if b = byteOf '\r' then ([], some (depth, .lineEnd))
    else if b = byteOf '\n' then ([], some (depth, .nothing))
    else ([escaped b], some (depth, .nothing))
  | .octal more value =>
    if isOctal b ∧ 0 < more then ([], some (depth, .octal (more - 1) (8 * value + (b.toNat - 48))))
    else (UInt8.ofNat value :: (plainByte depth b).1, (plainByte depth b).2)
  | .lineEnd => if b = byteOf '\n' then ([], some (depth, .nothing)) else plainByte depth b

def literal? (depth : Nat) (pending : Pending) : Bytes → Option (Bytes × Bytes)
  | [] => none
  | b :: rest =>
    match stringByte depth pending b with
    | (out, none) => some (out, rest)
    | (out, some (depth, pending)) =>
      (literal? depth pending rest).map fun (s, rest) => (out ++ s, rest)

mutual

/-- A value. The number bounds how deep its brackets and how long their contents may be. -/
def value? : Nat → Bytes → Option (Value × Bytes)
  | 0, _ => none
  | bound + 1, bytes =>
    match skip bytes with
    | [] => none
    | b :: rest =>
      if b = byteOf '/' then some (.name (nameFrom rest).1, (nameFrom rest).2)
      else if b = byteOf '(' then (literal? 0 .nothing rest).map fun (s, rest) => (.string s, rest)
      else if b = byteOf '[' then (items? bound rest).map fun (vs, rest) => (.array vs, rest)
      else if b = byteOf '<' then
        if rest.head? = some (byteOf '<') then
          (entries? bound rest.tail).map fun (es, rest) => (.dict es, rest)
        else (hexString? rest).map fun (s, rest) => (.string s, rest)
      else atom? (b :: rest)

def items? : Nat → Bytes → Option (List Value × Bytes)
  | 0, _ => none
  | bound + 1, bytes =>
    match skip bytes with
    | [] => none
    | b :: rest =>
      if b = byteOf ']' then some ([], rest)
      else do
        let (v, rest) ← value? bound (b :: rest)
        let (vs, rest) ← items? bound rest
        return (v :: vs, rest)

def entries? : Nat → Bytes → Option (List (Bytes × Value) × Bytes)
  | 0, _ => none
  | bound + 1, bytes =>
    match skip bytes with
    | [] => none
    | b :: rest =>
      if b = byteOf '>' then
        if rest.head? = some (byteOf '>') then some ([], rest.tail) else none
      else if b = byteOf '/' then do
        let (v, behind) ← value? bound (nameFrom rest).2
        let (es, behind) ← entries? bound behind
        return (((nameFrom rest).1, v) :: es, behind)
      else none

end

/-- Reads a value. Every bracket takes a byte, so the bytes bound the depth. -/
def Value.read (bytes : Bytes) : Option (Value × Bytes) := value? bytes.length bytes

end Folio.Pdf
