import MicroEngine.Json
/-!
# Tokens of JSON texts

* `Token`: brackets, separators, words, numbers and strings.
* `Scanner`: the state of a reading that takes one character after the other.
* `tokens?`: the tokens of a text, if every character belongs to one.
* `joinUnits?`: the text of a string whose escapes may be surrogate pairs.
-/

namespace MicroEngine.Json

/-- A token of a JSON text. -/
inductive Token
  | openArray
  | closeArray
  | openObject
  | closeObject
  | comma
  | colon
  | null
  | bool (b : Bool)
  | number (n : Option Nat)
  | string (s : Option String)
  deriving DecidableEq, Repr

/-! ## Strings -/

/-- Whether a code is the first half of a surrogate pair. -/
def isHighHalf (n : Nat) : Bool := 0xD800 ≤ n && n ≤ 0xDBFF

/-- Whether a code is the second half of a surrogate pair. -/
def isLowHalf (n : Nat) : Bool := 0xDC00 ≤ n && n ≤ 0xDFFF

/-- The character that a surrogate pair stands for. -/
def joinPair (high low : Nat) : Char :=
  Char.ofNat (0x10000 + (high - 0xD800) * 0x400 + (low - 0xDC00))

/-- The characters of a list of codes, in which surrogates stand in pairs. -/
def joinUnits? : List Nat → Option (List Char)
  | [] => some []
  | n :: rest =>
    if isHighHalf n then
      match rest with
      | [] => none
      | m :: rest' =>
        if isLowHalf m then (joinUnits? rest').map (joinPair n m :: ·) else none
    else if isLowHalf n then none
    else (joinUnits? rest).map (Char.ofNat n :: ·)

def hexValue? (c : Char) : Option Nat :=
  if '0' ≤ c && c ≤ '9' then some (c.toNat - 48)
  else if 'a' ≤ c && c ≤ 'f' then some (c.toNat - 87)
  else if 'A' ≤ c && c ≤ 'F' then some (c.toNat - 55)
  else none

/-- The code that an escape of one letter stands for. -/
def escapeCode? (c : Char) : Option Nat :=
  match c with
  | '"' => some 0x22
  | '\\' => some 0x5C
  | '/' => some 0x2F
  | 'b' => some 0x08
  | 'f' => some 0x0C
  | 'n' => some 0x0A
  | 'r' => some 0x0D
  | 't' => some 0x09
  | _ => none

/-! ## Numbers -/

/-- How far a number has been read. -/
inductive NumberState
  /-- After the minus sign. -/
  | minus
  /-- After a leading zero; the flag tells whether a minus sign stands in front. -/
  | zero (negative : Bool)
  /-- Within the digits of the whole part, whose value is kept. -/
  | whole (negative : Bool) (value : Nat)
  /-- After the point. -/
  | point
  /-- Within the digits after the point. -/
  | fraction
  /-- After the exponent letter. -/
  | exponent
  /-- After the sign of the exponent. -/
  | exponentSign
  /-- Within the digits of the exponent. -/
  | exponentDigits
  deriving DecidableEq, Repr

def isDigit (c : Char) : Bool := '0' ≤ c && c ≤ '9'

def digitValue (c : Char) : Nat := c.toNat - 48

namespace NumberState

/-- The point or the exponent letter after the whole part. -/
def afterWhole? (c : Char) : Option NumberState :=
  if c = '.' then some .point
  else if c = 'e' || c = 'E' then some .exponent
  else none

/-- The state after one more character, if that belongs to the number. -/
def next? (s : NumberState) (c : Char) : Option NumberState :=
  match s with
  | minus =>
    if c = '0' then some (zero true)
    else if isDigit c then some (whole true (digitValue c))
    else none
  | zero _ => afterWhole? c
  | whole negative v =>
    if isDigit c then some (whole negative (10 * v + digitValue c)) else afterWhole? c
  | point => if isDigit c then some fraction else none
  | fraction =>
    if isDigit c then some fraction
    else if c = 'e' || c = 'E' then some exponent
    else none
  | exponent =>
    if isDigit c then some exponentDigits
    else if c = '+' || c = '-' then some exponentSign
    else none
  | exponentSign => if isDigit c then some exponentDigits else none
  | exponentDigits => if isDigit c then some exponentDigits else none

/-- The number, if it may end here. -/
def token? : NumberState → Option Token
  | zero false => some (.number (some 0))
  | whole false v => some (.number (some v))
  | zero true | whole true _ | fraction | exponentDigits => some (.number none)
  | minus | point | exponent | exponentSign => none

end NumberState

/-! ## The scanner -/

/-- What the scanner stands in. -/
inductive ScanMode
  /-- Between tokens. -/
  | between
  /-- Within a word, of which these characters are missing. -/
  | word (missing : List Char) (token : Token)
  /-- Within a number. -/
  | number (state : NumberState)
  /-- Within a string, whose codes so far are kept in reverse. -/
  | string (units : List Nat)
  /-- After a backslash in a string. -/
  | escape (units : List Nat)
  /-- Within an escape by number, of which this many digits are missing. -/
  | hex (units : List Nat) (missing : Nat) (value : Nat)
  deriving DecidableEq, Repr

/-- The state of the scanner: where it stands, and the tokens so far in reverse. -/
structure Scanner where
  mode : ScanMode
  done : List Token
  deriving DecidableEq, Repr

namespace Scanner

/-- The scanner at the beginning of a text. -/
def start : Scanner := ⟨.between, []⟩

/-- Whether a character may stand between tokens. -/
def isBlank (c : Char) : Bool := c = ' ' || c = '\n' || c = '\t' || c = '\r'

def punctuation? (c : Char) : Option Token :=
  match c with
  | '[' => some .openArray
  | ']' => some .closeArray
  | '\x7b' => some .openObject
  | '\x7d' => some .closeObject
  | ',' => some .comma
  | ':' => some .colon
  | _ => none

/-- The mode that the first character of a longer token begins. -/
def opening? (c : Char) : Option ScanMode :=
  match c with
  | '"' => some (.string [])
  | 'n' => some (.word ['u', 'l', 'l'] .null)
  | 't' => some (.word ['r', 'u', 'e'] (.bool true))
  | 'f' => some (.word ['a', 'l', 's', 'e'] (.bool false))
  | '-' => some (.number .minus)
  | '0' => some (.number (.zero false))
  | _ => if isDigit c then some (.number (.whole false (digitValue c))) else none

def stepBetween (done : List Token) (c : Char) : Option Scanner :=
  if isBlank c then some ⟨.between, done⟩
  else
    match punctuation? c with
    | some t => some ⟨.between, t :: done⟩
    | none => (opening? c).map fun mode => ⟨mode, done⟩

/-- One character within a string. Control characters have to be escaped. -/
def stepString (units : List Nat) (done : List Token) (c : Char) : Option Scanner :=
  if c = '"' then
    let text := (joinUnits? units.reverse).map String.ofList
    some ⟨.between, .string text :: done⟩
  else if c = '\\' then some ⟨.escape units, done⟩
  else if c.toNat < 0x20 then none
  else some ⟨.string (c.toNat :: units), done⟩

def stepEscape (units : List Nat) (done : List Token) (c : Char) : Option Scanner :=
  if c = 'u' then some ⟨.hex units 4 0, done⟩
  else (escapeCode? c).map fun n => ⟨.string (n :: units), done⟩

/-- One digit of an escape by number. -/
def stepHex (units : List Nat) (missing value : Nat) (done : List Token) (c : Char) :
    Option Scanner :=
  (hexValue? c).map fun d =>
    let value := 16 * value + d
    if missing ≤ 1 then ⟨.string (value :: units), done⟩ else ⟨.hex units (missing - 1) value, done⟩

/-- One character. A number ends at the first character that does not belong to it. -/
def step (s : Scanner) (c : Char) : Option Scanner :=
  match s.mode with
  | .between => stepBetween s.done c
  | .word [] _ => none
  | .word [d] t => if c = d then some ⟨.between, t :: s.done⟩ else none
  | .word (d :: ds) t => if c = d then some ⟨.word ds t, s.done⟩ else none
  | .number n =>
    match n.next? c with
    | some n' => some ⟨.number n', s.done⟩
    | none => n.token?.bind fun t => stepBetween (t :: s.done) c
  | .string units => stepString units s.done c
  | .escape units => stepEscape units s.done c
  | .hex units missing value => stepHex units missing value s.done c

/-- The tokens at the end of the text, if it may end here. -/
def finish? (s : Scanner) : Option (List Token) :=
  match s.mode with
  | .between => some s.done.reverse
  | .number n => n.token?.map fun t => (t :: s.done).reverse
  | _ => none

end Scanner

def tokens? (cs : List Char) : Option (List Token) :=
  (cs.foldlM Scanner.step Scanner.start).bind Scanner.finish?

end MicroEngine.Json
