import Keyfile.Json.Number

/-!
# Reading JSON text

`read` takes a whole text: one value with nothing but white space around it. Arrays and objects may
be nested 127 deep. Reading stops at the first fault. The functions below read from the start of a
text and return what they leave; their fuel is never used up when it exceeds the length of the
text.
-/
namespace Keyfile.Json

/-- White space between tokens: space, tab, line feed and carriage return. -/
def isSpace (c : Char) : Bool := c = ' ' || c = '\t' || c = '\n' || c = '\r'

def skipSpace (s : List Char) : List Char := s.dropWhile isSpace

/-- The rest of a text that goes on with this word. -/
def expect : (word s : List Char) → Except Fault (List Char)
  | [], s => .ok s
  | _ :: _, [] => .error (.here .endInValue [])
  | w :: ws, c :: s => if c = w then expect ws s else .error (.next .expectedIdent (c :: s))

def hexValue? (c : Char) : Option Nat :=
  if '0' ≤ c ∧ c ≤ '9' then some (c.toNat - '0'.toNat)
  else if 'a' ≤ c ∧ c ≤ 'f' then some (c.toNat - 'a'.toNat + 10)
  else if 'A' ≤ c ∧ c ≤ 'F' then some (c.toNat - 'A'.toNat + 10)
  else none

/-- The number of four hexadecimal digits. Four bytes are looked at whatever they are. -/
def hexNumber (s : List Char) : Except Fault (Nat × List Char) :=
  if (Utf8.encode (s.take 4)).length < 4 then .error (.here .endInString [])
  else
    match s with
    | a :: b :: c :: d :: r =>
      match hexValue? a, hexValue? b, hexValue? c, hexValue? d with
      | some a, some b, some c, some d => .ok (a * 0x1000 + b * 0x100 + c * 0x10 + d, r)
      | _, _, _, _ => .error ⟨.invalidEscape, s, 4⟩
    | _ => .error ⟨.invalidEscape, s, 4⟩

/-- The character of a hexadecimal escape, from behind its letter on. A character above U+FFFF takes
two escapes, the second right behind the first. -/
def hexEscape (s : List Char) : Except Fault (Char × List Char) := do
  let (n, s) ← hexNumber s
  if 0xDC00 ≤ n ∧ n ≤ 0xDFFF then throw (.here .loneSurrogate s)
  if n < 0xD800 ∨ 0xDFFF < n then return (Char.ofNat n, s)
  match s with
  | [] => throw (.here .endInString [])
  | '\\' :: t =>
    match t with
    | [] => throw (.here .endInString [])
    | 'u' :: t =>
      let (m, t) ← hexNumber t
      if m < 0xDC00 ∨ 0xDFFF < m then throw (.here .loneSurrogate t)
      return (Char.ofNat (0x10000 + (n - 0xD800) * 0x400 + (m - 0xDC00)), t)
    | _ => throw (.next .unpairedSurrogate t)
  | _ => throw (.next .unpairedSurrogate s)

/-- The character of an escape, from behind its backslash on. -/
def escape (s : List Char) : Except Fault (Char × List Char) :=
  match s with
  | [] => .error (.here .endInString [])
  | '\x22' :: r => .ok ('\x22', r)
  | '\\' :: r => .ok ('\\', r)
  | '/' :: r => .ok ('/', r)
  | 'b' :: r => .ok ('\x08', r)
  | 'f' :: r => .ok ('\x0c', r)
  | 'n' :: r => .ok ('\n', r)
  | 'r' :: r => .ok ('\r', r)
  | 't' :: r => .ok ('\t', r)
  | 'u' :: r => hexEscape r
  | _ => .error (.next .invalidEscape s)

/-- The characters of a string up to its closing quote, from behind its opening quote on. -/
def stringBody : (fuel : Nat) → List Char → Except Fault (List Char × List Char)
  | 0, s => .error (.here .endInString s)
  | _ + 1, [] => .error (.here .endInString [])
  | fuel + 1, c :: s =>
    if c = '\x22' then .ok ([], s)
    else if c = '\\' then do
      let (d, s) ← escape s
      let (ds, s) ← stringBody fuel s
      return (d :: ds, s)
    else if c.toNat < 0x20 then .error (.next .controlCharacter (c :: s))
    else do
      let (ds, s) ← stringBody fuel s
      return (c :: ds, s)

/-- A string from behind its opening quote on. -/
def stringTail (s : List Char) : Except Fault (String × List Char) :=
  (stringBody (s.length + 1) s).map fun r => (String.ofList r.1, r.2)

/-- The name of a member and its colon. -/
def memberName (s : List Char) : Except Fault (String × List Char) :=
  match s with
  | '\x22' :: r => do
    let (name, r) ← stringTail r
    match skipSpace r with
    | ':' :: t => return (name, t)
    | [] => throw (.here .endInObject [])
    | t => throw (.next .expectedColon t)
  | _ => .error (.next .keyMustBeString s)

mutual

/-- A value; `depth` more arrays and objects may be open inside each other. -/
def value : (fuel depth : Nat) → List Char → Except Fault (Json × List Char)
  | 0, _, s => .error (.here .endInValue s)
  | fuel + 1, depth, s =>
    match skipSpace s with
    | [] => .error (.here .endInValue [])
    | 'n' :: r => (expect "ull".toList r).map (.null, ·)
    | 't' :: r => (expect "rue".toList r).map (.bool true, ·)
    | 'f' :: r => (expect "alse".toList r).map (.bool false, ·)
    | '-' :: r => number true r
    | '\x22' :: r => (stringTail r).map fun v => (.string v.1, v.2)
    | '[' :: r =>
      match depth with
      | 0 => .error (.next .tooDeep ('[' :: r))
      | depth + 1 =>
        match skipSpace r with
        | [] => .error (.here .endInList [])
        | ']' :: t => .ok (.array [], t)
        | t => do
          let (v, t) ← value fuel depth t
          let (vs, t) ← moreItems fuel depth t
          return (.array (v :: vs), t)
    | '\x7b' :: r =>
      match depth with
      | 0 => .error (.next .tooDeep ('\x7b' :: r))
      | depth + 1 =>
        match skipSpace r with
        | [] => .error (.here .endInObject [])
        | '\x7d' :: t => .ok (.object [], t)
        | t => do
          let (name, t) ← memberName t
          let (v, t) ← value fuel depth t
          let (ms, t) ← moreMembers fuel depth t
          return (ofMembers ((name, v) :: ms), t)
    | c :: r =>
      if (digit? c).isSome then number false (c :: r) else .error (.next .expectedValue (c :: r))

/-- The items of an array behind the first, up to the closing bracket. -/
def moreItems : (fuel depth : Nat) → List Char → Except Fault (List Json × List Char)
  | 0, _, s => .error (.here .endInList s)
  | fuel + 1, depth, s =>
    match skipSpace s with
    | [] => .error (.here .endInList [])
    | ']' :: r => .ok ([], r)
    | ',' :: r =>
      match skipSpace r with
      | [] => .error (.here .endInValue [])
      | ']' :: t => .error (.next .trailingComma (']' :: t))
      | t => do
        let (v, t) ← value fuel depth t
        let (vs, t) ← moreItems fuel depth t
        return (v :: vs, t)
    | r => .error (.next .expectedListCommaOrEnd r)

/-- The members of an object behind the first, up to the closing brace. -/
def moreMembers : (fuel depth : Nat) → List Char → Except Fault (List (String × Json) × List Char)
  | 0, _, s => .error (.here .endInObject s)
  | fuel + 1, depth, s =>
    match skipSpace s with
    | [] => .error (.here .endInObject [])
    | '\x7d' :: r => .ok ([], r)
    | ',' :: r =>
      match skipSpace r with
      | [] => .error (.here .endInValue [])
      | '\x7d' :: t => .error (.next .trailingComma ('\x7d' :: t))
      | t => do
        let (name, t) ← memberName t
        let (v, t) ← value fuel depth t
        let (ms, t) ← moreMembers fuel depth t
        return ((name, v) :: ms, t)
    | r => .error (.next .expectedObjectCommaOrEnd r)

end

/-- How deep arrays and objects may be nested. -/
def depthLimit : Nat := 127

/-- The value of a whole text. -/
def read (text : List Char) : Except Fault Json := do
  let (v, rest) ← value (text.length + 1) depthLimit text
  match skipSpace rest with
  | [] => return v
  | r => throw (.next .trailingCharacters r)

end Keyfile.Json
