import Pathwise.Json.Number

namespace Pathwise.Json

inductive Token where
  | openArray
  | closeArray
  | openObject
  | closeObject
  | comma
  | colon
  | null
  | bool (b : Bool)
  | number (n : Number)
  /-- A string; absent if it holds half of a surrogate pair. -/
  | string (s? : Option String)
  deriving DecidableEq, Repr

namespace Token

def isSpace (c : Char) : Bool := c == ' ' || c == '\t' || c == '\n' || c == '\r'

def hexDigit? (c : Char) : Option Nat :=
  if c.isDigit then some (c.toNat - '0'.toNat)
  else if 'a' ≤ c ∧ c ≤ 'f' then some (c.toNat - 'a'.toNat + 10)
  else if 'A' ≤ c ∧ c ≤ 'F' then some (c.toNat - 'A'.toNat + 10)
  else none

/-- The code unit that four hexadecimal digits stand for. -/
def hexUnit? (a b c d : Char) : Option Nat := do
  return (((← hexDigit? a) * 16 + (← hexDigit? b)) * 16 + (← hexDigit? c)) * 16 + (← hexDigit? d)

/-- The character after a backslash, other than `u`. -/
def escaped? : Char → Option Char
  | '"' => some '"'
  | '\\' => some '\\'
  | '/' => some '/'
  | 'b' => some '\x08'
  | 'f' => some '\x0c'
  | 'n' => some '\n'
  | 'r' => some '\r'
  | 't' => some '\t'
  | _ => none

def isHighSurrogate (u : Nat) : Bool := 0xD800 ≤ u && u < 0xDC00

def isLowSurrogate (u : Nat) : Bool := 0xDC00 ≤ u && u < 0xE000

/-- The character that a surrogate pair stands for. -/
def pairChar (high low : Nat) : Char :=
  Char.ofNat (0x10000 + (high - 0xD800) * 0x400 + (low - 0xDC00))

/-- The low surrogate that starts a text, and what follows it. -/
def lowSurrogate? : List Char → Option (Nat × List Char)
  | '\\' :: 'u' :: a :: b :: c :: d :: rest => do
    let u ← hexUnit? a b c d
    if isLowSurrogate u then some (u, rest) else none
  | _ => none

theorem lowSurrogate?_length {cs rest : List Char} {u : Nat}
    (h : lowSurrogate? cs = some (u, rest)) : rest.length < cs.length := by
  unfold lowSurrogate? at h
  split at h
  next a b c d tail =>
    cases hu : hexUnit? a b c d with
    | none => simp [hu] at h
    | some v =>
      simp only [hu, Option.bind_eq_bind, Option.bind_some] at h
      split at h
      · cases h
        simp only [List.length_cons]
        omega
      · contradiction
  · contradiction

/-- Reads a string up to its closing quote. The characters so far come in reverse, and are absent
once half of a surrogate pair was met. -/
def scanString (before? : Option (List Char)) (cs : List Char) :
    Option (Option String × List Char) :=
  match cs with
  | [] => none
  | '"' :: rest => some (before?.map fun b => String.ofList b.reverse, rest)
  | '\\' :: 'u' :: a :: b :: c :: d :: rest =>
    match hexUnit? a b c d with
    | none => none
    | some u =>
      if isHighSurrogate u then
        match _h : lowSurrogate? rest with
        | some (low, rest') => scanString (before?.map (pairChar u low :: ·)) rest'
        | none => scanString none rest
      else if isLowSurrogate u then scanString none rest
      else scanString (before?.map (Char.ofNat u :: ·)) rest
  | '\\' :: c :: rest =>
    match escaped? c with
    | some e => scanString (before?.map (e :: ·)) rest
    | none => none
  | c :: rest => if c < ' ' then none else scanString (before?.map (c :: ·)) rest
termination_by cs.length
decreasing_by
  all_goals simp_wf
  case _ => have := lowSurrogate?_length _h; omega
  all_goals omega

theorem scanString_length {before? : Option (List Char)} {cs rest : List Char} {s? : Option String}
    (h : scanString before? cs = some (s?, rest)) : rest.length < cs.length := by
  fun_induction scanString before? cs generalizing s? rest
  all_goals first
    | contradiction
    | (cases h; simp only [List.length_cons]; omega)
    | skip
  all_goals
    rename_i ih
    have := ih h
    simp only [List.length_cons]
    try have := lowSurrogate?_length ‹_›
    omega

def isDigit (c : Char) : Bool := c.isDigit

/-- Digits without a superfluous zero in front. -/
def scanWhole? (cs : List Char) : Option (List Char × List Char) :=
  match cs.takeWhile isDigit, cs.dropWhile isDigit with
  | [], _ => none
  | '0' :: _ :: _, _ => none
  | digits, rest => some (digits, rest)

/-- A point with digits after it, if there is a point. -/
def scanFraction? : List Char → Option (List Char × List Char)
  | '.' :: cs =>
    match cs.takeWhile isDigit with
    | [] => none
    | digits => some (digits, cs.dropWhile isDigit)
  | cs => some ([], cs)

def scanSign : List Char → Bool × List Char
  | '+' :: cs => (false, cs)
  | '-' :: cs => (true, cs)
  | cs => (false, cs)

/-- The digits of an exponent, after its sign. -/
def exponentOf? (signed : Bool × List Char) : Option (Option Exponent × List Char) :=
  match signed.2.takeWhile isDigit with
  | [] => none
  | digits => some (some ⟨signed.1, digits⟩, signed.2.dropWhile isDigit)

def scanExponent? : List Char → Option (Option Exponent × List Char)
  | 'e' :: cs | 'E' :: cs => exponentOf? (scanSign cs)
  | cs => some (none, cs)

def scanUnsigned? (negative : Bool) (cs : List Char) : Option (Number × List Char) := do
  let (whole, cs) ← scanWhole? cs
  let (fraction, cs) ← scanFraction? cs
  let (exponent?, cs) ← scanExponent? cs
  return ({ negative, whole, fraction, exponent? }, cs)

def scanNumber? : List Char → Option (Number × List Char)
  | '-' :: cs => scanUnsigned? true cs
  | cs => scanUnsigned? false cs

theorem dropWhile_length_le (p : Char → Bool) (cs : List Char) :
    (cs.dropWhile p).length ≤ cs.length := (List.dropWhile_sublist p).length_le

theorem scanWhole?_length {cs ds rest : List Char} (h : scanWhole? cs = some (ds, rest)) :
    rest.length < cs.length := by
  have hlen : (cs.takeWhile isDigit).length + (cs.dropWhile isDigit).length = cs.length := by
    rw [← List.length_append, List.takeWhile_append_dropWhile]
  unfold scanWhole? at h
  split at h
  · contradiction
  · contradiction
  next hne _ =>
    cases h
    have : (cs.takeWhile isDigit).length ≠ 0 := by
      intro h0
      exact hne (List.length_eq_zero_iff.1 h0)
    omega

theorem scanFraction?_length {cs ds rest : List Char} (h : scanFraction? cs = some (ds, rest)) :
    rest.length ≤ cs.length := by
  unfold scanFraction? at h
  split at h
  next tail =>
    split at h
    · contradiction
    · cases h
      have := dropWhile_length_le isDigit tail
      simp only [List.length_cons]
      omega
  · cases h
    exact Nat.le_refl _

theorem scanSign_length (cs : List Char) : (scanSign cs).2.length ≤ cs.length := by
  unfold scanSign
  split <;> simp

theorem scanExponent?_length {cs rest : List Char} {e? : Option Exponent}
    (h : scanExponent? cs = some (e?, rest)) : rest.length ≤ cs.length := by
  have key : ∀ tail : List Char, exponentOf? (scanSign tail) = some (e?, rest) →
      rest.length ≤ tail.length := by
    intro tail ht
    unfold exponentOf? at ht
    split at ht
    · contradiction
    · cases ht
      exact Nat.le_trans (dropWhile_length_le _ _) (scanSign_length tail)
  unfold scanExponent? at h
  split at h
  · exact Nat.le_succ_of_le (key _ h)
  · exact Nat.le_succ_of_le (key _ h)
  · cases h
    exact Nat.le_refl _

theorem scanUnsigned?_length {negative : Bool} {cs rest : List Char} {n : Number}
    (h : scanUnsigned? negative cs = some (n, rest)) : rest.length < cs.length := by
  unfold scanUnsigned? at h
  simp only [Option.bind_eq_bind, Option.bind_eq_some_iff, Option.pure_def, Option.some.injEq,
    Prod.mk.injEq] at h
  obtain ⟨⟨ds, r₁⟩, h₁, ⟨fs, r₂⟩, h₂, ⟨e?, r₃⟩, h₃, _, rfl⟩ := h
  have := scanWhole?_length h₁
  have := scanFraction?_length h₂
  have := scanExponent?_length h₃
  simp only at *
  omega

theorem scanNumber?_length {cs rest : List Char} {n : Number}
    (h : scanNumber? cs = some (n, rest)) : rest.length < cs.length := by
  unfold scanNumber? at h
  split at h
  · exact Nat.lt_succ_of_lt (scanUnsigned?_length h)
  · exact scanUnsigned?_length h

/-- The tokens of a text, if it is made of tokens and white space. -/
def scan? (cs : List Char) : Option (List Token) :=
  match cs with
  | [] => some []
  | '[' :: rest => (scan? rest).map (openArray :: ·)
  | ']' :: rest => (scan? rest).map (closeArray :: ·)
  | '\x7b' :: rest => (scan? rest).map (openObject :: ·)
  | '\x7d' :: rest => (scan? rest).map (closeObject :: ·)
  | ',' :: rest => (scan? rest).map (comma :: ·)
  | ':' :: rest => (scan? rest).map (colon :: ·)
  | 'n' :: 'u' :: 'l' :: 'l' :: rest => (scan? rest).map (null :: ·)
  | 't' :: 'r' :: 'u' :: 'e' :: rest => (scan? rest).map (bool true :: ·)
  | 'f' :: 'a' :: 'l' :: 's' :: 'e' :: rest => (scan? rest).map (bool false :: ·)
  | '"' :: rest =>
    match _h : scanString (some []) rest with
    | some (s?, rest') => (scan? rest').map (string s? :: ·)
    | none => none
  | c :: rest =>
    if isSpace c then scan? rest
    else
      match _h : scanNumber? (c :: rest) with
      | some (n, rest') => (scan? rest').map (number n :: ·)
      | none => none
termination_by cs.length
decreasing_by
  all_goals simp_wf
  all_goals first
    | omega
    | (have h := scanString_length ‹_›; omega)
    | (have h := scanNumber?_length ‹_›; simp only [List.length_cons] at h; omega)

end Token

end Pathwise.Json
