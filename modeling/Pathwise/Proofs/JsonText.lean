import Pathwise.Json.Reader
import Pathwise.Json.Writer

namespace Pathwise.Json

open Token

/-- The digits are there, with no superfluous zero in front, and so are those of the exponent. -/
structure Number.WellFormed (n : Number) : Prop where
  whole : ∀ c ∈ n.whole, isDigit c
  whole_ne : n.whole ≠ []
  no_zero : ∀ c cs, n.whole ≠ '0' :: c :: cs
  fraction : ∀ c ∈ n.fraction, isDigit c
  exponent : ∀ e ∈ n.exponent?, e.digits ≠ [] ∧ ∀ c ∈ e.digits, isDigit c

/-- The text does not go on with something that could be part of a number. -/
def Breaks (rest : List Char) : Prop :=
  ∀ c ∈ rest.head?, ¬ isDigit c ∧ c ≠ '.' ∧ c ≠ 'e' ∧ c ≠ 'E'

def EndsDigits (rest : List Char) : Prop := ∀ c ∈ rest.head?, ¬ isDigit c

theorem Breaks.endsDigits {rest : List Char} (h : Breaks rest) : EndsDigits rest :=
  fun c hc => (h c hc).1

theorem breaks_nil : Breaks [] := by
  intro c hc
  cases hc

theorem breaks_cons {c : Char} (h : ¬ isDigit c ∧ c ≠ '.' ∧ c ≠ 'e' ∧ c ≠ 'E') (rest : List Char) :
    Breaks (c :: rest) := by
  intro c' hc'
  cases hc'
  exact h

theorem span_digits {ds rest : List Char} (hds : ∀ c ∈ ds, isDigit c) (hrest : EndsDigits rest) :
    (ds ++ rest).takeWhile isDigit = ds ∧ (ds ++ rest).dropWhile isDigit = rest := by
  rw [List.takeWhile_append_of_pos hds, List.dropWhile_append_of_pos hds]
  cases rest with
  | nil => simp
  | cons c rest => simp [hrest c rfl]

theorem scanWhole?_append {ds rest : List Char} (hds : ∀ c ∈ ds, isDigit c) (hne : ds ≠ [])
    (hzero : ∀ c cs, ds ≠ '0' :: c :: cs) (hrest : EndsDigits rest) :
    scanWhole? (ds ++ rest) = some (ds, rest) := by
  obtain ⟨htake, hdrop⟩ := span_digits hds hrest
  simp only [scanWhole?, htake, hdrop]

def exponentText : Option Exponent → List Char
  | some e => 'e' :: (if e.negative then '-' else '+') :: e.digits
  | none => []

def fractionText (ds : List Char) : List Char := if ds.isEmpty then [] else '.' :: ds

theorem Number.render_eq (n : Number) :
    n.render = (if n.negative then ['-'] else []) ++
      (n.whole ++ (fractionText n.fraction ++ exponentText n.exponent?)) := by
  simp only [render, fractionText, List.append_assoc]
  rfl

theorem scanExponent?_exponentText {e? : Option Exponent} {rest : List Char}
    (he : ∀ e ∈ e?, e.digits ≠ [] ∧ ∀ c ∈ e.digits, isDigit c) (hrest : Breaks rest) :
    scanExponent? (exponentText e? ++ rest) = some (e?, rest) := by
  cases e? with
  | none =>
    unfold scanExponent?
    split
    next heq => exact absurd rfl (hrest 'e' (congrArg List.head? heq)).2.2.1
    next heq => exact absurd rfl (hrest 'E' (congrArg List.head? heq)).2.2.2
    next => rfl
  | some e =>
    obtain ⟨negative, ds⟩ := e
    obtain ⟨hne, hds⟩ := he _ rfl
    obtain ⟨htake, hdrop⟩ := span_digits hds hrest.endsDigits
    cases negative <;> simp [exponentText, scanExponent?, scanSign, exponentOf?, htake, hdrop]

theorem not_digit_exponentText (e? : Option Exponent) {rest : List Char} (hrest : Breaks rest) :
    ∀ c ∈ (exponentText e? ++ rest).head?, ¬ isDigit c ∧ c ≠ '.' := by
  intro c hc
  cases e? with
  | none => exact ⟨(hrest c hc).1, (hrest c hc).2.1⟩
  | some e =>
    cases hc
    decide

theorem scanFraction?_fractionText {ds rest : List Char} (hds : ∀ c ∈ ds, isDigit c)
    (hrest : ∀ c ∈ rest.head?, ¬ isDigit c ∧ c ≠ '.') :
    scanFraction? (fractionText ds ++ rest) = some (ds, rest) := by
  cases ds with
  | nil =>
    unfold scanFraction?
    split
    next heq => exact absurd rfl (hrest '.' (congrArg List.head? heq)).2
    next => rfl
  | cons d ds =>
    obtain ⟨htake, hdrop⟩ := span_digits hds fun c hc => (hrest c hc).1
    rw [List.cons_append] at htake hdrop
    simp only [fractionText, List.isEmpty_cons, Bool.false_eq_true, if_false, List.cons_append,
      scanFraction?, htake, hdrop]

theorem endsDigits_fractionText (ds : List Char) {rest : List Char} (hrest : EndsDigits rest) :
    EndsDigits (fractionText ds ++ rest) := by
  cases ds with
  | nil => exact hrest
  | cons d ds =>
    intro c hc
    cases hc
    decide

theorem scanUnsigned?_append {n : Number} (hn : n.WellFormed) {rest : List Char}
    (hrest : Breaks rest) :
    scanUnsigned? n.negative
      (n.whole ++ (fractionText n.fraction ++ (exponentText n.exponent? ++ rest))) =
        some (n, rest) := by
  have hafter := not_digit_exponentText n.exponent? hrest
  have hwhole := scanWhole?_append hn.whole hn.whole_ne hn.no_zero
    (endsDigits_fractionText n.fraction fun c hc => (hafter c hc).1)
  have hfraction := scanFraction?_fractionText hn.fraction hafter
  have hexponent := scanExponent?_exponentText hn.exponent hrest
  simp only [scanUnsigned?, hwhole, hfraction, hexponent, Option.bind_eq_bind, Option.bind_some,
    Option.pure_def]

theorem scanNumber?_append {n : Number} (hn : n.WellFormed) {rest : List Char}
    (hrest : Breaks rest) : scanNumber? (n.render ++ rest) = some (n, rest) := by
  have hscan := scanUnsigned?_append hn hrest
  rw [n.render_eq]
  cases hnegative : n.negative with
  | true =>
    rw [hnegative] at hscan
    simpa [scanNumber?] using hscan
  | false =>
    rw [hnegative] at hscan
    obtain ⟨c, cs, hcs⟩ := List.exists_cons_of_ne_nil hn.whole_ne
    have hminus : c ≠ '-' := by
      rintro rfl
      have hdigit := hn.whole '-' (hcs ▸ .head _)
      contradiction
    rw [hcs, List.cons_append] at hscan
    rw [hcs]
    simp only [Bool.false_eq_true, if_false, List.nil_append, List.append_assoc, List.cons_append]
    rw [scanNumber?, hscan]
    intro _ hc
    exact hminus (List.cons.inj hc).1

theorem hexDigit?_digitChar : ∀ d < 16, hexDigit? (Nat.digitChar d) = some d := by decide

theorem hexUnit?_digitChars {u : Nat} (h : u < 256) :
    hexUnit? '0' '0' (Nat.digitChar (u / 16)) (Nat.digitChar (u % 16)) = some u := by
  have hhigh := hexDigit?_digitChar (u / 16) (by omega)
  have hlow := hexDigit?_digitChar (u % 16) (by omega)
  have hzero : hexDigit? '0' = some 0 := by decide
  simp only [hexUnit?, hzero, hhigh, hlow, Option.bind_eq_bind, Option.bind_some, Option.pure_def,
    Option.some.injEq]
  omega

theorem scanString_plain (before : List Char) {c : Char} (hquote : c ≠ '"') (hbackslash : c ≠ '\\')
    (hspace : ¬ c < ' ') (rest : List Char) :
    scanString (some before) (c :: rest) = scanString (some (c :: before)) rest := by
  rw [scanString, if_neg hspace, Option.map_some]
  · exact hquote
  · intro _ _ _ _ _ hc
    exact absurd hc hbackslash
  · intro _ _ hc
    exact absurd hc hbackslash

theorem scanString_escapeChar (before : List Char) (c : Char) (rest : List Char) :
    scanString (some before) (escapeChar c ++ rest) = scanString (some (c :: before)) rest := by
  unfold escapeChar
  split
  · simp [scanString, escaped?]
  · simp [scanString, escaped?]
  · simp [scanString, escaped?]
  · simp [scanString, escaped?]
  · simp [scanString, escaped?]
  · simp [scanString, escaped?]
  · simp [scanString, escaped?]
  next hquote hbackslash _ _ _ _ _ =>
    split
    next hcontrol =>
      have hlt : c.toNat < 32 := hcontrol
      have hunit := hexUnit?_digitChars (Nat.lt_trans hlt (by decide : 32 < 256))
      have hhigh : isHighSurrogate c.toNat = false := by
        simp only [isHighSurrogate]
        grind
      have hlow : isLowSurrogate c.toNat = false := by
        simp only [isLowSurrogate]
        grind
      simp only [List.cons_append, List.nil_append, scanString, hunit, hhigh, hlow,
        Bool.false_eq_true, if_false, Option.map_some, Char.ofNat_toNat]
    next hspace => exact scanString_plain before hquote hbackslash hspace rest

/-- Escaped text is read back up to the quote that ends it. -/
theorem scanString_flatMap (before cs rest : List Char) :
    scanString (some before) (cs.flatMap escapeChar ++ '"' :: rest) =
      some (some (String.ofList (before.reverse ++ cs)), rest) := by
  induction cs generalizing before with
  | nil => simp [scanString]
  | cons c cs ih =>
    rw [List.flatMap_cons, List.append_assoc, scanString_escapeChar, ih, List.reverse_cons,
      List.append_assoc, List.singleton_append]

/-- The value has a meaning, and its numbers are written correctly. -/
inductive Readable : Json → Prop
  | null : Readable .null
  | bool (b : Bool) : Readable (.bool b)
  | number {n : Number} : n.WellFormed → Readable (.number n)
  | string (s : String) : Readable (.string s)
  | array {items : List Json} : (∀ j ∈ items, Readable j) → Readable (.array items)
  | object {members : List (String × Json)} : (∀ m ∈ members, Readable m.2) →
      Readable (.object members)

mutual

def tokens : Json → List Token
  | null | unreadable => [.null]
  | bool b => [.bool b]
  | number n => [.number n]
  | string s => [.string (some s)]
  | array [] => [.openArray, .closeArray]
  | array (j :: js) => .openArray :: (tokens j ++ itemTokens js)
  | object [] => [.openObject, .closeObject]
  | object ((key, j) :: ms) =>
    .openObject :: .string (some key) :: .colon :: (tokens j ++ memberTokens ms)

def itemTokens : List Json → List Token
  | [] => [.closeArray]
  | j :: js => .comma :: (tokens j ++ itemTokens js)

def memberTokens : List (String × Json) → List Token
  | [] => [.closeObject]
  | (key, j) :: ms => .comma :: .string (some key) :: .colon :: (tokens j ++ memberTokens ms)

end

theorem scan?_renderString (s : String) (rest : List Char) :
    scan? (renderString s ++ rest) = (scan? rest).map (.string (some s) :: ·) := by
  have hstring := scanString_flatMap [] s.toList rest
  rw [List.reverse_nil, List.nil_append, String.ofList_toList] at hstring
  simp only [renderString, List.cons_append, List.append_assoc, List.nil_append, scan?]
  split
  next heq =>
    cases hstring.symm.trans heq
    rfl
  next heq => cases hstring.symm.trans heq

theorem ne_of_numeric {c d : Char} (hc : isDigit c ∨ c = '-') (hd : ¬ (isDigit d ∨ d = '-')) :
    c ≠ d := by
  rintro rfl
  exact hd hc

theorem scan?_of_scanNumber? {c : Char} {cs rest : List Char} {n : Number}
    (hc : isDigit c ∨ c = '-') (h : scanNumber? (c :: cs) = some (n, rest)) :
    scan? (c :: cs) = (scan? rest).map (.number n :: ·) := by
  have hspace : ¬ isSpace c := by
    simp only [isSpace, Bool.or_eq_true, beq_iff_eq, not_or]
    exact ⟨⟨⟨ne_of_numeric hc (by decide), ne_of_numeric hc (by decide)⟩,
      ne_of_numeric hc (by decide)⟩, ne_of_numeric hc (by decide)⟩
  rw [scan?, if_neg hspace]
  · split
    next heq =>
      cases h.symm.trans heq
      rfl
    next heq => cases h.symm.trans heq
  · exact ne_of_numeric hc (by decide)
  · exact ne_of_numeric hc (by decide)
  · exact ne_of_numeric hc (by decide)
  · exact ne_of_numeric hc (by decide)
  · exact ne_of_numeric hc (by decide)
  · exact ne_of_numeric hc (by decide)
  · exact fun _ hn => absurd hn (ne_of_numeric hc (by decide))
  · exact fun _ ht => absurd ht (ne_of_numeric hc (by decide))
  · exact fun _ hf => absurd hf (ne_of_numeric hc (by decide))
  · exact ne_of_numeric hc (by decide)

theorem Number.WellFormed.exists_cons {n : Number} (hn : n.WellFormed) :
    ∃ c cs, n.render = c :: cs ∧ (isDigit c ∨ c = '-') := by
  obtain ⟨c, cs, hcs⟩ := List.exists_cons_of_ne_nil hn.whole_ne
  rw [n.render_eq]
  cases n.negative with
  | true => exact ⟨'-', _, rfl, .inr rfl⟩
  | false => exact ⟨c, _, by rw [hcs]; rfl, .inl (hn.whole c (hcs ▸ .head _))⟩

theorem scan?_number {n : Number} (hn : n.WellFormed) {rest : List Char} (hrest : Breaks rest) :
    scan? (n.render ++ rest) = (scan? rest).map (.number n :: ·) := by
  have hscan := scanNumber?_append hn hrest
  obtain ⟨c, cs, hcs, hc⟩ := hn.exists_cons
  rw [hcs, List.cons_append] at hscan ⊢
  exact scan?_of_scanNumber? hc hscan

theorem breaks_renderItems (js : List Json) (rest : List Char) : Breaks (renderItems js ++ rest) := by
  cases js with
  | nil => exact breaks_cons (by decide) _
  | cons j js => exact breaks_cons (by decide) _

theorem breaks_renderMembers (ms : List (String × Json)) (rest : List Char) :
    Breaks (renderMembers ms ++ rest) := by
  cases ms with
  | nil => exact breaks_cons (by decide) _
  | cons m ms => exact breaks_cons (by decide) _

/-- The text of the value gives its tokens, if what follows is not part of a number. -/
def Scans (j : Json) : Prop :=
  ∀ ⦃rest⦄, Breaks rest → scan? (j.render ++ rest) = (scan? rest).map (j.tokens ++ ·)

theorem scan?_renderItems {js : List Json} (hjs : ∀ j ∈ js, Scans j) (rest : List Char) :
    scan? (renderItems js ++ rest) = (scan? rest).map (itemTokens js ++ ·) := by
  induction js with
  | nil =>
    simp only [renderItems, List.cons_append, List.nil_append, scan?]
    rfl
  | cons j js ih =>
    have hj := hjs j (.head _) (breaks_renderItems js rest)
    simp only [renderItems, List.cons_append, List.append_assoc, scan?, hj,
      ih fun j hj => hjs j (.tail _ hj), itemTokens, Option.map_map]
    rfl

theorem scan?_renderMembers {ms : List (String × Json)} (hms : ∀ m ∈ ms, Scans m.2)
    (rest : List Char) :
    scan? (renderMembers ms ++ rest) = (scan? rest).map (memberTokens ms ++ ·) := by
  induction ms with
  | nil =>
    simp only [renderMembers, List.cons_append, List.nil_append, scan?]
    rfl
  | cons m ms ih =>
    have hm := hms m (.head _) (breaks_renderMembers ms rest)
    simp only [renderMembers, List.cons_append, List.append_assoc, scan?, scan?_renderString, hm,
      ih fun m hm => hms m (.tail _ hm), memberTokens, Option.map_map]
    rfl

theorem Readable.scans {j : Json} (h : Readable j) : Scans j := by
  induction h with
  | null =>
    intro rest _
    simp only [render, List.cons_append, List.nil_append, scan?, tokens]
  | bool b =>
    intro rest _
    cases b <;> simp only [render, List.cons_append, List.nil_append, scan?, tokens]
  | number hn => exact fun _ hrest => scan?_number hn hrest
  | string s => exact fun rest _ => scan?_renderString s rest
  | @array items _ ih =>
    intro rest _
    cases items with
    | nil =>
      simp only [render, List.cons_append, List.nil_append, scan?, tokens, Option.map_map]
      rfl
    | cons j js =>
      have hj := ih j (.head _) (breaks_renderItems js rest)
      have hjs := scan?_renderItems (fun j hj => ih j (.tail _ hj)) rest
      simp only [render, List.cons_append, List.append_assoc, scan?, hj, hjs, tokens,
        Option.map_map]
      rfl
  | @object members _ ih =>
    intro rest _
    cases members with
    | nil =>
      simp only [render, List.cons_append, List.nil_append, scan?, tokens, Option.map_map]
      rfl
    | cons m ms =>
      have hm := ih m (.head _) (breaks_renderMembers ms rest)
      have hms := scan?_renderMembers (fun m hm => ih m (.tail _ hm)) rest
      simp only [render, List.cons_append, List.append_assoc, scan?, scan?_renderString, hm, hms,
        tokens, Option.map_map]
      rfl

namespace Reader

/-- The tokens of the value take the reader from where it expects a value to where it has this. -/
def Reads (j : Json) : Prop :=
  ∀ outer ts, (j.tokens ++ ts).foldlM step (value outer) = ts.foldlM step (complete j outer)

theorem exists_step_arrayStart (j : Json) :
    ∃ t ts, j.tokens = t :: ts ∧
      ∀ outer, step (arrayStart outer) t = step (value (.item [] :: outer)) t := by
  cases j with
  | null | bool | number | string | unreadable => exact ⟨_, _, rfl, fun _ => rfl⟩
  | array items => cases items <;> exact ⟨_, _, rfl, fun _ => rfl⟩
  | object members => cases members <;> exact ⟨_, _, rfl, fun _ => rfl⟩

theorem foldlM_arrayStart {j : Json} (hj : Reads j) (outer : List Frame) (ts : List Token) :
    (j.tokens ++ ts).foldlM step (arrayStart outer) = ts.foldlM step (afterItem outer [j]) := by
  obtain ⟨t, us, heq, hstep⟩ := exists_step_arrayStart j
  have hvalue := hj (.item [] :: outer) ts
  rw [heq, List.cons_append, List.foldlM_cons] at hvalue ⊢
  rw [hstep]
  exact hvalue

theorem foldlM_itemTokens {js : List Json} (hjs : ∀ j ∈ js, Reads j) (outer : List Frame)
    (before : List Json) (ts : List Token) :
    (itemTokens js ++ ts).foldlM step (afterItem outer before) =
      ts.foldlM step (complete (.array (before.reverse ++ js)) outer) := by
  induction js generalizing before with
  | nil =>
    rw [List.append_nil]
    rfl
  | cons j js ih =>
    have hj := hjs j (.head _) (.item before :: outer) (itemTokens js ++ ts)
    have hjs := ih (fun j hj => hjs j (.tail _ hj)) (j :: before)
    rw [List.reverse_cons, List.append_assoc, List.singleton_append] at hjs
    simp only [itemTokens, List.cons_append, List.append_assoc, List.foldlM_cons]
    change (j.tokens ++ (itemTokens js ++ ts)).foldlM step (value (.item before :: outer)) = _
    rw [hj]
    exact hjs

theorem objectOf_reverse (ms : List (String × Json)) :
    objectOf ((ms.map fun m => (some m.1, m.2)).reverse) = .object ms := by
  have hmapM : (ms.map fun m => (some m.1, m.2)).mapM
      (fun m : Option String × Json => m.1.map fun key => (key, m.2)) = some ms := by
    induction ms with
    | nil => rfl
    | cons m ms ih => simp [ih]
  simp only [objectOf, List.reverse_reverse, hmapM]

theorem foldlM_member {j : Json} (hj : Reads j) (outer : List Frame) (key : String)
    (before : List (String × Json)) (ts : List Token) :
    (j.tokens ++ ts).foldlM step
        (value (.member (before.map fun m => (some m.1, m.2)).reverse (some key) :: outer)) =
      ts.foldlM step (afterMember outer
        ((before ++ [(key, j)]).map fun m => (some m.1, m.2)).reverse) := by
  rw [hj, List.map_append, List.reverse_append]
  rfl

theorem foldlM_memberTokens {ms : List (String × Json)} (hms : ∀ m ∈ ms, Reads m.2)
    (outer : List Frame) (before : List (String × Json)) (ts : List Token) :
    (memberTokens ms ++ ts).foldlM step
        (afterMember outer (before.map fun m => (some m.1, m.2)).reverse) =
      ts.foldlM step (complete (.object (before ++ ms)) outer) := by
  induction ms generalizing before with
  | nil =>
    rw [List.append_nil, ← objectOf_reverse before]
    rfl
  | cons m ms ih =>
    obtain ⟨key, j⟩ := m
    have hj := foldlM_member (hms _ (.head _)) outer key before (memberTokens ms ++ ts)
    have hms := ih (fun m hm => hms m (.tail _ hm)) (before ++ [(key, j)])
    rw [List.append_assoc, List.singleton_append] at hms
    simp only [memberTokens, List.cons_append, List.append_assoc, List.foldlM_cons]
    exact hj.trans hms

end Reader

open Reader in
theorem Readable.reads {j : Json} (h : Readable j) : Reads j := by
  induction h with
  | null => exact fun _ _ => rfl
  | bool b => exact fun _ _ => rfl
  | number hn => exact fun _ _ => rfl
  | string s => exact fun _ _ => rfl
  | @array items _ ih =>
    intro outer ts
    cases items with
    | nil => rfl
    | cons j js =>
      have hj := foldlM_arrayStart (ih j (.head _)) outer (itemTokens js ++ ts)
      have hjs := foldlM_itemTokens (fun j hj => ih j (.tail _ hj)) outer [j] ts
      simp only [tokens, List.cons_append, List.append_assoc, List.foldlM_cons]
      exact hj.trans hjs
  | @object members _ ih =>
    intro outer ts
    cases members with
    | nil => rfl
    | cons m ms =>
      have hm := foldlM_member (ih m (.head _)) outer m.1 [] (memberTokens ms ++ ts)
      have hms := foldlM_memberTokens (fun m hm => ih m (.tail _ hm)) outer [m] ts
      simp only [tokens, List.cons_append, List.append_assoc, List.foldlM_cons]
      exact hm.trans hms

/-- What is written compactly is read back. -/
theorem parse?_compact {j : Json} (h : Readable j) : parse? j.compact = some j := by
  have hscan := h.scans breaks_nil
  have hread := h.reads [] []
  rw [List.append_nil] at hscan hread
  have htokens : scan? j.compact.toList = some j.tokens := by
    rw [compact, String.toList_ofList, hscan]
    simp [scan?]
  rw [parse?, htokens, Option.bind_eq_bind, Option.bind_some, ofTokens?, hread]
  rfl

end Pathwise.Json
