import Mathlib.Data.List.DropRight
import Pathwise.Matcher

namespace Pathwise

namespace Text

variable {cs : List Char} {c : Char}

theorem trim_eq_rdropWhile (cs : List Char) :
    trim cs = (cs.dropWhile isBlank).rdropWhile isBlank := rfl

theorem mem_of_mem_trim (h : c ∈ trim cs) : c ∈ cs :=
  (List.dropWhile_sublist isBlank).subset ((List.rdropWhile_prefix isBlank _).subset h)

theorem trim_eq_nil_iff : trim cs = [] ↔ ∀ c ∈ cs, isBlank c := by
  rw [trim_eq_rdropWhile, List.rdropWhile_eq_nil_iff]
  constructor
  · intro h
    have hnil : cs.dropWhile isBlank = [] := by
      by_contra hne
      have hhead := List.head_dropWhile_not isBlank hne
      rw [h _ (List.head_mem hne)] at hhead
      contradiction
    exact List.dropWhile_eq_nil_iff.1 hnil
  · exact fun h c hc => h c ((List.dropWhile_sublist isBlank).subset hc)

theorem trim_eq_self (hhead : ∀ h : cs ≠ [], ¬ isBlank (cs.head h))
    (hlast : ∀ h : cs ≠ [], ¬ isBlank (cs.getLast h)) : trim cs = cs := by
  have hdrop : cs.dropWhile isBlank = cs := by
    cases cs with
    | nil => rfl
    | cons c cs => exact List.dropWhile_cons_of_neg (hhead (List.cons_ne_nil c cs))
  rw [trim_eq_rdropWhile, hdrop]
  exact List.rdropWhile_eq_self_iff.2 hlast

theorem trim_trim (cs : List Char) : trim (trim cs) = trim cs := by
  apply trim_eq_self
  · intro h
    have hpre := List.rdropWhile_prefix isBlank (cs.dropWhile isBlank)
    have hne : cs.dropWhile isBlank ≠ [] := fun hnil => h (List.prefix_nil.1 (hnil ▸ hpre))
    have hhead : (trim cs).head h = (cs.dropWhile isBlank).head hne := hpre.head h
    rw [hhead, List.head_dropWhile_not isBlank hne]
    exact Bool.false_ne_true
  · exact fun h => List.rdropWhile_last_not isBlank _ h

theorem trim_cons_of_isBlank (hc : isBlank c) (cs : List Char) : trim (c :: cs) = trim cs := by
  rw [trim_eq_rdropWhile, List.dropWhile_cons_of_pos hc, ← trim_eq_rdropWhile]

theorem splitAt_eq_splitOn (separator : Char) (cs : List Char) :
    splitAt separator cs = cs.splitOn separator := by
  induction cs with
  | nil => rw [splitAt, List.splitOn_nil]
  | cons c cs ih =>
    rw [splitAt, List.splitOn_cons_eq_if_modifyHead, ih]
    by_cases hc : c = separator
    · simp only [hc, if_true, beq_self_eq_true]
    · simp only [hc, if_false, beq_iff_eq]
      cases hsplit : cs.splitOn separator with
      | nil => exact absurd hsplit (List.splitOn_ne_nil separator cs)
      | cons part parts => rfl

theorem not_mem_of_mem_splitAt {separator : Char} {part : List Char}
    (h : part ∈ splitAt separator cs) : separator ∉ part := by
  induction cs generalizing part with
  | nil =>
    rw [splitAt, List.mem_singleton] at h
    rw [h]
    exact List.not_mem_nil
  | cons c cs ih =>
    rw [splitAt] at h
    split at h
    · rcases List.mem_cons.1 h with rfl | h
      · exact List.not_mem_nil
      · exact ih h
    next hc =>
      split at h
      next first rest hsplit =>
        rcases List.mem_cons.1 h with rfl | h
        · rw [List.mem_cons, not_or]
          exact ⟨Ne.symm hc, ih (hsplit ▸ .head _)⟩
        · exact ih (hsplit ▸ .tail _ h)
      next =>
        rw [List.mem_singleton.1 h, List.mem_singleton]
        exact Ne.symm hc

/-- Parts that are joined by a separator and a space are those that are split off, with the space in
front of all but the first. -/
theorem splitAt_intercalate {separator : Char} {part : List Char} {parts : List (List Char)}
    (hspace : separator ≠ ' ') (h : ∀ p ∈ part :: parts, separator ∉ p) :
    splitAt separator ([separator, ' '].intercalate (part :: parts)) =
      part :: parts.map (' ' :: ·) := by
  have hjoin : ∀ part, [separator, ' '].intercalate (part :: parts) =
      [separator].intercalate (part :: parts.map (' ' :: ·)) := by
    clear h
    induction parts with
    | nil => exact fun part => rfl
    | cons next parts ih =>
      intro part
      rw [List.intercalate_cons_cons, ih, List.map_cons, List.intercalate_cons_cons]
      cases parts <;> simp [List.intercalate_cons_cons]
  rw [hjoin, splitAt_eq_splitOn]
  refine List.splitOn_intercalate separator ?_ (List.cons_ne_nil _ _)
  rw [List.forall_mem_cons] at h ⊢
  refine ⟨h.1, fun p hp => ?_⟩
  obtain ⟨q, hq, rfl⟩ := List.mem_map.1 hp
  rw [List.mem_cons, not_or]
  exact ⟨hspace, h.2 q hq⟩

end Text

namespace Matcher

variable {m : Matcher} {cs : List Char}

def Names (s : String) : Prop := isName s.toList ∧ '(' ∉ s.toList

def Types (s : String) : Prop :=
  isType s.toList ∧ ',' ∉ s.toList ∧ Text.trim s.toList = s.toList

/-- A matcher whose parts hold no character at which a text is cut. -/
structure Readable (m : Matcher) : Prop where
  owner : Names m.owner
  name : Names m.name
  parameters : ∀ types ∈ m.parameters, ∀ s ∈ types, Types s

theorem names_constructorName : Names Method.constructorName := by
  unfold Names
  decide

theorem names_of_parseSignature? {owner name : String} (hcs : '(' ∉ cs)
    (h : parseSignature? cs = some (owner, name)) : Names owner ∧ Names name := by
  have hsub {cs' : List Char} (hname : isName cs') (hsub : cs' ⊆ cs) : Names (.ofList cs') := by
    rw [Names, String.toList_ofList]
    exact ⟨hname, fun hmem => hcs (hsub hmem)⟩
  have howner := List.takeWhile_subset (l := cs) (· != '#')
  unfold parseSignature? at h
  dsimp only at h
  split at h
  next =>
    obtain ⟨hname, heq⟩ := Option.ite_some_none_eq_some.1 h
    cases heq
    exact ⟨hsub hname howner, names_constructorName⟩
  next sharp rest hrest =>
    obtain ⟨hnames, heq⟩ := Option.ite_some_none_eq_some.1 h
    cases heq
    rw [Bool.and_eq_true] at hnames
    have hsuffix : rest ⊆ cs := fun c hc =>
      (List.dropWhile_sublist (· != '#')).subset (hrest ▸ List.mem_cons_of_mem sharp hc)
    exact ⟨hsub hnames.1 howner, hsub hnames.2 hsuffix⟩

theorem types_of_parseParameters? {parameters : Option (List String)}
    (h : parseParameters? cs = some parameters) : ∀ types ∈ parameters, ∀ s ∈ types, Types s := by
  unfold parseParameters? at h
  split at h
  next =>
    cases h
    exact fun types htypes => absurd htypes (Option.not_mem_none types)
  next paren inner =>
    split at h
    next =>
      dsimp only at h
      obtain ⟨hall, heq⟩ := Option.ite_some_none_eq_some.1 h
      cases heq
      intro types htypes s hs
      cases htypes
      obtain ⟨cs, hcs, rfl⟩ := List.mem_map.1 hs
      rw [Types, String.toList_ofList]
      refine ⟨List.all_eq_true.1 hall cs hcs, ?_⟩
      split at hcs
      · contradiction
      · obtain ⟨part, hpart, rfl⟩ := List.mem_map.1 hcs
        exact ⟨fun hmem => Text.not_mem_of_mem_splitAt hpart (Text.mem_of_mem_trim hmem),
          Text.trim_trim part⟩
    next => contradiction

theorem parse_eq_some_iff {t : String} :
    parse t = .ok (some m) ↔
      Text.trim t.toList ≠ [] ∧ parseTrimmed? (Text.trim t.toList) = some m := by
  unfold parse
  dsimp only
  split
  next hnil => simp [List.isEmpty_iff.1 hnil]
  next hnil =>
    have hne : Text.trim t.toList ≠ [] := fun h => hnil (List.isEmpty_iff.2 h)
    cases parseTrimmed? (Text.trim t.toList) <;> simp [hne]

theorem parseTrimmed?_eq_some_iff :
    parseTrimmed? cs = some m ↔
      parseParameters? (cs.dropWhile (· != '(')) = some m.parameters ∧
        parseSignature? (cs.takeWhile (· != '(')) = some (m.owner, m.name) := by
  obtain ⟨owner, name, parameters⟩ := m
  unfold parseTrimmed?
  cases parseParameters? (cs.dropWhile (· != '(')) with
  | none => simp
  | some parameters' =>
    cases parseSignature? (cs.takeWhile (· != '(')) with
    | none => simp
    | some signature =>
      obtain ⟨owner', name'⟩ := signature
      simp [and_comm, and_assoc]

/-- Whatever the text, the matcher that is read from it can be read again. -/
theorem readable_of_parse {t : String} (h : parse t = .ok (some m)) : m.Readable := by
  obtain ⟨hparameters, hsignature⟩ := parseTrimmed?_eq_some_iff.1 (parse_eq_some_iff.1 h).2
  have hparen : '(' ∉ (Text.trim t.toList).takeWhile (· != '(') := by
    intro hmem
    simpa using List.mem_takeWhile_imp hmem
  obtain ⟨howner, hname⟩ := names_of_parseSignature? hparen hsignature
  exact ⟨howner, hname, types_of_parseParameters? hparameters⟩

def signatureText (m : Matcher) : List Char :=
  m.owner.toList ++ if m.name = Method.constructorName then [] else '#' :: m.name.toList

def parametersText (m : Matcher) : List Char :=
  match m.parameters with
  | some types => '(' :: ([',', ' '].intercalate (types.map String.toList) ++ [')'])
  | none => []

theorem toList_text (m : Matcher) : m.text.toList = m.signatureText ++ m.parametersText := by
  unfold text signatureText parametersText
  rw [String.toList_append, String.toList_append]
  congr 1
  · congr 1
    split
    · rfl
    · rw [String.toList_append]
      rfl
  · cases m.parameters with
    | none => rfl
    | some types =>
      dsimp only
      rw [String.toList_append, String.toList_append, String.toList_intercalate]
      rfl

theorem isName_iff : isName cs ↔ cs ≠ [] ∧ ∀ c ∈ cs, ¬ Text.isBlank c ∧ c ≠ '#' := by
  simp [isName]

theorem parseSignature?_signatureText (h : m.Readable) :
    parseSignature? m.signatureText = some (m.owner, m.name) := by
  have hsharp : ∀ c ∈ m.owner.toList, (c != '#') = true := fun c hc =>
    bne_iff_ne.2 ((isName_iff.1 h.owner.1).2 c hc).2
  unfold parseSignature? signatureText
  dsimp only
  rw [List.takeWhile_append_of_pos hsharp, List.dropWhile_append_of_pos hsharp]
  by_cases hconstructor : m.name = Method.constructorName
  · simp [h.owner.1, hconstructor]
  · simp [h.owner.1, h.name.1, hconstructor]

theorem exists_not_blank {s : String} (h : Types s) : ∃ c ∈ s.toList, ¬ Text.isBlank c := by
  by_contra hblank
  have hnil : Text.trim s.toList = [] := Text.trim_eq_nil_iff.2 (by simpa using hblank)
  have htype := h.1
  rw [← h.2.2, hnil] at htype
  contradiction

theorem parseParameters?_parametersText (h : m.Readable) :
    parseParameters? m.parametersText = some m.parameters := by
  unfold parametersText
  cases hparameters : m.parameters with
  | none => rfl
  | some types =>
    have htypes : ∀ s ∈ types, Types s := h.parameters types hparameters
    simp only [parseParameters?, List.getLast?_concat, if_true, List.dropLast_concat]
    cases types with
    | nil => rfl
    | cons s types =>
      have hcomma : ∀ cs ∈ s.toList :: types.map String.toList, ',' ∉ cs := by
        rw [← List.map_cons]
        intro cs hcs
        obtain ⟨s, hs, rfl⟩ := List.mem_map.1 hcs
        exact (htypes s hs).2.1
      have hnil : Text.trim ([',', ' '].intercalate (s.toList :: types.map String.toList)) ≠ [] := by
        intro hnil
        obtain ⟨c, hc, hblank⟩ := exists_not_blank (htypes s (.head _))
        refine hblank (Text.trim_eq_nil_iff.1 hnil c ?_)
        cases types <;> simp [List.intercalate_cons_cons, hc]
      have htrim : (s.toList :: (types.map String.toList).map (' ' :: ·)).map Text.trim =
          (s :: types).map String.toList := by
        rw [List.map_cons, List.map_map, List.map_map, List.map_cons, (htypes s (.head _)).2.2]
        refine congrArg _ (List.map_congr_left fun t ht => ?_)
        exact (Text.trim_cons_of_isBlank rfl _).trans (htypes t (.tail _ ht)).2.2
      have hall : ((s :: types).map String.toList).all isType := by
        rw [List.all_map, List.all_eq_true]
        exact fun t ht => (htypes t ht).1
      rw [List.map_cons, List.isEmpty_eq_false_iff.2 hnil,
        Text.splitAt_intercalate (by decide) hcomma, if_neg Bool.false_ne_true, htrim, if_pos hall,
        List.map_map]
      simp [Function.comp_def]

theorem mem_signatureText (h : m.Readable) {c : Char} (hc : c ∈ m.signatureText) :
    ¬ Text.isBlank c ∧ c ≠ '(' := by
  have hnames {s : String} (hs : Names s) (hc : c ∈ s.toList) : ¬ Text.isBlank c ∧ c ≠ '(' :=
    ⟨((isName_iff.1 hs.1).2 c hc).1, fun heq => hs.2 (heq ▸ hc)⟩
  unfold signatureText at hc
  rcases List.mem_append.1 hc with hc | hc
  · exact hnames h.owner hc
  · split at hc
    · contradiction
    · rcases List.mem_cons.1 hc with rfl | hc
      · decide
      · exact hnames h.name hc

theorem parametersText_cases (m : Matcher) :
    m.parametersText = [] ∨ ∃ inner, m.parametersText = '(' :: (inner ++ [')']) := by
  unfold parametersText
  cases m.parameters with
  | none => exact .inl rfl
  | some types => exact .inr ⟨_, rfl⟩

theorem trim_text (h : m.Readable) : Text.trim m.text.toList = m.text.toList := by
  have howner : m.owner.toList ≠ [] := (isName_iff.1 h.owner.1).1
  have hsignature : m.signatureText ≠ [] := List.append_ne_nil_of_left_ne_nil howner _
  rw [toList_text]
  apply Text.trim_eq_self
  · intro _
    rw [List.head_append_of_ne_nil hsignature]
    exact (mem_signatureText h (List.head_mem hsignature)).1
  · rcases parametersText_cases m with hnone | ⟨inner, hsome⟩
    · rw [hnone, List.append_nil]
      exact fun hne => (mem_signatureText h (List.getLast_mem hne)).1
    · rw [hsome, ← List.cons_append, ← List.append_assoc]
      intro hne
      rw [List.getLast_concat]
      decide

/-- A matcher whose parts can be told apart is read back from its printed form. -/
theorem Readable.parse_text (h : m.Readable) : parse m.text = .ok (some m) := by
  have hparen : ∀ c ∈ m.signatureText, (c != '(') = true := fun c hc =>
    bne_iff_ne.2 (mem_signatureText h hc).2
  have hcut : m.parametersText.takeWhile (· != '(') = [] ∧
      m.parametersText.dropWhile (· != '(') = m.parametersText := by
    rcases parametersText_cases m with hnone | ⟨inner, hsome⟩
    · rw [hnone]
      exact ⟨rfl, rfl⟩
    · rw [hsome]
      exact ⟨rfl, rfl⟩
  rw [parse_eq_some_iff, trim_text h, toList_text, parseTrimmed?_eq_some_iff,
    List.takeWhile_append_of_pos hparen, List.dropWhile_append_of_pos hparen, hcut.1, hcut.2,
    List.append_nil]
  refine ⟨?_, parseParameters?_parametersText h, parseSignature?_signatureText h⟩
  have howner : m.owner.toList ≠ [] := (isName_iff.1 h.owner.1).1
  exact List.append_ne_nil_of_left_ne_nil (List.append_ne_nil_of_left_ne_nil howner _) _

/-- Printing a matcher that was read from a text, and reading it again, gives the same matcher; so
the printed text matches the methods that the first text matches. -/
theorem parse_text_of_parse {t : String} (h : parse t = .ok (some m)) :
    parse m.text = .ok (some m) ∧
      ∃ ms, Matchers.parse t = .ok ms ∧ Matchers.parse m.text = .ok ms ∧
        ∀ method, ms.accepts method = m.accepts method := by
  have htext := (readable_of_parse h).parse_text
  refine ⟨htext, [m], ?_, ?_, ?_⟩
  · rw [Matchers.parse, h]
    rfl
  · rw [Matchers.parse, htext]
    rfl
  · intro method
    rw [Matchers.accepts, List.any_cons, List.any_nil, Bool.or_false]

theorem parse_text_of_parse_blanks :
    parse "\u3000a.Pool)#<init>( java.lang. String\t,\u00A0int#x )\n" =
        .ok (some ⟨"a.Pool)", "<init>", some ["java.lang. String", "int#x"]⟩) ∧
      parse "a.Pool)(java.lang. String, int#x)" =
        .ok (some ⟨"a.Pool)", "<init>", some ["java.lang. String", "int#x"]⟩) := by
  have h : parse "\u3000a.Pool)#<init>( java.lang. String\t,\u00A0int#x )\n" =
      .ok (some ⟨"a.Pool)", "<init>", some ["java.lang. String", "int#x"]⟩) := by rfl
  exact ⟨h, (parse_text_of_parse h).1⟩

end Matcher

end Pathwise
