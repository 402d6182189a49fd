import Pathwise.Program.Json
import Pathwise.Proofs.JsonText

namespace Pathwise

namespace Json

/-- What is written of `a` can be read, and is read back as `a`. -/
structure Restores {α : Type} (toJson : α → Json) (ofJson? : Json → Option α) (a : α) : Prop where
  readable : Readable (toJson a)
  read : ofJson? (toJson a) = some a

theorem digitsValue_toDigits (n : Nat) : digitsValue (Nat.toDigits 10 n) = n := by
  rw [digitsValue, ← Nat.ofDigitChars_eq_foldl]
  exact Nat.ofDigitChars_toDigits (by decide) (by decide)

theorem head?_toDigits {n : Nat} (h : n ≠ 0) : (Nat.toDigits 10 n).head? ≠ some '0' := by
  induction n using Nat.strongRecOn with
  | _ n ih =>
    by_cases hlt : n < 10
    · rw [Nat.toDigits_of_lt_base hlt]
      have hdigits : ∀ d < 10, d ≠ 0 → Nat.digitChar d ≠ '0' := by decide
      simpa using hdigits n hlt h
    · have hdiv : n / 10 < n := Nat.div_lt_self (Nat.pos_of_ne_zero h) (by decide)
      have hrest := ih (n / 10) hdiv (by omega)
      obtain ⟨c, cs, hcs⟩ := List.exists_cons_of_ne_nil (Nat.toDigits_ne_nil (b := 10) (n := n / 10))
      rw [Nat.toDigits_of_base_le (by decide) (Nat.le_of_not_lt hlt)]
      rw [hcs] at hrest ⊢
      exact hrest

theorem Number.wellFormed_toDigits (negative : Bool) (n : Nat) :
    Number.WellFormed { negative, whole := Nat.toDigits 10 n } where
  whole _ hc := Nat.isDigit_of_mem_toDigits (by decide) (by decide) hc
  whole_ne := Nat.toDigits_ne_nil
  no_zero c cs hcs := by
    dsimp only at hcs
    by_cases h : n = 0
    · subst h
      cases hcs
    · exact head?_toDigits h (congrArg List.head? hcs)
  fraction := List.forall_mem_nil _
  exponent _ he := by cases he

theorem toInt?_ofNat (n : Nat) : (Number.ofNat n).toInt? = some (n : Int) := by
  simp [Number.toInt?, Number.ofNat, Number.isWhole, digitsValue_toDigits]

theorem toInt?_ofInt (i : Int) : (Number.ofInt i).toInt? = some i := by
  simp only [Number.toInt?, Number.ofInt, Number.isWhole, digitsValue_toDigits, List.isEmpty_nil,
    Option.isNone_none, Bool.and_self, if_true, decide_eq_true_eq]
  by_cases h : i < 0
  · rw [if_pos h, if_neg (by omega), Int.ofNat_natAbs_of_nonpos (Int.le_of_lt h), Int.neg_neg]
  · rw [if_neg h, Int.natAbs_of_nonneg (Int.not_lt.1 h)]

theorem restores_uint64 (n : UInt64) : Restores ofUInt64 uint64? n := by
  constructor
  · exact .number (Number.wellFormed_toDigits false n.toNat)
  · have hrange : 0 ≤ (n.toNat : Int) ∧ (n.toNat : Int).toNat < UInt64.size :=
      ⟨Int.natCast_nonneg _, n.toNat_lt_size⟩
    change (Number.ofNat n.toNat).toUInt64? = some n
    rw [Number.toUInt64?, toInt?_ofNat, Option.bind_eq_bind, Option.bind_some, if_pos hrange,
      Int.toNat_natCast, UInt64.ofNat_toNat]

theorem restores_int64 (i : Int64) : Restores (fun i : Int64 => ofInt i.toInt) int64? i := by
  constructor
  · exact .number (Number.wellFormed_toDigits _ _)
  · change (Number.ofInt i.toInt).toInt64? = some i
    rw [Number.toInt64?, toInt?_ofInt, Option.bind_eq_bind, Option.bind_some,
      if_pos ⟨i.minValue_le_toInt, i.toInt_le⟩, Int64.ofInt_toInt]

theorem restores_list {α : Type} {toJson : α → Json} {ofJson? : Json → Option α} {as : List α}
    (h : ∀ a ∈ as, Restores toJson ofJson? a) :
    Restores (fun as => array (as.map toJson)) (list? ofJson?) as := by
  constructor
  · refine .array fun j hj => ?_
    obtain ⟨a, ha, rfl⟩ := List.mem_map.1 hj
    exact (h a ha).readable
  · change (as.map toJson).mapM ofJson? = some as
    induction as with
    | nil => rfl
    | cons a as ih =>
      have ha := (h a (.head _)).read
      have has := ih fun a ha => h a (.tail _ ha)
      simp [ha, has]

theorem lookup_of_nodup {members : List (String × Json)} (h : (members.map Prod.fst).Nodup)
    {m : String × Json} (hm : m ∈ members) : members.lookup m.1 = some m.2 := by
  induction members with
  | nil => contradiction
  | cons m' members ih =>
    obtain ⟨hnot, hnodup⟩ := List.nodup_cons.1 h
    rcases List.mem_cons.1 hm with rfl | hm
    · exact List.lookup_cons_self
    · have hne : (m.1 == m'.1) = false := by
        rw [beq_eq_false_iff_ne]
        intro heq
        exact hnot (heq ▸ List.mem_map_of_mem hm)
      rw [List.lookup_cons, hne]
      exact ih hnodup hm

theorem fields?_object {members : List (String × Json)} {names : List String}
    (hnames : members.map Prod.fst = names) (h : names.Nodup) :
    (object members).fields? names = some (members.map fun m => some m.2) := by
  subst hnames
  have hknown : (members.filter fun m => (members.map Prod.fst).contains m.1) = members := by
    rw [List.filter_eq_self]
    intro m hm
    exact List.contains_iff_mem.2 (List.mem_map_of_mem hm)
  simp only [fields?, hknown, if_pos h, List.map_map]
  congr 1
  exact List.map_congr_left fun m hm => lookup_of_nodup h hm

@[simp] theorem required_some {α : Type} (read? : Json → Option α) (j : Json) :
    required read? (some j) = read? j := rfl

@[simp] theorem optional_some {α : Type} (absent : α) (read? : Json → Option α) (j : Json) :
    optional absent read? (some j) = read? j := rfl

@[simp] theorem variant?_string (name : String) : (string name).variant? = some (name, none) := rfl

@[simp] theorem variant?_tagged (name : String) (content : Json) :
    (tagged name content).variant? = some (name, some content) := rfl

@[simp] theorem readable_string (s : String) : Readable (string s) := .string s

@[simp] theorem readable_bool (b : Bool) : Readable (bool b) := .bool b

@[simp] theorem readable_ofUInt64 (n : UInt64) : Readable (ofUInt64 n) :=
  (restores_uint64 n).readable

@[simp] theorem string?_string (s : String) : string? (string s) = some s := rfl

@[simp] theorem bool?_bool (b : Bool) : bool? (bool b) = some b := rfl

@[simp] theorem uint64?_ofUInt64 (n : UInt64) : uint64? (ofUInt64 n) = some n :=
  (restores_uint64 n).read

@[simp] theorem readable_object {members : List (String × Json)} :
    Readable (object members) ↔ ∀ m ∈ members, Readable m.2 := by
  constructor
  · intro h
    cases h with
    | object h => exact h
  · exact .object

@[simp] theorem readable_tagged {name : String} {content : Json} :
    Readable (tagged name content) ↔ Readable content := by
  simp [tagged]

end Json

open Json

theorem Position.restores (p : Position) : Restores toJson ofJson? p := by
  cases p with
  | unknown => exact ⟨.string _, rfl⟩
  | source line col => constructor <;> simp [toJson, ofJson?, fields?_object]

@[simp] theorem Position.readable (p : Position) : Readable p.toJson := p.restores.readable

@[simp] theorem Position.field?_toJson (p : Position) : field? (some p.toJson) = some p :=
  p.restores.read

theorem ValueType.restores (t : ValueType) : Restores toJson ofJson? t := by
  cases t with
  | reference className => constructor <;> simp [toJson, ofJson?, fields?_object]
  | _ => exact ⟨.string _, rfl⟩

def Literal.isFloat : Literal → Bool
  | float _ => true
  | _ => false

theorem Literal.restores {l : Literal} (h : ¬ l.isFloat) : Restores toJson ofJson? l := by
  cases l with
  | null => exact ⟨.string _, rfl⟩
  | bool b => exact ⟨readable_tagged.2 (.bool b), rfl⟩
  | int i =>
    have hi := restores_int64 i
    exact ⟨readable_tagged.2 hi.readable, by simp [toJson, ofJson?, hi.read]⟩
  | float x => exact absurd rfl h
  | str s => exact ⟨readable_tagged.2 (.string s), rfl⟩

theorem Method.restores (m : Method) : Restores toJson ofJson? m := by
  have htypes : Restores ofStrings (list? string?) m.parameterTypes :=
    restores_list fun name _ => ⟨.string name, rfl⟩
  have hreturns := m.returns.restores
  constructor
  · simp [toJson, htypes.readable, hreturns.readable]
  · simp [toJson, ofJson?, fields?_object, htypes.read, hreturns.read]

/-- The null literal is not taken for a missing constant. -/
theorem Argument.constant?_toJson {l : Literal} (h : ¬ l.isFloat) :
    constant? l.toJson = some (some l) := by
  have hread : constant? l.toJson = (Literal.ofJson? l.toJson).map some := by
    cases l <;> rfl
  rw [hread, (Literal.restores h).read]
  rfl

theorem Argument.restores {a : Argument} (h : ∀ l ∈ a.constant, ¬ l.isFloat) :
    Restores toJson ofJson? a := by
  obtain ⟨constant⟩ := a
  cases constant with
  | none =>
    have hnull : Readable .null := .null
    exact ⟨by simp [toJson, ofOption, hnull], rfl⟩
  | some l =>
    have hl := h l rfl
    constructor
    · simp [toJson, ofOption, (Literal.restores hl).readable]
    · simp [toJson, ofJson?, fields?_object, ofOption, constant?_toJson hl]

theorem restores_arguments {arguments : List Argument}
    (h : ∀ l ∈ arguments.filterMap (·.constant), ¬ l.isFloat) :
    Restores (fun as => .array (as.map Argument.toJson)) (list? Argument.ofJson?) arguments := by
  refine restores_list fun a ha => Argument.restores fun l hl => ?_
  exact h l (List.mem_filterMap.2 ⟨a, ha, hl⟩)

theorem BinaryOp.ofJson?_word (op : BinaryOp) : ofJson? (.string op.word) = some op := by
  cases op <;> decide

theorem UnaryOp.ofJson?_word (op : UnaryOp) : ofJson? (.string op.word) = some op := by
  cases op <;> rfl

def Instruction.literals : Instruction → List Literal
  | literal value _ => [value]
  | newObject _ arguments _ | invoke _ _ arguments _ => arguments.filterMap (·.constant)
  | _ => []

theorem Instruction.restores {i : Instruction} (h : ∀ l ∈ i.literals, ¬ l.isFloat) :
    Restores toJson ofJson? i := by
  cases i with
  | literal value pos =>
    have hvalue := Literal.restores (h value (.head _))
    constructor
    · simp [toJson, hvalue.readable]
    · simp [toJson, ofJson?, ofContent?, fields?_object, hvalue.read]
  | read var pos => constructor <;> simp [toJson, ofJson?, ofContent?, fields?_object]
  | assign var pos => constructor <;> simp [toJson, ofJson?, ofContent?, fields?_object]
  | pop pos => constructor <;> simp [toJson, ofJson?, ofContent?, fields?_object]
  | newObject method arguments pos =>
    have hmethod := method.restores
    have harguments := restores_arguments h
    constructor
    · simp [toJson, hmethod.readable, harguments.readable]
    · simp [toJson, ofJson?, ofContent?, fields?_object, Argument.listField?, hmethod.read,
        harguments.read]
  | invoke method receiver arguments pos =>
    have hmethod := method.restores
    have harguments := restores_arguments h
    constructor
    · simp [toJson, hmethod.readable, harguments.readable]
    · simp [toJson, ofJson?, ofContent?, fields?_object, Argument.listField?, hmethod.read,
        harguments.read]
  | memberSelect field type pos =>
    have htype := type.restores
    constructor
    · simp [toJson, htype.readable]
    · simp [toJson, ofJson?, ofContent?, fields?_object, htype.read]
  | binary op pos =>
    constructor <;> simp [toJson, ofJson?, ofContent?, fields?_object, op.ofJson?_word]
  | unary op pos =>
    constructor <;> simp [toJson, ofJson?, ofContent?, fields?_object, op.ofJson?_word]

theorem Terminator.restores (t : Terminator) : Restores toJson ofJson? t := by
  cases t with
  | exit => exact ⟨.string _, rfl⟩
  | _ => constructor <;> simp [toJson, ofJson?, fields?_object]

def Block.literals (b : Block) : List Literal := b.instructions.flatMap Instruction.literals

theorem Block.restores {b : Block} (h : ∀ l ∈ b.literals, ¬ l.isFloat) :
    Restores toJson ofJson? b := by
  have hinstructions := restores_list fun i hi =>
    Instruction.restores fun l hl => h l (List.mem_flatMap.2 ⟨i, hi, hl⟩)
  have hterminator := b.terminator.restores
  have hhandlers := restores_list fun n (_ : n ∈ b.handlers) => restores_uint64 n
  constructor
  · simp [toJson, hinstructions.readable, hterminator.readable, hhandlers.readable]
  · simp [toJson, ofJson?, fields?_object, hinstructions.read, hterminator.read, hhandlers.read]

theorem Parameter.restores (p : Parameter) : Restores toJson ofJson? p := by
  have htype := p.type.restores
  constructor
  · simp [toJson, htype.readable]
  · simp [toJson, ofJson?, fields?_object, htype.read]

def Routine.literals (r : Routine) : List Literal := r.blocks.flatMap Block.literals

theorem Routine.restores {r : Routine} (h : ∀ l ∈ r.literals, ¬ l.isFloat) :
    Restores toJson ofJson? r := by
  have hparameters := restores_list fun p (_ : p ∈ r.parameters) => p.restores
  have hblocks := restores_list fun b hb =>
    Block.restores fun l hl => h l (List.mem_flatMap.2 ⟨b, hb, hl⟩)
  constructor
  · simp [toJson, hparameters.readable, hblocks.readable]
  · simp [toJson, ofJson?, fields?_object, hparameters.read, hblocks.read]

def Program.literals (p : Program) : List Literal := p.routines.flatMap Routine.literals

theorem Program.restores {p : Program} (h : ∀ l ∈ p.literals, ¬ l.isFloat) :
    Restores toJson ofJson? p := by
  have hroutines := restores_list fun r hr =>
    Routine.restores fun l hl => h l (List.mem_flatMap.2 ⟨r, hr, hl⟩)
  constructor
  · simp [toJson, hroutines.readable]
  · simp [toJson, ofJson?, fields?_object, hroutines.read]

/-- A program without floating-point literals is read back from its compact text. -/
theorem Program.parse?_render {p : Program} (h : ∀ l ∈ p.literals, ¬ l.isFloat) :
    parse? p.render = some p := by
  have hp := Program.restores h
  rw [parse?, render, Json.parse?_compact hp.readable]
  exact hp.read

/-- A call with a null constant, the lowest integer and an argument that is no constant. The names
have characters that are escaped and others outside of ASCII. -/
def Program.escaped : Program where
  routines := [{
    name := "\"say\"\\\n\x01"
    parameters := [{ name := "é😀", type := .reference "", pos := .source 0 18446744073709551615 }]
    entry := 7
    blocks := [{
      id := 7
      instructions := [
        .invoke ⟨"a/b", "\t", ["\x7f"], .boxedBoolean, false⟩ true
          [⟨some .null⟩, ⟨some (.int Int64.minValue)⟩, ⟨none⟩] .unknown,
        .literal (.str "null") (.source 3 9)]
      terminator := .branch 7 8 .unknown
      handlers := [8] }] }]

theorem Program.parse?_render_escaped :
    escaped.literals = [.null, .int Int64.minValue, .str "null"] ∧
      parse? escaped.render = some escaped :=
  ⟨rfl, parse?_render (by decide)⟩

end Pathwise
