import FlatRecord.Header
import FlatRecord.Proofs.FieldPrinting
import FlatRecord.Proofs.Storage
import FlatRecord.Proofs.WellFormed

/-!
# What the text of a class is made of

The source of a class is put together from fixed pieces of text, the names of the
record and its fields, the spellings of their types, and numbers. Here it is told,
line by line, what that comes to (`MadeOf`): no line holds a character that would
begin a comment or a directive or end the line, and each identifier in it is one of
the fixed pieces (`sourceWords`) or one of the names and spellings that the record
brings along (`Record.vocabulary`).

Comments are left out. `ClassDecl.uncommented` are the lines of a class without the
documentation of its record and fields and without the notes behind its constants;
what comments do to the text is the matter of `FlatRecord.Proofs.Comments`.
-/

namespace FlatRecord

/-! ## Characters and words -/

namespace Text

/-- Whether a character only stands for itself: it takes no part in comments,
directives and the ends of lines. -/
def isPlain (c : Char) : Bool := c != '/' && c != '#' && c != '\n'

theorem isPlain_iff {c : Char} : isPlain c = true ↔ (c ≠ '/' ∧ c ≠ '#') ∧ c ≠ '\n' := by
  simp [isPlain]

theorem isPlain_of_isIdentifierPart {c : Char} (h : isIdentifierPart c = true) :
    isPlain c = true :=
  isPlain_iff.2 ⟨⟨ne_of_isIdentifierPart h rfl, ne_of_isIdentifierPart h rfl⟩,
    ne_of_isIdentifierPart h rfl⟩

theorem isIdentifierPart_of_isDigit {c : Char} (h : c.isDigit = true) :
    isIdentifierPart c = true := by
  simp only [isIdentifierPart, h, Bool.or_true, Bool.true_or]

/-- What holds of all characters of a text when they are tried one by one. -/
theorem forall_mem_of_all {P : Char → Prop} [DecidablePred P] {cs : List Char}
    (h : cs.all (fun c => decide (P c)) = true) : ∀ c ∈ cs, P c := by
  simpa using h

/-- No identifier begins with a digit. -/
theorem isIdentifierStart_of_isDigit {c : Char} (h : c.isDigit = true) :
    isIdentifierStart c = false := by
  have hdigits : ∀ n < 0x3A, 0x30 ≤ n → isIdentifierStart (Char.ofNat n) = false := by decide
  obtain ⟨hfirst, hlast⟩ := Bool.and_eq_true_iff.1 h
  rw [← Char.ofNat_toNat c]
  exact hdigits c.toNat (Nat.lt_succ_of_le (of_decide_eq_true hlast)) (of_decide_eq_true hfirst)

/-- The identifiers in a text: the longest runs of characters that may stand in one,
short of those that begin with a digit. -/
def identifiers (cs : List Char) : List (List Char) :=
  (pieces (fun c => !isIdentifierPart c) cs).filter isIdentifier

theorem identifiers_nil : identifiers [] = [] := rfl

/-- An identifier is the only one in itself. -/
theorem identifiers_of_isIdentifier {cs : List Char} (h : isIdentifier cs = true) :
    identifiers cs = [cs] := by
  rw [identifiers, pieces_eq_singleton, List.filter_cons_of_pos h, List.filter_nil]
  intro c hc
  rw [isIdentifierPart_of_mem h hc, Bool.not_true]

/-- A number is no identifier. -/
theorem identifiers_of_isDigit {cs : List Char} (h : ∀ c ∈ cs, c.isDigit = true) :
    identifiers cs = [] := by
  have hpieces : pieces (fun c => !isIdentifierPart c) cs = [cs] :=
    pieces_eq_singleton fun c hc => by rw [isIdentifierPart_of_isDigit (h c hc), Bool.not_true]
  rw [identifiers, hpieces, List.filter_cons_of_neg, List.filter_nil]
  cases cs with
  | nil => exact Bool.false_ne_true
  | cons c cs =>
    rw [isIdentifier, isIdentifierStart_of_isDigit (h c List.mem_cons_self), Bool.false_and]
    exact Bool.false_ne_true

/-- The identifiers on either side of a character that may not stand in one are the
identifiers of either side. -/
theorem identifiers_append_cons {c : Char} (hc : isIdentifierPart c = false)
    (before after : List Char) :
    identifiers (before ++ c :: after) = identifiers before ++ identifiers after := by
  rw [identifiers, pieces_append_cons (by rw [hc]; rfl), List.filter_append]
  rfl

/-- **Where no identifier runs on from one text into the next**, the identifiers of
both are those of each. -/
theorem identifiers_append {before after : List Char}
    (h : before.getLast?.any isIdentifierPart = false
      ∨ after.head?.any isIdentifierPart = false) :
    identifiers (before ++ after) = identifiers before ++ identifiers after := by
  rcases h with h | h
  · rcases List.eq_nil_or_concat before with rfl | ⟨cs, c, rfl⟩
    · rfl
    · rw [List.concat_eq_append] at h ⊢
      rw [List.getLast?_append_cons, List.getLast?_singleton] at h
      have hsplit := identifiers_append_cons (c := c) h cs
      rw [List.append_assoc, List.singleton_append, hsplit, hsplit, identifiers_nil,
        List.append_nil]
  · cases after with
    | nil => rw [List.append_nil, identifiers_nil, List.append_nil]
    | cons c after =>
      have hsplit := identifiers_append_cons (c := c) h
      rw [hsplit before, ← List.nil_append (c :: after), hsplit [], identifiers_nil,
        List.nil_append]

end Text

/-! ## Text made of known words -/

/-- The identifiers in the fixed pieces of a class. -/
def sourceWords : List String :=
  ["class", "public", "private", "inline", "static", "constexpr", "const", "void", "char",
   "unsigned", "return", "this", "operator", "noexcept", "buffer_size", "Record", "size_t",
   "alloc", "assign_buffer", "buffer_at", "buffer_at_cstr", "buffer_at_str", "istr",
   "read_size", "buffer", "other", "std", "istream", "move", "array", "optional", "string",
   "string_view", "c_str"]

/-- **A text is made of plain characters and known words**: those of the fixed pieces
and further ones. -/
structure MadeOf (names : List String) (text : String) : Prop where
  /-- Its characters only stand for themselves. -/
  plain : ∀ c ∈ text.toList, Text.isPlain c = true
  /-- Its identifiers are known. -/
  known : ∀ w ∈ Text.identifiers text.toList,
    String.ofList w ∈ sourceWords ∨ String.ofList w ∈ names

/-- **A text that a word may follow**: it is made of known words and ends in none. -/
structure Phrase (names : List String) (text : String) : Prop extends MadeOf names text where
  /-- It does not end within a word. -/
  ended : text.toList.getLast?.any Text.isIdentifierPart = false

/-- Whether a text holds nothing but fixed words between plain characters. -/
def isSource (cs : List Char) : Bool :=
  cs.all Text.isPlain
    && (Text.identifiers cs).all fun w => sourceWords.contains (String.ofList w)

/-- Whether a text is a fixed piece that a word may follow. -/
def isFixed (cs : List Char) : Bool :=
  isSource cs && cs.getLast?.any (!Text.isIdentifierPart ·)

/-- Whether a text does not go on with a word that came before it. -/
def isApart (cs : List Char) : Bool := cs.head?.any (!Text.isIdentifierPart ·)

section MadeOf

variable {names : List String} {a b : String} {cs : List Char}

theorem MadeOf.mono {names' : List String} (h : MadeOf names a) (hsub : names ⊆ names') :
    MadeOf names' a :=
  ⟨h.plain, fun w hw => (h.known w hw).imp_right (@hsub _)⟩

theorem MadeOf.append (ha : MadeOf names a) (hb : MadeOf names b)
    (h : a.toList.getLast?.any Text.isIdentifierPart = false
      ∨ b.toList.head?.any Text.isIdentifierPart = false) : MadeOf names (a ++ b) := by
  constructor
  · rw [String.toList_append, List.forall_mem_append]
    exact ⟨ha.plain, hb.plain⟩
  · rw [String.toList_append, Text.identifiers_append h, List.forall_mem_append]
    exact ⟨ha.known, hb.known⟩

/-- A word may follow a phrase. -/
theorem Phrase.word (ha : Phrase names a) (hb : MadeOf names b) : MadeOf names (a ++ b) :=
  ha.toMadeOf.append hb (.inl ha.ended)

theorem MadeOf.of_isSource (h : isSource cs = true) : MadeOf names (String.ofList cs) := by
  simp only [isSource, Bool.and_eq_true, List.all_eq_true, List.contains_iff_mem] at h
  constructor
  · rw [String.toList_ofList]
    exact h.1
  · rw [String.toList_ofList]
    exact fun w hw => .inl (h.2 w hw)

theorem isFixed_iff : isFixed cs = true ↔
    isSource cs = true ∧ ∃ c, cs.getLast? = some c ∧ Text.isIdentifierPart c = false := by
  simp [isFixed, Option.any_eq_true]

theorem Phrase.of_isFixed (h : isFixed cs = true) : Phrase names (String.ofList cs) := by
  obtain ⟨hsource, c, hlast, hc⟩ := isFixed_iff.1 h
  exact ⟨.of_isSource hsource, by rw [String.toList_ofList, hlast]; exact hc⟩

theorem Phrase.indent : Phrase names "    " := .of_isFixed rfl

theorem MadeOf.append_isFixed (hacs : MadeOf names (a ++ String.ofList cs))
    (h : isFixed cs = true) : Phrase names (a ++ String.ofList cs) := by
  obtain ⟨-, c, hlast, hc⟩ := isFixed_iff.1 h
  refine ⟨hacs, ?_⟩
  rw [String.toList_append, String.toList_ofList, List.getLast?_append, hlast]
  exact hc

/-- A fixed piece may follow a phrase. -/
theorem Phrase.more (ha : Phrase names a) (h : isFixed cs = true) :
    Phrase names (a ++ String.ofList cs) :=
  (ha.word (Phrase.of_isFixed h).toMadeOf).append_isFixed h

/-- Fixed words may follow a word when they are apart from it. -/
theorem MadeOf.source (ha : MadeOf names a) (h : (isApart cs && isSource cs) = true) :
    MadeOf names (a ++ String.ofList cs) := by
  obtain ⟨hapart, hsource⟩ := Bool.and_eq_true_iff.1 h
  refine ha.append (.of_isSource hsource) (.inr ?_)
  obtain ⟨c, hhead, hc⟩ := (Option.any_eq_true _ _).1 hapart
  rw [String.toList_ofList, hhead]
  simpa using hc

/-- A fixed piece may follow a word when it is apart from it. -/
theorem MadeOf.text (ha : MadeOf names a) (h : (isApart cs && isFixed cs) = true) :
    Phrase names (a ++ String.ofList cs) := by
  obtain ⟨hapart, hfixed⟩ := Bool.and_eq_true_iff.1 h
  refine (ha.source ?_).append_isFixed hfixed
  rw [hapart, (isFixed_iff.1 hfixed).1, Bool.and_true]

/-- A name is made of itself. -/
theorem MadeOf.of_isIdentifier (h : Text.isIdentifier a.toList = true) (hmem : a ∈ names) :
    MadeOf names a := by
  refine ⟨fun c hc => Text.isPlain_of_isIdentifierPart (Text.isIdentifierPart_of_mem h hc), ?_⟩
  rw [Text.identifiers_of_isIdentifier h]
  intro w hw
  obtain rfl := List.mem_singleton.1 hw
  exact .inr (by rwa [String.ofList_toList])

/-- A number is made of digits. -/
theorem MadeOf.of_nat (n : Nat) : MadeOf names n.repr := by
  have hdigit : ∀ c ∈ n.repr.toList, c.isDigit = true := fun c hc => by
    rw [Nat.toList_repr] at hc
    exact Nat.isDigit_of_mem_toDigits (by decide) (by decide) hc
  constructor
  · intro c hc
    exact Text.isPlain_of_isIdentifierPart (Text.isIdentifierPart_of_isDigit (hdigit c hc))
  · rw [Text.identifiers_of_isDigit hdigit]
    exact fun w hw => absurd hw List.not_mem_nil

theorem MadeOf.intercalate {texts : List String} (h : ∀ t ∈ texts, MadeOf names t) :
    MadeOf names (", ".intercalate texts) := by
  induction texts with
  | nil => exact ⟨nofun, nofun⟩
  | cons t texts ih =>
    obtain ⟨ht, htexts⟩ := List.forall_mem_cons.1 h
    cases texts with
    | nil => rwa [String.intercalate_singleton]
    | cons u texts =>
      rw [String.intercalate_cons_cons]
      exact (ht.text rfl).word (ih htexts)

end MadeOf

/-! ## Types -/

namespace TypeExpr

/-- The spelling of the scalar type that a type is built from. -/
def scalar : TypeExpr → String
  | .named spelling => spelling
  | .array element _ => element.scalar
  | .optional value => value.scalar
  | .constRef target => target.scalar

variable {names : List String} {t : TypeExpr}

theorem madeOf_render (h : MadeOf names t.scalar) : MadeOf names t.render := by
  induction t with
  | named => exact h
  | array element length ih =>
    have hopen : Phrase names "std::array<" := .of_isFixed rfl
    have helement : Phrase names ("std::array<" ++ element.render ++ ", ") :=
      (hopen.word (ih h)).text rfl
    exact ((helement.word (.of_nat length)).text rfl).toMadeOf
  | optional value ih =>
    have hopen : Phrase names "std::optional<" := .of_isFixed rfl
    exact ((hopen.word (ih h)).text rfl).toMadeOf
  | constRef target ih =>
    have hopen : Phrase names "const " := .of_isFixed rfl
    exact ((hopen.word (ih h)).text rfl).toMadeOf

theorem madeOf_declare {name : String} (h : MadeOf names t.scalar) (hname : MadeOf names name) :
    MadeOf names (t.declare name) := by
  have hrender := madeOf_render h
  have hspace : Phrase names (t.render ++ " ") := hrender.text rfl
  unfold declare
  dsimp only
  -- a mark at the end of the type keeps the name apart as well as a space
  split
  · rename_i hlast
    exact hrender.append hname (.inl (by rw [hlast]; rfl))
  · rename_i hlast
    exact hrender.append hname (.inl (by rw [hlast]; rfl))
  · exact hspace.word hname

end TypeExpr

namespace Field

theorem scalar_valueType (f : Field) (single : TypeExpr) :
    (f.valueType single).scalar = f.type.parameterForm
      ∨ (f.valueType single).scalar = single.scalar := by
  unfold valueType
  cases f.shape.length? with
  | none => right; dsimp only; split <;> rfl
  | some length => left; dsimp only; split <;> rfl

theorem scalar_parameterType (f : Field) : f.parameterType.scalar = f.type.parameterForm := by
  unfold parameterType
  dsimp only
  split
  · rfl
  · split
    · exact (f.scalar_valueType _).elim id id
    · rfl

theorem scalar_resultType (f : Field) :
    f.resultType.scalar = f.type.parameterForm ∨ f.resultType.scalar = f.type.resultForm := by
  unfold resultType
  dsimp only
  split
  · exact .inr rfl
  · exact f.scalar_valueType _

/-- The names that a field brings along: its own, that of its constant, and the
spellings of its type. -/
def vocabulary (f : Field) : List String :=
  [f.name, offsetConstant f.name, f.type.parameterForm, f.type.resultForm]

end Field

/-- The spellings of a type are made of themselves. -/
theorem ScalarType.madeOf_of_mem_catalog {t : ScalarType} (h : t ∈ catalog) :
    MadeOf [t.parameterForm, t.resultForm] t.parameterForm
      ∧ MadeOf [t.parameterForm, t.resultForm] t.resultForm := by
  have hspelling : ∀ t ∈ catalog, ∀ s ∈ [t.parameterForm, t.resultForm],
      (s.toList.all Text.isPlain && (Text.identifiers s.toList).all fun w =>
        sourceWords.contains (String.ofList w) || String.ofList w == s) = true := by
    decide +kernel
  have hmade : ∀ s ∈ [t.parameterForm, t.resultForm],
      MadeOf [t.parameterForm, t.resultForm] s := by
    intro s hs
    have hs' := hspelling t h s hs
    simp only [Bool.and_eq_true, List.all_eq_true, Bool.or_eq_true, List.contains_iff_mem,
      beq_iff_eq] at hs'
    refine ⟨hs'.1, fun w hw => (hs'.2 w hw).imp_right fun heq => ?_⟩
    rwa [heq]
  exact ⟨hmade _ List.mem_cons_self, hmade _ (List.mem_cons_of_mem _ List.mem_cons_self)⟩

/-! ## Members -/

/-- The name of a constant is an identifier, as the name of its field is one. -/
theorem isIdentifier_offsetConstant {name : String} (h : Text.isIdentifier name.toList = true) :
    Text.isIdentifier (offsetConstant name).toList = true := by
  have htoList : (offsetConstant name).toList = 'o' :: ("ffset_".toList ++ name.toList) := by
    rw [offsetConstant, String.toList_append]
    rfl
  have hparts : ∀ c ∈ "ffset_".toList ++ name.toList, Text.isIdentifierPart c = true := by
    rw [List.forall_mem_append]
    exact ⟨Text.forall_mem_of_all rfl, fun c hc => Text.isIdentifierPart_of_mem h hc⟩
  rw [htoList, Text.isIdentifier, List.all_eq_true.2 hparts, Bool.and_true]
  decide

namespace Field

variable {f : Field}

theorem madeOf_name (h : f.WellFormed) : MadeOf f.vocabulary f.name :=
  .of_isIdentifier h.name List.mem_cons_self

theorem madeOf_constant (h : f.WellFormed) : MadeOf f.vocabulary (offsetConstant f.name) :=
  .of_isIdentifier (isIdentifier_offsetConstant h.name)
    (List.mem_cons_of_mem _ List.mem_cons_self)

theorem madeOf_spellings (h : f.WellFormed) :
    MadeOf f.vocabulary f.type.parameterForm ∧ MadeOf f.vocabulary f.type.resultForm := by
  have hsub : [f.type.parameterForm, f.type.resultForm] ⊆ f.vocabulary := fun s hs =>
    List.mem_cons_of_mem _ (List.mem_cons_of_mem _ hs)
  obtain ⟨hparameter, hresult⟩ := ScalarType.madeOf_of_mem_catalog h.type
  exact ⟨hparameter.mono hsub, hresult.mono hsub⟩

theorem madeOf_parameter (h : f.WellFormed) : MadeOf f.vocabulary f.parameter.render :=
  TypeExpr.madeOf_declare (f.scalar_parameterType ▸ (madeOf_spellings h).1) (madeOf_name h)

theorem madeOf_resultType (h : f.WellFormed) : MadeOf f.vocabulary f.resultType.scalar := by
  obtain ⟨hparameter, hresult⟩ := madeOf_spellings h
  rcases f.scalar_resultType with heq | heq
  · rwa [heq]
  · rwa [heq]

theorem madeOf_value (h : f.WellFormed) : MadeOf f.vocabulary f.store.value := by
  have hname := madeOf_name h
  have hcall : MadeOf f.vocabulary (f.name ++ ".c_str()") :=
    (hname.text rfl).toMadeOf
  unfold store
  cases f.shape with
  | string capacity => exact hcall
  | scalar | array | optional | cString => exact hname

theorem madeOf_store (h : f.WellFormed) : MadeOf f.vocabulary f.store.render := by
  have hopen : Phrase f.vocabulary "assign_buffer(" := .of_isFixed rfl
  have hplace : Phrase f.vocabulary ("assign_buffer(" ++ f.store.constant ++ ", ") :=
    (hopen.word (f.constant_store ▸ madeOf_constant h)).text rfl
  have hvalue := hplace.word (madeOf_value h)
  cases hcapacity : f.store.capacity with
  | none =>
    rw [Store.render_of_capacity_none hcapacity]
    exact (hvalue.text rfl).toMadeOf
  | some n =>
    rw [Store.render_of_capacity_some hcapacity]
    have hcomma : Phrase f.vocabulary ("assign_buffer(" ++ f.store.constant ++ ", "
        ++ f.store.value ++ ", ") := hvalue.text rfl
    exact ((hcomma.word (.of_nat n)).text rfl).toMadeOf

theorem madeOf_getter (h : f.WellFormed) : MadeOf f.vocabulary f.getter.render := by
  have hopen : Phrase f.vocabulary (memberIndent ++ "inline ") :=
    Phrase.indent.more rfl
  have htype := TypeExpr.madeOf_render (madeOf_resultType h)
  have hdeclare := TypeExpr.madeOf_declare (madeOf_resultType h) (madeOf_name h)
  -- what a getter does with the buffer stands behind its signature
  have hbody : ∀ {signature call : String},
      MadeOf f.vocabulary (memberIndent ++ "inline " ++ signature) →
      MadeOf f.vocabulary call →
      MadeOf f.vocabulary (memberIndent ++ "inline " ++ signature ++ "() const \x7b return "
        ++ call ++ "(" ++ offsetConstant f.name ++ "); \x7d") := by
    intro signature call hsignature hcall
    have hreturn : Phrase f.vocabulary (memberIndent ++ "inline " ++ signature
        ++ "() const \x7b return ") := hsignature.text rfl
    have hplace : Phrase f.vocabulary (memberIndent ++ "inline " ++ signature
        ++ "() const \x7b return " ++ call ++ "(") :=
      (hreturn.word hcall).text rfl
    exact ((hplace.word (madeOf_constant h)).text rfl).toMadeOf
  have htyped : MadeOf f.vocabulary (memberIndent ++ "inline " ++ (f.resultType.render ++ " &"
      ++ f.name)) := by
    rw [← String.append_assoc, ← String.append_assoc]
    exact ((hopen.word htype).text rfl).word (madeOf_name h)
  unfold getter Getter.render
  cases f.shape with
  | string => exact hbody (hopen.word hdeclare) (.of_isSource rfl)
  | cString => exact hbody (hopen.word hdeclare) (.of_isSource rfl)
  | scalar | array | optional =>
    have hread : Phrase f.vocabulary "buffer_at<" := .of_isFixed rfl
    have hcall : MadeOf f.vocabulary ("buffer_at<" ++ f.resultType.render ++ ">") :=
      ((hread.word htype).text rfl).toMadeOf
    exact hbody htyped hcall

theorem eq_setter_of_mem {allMutable : Bool} {s : Setter}
    (hs : s ∈ (f.accessor allMutable).setter) : s = f.setter := by
  rw [Field.accessor] at hs
  split at hs
  · exact (Option.some.inj hs).symm
  · exact absurd hs (Option.not_mem_none _)

theorem madeOf_setter (h : f.WellFormed) : MadeOf f.vocabulary f.setter.render := by
  have hopen : Phrase f.vocabulary (memberIndent ++ "inline void ") :=
    Phrase.indent.more rfl
  have hname : Phrase f.vocabulary (memberIndent ++ "inline void " ++ f.name ++ "(") :=
    (hopen.word (madeOf_name h)).text rfl
  have hhead : Phrase f.vocabulary (memberIndent ++ "inline void " ++ f.name ++ "("
      ++ f.parameter.render ++ ") \x7b ") :=
    (hname.word (madeOf_parameter h)).text rfl
  exact ((hhead.word (madeOf_store h)).text rfl).toMadeOf

end Field

/-! ## Lines without comments -/

/-- The functions of an accessor, without comments. -/
def Accessor.uncommented (a : Accessor) : List String :=
  a.getter.render :: (a.setter.map Setter.render).toList

/-- A constant without the note behind it, up to where the note begins. -/
def OffsetConstant.uncommented (k : OffsetConstant) : String :=
  memberIndent ++ "static constexpr size_t " ++ k.name ++ " = " ++ k.offset.repr
    ++ (if k.padding = 0 then ";" else "; ")

namespace ClassDecl

/-- The line that begins a class. -/
def headLine (name : String) : String := "class " ++ name ++ " : public Record"

/-- The lines of a class, without comments. -/
def uncommented (c : ClassDecl) : List String :=
  [headLine c.name, "\x7b", "public:"]
    ++ c.valueConstructor
    ++ commonMembers c.name
    ++ c.accessors.flatMap Accessor.uncommented
    ++ ["", "private:"]
    ++ c.constants.map OffsetConstant.uncommented
    ++ ["    static constexpr size_t buffer_size = " ++ c.bufferSize.repr ++ ";"]
    ++ ["\x7d;"]

end ClassDecl

/-- The names that a record brings along: its own, and those of its fields. -/
def Record.vocabulary (r : Record) : List String := r.name :: r.fields.flatMap Field.vocabulary

namespace Record

variable {r : Record} {f : Field}

theorem vocabulary_subset (hf : f ∈ r.fields) : f.vocabulary ⊆ r.vocabulary := fun _ hs =>
  List.mem_cons_of_mem _ (List.mem_flatMap.2 ⟨f, hf, hs⟩)

theorem madeOf_name (h : r.WellFormed) : MadeOf r.vocabulary r.name :=
  .of_isIdentifier h.name List.mem_cons_self

theorem madeOf_valueConstructor (h : r.WellFormed) (layout : Layout) (allMutable : Bool) :
    ∀ l ∈ (ClassDecl.ofRecord r layout allMutable).valueConstructor,
      MadeOf r.vocabulary l := by
  have hparameters : MadeOf r.vocabulary
      (", ".intercalate ((r.fields.map Field.parameter).map Parameter.render)) := by
    refine .intercalate fun t ht => ?_
    rw [List.map_map] at ht
    obtain ⟨f, hf, rfl⟩ := List.mem_map.1 ht
    exact (Field.madeOf_parameter (h.fields f hf)).mono (vocabulary_subset hf)
  have hstores : ∀ l ∈ (r.fields.map Field.store).map (fun s => "        " ++ s.render),
      MadeOf r.vocabulary l := by
    intro l hl
    rw [List.map_map] at hl
    obtain ⟨f, hf, rfl⟩ := List.mem_map.1 hl
    have hopen : Phrase r.vocabulary "        " := .of_isFixed rfl
    exact hopen.word ((Field.madeOf_store (h.fields f hf)).mono (vocabulary_subset hf))
  have hhead : Phrase r.vocabulary ("    " ++ r.name ++ "(") :=
    (Phrase.indent.word (madeOf_name h)).text rfl
  unfold ClassDecl.valueConstructor
  simp only [List.forall_mem_append, List.forall_mem_cons, List.not_mem_nil, false_imp_iff,
    implies_true, and_true]
  refine ⟨⟨⟨((hhead.word hparameters).text rfl).toMadeOf, ?_, ?_, ?_⟩,
    hstores⟩, ?_⟩
  all_goals exact .of_isSource rfl

/-- The members that every class has bring in no name but that of the record. -/
theorem madeOf_commonMembers (h : r.WellFormed) :
    ∀ l ∈ ClassDecl.commonMembers r.name, MadeOf r.vocabulary l := by
  have hname := madeOf_name h
  have hself : MadeOf r.vocabulary ("    " ++ r.name) := Phrase.indent.word hname
  have hbytes : Phrase r.vocabulary ("    " ++ r.name
      ++ "(const unsigned char *buffer, const size_t buffer_size) "
      ++ ": Record\x7bbuffer, buffer_size, ") :=
    (hself.text rfl).more rfl
  have hcopy : Phrase r.vocabulary ("    " ++ r.name ++ "(const ") :=
    hself.text rfl
  have hmove : Phrase r.vocabulary ("    " ++ r.name ++ "(") := hself.text rfl
  have hmoved : Phrase r.vocabulary ("    " ++ r.name ++ "(" ++ r.name ++ " &&other) noexcept ") :=
    (hmove.word hname).text rfl
  have hdestroy : Phrase r.vocabulary "    ~" := .of_isFixed rfl
  have hassignCopy : Phrase r.vocabulary ("    " ++ r.name ++ " &operator=(const ") :=
    hself.text rfl
  have hassignMove : Phrase r.vocabulary ("    " ++ r.name ++ " &operator=(") :=
    hself.text rfl
  unfold ClassDecl.commonMembers
  simp only [List.forall_mem_cons, List.not_mem_nil, false_imp_iff, implies_true, and_true]
  refine ⟨?stream, ?bytes, ?copy, ?move, ?destroy, ?assignCopy, ?_, ?_, ?_, ?_, ?assignMove,
    ?_, ?_, ?_, ?_, ?_⟩
  case stream =>
    exact ((hself.text rfl).more rfl).toMadeOf
  case bytes => exact ((hbytes.word hname).text rfl).toMadeOf
  case copy => exact ((hcopy.word hname).text rfl).toMadeOf
  case move => exact (hmoved.more rfl).toMadeOf
  case destroy => exact ((hdestroy.word hname).text rfl).toMadeOf
  case assignCopy => exact ((hassignCopy.word hname).text rfl).toMadeOf
  case assignMove => exact (hassignMove.word hname).source rfl
  all_goals exact .of_isSource rfl

theorem madeOf_accessors (h : r.WellFormed) (layout : Layout) (allMutable : Bool) :
    ∀ l ∈ (ClassDecl.ofRecord r layout allMutable).accessors.flatMap Accessor.uncommented,
      MadeOf r.vocabulary l := by
  intro l hl
  obtain ⟨a, ha, hl⟩ := List.mem_flatMap.1 hl
  obtain ⟨f, hf, rfl⟩ := List.mem_map.1 ha
  have hwf := h.fields f hf
  rcases List.mem_cons.1 hl with rfl | hl
  · exact (Field.madeOf_getter hwf).mono (vocabulary_subset hf)
  · obtain ⟨s, hs, rfl⟩ := Option.mem_map.1 (Option.mem_toList.1 hl)
    obtain rfl := f.eq_setter_of_mem hs
    exact (Field.madeOf_setter hwf).mono (vocabulary_subset hf)

theorem madeOf_constants (h : r.WellFormed) {layout : Layout}
    (hnames : layout.slots.map Slot.name = r.fields.map Field.name) (allMutable : Bool) :
    ∀ l ∈ (ClassDecl.ofRecord r layout allMutable).constants.map OffsetConstant.uncommented,
      MadeOf r.vocabulary l := by
  have hopen : Phrase r.vocabulary (memberIndent ++ "static constexpr size_t ") :=
    Phrase.indent.more rfl
  intro l hl
  obtain ⟨k, hk, rfl⟩ := List.mem_map.1 hl
  obtain ⟨s, hs, rfl⟩ := List.mem_map.1 hk
  -- the slot is named like a field
  obtain ⟨f, hf, hname⟩ := List.mem_map.1 (hnames ▸ List.mem_map_of_mem hs)
  have hconstant : MadeOf r.vocabulary (offsetConstant s.name) :=
    hname ▸ (Field.madeOf_constant (h.fields f hf)).mono (vocabulary_subset hf)
  have hequals : Phrase r.vocabulary (memberIndent ++ "static constexpr size_t "
      ++ offsetConstant s.name ++ " = ") := (hopen.word hconstant).text rfl
  have hvalue := hequals.word (.of_nat s.offset)
  show MadeOf r.vocabulary (memberIndent ++ "static constexpr size_t " ++ offsetConstant s.name
    ++ " = " ++ s.offset.repr ++ if s.padding = 0 then ";" else "; ")
  split
  · exact (hvalue.text rfl).toMadeOf
  · exact (hvalue.text rfl).toMadeOf

/-- **The lines of a class are made of the names of its record**, between fixed
pieces. -/
theorem madeOf_uncommented (h : r.WellFormed) {layout : Layout}
    (hnames : layout.slots.map Slot.name = r.fields.map Field.name) (allMutable : Bool) :
    ∀ l ∈ (ClassDecl.ofRecord r layout allMutable).uncommented, MadeOf r.vocabulary l := by
  have hclass : Phrase r.vocabulary "class " := .of_isFixed rfl
  have hsize : Phrase r.vocabulary "    static constexpr size_t buffer_size = " :=
    .of_isFixed rfl
  unfold ClassDecl.uncommented
  simp only [List.forall_mem_append, List.forall_mem_cons, List.not_mem_nil, false_imp_iff,
    implies_true, and_true]
  refine ⟨⟨⟨⟨⟨⟨⟨⟨?head, ?_, ?_⟩, madeOf_valueConstructor h layout allMutable⟩,
    madeOf_commonMembers h⟩, madeOf_accessors h layout allMutable⟩, ?_, ?_⟩,
    madeOf_constants h hnames allMutable⟩, ?size⟩, ?_⟩
  case head => exact (hclass.word (madeOf_name h)).source rfl
  case size => exact ((hsize.word (.of_nat layout.bufferSize)).text rfl).toMadeOf
  all_goals exact .of_isSource rfl

end Record

end FlatRecord
