import Mathlib.Data.List.TakeWhile
import ClassInstrument.Descriptor
import ClassInstrument.Proofs.Bytes.Traverse

/-!
# Descriptors and their grammar

A descriptor is read exactly if the grammar derives it, and then it is the written form of one type
only.  The grammar is given on its own, without the types; the types are its derivations.

* `FieldType.Derives`, `MethodType.Derives` — the grammar;
* `FieldType.WellNamed`, `MethodType.WellNamed` — the types that can be written: their class names
  are ones that a descriptor can hold;
* `FieldType.parse_eq_ok_iff`, `MethodType.parse_eq_ok_iff` — **a text is read as a type exactly if
  it is the written form of that type**;
* `DescriptorCache.answers_run` — **a cache answers as the reader does**, whatever was asked before;
* `descriptors_exact` — the whole.
-/

namespace ClassInstrument

open Traverse

/-- The names that a descriptor can hold: the semicolon behind a name is the first one. -/
def IsClassName (name : List Char) : Prop := name ≠ [] ∧ ';' ∉ name

namespace FieldType

/-! ### Types of fields -/

/-- The letters that stand for a type by themselves. -/
def letters : List Char := ['B', 'C', 'D', 'F', 'I', 'J', 'S', 'Z']

/-- The texts of the grammar `F ::= B | C | D | F | I | J | S | Z | L name ; | [ F`. -/
inductive Derives : List Char → Prop
  | letter {c : Char} (known : c ∈ letters) : Derives [c]
  | object {name : List Char} (named : IsClassName name) : Derives ('L' :: name ++ [';'])
  | array {text : List Char} (component : Derives text) : Derives ('[' :: text)

/-- The class in a type has a name that a descriptor can hold. -/
def WellNamed : FieldType → Prop
  | .object name => IsClassName name.toList
  | .array component => component.WellNamed
  | _ => True

/-- A letter is the written form of its type. -/
theorem ofLetter?_eq_some {c : Char} {type : FieldType} (h : ofLetter? c = some type) :
    type.toChars = [c] ∧ type.WellNamed ∧ c ∈ letters := by
  unfold ofLetter? at h
  split at h <;> cases h <;> exact ⟨rfl, trivial, by decide⟩

/-- Every letter of the grammar stands for a type. -/
theorem exists_ofLetter? {c : Char} (known : c ∈ letters) : ∃ type, ofLetter? c = some type := by
  simp only [letters, List.mem_cons, List.not_mem_nil, or_false] at known
  rcases known with rfl | rfl | rfl | rfl | rfl | rfl | rfl | rfl <;> exact ⟨_, rfl⟩

/-- A name is read up to its semicolon, whatever follows. -/
theorem parseName_append {name : List Char} (named : IsClassName name) (rest : List Char) :
    parseName (name ++ ';' :: rest) = .ok (.object (String.ofList name), rest) := by
  have passed : ∀ c ∈ name, decide (c ≠ ';') = true := by
    intro c member
    simp only [ne_eq, decide_not, Bool.not_eq_eq_eq_not, Bool.not_true, decide_eq_false_iff_not]
    rintro rfl
    exact named.2 member
  have stops : (';' :: rest).dropWhile (fun c => decide (c ≠ ';')) = ';' :: rest := rfl
  have nothing : (';' :: rest).takeWhile (fun c => decide (c ≠ ';')) = [] := rfl
  rw [parseName, List.dropWhile_append_of_pos passed, List.takeWhile_append_of_pos passed, stops,
    nothing, List.append_nil]
  exact if_neg (by simpa using named.1)

/-- What was read as a name stood before a semicolon. -/
theorem parseName_eq_ok {chars rest : List Char} {type : FieldType}
    (h : parseName chars = .ok (type, rest)) :
    ∃ name, IsClassName name ∧ type = .object (String.ofList name)
      ∧ chars = name ++ ';' :: rest := by
  have whole := List.takeWhile_append_dropWhile (p := fun c : Char => decide (c ≠ ';')) (l := chars)
  have passed : ';' ∉ chars.takeWhile fun c => decide (c ≠ ';') := by
    intro member
    simpa using List.mem_takeWhile_imp member
  have first := List.head?_dropWhile_not (fun c : Char => decide (c ≠ ';')) chars
  unfold parseName at h
  split at h
  · cases h
  · next stop behind found =>
    rw [found] at whole first
    obtain rfl : stop = ';' := by simpa using first
    dsimp only at h
    split at h
    · cases h
    · next some =>
      cases h
      exact ⟨_, ⟨by simpa using some, passed⟩, rfl, whole.symm⟩

/-- A written type is read, whatever follows it. -/
theorem parseFront_append {type : FieldType} (named : type.WellNamed) (rest : List Char) :
    parseFront (type.toChars ++ rest) = .ok (type, rest) := by
  induction type with
  | array component ih =>
    show (parseFront (component.toChars ++ rest)).map _ = _
    rw [ih named]
    rfl
  | object name =>
    show parseName ((name.toList ++ [';']) ++ rest) = _
    rw [List.append_assoc, List.singleton_append, parseName_append named, String.ofList_toList]
  | _ => rfl

/-- What was read as a type is its written form. -/
theorem parseFront_eq_ok {chars rest : List Char} {type : FieldType}
    (h : parseFront chars = .ok (type, rest)) : type.WellNamed ∧ chars = type.toChars ++ rest := by
  fun_induction parseFront chars generalizing type with
  | case1 => cases h
  | case2 behind ih =>
    obtain ⟨⟨component, rest⟩, read, same⟩ := map_eq_ok_iff.1 h
    cases same
    obtain ⟨named, rfl⟩ := ih read
    exact ⟨named, rfl⟩
  | case3 behind =>
    obtain ⟨name, named, rfl, rfl⟩ := parseName_eq_ok h
    refine ⟨?_, ?_⟩
    · rw [WellNamed, String.toList_ofList]
      exact named
    · simp [toChars]
  | case4 c behind _ _ type' known =>
    cases h
    obtain ⟨written, named, -⟩ := ofLetter?_eq_some known
    exact ⟨named, by rw [written]; rfl⟩
  | case5 => cases h

theorem toText_eq_iff {desc : String} {type : FieldType} :
    type.toText = desc ↔ type.toChars = desc.toList := by
  rw [toText, ← String.toList_inj, String.toList_ofList]

/-- **A text is read as a type exactly if it is the written form of that type.** -/
theorem parse_eq_ok_iff {desc : String} {type : FieldType} :
    parse desc = .ok type ↔ type.WellNamed ∧ type.toText = desc := by
  unfold parse
  rw [bind_eq_ok_iff, toText_eq_iff]
  constructor
  · rintro ⟨⟨found, rest⟩, read, h⟩
    dsimp only at h
    split at h
    · next none =>
      cases h
      obtain ⟨named, whole⟩ := parseFront_eq_ok read
      rw [List.isEmpty_iff.1 none, List.append_nil] at whole
      exact ⟨named, whole.symm⟩
    · cases h
  · rintro ⟨named, whole⟩
    refine ⟨(type, []), ?_, rfl⟩
    rw [← whole, ← List.append_nil type.toChars]
    exact parseFront_append named []

/-- The grammar derives the written forms and nothing else. -/
theorem derives_iff {text : List Char} :
    Derives text ↔ ∃ type : FieldType, type.WellNamed ∧ type.toChars = text := by
  constructor
  · intro derived
    induction derived with
    | letter known =>
      obtain ⟨type, found⟩ := exists_ofLetter? known
      obtain ⟨written, named, -⟩ := ofLetter?_eq_some found
      exact ⟨type, named, written⟩
    | @object name named =>
      refine ⟨.object (String.ofList name), ?_, ?_⟩
      · rw [WellNamed, String.toList_ofList]
        exact named
      · rw [toChars, String.toList_ofList]
    | array _ ih =>
      obtain ⟨component, named, written⟩ := ih
      exact ⟨.array component, named, congrArg ('[' :: ·) written⟩
  · rintro ⟨type, named, rfl⟩
    induction type with
    | array component ih => exact .array (ih named)
    | object name => exact .object named
    | _ => exact .letter (by decide)

end FieldType

/-! ### Types of methods -/

namespace MethodType

/-- The texts of the grammar `( F* ) (F | V)`. -/
inductive Derives : List Char → Prop
  | method {params : List (List Char)} {result : List Char}
    (taken : ∀ text ∈ params, FieldType.Derives text)
    (given : FieldType.Derives result ∨ result = ['V']) :
    Derives ('(' :: params.flatten ++ ')' :: result)

/-- All classes in the type have names that a descriptor can hold. -/
structure WellNamed (type : MethodType) : Prop where
  params : ∀ param ∈ type.params, param.WellNamed
  result : ∀ result, type.result = some result → result.WellNamed

/-- The written form of a result. -/
def resultChars : Option FieldType → List Char
  | some type => type.toChars
  | none => ['V']

theorem toChars_eq (type : MethodType) : type.toChars
    = '(' :: (type.params.flatMap FieldType.toChars ++ ')' :: resultChars type.result) := by
  obtain ⟨params, result⟩ := type
  cases result <;> rfl

/-- No type starts with a parenthesis or with the letter of no result. -/
theorem head_toChars (type : FieldType) :
    ∃ c rest, type.toChars = c :: rest ∧ c ≠ ')' ∧ c ≠ 'V' := by
  cases type with
  | _ => exact ⟨_, _, rfl, by decide, by decide⟩

/-- Every parameter has a character of its own. -/
theorem length_le_flatMap (params : List FieldType) :
    params.length ≤ (params.flatMap FieldType.toChars).length := by
  induction params with
  | nil => exact Nat.le_refl _
  | cons param params ih =>
    obtain ⟨c, behind, start, -⟩ := head_toChars param
    rw [List.flatMap_cons, List.length_append, start, List.length_cons, List.length_cons]
    omega

/-- Written parameters are read up to the parenthesis.  A round reads a character at least. -/
theorem parseParams_append (desc : String) {params : List FieldType}
    (named : ∀ param ∈ params, param.WellNamed) (rest : List Char) {rounds : Nat}
    (enough : params.length ≤ rounds) (read : List FieldType) :
    parseParams desc rounds read (params.flatMap FieldType.toChars ++ ')' :: rest)
      = .ok (read.reverse ++ params, rest) := by
  induction params generalizing rounds read with
  | nil =>
    rw [List.append_nil, List.flatMap_nil, List.nil_append]
    cases rounds <;> rfl
  | cons param params ih =>
    obtain ⟨rounds, rfl⟩ := Nat.exists_eq_add_of_le' (show 1 ≤ rounds from
      Nat.le_trans (Nat.succ_le_succ (Nat.zero_le _)) enough)
    obtain ⟨c, behind, start, other, -⟩ := head_toChars param
    have first := FieldType.parseFront_append (named param List.mem_cons_self)
      (params.flatMap FieldType.toChars ++ ')' :: rest)
    have others := ih (fun p member => named p (List.mem_cons_of_mem _ member))
      (Nat.le_of_succ_le_succ enough) (param :: read)
    rw [start, List.cons_append] at first
    rw [List.flatMap_cons, List.append_assoc, start, List.cons_append, parseParams]
    · refine bind_of_ok first (others.trans ?_)
      rw [List.reverse_cons, List.append_assoc]
      rfl
    · exact fun same => other same

/-- What was read as parameters is their written form. -/
theorem parseParams_eq_ok {desc : String} {rounds : Nat} {read types : List FieldType}
    {chars rest : List Char} (h : parseParams desc rounds read chars = .ok (types, rest)) :
    ∃ params, types = read.reverse ++ params ∧ (∀ param ∈ params, param.WellNamed)
      ∧ chars = params.flatMap FieldType.toChars ++ ')' :: rest := by
  fun_induction parseParams desc rounds read chars with
  | case1 =>
    cases h
    exact ⟨[], (List.append_nil _).symm, fun _ member => (nomatch member), rfl⟩
  | case2 rounds read c behind _ ih =>
    obtain ⟨⟨type, later⟩, first, h⟩ := bind_eq_ok_iff.1 h
    obtain ⟨named, whole⟩ := FieldType.parseFront_eq_ok first
    obtain ⟨params, rfl, others, rfl⟩ := ih type later h
    refine ⟨type :: params, ?_, List.forall_mem_cons.2 ⟨named, others⟩, ?_⟩
    · rw [List.reverse_cons, List.append_assoc]
      rfl
    · rw [whole, List.flatMap_cons, List.append_assoc]
  | case3 => cases h

/-- A result at the front of a text. -/
theorem parseResult_eq_ok_iff {chars rest : List Char} {result : Option FieldType} :
    parseResult chars = .ok (result, rest)
      ↔ (∀ type, result = some type → type.WellNamed) ∧ chars = resultChars result ++ rest := by
  constructor
  · intro h
    unfold parseResult at h
    split at h
    · cases h
      exact ⟨fun _ none => (nomatch none), rfl⟩
    · obtain ⟨⟨type, behind⟩, read, same⟩ := map_eq_ok_iff.1 h
      cases same
      obtain ⟨named, whole⟩ := FieldType.parseFront_eq_ok read
      refine ⟨fun other same => ?_, whole⟩
      cases same
      exact named
  · rintro ⟨named, rfl⟩
    cases result with
    | none => rfl
    | some type =>
      obtain ⟨c, behind, start, -, other⟩ := head_toChars type
      have read := FieldType.parseFront_append (named type rfl) rest
      rw [resultChars]
      rw [start, List.cons_append] at read ⊢
      rw [parseResult, read]
      · rfl
      · exact fun _ same => other (List.cons.inj same).1

theorem toText_eq_iff {desc : String} {type : MethodType} :
    type.toText = desc ↔ type.toChars = desc.toList := by
  rw [toText, ← String.toList_inj, String.toList_ofList]

/-- **A text is read as a type exactly if it is the written form of that type.** -/
theorem parse_eq_ok_iff {desc : String} {type : MethodType} :
    parse desc = .ok type ↔ type.WellNamed ∧ type.toText = desc := by
  rw [toText_eq_iff, toChars_eq]
  constructor
  · intro h
    unfold parse at h
    split at h
    · next chars opened =>
      obtain ⟨⟨params, behind⟩, taken, h⟩ := bind_eq_ok_iff.1 h
      obtain ⟨⟨result, rest⟩, given, h⟩ := bind_eq_ok_iff.1 h
      dsimp only at h given
      split at h
      · next none =>
        cases h
        obtain ⟨found, rfl, named, rfl⟩ := parseParams_eq_ok taken
        obtain ⟨last, rfl⟩ := parseResult_eq_ok_iff.1 given
        rw [opened, List.isEmpty_iff.1 none, List.append_nil]
        exact ⟨⟨named, last⟩, rfl⟩
      · cases h
    · cases h
  · rintro ⟨named, whole⟩
    have enough : type.params.length ≤ (type.params.flatMap FieldType.toChars
        ++ ')' :: resultChars type.result).length := by
      rw [List.length_append]
      exact Nat.le_trans (length_le_flatMap _) (Nat.le_add_right _ _)
    have taken := parseParams_append desc named.params (resultChars type.result) enough []
    have given : parseResult (resultChars type.result) = .ok (type.result, []) :=
      parseResult_eq_ok_iff.2 ⟨named.result, (List.append_nil _).symm⟩
    unfold parse
    rw [← whole]
    exact bind_of_ok taken (bind_of_ok given rfl)

/-- Texts that the grammar derives are the written forms of types. -/
theorem exists_params {texts : List (List Char)} (taken : ∀ text ∈ texts, FieldType.Derives text) :
    ∃ params : List FieldType, (∀ param ∈ params, param.WellNamed)
      ∧ params.map FieldType.toChars = texts := by
  induction texts with
  | nil => exact ⟨[], fun _ member => (nomatch member), rfl⟩
  | cons text texts ih =>
    obtain ⟨param, named, rfl⟩ := FieldType.derives_iff.1 (taken text List.mem_cons_self)
    obtain ⟨params, others, rfl⟩ := ih fun text member => taken text (List.mem_cons_of_mem _ member)
    exact ⟨param :: params, List.forall_mem_cons.2 ⟨named, others⟩, rfl⟩

/-- The grammar derives the written forms and nothing else. -/
theorem derives_iff {text : List Char} :
    Derives text ↔ ∃ type : MethodType, type.WellNamed ∧ type.toChars = text := by
  constructor
  · intro derived
    cases derived with
    | @method texts result taken given =>
      obtain ⟨params, named, rfl⟩ := exists_params taken
      rcases given with typed | rfl
      · obtain ⟨type, last, rfl⟩ := FieldType.derives_iff.1 typed
        refine ⟨⟨params, some type⟩, ⟨named, fun other same => ?_⟩, ?_⟩
        · cases same
          exact last
        · rw [toChars_eq, List.flatMap_def]
          rfl
      · refine ⟨⟨params, none⟩, ⟨named, fun _ none => (nomatch none)⟩, ?_⟩
        rw [toChars_eq, List.flatMap_def]
        rfl
  · rintro ⟨type, named, rfl⟩
    rw [toChars_eq, List.flatMap_def]
    refine .method (fun text member => ?_) ?_
    · obtain ⟨param, inside, rfl⟩ := List.mem_map.1 member
      exact FieldType.derives_iff.2 ⟨param, named.params param inside, rfl⟩
    · cases given : type.result with
      | none => exact .inr rfl
      | some result => exact .inl (FieldType.derives_iff.2 ⟨result, named.result result given, rfl⟩)

end MethodType

/-! ### Types kept by their text -/

namespace DescriptorCache

/-- A descriptor that is looked up as one of a field or of a method. -/
inductive Lookup where
  | field (desc : String)
  | method (desc : String)

/-- What a lookup gives. -/
abbrev Answer := Except Malformation (FieldType ⊕ MethodType)

/-- What the reader gives for a lookup. -/
def Lookup.parse : Lookup → Answer
  | .field desc => (FieldType.parse desc).map .inl
  | .method desc => (MethodType.parse desc).map .inr

/-- What a cache gives for a lookup, and the cache behind it. -/
def answer (cache : DescriptorCache) : Lookup → Answer × DescriptorCache
  | .field desc => ((cache.fieldType desc).1.map .inl, (cache.fieldType desc).2)
  | .method desc => ((cache.methodType desc).1.map .inr, (cache.methodType desc).2)

/-- Lookups one after another, with the answer to each. -/
def run (cache : DescriptorCache) : List Lookup → List Answer × DescriptorCache
  | [] => ([], cache)
  | lookup :: lookups =>
    ((cache.answer lookup).1 :: ((cache.answer lookup).2.run lookups).1,
      ((cache.answer lookup).2.run lookups).2)

/-- Everything that is kept is what the reader gives for its text. -/
structure Faithful (cache : DescriptorCache) : Prop where
  fields : ∀ desc type, cache.fields.lookup desc = some type → FieldType.parse desc = .ok type
  methods : ∀ desc type, cache.methods.lookup desc = some type → MethodType.parse desc = .ok type

/-- One more entry is what the reader gives for its text. -/
theorem lookup_cons {α : Type} {parse : String → Except Malformation α} {kept : List (String × α)}
    (faithful : ∀ desc type, kept.lookup desc = some type → parse desc = .ok type) {desc : String}
    {type : α} (read : parse desc = .ok type) :
    ∀ other found, ((desc, type) :: kept).lookup other = some found → parse other = .ok found := by
  intro other found h
  rw [List.lookup_cons] at h
  split at h
  · next same =>
    cases h
    rw [eq_of_beq same]
    exact read
  · exact faithful other found h

/-- **A lookup is answered as the reader answers it**, and what is kept stays faithful. -/
theorem Faithful.answer {cache : DescriptorCache} (faithful : cache.Faithful) (lookup : Lookup) :
    (cache.answer lookup).1 = lookup.parse ∧ (cache.answer lookup).2.Faithful := by
  cases lookup with
  | field desc =>
    simp only [DescriptorCache.answer, Lookup.parse, fieldType]
    cases kept : cache.fields.lookup desc with
    | some type => exact ⟨by rw [faithful.fields desc type kept], faithful⟩
    | none =>
      cases read : FieldType.parse desc with
      | error e => exact ⟨rfl, faithful⟩
      | ok type => exact ⟨rfl, lookup_cons faithful.fields read, faithful.methods⟩
  | method desc =>
    simp only [DescriptorCache.answer, Lookup.parse, methodType]
    cases kept : cache.methods.lookup desc with
    | some type => exact ⟨by rw [faithful.methods desc type kept], faithful⟩
    | none =>
      cases read : MethodType.parse desc with
      | error e => exact ⟨rfl, faithful⟩
      | ok type => exact ⟨rfl, faithful.fields, lookup_cons faithful.methods read⟩

theorem faithful_empty : empty.Faithful :=
  ⟨fun _ _ none => (nomatch none), fun _ _ none => (nomatch none)⟩

/-- Every lookup of a run is answered as the reader answers it. -/
theorem Faithful.run {cache : DescriptorCache} (faithful : cache.Faithful)
    (lookups : List Lookup) : (cache.run lookups).1 = lookups.map Lookup.parse := by
  induction lookups generalizing cache with
  | nil => rfl
  | cons lookup lookups ih =>
    obtain ⟨same, kept⟩ := faithful.answer lookup
    rw [DescriptorCache.run, List.map_cons, same, ih kept]

end DescriptorCache

/-! ### The whole -/

/-- **Descriptors are read by exactly their grammar.**  A text is read as a type exactly if the
grammar derives it, and the type is written as that text; a type is read back from its written form
if the grammar has room for the names in it; and a cache answers every lookup as the reader does,
whatever was looked up before. -/
theorem descriptors_exact :
    (∀ desc : String,
      ((∃ type, FieldType.parse desc = .ok type) ↔ FieldType.Derives desc.toList)
        ∧ ((∃ type, MethodType.parse desc = .ok type) ↔ MethodType.Derives desc.toList)
        ∧ (∀ type, FieldType.parse desc = .ok type → type.toText = desc)
        ∧ ∀ type, MethodType.parse desc = .ok type → type.toText = desc)
      ∧ (∀ type : FieldType, type.WellNamed → FieldType.parse type.toText = .ok type)
      ∧ (∀ type : MethodType, type.WellNamed → MethodType.parse type.toText = .ok type)
      ∧ ∀ lookups : List DescriptorCache.Lookup,
        (DescriptorCache.empty.run lookups).1 = lookups.map DescriptorCache.Lookup.parse := by
  refine ⟨fun desc => ⟨?_, ?_, fun type read => (FieldType.parse_eq_ok_iff.1 read).2,
      fun type read => (MethodType.parse_eq_ok_iff.1 read).2⟩,
    fun type named => FieldType.parse_eq_ok_iff.2 ⟨named, rfl⟩,
    fun type named => MethodType.parse_eq_ok_iff.2 ⟨named, rfl⟩,
    DescriptorCache.faithful_empty.run⟩
  · rw [FieldType.derives_iff]
    simp only [FieldType.parse_eq_ok_iff, FieldType.toText_eq_iff]
  · rw [MethodType.derives_iff]
    simp only [MethodType.parse_eq_ok_iff, MethodType.toText_eq_iff]

/-- A method with an array of arrays among its parameters, and class names that hold brackets, a
parenthesis and a letter beyond ASCII. -/
def namingType : MethodType where
  params := [.array (.array (.object "a/é")), .long]
  result := some (.object "x[(V")

theorem descriptors_exact_naming :
    namingType.WellNamed
      ∧ MethodType.parse "([[La/é;J)Lx[(V;" = .ok namingType
      ∧ FieldType.parse "Lx[(V;" = .ok (.object "x[(V")
      ∧ MethodType.Derives "([[La/é;J)Lx[(V;".toList
      ∧ (DescriptorCache.empty.run [.field "Lx[(V;", .method "Lx[(V;", .field "Lx[(V;"]).1
        = [.ok (.inl (.object "x[(V")), .error (.unopenedMethod "Lx[(V;"),
            .ok (.inl (.object "x[(V"))] := by
  obtain ⟨derives, fields, methods, cached⟩ := descriptors_exact
  have named : namingType.WellNamed := by
    refine ⟨?_, ?_⟩
    · simp [namingType, FieldType.WellNamed, IsClassName]
    · simp [namingType, FieldType.WellNamed, IsClassName]
  have method := methods namingType named
  have field : FieldType.parse "Lx[(V;" = .ok (.object "x[(V") :=
    fields (.object "x[(V") (by simp [FieldType.WellNamed, IsClassName])
  refine ⟨named, method, field, (derives _).2.1.1 ⟨_, method⟩, ?_⟩
  rw [cached, List.map_cons, List.map_cons, List.map_cons, DescriptorCache.Lookup.parse, field]
  rfl

end ClassInstrument
