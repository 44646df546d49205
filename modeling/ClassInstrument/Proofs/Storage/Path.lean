import ClassInstrument.Storage.Path
import Mathlib.Data.List.Basic

/-!
# Where the files of classes are

A path with one more component has the components of the path and that one, if the component says
anything, and then it does not have to be a directory.  The file of a class has such components, so
it is below the directory that it is looked for in.  Only the name of the file contains a dot, and
the directories above it do not: no file of a class is a directory on the way to another one.

* `Path.split_eq` — the parts of a text are those that the core library splits it into;
* `Path.IsPlain` — components that say where to go, and go there;
* `Path.components_join`, `Path.components_ofClass` — the components of longer paths;
* `Path.classComponents_eq` — the file of a class and the directories above it;
* `Path.classSegments_eq_of_above` — no file of a class is above that of another.
-/

namespace ClassInstrument.Path

/-! ### Splitting -/

theorem splitOnto_eq (test : Char → Bool) (found : List (List Char)) (part cs : List Char) :
    splitOnto test found part cs = found.reverse ++ cs.splitOnPPrepend test part := by
  induction cs generalizing found part with
  | nil => simp [splitOnto]
  | cons c cs ih =>
    rw [splitOnto, List.splitOnPPrepend_cons_eq_if]
    split
    · rw [ih]
      simp
    · exact ih _ _

theorem split_eq (test : Char → Bool) (text : String) :
    split test text = (text.toList.splitOnP test).map String.ofList := by
  rw [split, splitOnto_eq]
  rfl

/-- A text with a separator in it is split there. -/
theorem split_append (test : Char → Bool) (left right : String) {c : Char} (sep : test c = true) :
    split test (left ++ String.singleton c ++ right) = split test left ++ split test right := by
  simp [split_eq, List.splitOnP_append_cons, sep]

/-- A text without separators is its only part. -/
theorem split_eq_singleton (test : Char → Bool) {text : String}
    (noSep : ∀ c ∈ text.toList, test c = false) : split test text = [text] := by
  simp [split_eq, List.splitOnP_eq_singleton noSep]

theorem test_of_mem_splitOnP {test : Char → Bool} {cs part : List Char}
    (mem : part ∈ cs.splitOnP test) : ∀ c ∈ part, test c = false := by
  induction cs generalizing part with
  | nil => simp_all
  | cons d cs ih =>
    rw [List.splitOnP_cons_eq_if_modifyHead] at mem
    split at mem
    · obtain rfl | mem := List.mem_cons.mp mem
      · simp
      · exact ih mem
    · rename_i notSep
      cases parts : cs.splitOnP test with
      | nil => simp [parts] at mem
      | cons first others =>
        rw [parts] at ih mem
        obtain rfl | mem := List.mem_cons.mp mem
        · simpa [notSep] using ih (List.mem_cons_self ..)
        · exact ih (List.mem_cons_of_mem _ mem)

theorem test_of_mem_split {test : Char → Bool} {text part : String} (mem : part ∈ split test text) :
    ∀ c ∈ part.toList, test c = false := by
  rw [split_eq] at mem
  obtain ⟨cs, memCs, rfl⟩ := List.mem_map.mp mem
  simpa only [String.toList_ofList] using test_of_mem_splitOnP memCs

/-! ### One more component -/

/-- Components that are themselves one step down. -/
structure IsPlain (component : String) : Prop where
  noSlash : '/' ∉ component.toList
  ne_empty : component ≠ ""
  ne_dot : component ≠ "."
  ne_dots : component ≠ ".."

namespace IsPlain

variable {component : String}

theorem split_eq (plain : IsPlain component) : split (· == '/') component = [component] := by
  refine split_eq_singleton _ fun c mem => ?_
  have ne : c ≠ '/' := fun same => plain.noSlash (same ▸ mem)
  simpa using ne

theorem follow_eq (plain : IsPlain component) (directory : List String) :
    follow directory component = component :: directory := by
  simp [follow, plain.ne_empty, plain.ne_dot, plain.ne_dots]

end IsPlain

/-- A path with a plain component behind it is split into that and parts that lead where the path
leads. -/
theorem split_join (path : String) {component : String} (plain : IsPlain component) :
    ∃ parts, split (· == '/') (join path component) = parts ++ [component] ∧
      parts.foldl follow [] = (split (· == '/') path).foldl follow [] := by
  unfold join
  split
  · rename_i ends
    obtain rfl | ends : path = "" ∨ path.toList.getLast? = some '/' := by simpa using ends
    · exact ⟨[], by simp [plain.split_eq], rfl⟩
    · -- The separator is already there, and the empty part behind it says nothing.
      obtain ⟨front, frontEq⟩ : ∃ front, path.toList = front ++ ['/'] :=
        List.getLast?_eq_some_iff.mp ends
      have pathEq : path = String.ofList front ++ String.singleton '/' := by
        apply String.toList_injective
        simp [frontEq]
      subst pathEq
      refine ⟨split (· == '/') (String.ofList front), ?_, ?_⟩
      · rw [split_append _ _ _ (by rfl), plain.split_eq]
      · have := split_append (· == '/') (String.ofList front) "" (c := '/') (by rfl)
        rw [String.append_empty] at this
        rw [this, List.foldl_append]
        rfl
  · have slash : "/" = String.singleton '/' := by decide
    refine ⟨split (· == '/') path, ?_, rfl⟩
    rw [slash, split_append _ _ _ (by rfl), plain.split_eq]

theorem components_join (path : String) {component : String} (plain : IsPlain component) :
    components (join path component) = components path ++ [component] := by
  obtain ⟨parts, splitEq, leads⟩ := split_join path plain
  rw [components, splitEq, List.foldl_append, leads, List.foldl_cons, List.foldl_nil,
    plain.follow_eq, List.reverse_cons, components]

theorem namesDirectory_join (path : String) {component : String} (plain : IsPlain component) :
    namesDirectory (join path component) = false := by
  obtain ⟨parts, splitEq, -⟩ := split_join path plain
  simp [namesDirectory, splitEq, plain.ne_empty, plain.ne_dot, plain.ne_dots]

theorem components_foldl_join (path : String) {cs : List String} (plain : ∀ c ∈ cs, IsPlain c) :
    components (cs.foldl join path) = components path ++ cs := by
  induction cs generalizing path with
  | nil => simp
  | cons c cs ih =>
    rw [List.foldl_cons, ih _ fun d mem => plain d (List.mem_cons_of_mem _ mem),
      components_join _ (plain c (List.mem_cons_self ..)), List.append_assoc, List.singleton_append]

/-! ### Classes -/

/-- A segment of the name of a class is not empty, and nothing in it separates. -/
theorem of_mem_classSegments {name segment : String} (mem : segment ∈ classSegments name) :
    segment ≠ "" ∧ '.' ∉ segment.toList ∧ '/' ∉ segment.toList := by
  obtain ⟨mem, ne⟩ := List.mem_filter.mp mem
  have noSep := test_of_mem_split mem
  exact ⟨by simpa using ne, fun mem => by simpa using noSep _ mem,
    fun mem => by simpa using noSep _ mem⟩

theorem classComponents_of_nil {name : String} (blank : classSegments name = []) :
    classComponents name = [] := by
  simp [classComponents, blank]

/-- A class whose name has segments: the last one names the file, the ones before it the directories
above. -/
theorem classComponents_eq {name : String} (named : classSegments name ≠ []) :
    ∃ packages simple, classSegments name = packages ++ [simple] ∧
      classComponents name = packages ++ [simple ++ ".class"] := by
  obtain ⟨packages, simple, eq⟩ := List.eq_nil_or_concat' _ |>.resolve_left named
  exact ⟨packages, simple, eq, by simp [classComponents, eq]⟩

theorem isPlain_of_mem_classComponents {name component : String}
    (mem : component ∈ classComponents name) : IsPlain component := by
  by_cases blank : classSegments name = []
  · simp [classComponents_of_nil blank] at mem
  obtain ⟨packages, simple, segments, eq⟩ := classComponents_eq blank
  have segment {s : String} (mem : s ∈ packages ++ [simple]) :=
    of_mem_classSegments (segments ▸ mem)
  rw [eq, List.mem_append, List.mem_singleton] at mem
  obtain mem | rfl := mem
  · obtain ⟨ne, noDot, noSlash⟩ := segment (List.mem_append_left _ mem)
    exact ⟨noSlash, ne, fun dot => noDot (by simp [dot]), fun dots => noDot (by simp [dots])⟩
  · obtain ⟨-, -, noSlash⟩ := segment (List.mem_append_right _ (List.mem_singleton_self simple))
    have longer (short : String) (len : short.length < 6) : simple ++ ".class" ≠ short := by
      intro eq
      have : (simple ++ ".class").length = short.length := by rw [eq]
      have suffix : ".class".length = 6 := by decide
      rw [String.length_append] at this
      omega
    exact ⟨by simpa using noSlash, longer _ (by decide), longer _ (by decide),
      longer _ (by decide)⟩

theorem components_ofClass (root name : String) :
    components (ofClass root name) = components root ++ classComponents name :=
  components_foldl_join root fun _ => isPlain_of_mem_classComponents

/-- The path of the file of a class can name a file. -/
theorem namesDirectory_ofClass (root : String) {name : String} (named : classSegments name ≠ []) :
    namesDirectory (ofClass root name) = false := by
  obtain ⟨packages, simple, -, eq⟩ := classComponents_eq named
  have mem : simple ++ ".class" ∈ classComponents name := by simp [eq]
  rw [ofClass, eq, List.foldl_append]
  exact namesDirectory_join _ (isPlain_of_mem_classComponents mem)

theorem ofClass_of_nil (root : String) {name : String} (blank : classSegments name = []) :
    ofClass root name = root := by
  simp [ofClass, classComponents_of_nil blank]

/-- The file of a class is on the way to that of another only if the segments are the same. -/
theorem classSegments_eq_of_above {a b : String} (named : classSegments a ≠ [])
    (above : classComponents a <+: classComponents b) : classSegments a = classSegments b := by
  obtain ⟨packages, simple, segments, eq⟩ := classComponents_eq named
  have dotted : '.' ∈ (simple ++ ".class").toList := by simp
  by_cases blank : classSegments b = []
  · simp [eq, classComponents_of_nil blank] at above
  obtain ⟨packages', simple', segments', eq'⟩ := classComponents_eq blank
  rw [eq, eq', List.prefix_concat_iff] at above
  obtain same | above := above
  · obtain ⟨rfl, last⟩ := List.append_inj' same rfl
    rw [segments, segments', String.append_left_inj ".class" |>.mp (List.singleton_inj.mp last)]
  · -- The packages of the other class are segments, and the file has a dot in its name.
    have mem : simple ++ ".class" ∈ classSegments b := by
      rw [segments']
      exact List.mem_append_left _ (above.subset (by simp))
    exact absurd dotted (of_mem_classSegments mem).2.1

end ClassInstrument.Path
