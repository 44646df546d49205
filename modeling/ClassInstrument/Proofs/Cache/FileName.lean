import ClassInstrument.Cache.Disk
import ClassInstrument.Proofs.Bytes.Hexadecimal
import ClassInstrument.Proofs.Storage.Path

/-!
# The names of entries

An entry is kept in a file named after its key.  A name is taken for that of a key if it is the
name of its file, but not only then: digits count in either case, and where the first of two digits
is a zero, there may be a plus sign instead.

* `DiskCache.keyOfFileName?_eq_some_iff` — **which names are taken for which keys**;
* `DiskCache.IsPlain` — names without large letters and plus signs;
* `DiskCache.keyOfFileName?_of_plain` — of these only the name of its file is taken for a key;
* `DiskCache.taken_as_own_iff` — so plain names are what it takes to tell files by their names;
* `DiskCache.components_join_fileName` — the file of a key is in the directory under that name.
-/

namespace ClassInstrument.DiskCache

open Hexadecimal

/-! ### Digits -/

/-- The two digits that two characters stand for: a plus sign in front stands for a zero, and large
letters for small ones. -/
def digitsOf (first second : Char) : List Char :=
  [if first = '+' then '0' else first.toLower, second.toLower]

theorem byte?_eq_some_iff {first second : Char} {byte : UInt8} :
    byte? first second = some byte ↔ digitsOf first second = spelled byte := by
  have bound : byte.toNat < 256 := UInt8.toNat_lt byte
  unfold byte? digitsOf spelled
  constructor
  · intro h
    obtain ⟨low, hlow, h⟩ := Option.bind_eq_some_iff.1 h
    obtain ⟨small, lower⟩ := digit?_eq_some_iff.1 hlow
    split at h
    · next plus =>
      obtain rfl := Option.some.inj h
      have own : (UInt8.ofNat low).toNat = low := UInt8.toNat_ofNat_of_lt' (by show low < 256; omega)
      rw [own, Nat.div_eq_of_lt small, Nat.mod_eq_of_lt small, if_pos plus, lower]
      rfl
    · next other =>
      obtain ⟨high, hhigh, h⟩ := Option.bind_eq_some_iff.1 h
      obtain ⟨small', lower'⟩ := digit?_eq_some_iff.1 hhigh
      obtain rfl := Option.some.inj h
      have own : (UInt8.ofNat (16 * high + low)).toNat = 16 * high + low :=
        UInt8.toNat_ofNat_of_lt' (by show _ < 256; omega)
      have front : (16 * high + low) / 16 = high := by omega
      have behind : (16 * high + low) % 16 = low := by omega
      rw [own, front, behind, if_neg other, lower, lower']
  · intro h
    obtain ⟨upper, lower, -⟩ : (if first = '+' then '0' else first.toLower)
        = Nat.digitChar (byte.toNat / 16) ∧ second.toLower = Nat.digitChar (byte.toNat % 16)
        ∧ True := by simpa using h
    have low := digit?_eq_some_iff.2 ⟨Nat.mod_lt _ (by omega), lower⟩
    refine Option.bind_eq_some_iff.2 ⟨_, low, ?_⟩
    split at upper
    · next plus =>
      have zero : 0 = byte.toNat / 16 := digitChar_inj 0 (by omega) _ (by omega) upper
      have small : byte.toNat % 16 = byte.toNat := by omega
      rw [if_pos plus, small, UInt8.ofNat_toNat]
    · next other =>
      have high := digit?_eq_some_iff.2 ⟨(by omega : byte.toNat / 16 < 16), upper⟩
      rw [if_neg other]
      refine Option.bind_eq_some_iff.2 ⟨_, high, ?_⟩
      rw [Nat.div_add_mod, UInt8.ofNat_toNat]

/-- Characters two by two as the digits that they stand for. -/
def plainDigits : List Char → List Char
  | first :: second :: rest => digitsOf first second ++ plainDigits rest
  | rest => rest

theorem length_plainDigits (cs : List Char) : (plainDigits cs).length = cs.length := by
  fun_induction plainDigits cs with
  | case1 first second rest ih => simp [digitsOf, ih]
  | case2 rest => rfl

/-- **Which characters stand for which bytes.** -/
theorem bytes?_eq_some_iff {cs : List Char} {bytes : Bytes} :
    bytes? cs = some bytes ↔ plainDigits cs = bytes.flatMap spelled := by
  fun_induction bytes? cs generalizing bytes with
  | case1 => cases bytes <;> simp [plainDigits, spelled]
  | case2 c =>
    have odd : [c] ≠ bytes.flatMap spelled := fun same => by
      have lengths := congrArg List.length same
      rw [length_flatMap_spelled, List.length_singleton] at lengths
      omega
    exact ⟨nofun, fun same => absurd same odd⟩
  | case3 first second rest ih =>
    rw [plainDigits]
    cases bytes with
    | nil => simp [Option.bind_eq_some_iff, digitsOf]
    | cons byte bytes =>
      have two : (digitsOf first second).length = (spelled byte).length := rfl
      have parts : digitsOf first second ++ plainDigits rest = spelled byte ++ bytes.flatMap spelled
          ↔ byte? first second = some byte ∧ bytes? rest = some bytes := by
        rw [byte?_eq_some_iff, ih]
        exact ⟨fun same => List.append_inj same two, fun ⟨front, behind⟩ => front ▸ behind ▸ rfl⟩
      rw [List.flatMap_cons, parts]
      simp [Option.bind_eq_some_iff]

/-! ### The parts of a name -/

/-- A list cut where a point is found first. -/
theorem cut_iff {cs before behind : List Char} :
    (cs.takeWhile (· ≠ '.') = before ∧ cs.dropWhile (· ≠ '.') = '.' :: behind) ↔
      '.' ∉ before ∧ cs = before ++ '.' :: behind := by
  constructor
  · rintro ⟨rfl, rest⟩
    refine ⟨fun member => ?_, ?_⟩
    · have passes := List.all_takeWhile (p := (· ≠ '.')) (l := cs)
      simpa using List.all_eq_true.1 passes _ member
    · rw [← rest, List.takeWhile_append_dropWhile]
  · rintro ⟨pointless, rfl⟩
    have passes : ∀ c ∈ before, decide (c ≠ '.') = true := fun c member =>
      decide_eq_true fun point => pointless (point ▸ member)
    rw [List.takeWhile_append_of_pos passes, List.dropWhile_append_of_pos passes]
    simp

theorem starts_with_point {cs behind : List Char} {c : Char}
    (rest : cs.dropWhile (· ≠ '.') = c :: behind) : c = '.' := by
  have found := List.head_dropWhile_not (· ≠ '.') (rest ▸ List.cons_ne_nil c behind)
  simpa only [rest, List.head_cons, decide_eq_false_iff_not, not_not] using found

/-- What is behind the last point of a name that does not start with it. -/
theorem splitExtension_eq_some_iff {name : String} {stem ending : List Char} :
    splitExtension name = (stem, some ending) ↔
      stem ≠ [] ∧ '.' ∉ ending ∧ name.toList = stem ++ '.' :: ending := by
  have cut : ('.' ∉ ending ∧ name.toList = stem ++ '.' :: ending) ↔
      name.toList.reverse.takeWhile (· ≠ '.') = ending.reverse ∧
        name.toList.reverse.dropWhile (· ≠ '.') = '.' :: stem.reverse := by
    rw [cut_iff, List.mem_reverse, List.reverse_eq_iff]
    simp
  have point := @starts_with_point name.toList.reverse
  rw [cut]
  unfold splitExtension
  dsimp only
  generalize name.toList.reverse.takeWhile (· ≠ '.') = ending' at *
  generalize name.toList.reverse.dropWhile (· ≠ '.') = rest at *
  split
  · simp
  · simp +contextual
  · next c front other =>
    obtain rfl := point rfl
    have named : front ≠ [] := other rfl
    simp only [Prod.mk.injEq, Option.some.injEq, List.reverse_eq_iff, List.cons.injEq, true_and]
    exact ⟨fun ⟨front', ending⟩ => ⟨fun nothing => named (by simp [front', nothing]), ending, front'⟩,
      fun ⟨_, ending, front⟩ => ⟨front, ending⟩⟩

/-- **Which names are taken for which keys.** -/
theorem keyOfFileName?_eq_some_iff {name : String} {key : Bytes} :
    keyOfFileName? name = some key ↔ key.length = keyLength ∧
      ∃ stem, name.toList = stem ++ '.' :: fileExtension ∧
        plainDigits stem = key.flatMap spelled := by
  unfold keyOfFileName?
  constructor
  · intro taken
    split at taken
    · next stem ending parts =>
      obtain ⟨⟨rfl, digits⟩, bytes⟩ := Option.ite_none_right_eq_some.1 taken
      obtain ⟨-, -, own⟩ := splitExtension_eq_some_iff.1 parts
      have spelt := bytes?_eq_some_iff.1 bytes
      have lengths := congrArg List.length spelt
      rw [length_plainDigits, length_flatMap_spelled] at lengths
      exact ⟨by omega, stem, own, spelt⟩
    · cases taken
  · rintro ⟨twenty, stem, own, spelt⟩
    have digits := congrArg List.length spelt
    rw [length_plainDigits, length_flatMap_spelled, twenty] at digits
    have named : stem ≠ [] := List.ne_nil_of_length_pos (by rw [digits]; decide)
    rw [splitExtension_eq_some_iff.2 ⟨named, by decide, own⟩]
    exact Option.ite_none_right_eq_some.2 ⟨⟨rfl, digits⟩, bytes?_eq_some_iff.2 spelt⟩

example : keyOfFileName? "+9993E364706816ABA3E25717850C26C9CD0D89D.bin" =
    keyOfFileName? "09993e364706816aba3e25717850c26c9cd0d89d.bin" := by decide +kernel

/-! ### Plain names -/

/-- Without large letters and plus signs. -/
def IsPlain (name : String) : Prop := ∀ c ∈ name.toList, c ≠ '+' ∧ c.toLower = c

instance (name : String) : Decidable (IsPlain name) :=
  List.decidableBAll (fun c => c ≠ '+' ∧ c.toLower = c) name.toList

theorem toList_fileName (key : Bytes) :
    (fileName key).toList = key.flatMap spelled ++ '.' :: fileExtension := by
  unfold fileName
  simp [toList_encode]

theorem plain_of_mem_spelled {byte : UInt8} : ∀ c ∈ spelled byte, c ≠ '+' ∧ c.toLower = c := by
  have bound : byte.toNat < 256 := UInt8.toNat_lt byte
  have digit : ∀ n < 16, Nat.digitChar n ≠ '+' ∧ (Nat.digitChar n).toLower = Nat.digitChar n :=
    fun n small => ⟨digitChar_ne_plus n small, toLower_digitChar n small⟩
  simp only [spelled, List.forall_mem_cons]
  exact ⟨digit _ (by omega), digit _ (by omega), by simp⟩

/-- The names of its files are plain. -/
theorem isPlain_fileName (key : Bytes) : IsPlain (fileName key) := by
  have ending : ∀ c ∈ '.' :: fileExtension, c ≠ '+' ∧ c.toLower = c := by
    simp only [fileExtension, List.forall_mem_cons]
    exact ⟨by decide, by decide, by decide, by decide, List.forall_mem_nil _⟩
  unfold IsPlain
  rw [toList_fileName, List.forall_mem_append]
  refine ⟨fun c member => ?_, ending⟩
  obtain ⟨byte, -, member⟩ := List.mem_flatMap.1 member
  exact plain_of_mem_spelled c member

theorem plainDigits_of_plain {cs : List Char} (plain : ∀ c ∈ cs, c ≠ '+' ∧ c.toLower = c) :
    plainDigits cs = cs := by
  fun_induction plainDigits cs with
  | case1 first second rest ih =>
    simp only [List.forall_mem_cons] at plain
    obtain ⟨⟨digit, small⟩, ⟨-, small'⟩, plain⟩ := plain
    rw [ih plain, digitsOf, if_neg digit, small, small']
    rfl
  | case2 => rfl

/-- **A plain name is taken for a key only if it is the name of its file.** -/
theorem keyOfFileName?_of_plain {name : String} (plain : IsPlain name) {key : Bytes} :
    keyOfFileName? name = some key ↔ key.length = keyLength ∧ name = fileName key := by
  rw [keyOfFileName?_eq_some_iff, ← String.toList_inj, toList_fileName]
  refine and_congr_right fun _ => ⟨?_, fun own => ?_⟩
  · rintro ⟨stem, own, spelt⟩
    unfold IsPlain at plain
    rw [own, List.forall_mem_append] at plain
    rw [own, ← spelt, plainDigits_of_plain plain.1]
  · refine ⟨_, own, plainDigits_of_plain ?_⟩
    unfold IsPlain at plain
    rw [own, List.forall_mem_append] at plain
    exact plain.1

/-- The name of its file is taken for a key. -/
theorem keyOfFileName?_fileName {key : Bytes} (twenty : key.length = keyLength) :
    keyOfFileName? (fileName key) = some key :=
  (keyOfFileName?_of_plain (isPlain_fileName key)).2 ⟨twenty, rfl⟩

/-- Keys of the same length have files of the same name only if they are the same. -/
theorem fileName_inj {key key' : Bytes} (twenty : key.length = keyLength)
    (twenty' : key'.length = keyLength) : fileName key = fileName key' ↔ key = key' := by
  refine ⟨fun same => ?_, congrArg _⟩
  have taken := keyOfFileName?_fileName twenty
  rw [same, keyOfFileName?_fileName twenty'] at taken
  exact (Option.some.inj taken).symm

/-- A name is taken for the key of its file, and for no other, exactly if it is plain or not taken at
all. -/
theorem taken_as_own_iff (name : String) :
    (∀ key, keyOfFileName? name = some key ↔ key.length = keyLength ∧ name = fileName key) ↔
      ((keyOfFileName? name).isSome → IsPlain name) := by
  constructor
  · intro own taken
    obtain ⟨key, taken⟩ := Option.isSome_iff_exists.1 taken
    obtain ⟨-, rfl⟩ := (own key).1 taken
    exact isPlain_fileName key
  · intro plain key
    refine ⟨fun taken => (keyOfFileName?_of_plain (plain (taken ▸ rfl))).1 taken, ?_⟩
    rintro ⟨twenty, rfl⟩
    exact keyOfFileName?_fileName twenty

/-! ### Paths of files -/

theorem not_mem_spelled {c : Char} (noDigit : ∀ n < 16, Nat.digitChar n ≠ c) (key : Bytes) :
    c ∉ key.flatMap spelled := by
  intro member
  obtain ⟨byte, -, member⟩ := List.mem_flatMap.1 member
  have bound : byte.toNat < 256 := UInt8.toNat_lt byte
  simp only [spelled, List.mem_cons, List.not_mem_nil, or_false] at member
  obtain rfl | rfl := member
  · exact noDigit _ (by omega) rfl
  · exact noDigit _ (by omega) rfl

/-- The name of a file is one step down from the directory. -/
theorem step_fileName (key : Bytes) : Path.IsPlain (fileName key) := by
  have long : 4 ≤ (fileName key).length := by
    rw [← String.length_toList, toList_fileName, List.length_append]
    exact Nat.le_add_left _ _
  have longer : ∀ short : String, short.length < 4 → fileName key ≠ short := by
    rintro short few rfl
    omega
  refine ⟨?_, longer _ (by decide), longer _ (by decide), longer _ (by decide)⟩
  rw [toList_fileName, List.mem_append, not_or]
  exact ⟨not_mem_spelled (by decide) key, by decide⟩

/-- The file of a key is in the directory, under its name. -/
theorem components_join_fileName (directory : String) (key : Bytes) :
    Path.components (Path.join directory (fileName key)) =
      Path.components directory ++ [fileName key] :=
  Path.components_join directory (step_fileName key)

end ClassInstrument.DiskCache
