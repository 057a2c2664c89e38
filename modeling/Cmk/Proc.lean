import Cmk.Machinery.CpuList
import Cmk.Topology.Parse

/-!
# Proc — `unfold_cpu_list` and `convert_array2bitmask`

The two descriptions the program makes of the CPUs of a list: their ids, which `parse_cpus_str`
reads too (`unfoldCpuList_eq`, `parseCpusStr_eq`), and a bit mask in hexadecimal
(`mask_text_exact`).
-/

open Machinery Cmk.Topology

namespace Cmk

/-- One round of the loop of `unfold_cpu_list`. -/
def unfoldCpuRange (cpuRange : String) : Except PyErr (List ℤ) :=
  match splitText '-' cpuRange with
  | [id] => do
    let cpu ← intOfStr id
    return [cpu]
  | [start, stop] => do
    let start ← intOfStr start
    let stop ← intOfStr stop
    return pyRange start (stop + 1)
  | _ => .ok []

def unfoldCpuList (list : String) : Except PyErr (List ℤ) :=
  if list = "" then .ok []
  else do
    let cpus ← (splitText ',' list).mapM unfoldCpuRange
    return cpus.flatten

/-- `1 << val` raises for a negative number. -/
def convertArray2bitmask (array : List ℤ) : Except PyErr String :=
  if ∀ val ∈ array, 0 ≤ val then .ok (hexText (bitmask (array.map Int.toNat)))
  else .error (.valueError none)

/-- `hex`. -/
def pyHex (n : ℕ) : String := "0x" ++ String.ofList (Nat.toDigits 16 n)

/-- An item of `",".join(names)`. -/
def nameText : Scalar → Except PyErr String
  | .str s => .ok s
  | _ => .error .typeError

/-- `",".join(names)`. -/
def joinNames (names : List Scalar) : Except PyErr String := do
  let texts ← names.mapM nameText
  return joinText ',' texts

/-! ## Joining names -/

theorem isOk_nameText {name : Scalar} : IsOk (nameText name) ↔ ∃ s, name = .str s := by
  cases name <;> simp [nameText, IsOk]

theorem joinNames_str (names : List String) :
    joinNames (names.map .str) = .ok (joinText ',' names) := by
  have hread : (names.map Scalar.str).mapM nameText = .ok names := by
    rw [mapM_eq_ok, List.forall₂_map_left_iff]
    exact List.forall₂_same.mpr fun _ _ => rfl
  exact bind_eq_ok.mpr ⟨names, hread, rfl⟩

theorem isOk_joinNames {names : List Scalar} :
    IsOk (joinNames names) ↔ ∀ name ∈ names, ∃ s, name = .str s := by
  rw [joinNames, isOk_bind, ← forall₂_congr fun name _ => isOk_nameText, ← isOk_mapM]
  exact exists_congr fun texts => and_iff_left (isOk_pure _)

/-! ## On a CPU list -/

theorem intOfStr_of_decimal? {s : String} {n : ℕ} (h : decimal? s.toList = some n) :
    intOfStr s = .ok (n : ℤ) :=
  intOfStr_eq_ok_iff.mpr (intOfText?_of_decimal? h)

theorem unfoldCpuRange_eq {text : String} {item : CpuItem} (h : cpuItem? text = some item) :
    unfoldCpuRange text = .ok (item.cpus.map Int.ofNat) := by
  rcases cpuItem?_eq_some h with ⟨id, hid, rfl⟩ | ⟨first, last, a, b, hsplit, ha, hb, rfl⟩
  · have hsplit : splitText '-' text = [text] :=
      splitText_eq_singleton (notMem_of_decimal? hid (by decide))
    rw [unfoldCpuRange, hsplit]
    exact bind_eq_ok.mpr ⟨id, intOfStr_of_decimal? hid, rfl⟩
  · rw [unfoldCpuRange, hsplit]
    refine bind_eq_ok.mpr ⟨a, intOfStr_of_decimal? ha,
      bind_eq_ok.mpr ⟨b, intOfStr_of_decimal? hb, ?_⟩⟩
    exact congrArg Except.ok (pyRange_natCast a b)

/-- **`unfold_cpu_list` reads the Linux format.** -/
theorem unfoldCpuList_eq {text : String} (h : IsCpuList text) :
    unfoldCpuList text = .ok ((cpusIn text).map Int.ofNat) := by
  have hne : text ≠ "" := by
    rintro rfl
    exact absurd h (by decide)
  obtain ⟨items, hitems⟩ := Option.isSome_iff_exists.mp h
  have hread : (splitText ',' text).mapM unfoldCpuRange =
      .ok (items.map fun item => item.cpus.map Int.ofNat) := by
    refine mapM_eq_ok.mpr ?_
    rw [List.forall₂_map_right_iff]
    exact (mapM_eq_some.mp hitems).imp fun _ _ => unfoldCpuRange_eq
  rw [unfoldCpuList, if_neg hne]
  refine bind_eq_ok.mpr ⟨_, hread, ?_⟩
  rw [cpusIn, hitems, Option.getD_some, List.map_flatMap, List.flatMap]
  rfl

theorem parseCpusStr_cons_cpuItem {text : String} {item : CpuItem} (h : cpuItem? text = some item)
    {rest : List String} {cpus : List ℤ} (hrest : parseCpusStr rest = .ok cpus) :
    parseCpusStr (text :: rest) = .ok (item.cpus.map Int.ofNat ++ cpus) := by
  rcases cpuItem?_eq_some h with ⟨id, hid, rfl⟩ | ⟨first, last, a, b, hsplit, ha, hb, rfl⟩
  · rw [parseCpusStr_cons_int (notMem_of_decimal? hid (by decide)), intOfStr_of_decimal? hid, hrest]
    rfl
  · have hdash : '-' ∈ text.toList := mem_toList_iff.mpr (by simp [hsplit])
    have hpiece : ∀ {s : String} {n : ℕ}, decimal? s.toList = some n →
        s ≠ "" ∧ ∀ c ∈ s.toList, isSpace c = false := fun hs => by
      obtain ⟨⟨hne, hdigit⟩, -⟩ := decimal?_eq_some.mp hs
      exact ⟨fun he => hne (by simp [he]), fun c hc => isSpace_of_isDigit (hdigit c hc)⟩
    have hjoin : splitSpace (joinWith " " (splitText '-' text)) = [first, last] := by
      rw [hsplit]
      refine splitSpace_joinWith fun x hx => ?_
      rcases List.mem_pair.mp hx with rfl | rfl
      · exact hpiece ha
      · exact hpiece hb
    rw [parseCpusStr_cons_range hdash hjoin]
    refine bind_eq_ok.mpr ⟨a, intOfStr_of_decimal? ha, bind_eq_ok.mpr ⟨b, intOfStr_of_decimal? hb,
      bind_eq_ok.mpr ⟨cpus, hrest, ?_⟩⟩⟩
    exact congrArg (fun ids => Except.ok (ids ++ cpus)) (pyRange_natCast a b)

theorem parseCpusStr_of_items {texts : List String} {items : List CpuItem}
    (h : List.Forall₂ (fun text item => cpuItem? text = some item) texts items) :
    parseCpusStr texts = .ok ((items.flatMap CpuItem.cpus).map Int.ofNat) := by
  induction h with
  | nil => rfl
  | cons hitem _ ih =>
    rw [parseCpusStr_cons_cpuItem hitem ih, List.flatMap_cons, List.map_append]

/-- **`parse_cpus_str` reads it too**, and reads the same. -/
theorem parseCpusStr_eq {text : String} (h : IsCpuList text) :
    parseCpusStr (splitText ',' text) = .ok ((cpusIn text).map Int.ofNat) := by
  obtain ⟨items, hitems⟩ := Option.isSome_iff_exists.mp h
  rw [cpusIn, hitems, Option.getD_some]
  exact parseCpusStr_of_items (mapM_eq_some.mp hitems)

/-- **The bits of the mask are the ids.** -/
theorem convertArray2bitmask_spec (ids : List ℕ) :
    ∃ mask, convertArray2bitmask (ids.map Int.ofNat) = .ok (hexText mask) ∧
      ∀ i, mask.testBit i = decide (i ∈ ids) := by
  have hpos : ∀ val ∈ ids.map Int.ofNat, 0 ≤ val := by
    intro val hval
    obtain ⟨id, -, rfl⟩ := List.mem_map.mp hval
    exact Int.natCast_nonneg id
  have hback : (ids.map Int.ofNat).map Int.toNat = ids := by
    rw [List.map_map]
    exact (List.map_congr_left fun id _ => Int.toNat_natCast id).trans (List.map_id _)
  exact ⟨bitmask ids, by rw [convertArray2bitmask, if_pos hpos, hback], testBit_bitmask ids⟩

/-! ## The text of a mask -/

/-- `str(hex(n))[2:].upper()`: what is cut off is the prefix, and no digit. -/
theorem hexText_eq (n : ℕ) :
    hexText n = String.ofList (((pyHex n).toList.drop 2).map Char.toUpper) := by
  simp [hexText, pyHex]

/-- Lists get one text when they have the same ids, and only then. -/
theorem convertArray2bitmask_eq_iff (ids ids' : List ℕ) :
    convertArray2bitmask (ids.map Int.ofNat) = convertArray2bitmask (ids'.map Int.ofNat) ↔
      ids.toFinset = ids'.toFinset := by
  obtain ⟨mask, htext, hbits⟩ := convertArray2bitmask_spec ids
  obtain ⟨mask', htext', hbits'⟩ := convertArray2bitmask_spec ids'
  have hmask : mask = mask' ↔ ids.toFinset = ids'.toFinset := by
    rw [Finset.ext_iff]
    constructor
    · rintro rfl i
      rw [List.mem_toFinset, List.mem_toFinset, ← decide_eq_decide, ← hbits, ← hbits']
    · intro h
      refine Nat.eq_of_testBit_eq fun i => ?_
      rw [hbits, hbits', decide_eq_decide, ← List.mem_toFinset, h, List.mem_toFinset]
  rw [htext, htext', ← hmask, Except.ok.injEq]
  constructor
  · intro h
    have hread := congrArg hexNat? h
    rwa [hexNat?_hexText, hexNat?_hexText, Option.some_inj] at hread
  · exact congrArg hexText

/-- **A mask says which ids are in the list.**  Read in hexadecimal it is the number with their bits
set, and lists with the same ids are those with the same text. -/
theorem mask_text_exact (ids : List ℕ) :
    (∃ text mask, convertArray2bitmask (ids.map Int.ofNat) = .ok text ∧
      text = String.ofList (((pyHex mask).toList.drop 2).map Char.toUpper) ∧
      hexNat? text = some mask ∧ ∀ i, mask.testBit i = true ↔ i ∈ ids) ∧
    ∀ ids' : List ℕ,
      convertArray2bitmask (ids.map Int.ofNat) = convertArray2bitmask (ids'.map Int.ofNat) ↔
        ids.toFinset = ids'.toFinset := by
  obtain ⟨mask, htext, hbits⟩ := convertArray2bitmask_spec ids
  refine ⟨⟨hexText mask, mask, htext, hexText_eq mask, hexNat?_hexText mask, fun i => ?_⟩,
    convertArray2bitmask_eq_iff ids⟩
  rw [hbits, decide_eq_true_eq]

end Cmk
