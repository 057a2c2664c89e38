import Cmk.Machinery.CpuList

/-!
# Machinery/BootLine — kernel command lines

A kernel splits its command line at white space outside double quotes, and reads parameters
`key=value` up to the word `--` (`bootParams`, `argOf?`).  Splitting at all white space, as a script
does, cuts the words into fields but moves nothing between them (`splitSpace_eq_flatMap`).

A parameter such as `isolcpus` has a CPU list with flags before it (`flaggedList?`).
-/

namespace Machinery

/-! ## Words and parameters -/

/-- The white space that separates the words. -/
def isBootSpace (c : Char) : Bool := c.toNat = 32 || 9 ≤ c.toNat && c.toNat ≤ 13

/-- The pieces between white space, inside a quotation or not. -/
def bootSplit : Bool → List Char → List (List Char)
  | _, [] => [[]]
  | quoted, c :: cs =>
    if isBootSpace c && !quoted then [] :: bootSplit false cs
    else (bootSplit (if c = '"' then !quoted else quoted) cs).modifyHead (c :: ·)

/-- The words of a command line. -/
def bootWords (line : String) : List String :=
  ((bootSplit false line.toList).filter fun word => !word.isEmpty).map String.ofList

/-- Is a word not the one after which the parameters are another program's? -/
def beforeDashes (word : String) : Bool := word ≠ "--" && word ≠ "\"--\""

/-- The parameters of the kernel. -/
def bootParams (line : String) : List String := (bootWords line).takeWhile beforeDashes

/-- The words after these. -/
def bootRest (line : String) : List String := (bootWords line).dropWhile beforeDashes

/-- The text after the first `=` of a parameter of this name; a quotation may begin before it. -/
def argOf? (name word : String) : Option String :=
  match splitText '=' word with
  | key :: piece :: pieces =>
    if key = name ∨ key = "\"" ++ name then some (joinText '=' (piece :: pieces)) else none
  | _ => none

/-! ## Lists with flags -/

/-- A flag: letters and underscores, a letter first. -/
def isFlag (word : String) : Bool :=
  word.toList.head?.any Char.isAlpha && word.toList.all fun c => c.isAlpha || c = '_'

/-- The flags before a CPU list, and the pieces of the list; `none` if the text is no such list. -/
def flaggedList? (text : String) : Option (List String × List CpuItem) :=
  match (splitText ',' text).dropWhile isFlag with
  | [] => none
  | piece :: pieces => ((piece :: pieces).mapM cpuItem?).map fun items =>
      ((splitText ',' text).takeWhile isFlag, items)

example : flaggedList? "nohz,domain,2-3,8" = some (["nohz", "domain"], [.range 2 3, .one 8]) := by
  decide

/-! ## Fields -/

theorem isSpace_of_isBootSpace {c : Char} (h : isBootSpace c = true) : isSpace c = true := by
  have hn : ∀ n ∈ [9, 10, 11, 12, 13, 32], n ∈ blanks := by decide
  simp only [isBootSpace, Bool.or_eq_true, Bool.and_eq_true, decide_eq_true_eq] at h
  rw [isSpace, isBlank, Bool.or_eq_true, decide_eq_true_eq]
  refine .inl (hn _ ?_)
  simp only [List.mem_cons, List.not_mem_nil, or_false]
  omega

theorem bootSplit_ne_nil (quoted : Bool) (cs : List Char) : bootSplit quoted cs ≠ [] := by
  induction cs generalizing quoted with
  | nil => exact List.cons_ne_nil _ _
  | cons c cs ih =>
    rw [bootSplit]
    split
    · exact List.cons_ne_nil _ _
    · rw [ne_eq, List.modifyHead_eq_nil_iff]
      exact ih _

/-- White space cuts a line at the ends of its words, and elsewhere inside them. -/
theorem splitOnP_eq_flatMap (quoted : Bool) (cs : List Char) :
    cs.splitOnP isSpace = (bootSplit quoted cs).flatMap fun word => word.splitOnP isSpace := by
  induction cs generalizing quoted with
  | nil => rfl
  | cons c cs ih =>
    rw [bootSplit, List.splitOnP_cons_eq_if_modifyHead]
    generalize (if c = '"' then !quoted else quoted) = quoted'
    by_cases hsep : (isBootSpace c && !quoted) = true
    · rw [if_pos hsep, if_pos (isSpace_of_isBootSpace (Bool.and_eq_true_iff.mp hsep).1), ih false]
      rfl
    obtain ⟨w, ws, hw⟩ := List.exists_cons_of_ne_nil (bootSplit_ne_nil quoted' cs)
    rw [if_neg hsep, ih quoted', hw, List.modifyHead_cons, List.flatMap_cons, List.flatMap_cons,
      List.splitOnP_cons_eq_if_modifyHead]
    by_cases hspace : isSpace c = true
    · rw [if_pos hspace, if_pos hspace]
      rfl
    · obtain ⟨x, xs, hx⟩ := List.exists_cons_of_ne_nil (List.splitOnP_ne_nil isSpace w)
      rw [if_neg hspace, if_neg hspace, hx]
      rfl

/-- **Fields are cut out of words.** -/
theorem splitSpace_eq_flatMap (line : String) :
    splitSpace line = (bootWords line).flatMap splitSpace := by
  have hempty : ∀ words : List (List Char), words.flatMap (fun word => splitSpace (.ofList word)) =
      (words.filter fun word => !word.isEmpty).flatMap fun word => splitSpace (.ofList word) := by
    intro words
    induction words with
    | nil => rfl
    | cons word words ih =>
      cases word with
      | nil => exact ih
      | cons c cs => rw [List.filter_cons_of_pos rfl, List.flatMap_cons, List.flatMap_cons, ih]
  rw [bootWords, List.flatMap_map, ← hempty, splitSpace, splitOnP_eq_flatMap false,
    List.filter_flatMap, List.map_flatMap]
  simp only [splitSpace, String.toList_ofList]

/-- White space at the end of a line makes no field. -/
theorem splitSpace_rstripText (line : String) : splitSpace (rstripText line) = splitSpace line := by
  have hspaces : ∀ cs : List Char, (∀ c ∈ cs, isSpace c = true) → ∀ xs : List Char,
      ((xs ++ cs).splitOnP isSpace).filter (fun piece => !piece.isEmpty) =
        (xs.splitOnP isSpace).filter fun piece => !piece.isEmpty := by
    intro cs
    induction cs with
    | nil => exact fun _ xs => by rw [List.append_nil]
    | cons c cs ih =>
      intro h xs
      obtain ⟨hc, hcs⟩ := List.forall_mem_cons.mp h
      have hnone := ih hcs []
      rw [List.nil_append] at hnone
      rw [List.splitOnP_append_cons xs cs hc, List.filter_append, hnone]
      exact List.append_nil _
  have hcut := hspaces (line.toList.rtakeWhile isSpace) (fun _ => List.mem_rtakeWhile_imp)
    (line.toList.rdropWhile isSpace)
  rw [List.rdropWhile_append_rtakeWhile] at hcut
  rw [rstripText, splitSpace, String.toList_ofList, splitSpace, hcut]

/-! ## What flags and lists are made of -/

theorem toNat_of_isAlpha {c : Char} (h : c.isAlpha) : 65 ≤ c.toNat ∧ c.toNat ≤ 122 := by
  rcases (Bool.or_eq_true _ _).mp h with h | h
  · obtain ⟨hl, hu⟩ := toNat_of_isUpper h
    omega
  · obtain ⟨hl, hu⟩ := toNat_of_isLower h
    omega

theorem digit?_of_isAlpha {c : Char} (h : c.isAlpha) : digit? c = none := by
  obtain ⟨hl, hu⟩ := toNat_of_isAlpha h
  have hzeros : ∀ z ∈ digitZeros, z = 0x30 ∨ 0x660 ≤ z := by decide
  rw [digit?, Option.map_eq_none_iff, List.find?_eq_none]
  intro z hz
  rw [decide_eq_true_eq]
  rcases hzeros z hz with rfl | hz <;> omega

/-- A character that flags and lists are made of. -/
def isListChar (c : Char) : Bool := c.isAlpha || c = '_' || c.isDigit || c = '-' || c = ','

theorem isSpace_of_isListChar {c : Char} (h : isListChar c = true) : isSpace c = false := by
  simp only [isListChar, Bool.or_eq_true, decide_eq_true_eq] at h
  rcases h with (((h | rfl) | h) | rfl) | rfl
  · obtain ⟨hl, hu⟩ := toNat_of_isAlpha h
    have hblank : ∀ n ∈ blanks, n ≤ 32 ∨ 0x85 ≤ n := by decide
    rw [isSpace, isBlank, Bool.or_eq_false_iff, decide_eq_false_iff_not]
    refine ⟨fun hmem => ?_, by simp; omega⟩
    have := hblank _ hmem
    omega
  · rfl
  · exact isSpace_of_isDigit h
  · rfl
  · rfl

theorem char_of_isFlag {word : String} (h : isFlag word = true) {c : Char}
    (hc : c ∈ word.toList) : c.isAlpha = true ∨ c = '_' := by
  rw [isFlag, Bool.and_eq_true] at h
  simpa using List.all_eq_true.mp h.2 c hc

theorem isListChar_of_isFlag {word : String} (h : isFlag word = true) {c : Char}
    (hc : c ∈ word.toList) : isListChar c = true := by
  rcases char_of_isFlag h hc with hc | rfl
  · simp [isListChar, hc]
  · rfl

/-- **A flag is no integer**, and has no hyphen. -/
theorem intOfText?_of_isFlag {word : String} (h : isFlag word = true) :
    '-' ∉ word.toList ∧ intOfText? word = none := by
  have hdash : '-' ∉ word.toList := fun hmem => absurd (char_of_isFlag h hmem) (by decide)
  have hstrip : strip word.toList = word.toList := strip_eq_self fun c hc => by
    have hspace := isSpace_of_isListChar (isListChar_of_isFlag h hc)
    rw [isSpace, Bool.or_eq_false_iff] at hspace
    exact hspace.1
  obtain ⟨c, hc, halpha⟩ : ∃ c, word.toList.head? = some c ∧ c.isAlpha = true := by
    rw [isFlag, Bool.and_eq_true, Option.any_eq_true] at h
    exact h.1
  obtain ⟨cs, hword⟩ := List.head?_eq_some_iff.mp hc
  have hplus : c ≠ '+' := by
    rintro rfl
    exact absurd halpha (by decide)
  have hscore : c ≠ '_' := by
    rintro rfl
    exact absurd halpha (by decide)
  have hnat : natOfDigits? (c :: cs) = none := by
    have hdigits : ((c :: cs).filter (· ≠ '_')).mapM digit? = none :=
      mapM_eq_none.mpr ⟨c, List.mem_filter.mpr ⟨.head _, by simpa using hscore⟩,
        digit?_of_isAlpha halpha⟩
    rw [natOfDigits?, hdigits]
    split <;> rfl
  rw [hword] at hdash hstrip
  refine ⟨hword ▸ hdash, ?_⟩
  rw [intOfText?, hword, hstrip]
  split
  · rename_i heq
    exact absurd (List.cons.inj heq).1 fun he => hdash (he ▸ .head _)
  · rename_i heq
    exact absurd (List.cons.inj heq).1 hplus
  · rw [hnat]
    rfl

theorem chars_of_cpuItem? {text : String} {item : CpuItem} (h : cpuItem? text = some item)
    {c : Char} (hc : c ∈ text.toList) : c.isDigit = true ∨ c = '-' := by
  rcases cpuItem?_eq_some h with ⟨id, hid, -⟩ | ⟨first, last, a, b, hsplit, ha, hb, -⟩
  · exact .inl ((decimal?_eq_some.mp hid).1.2 c hc)
  · refine or_iff_not_imp_right.mpr fun hdash => ?_
    rw [← joinText_splitText '-' text, mem_joinText hdash, hsplit] at hc
    obtain ⟨piece, hpiece, hc⟩ := hc
    rcases List.mem_pair.mp hpiece with rfl | rfl
    · exact (decimal?_eq_some.mp ha).1.2 c hc
    · exact (decimal?_eq_some.mp hb).1.2 c hc

/-- **A list with flags** is its flags and then its pieces. -/
theorem flaggedList?_eq_some {text : String} {flags : List String} {items : List CpuItem}
    (h : flaggedList? text = some (flags, items)) :
    (∀ flag ∈ flags, isFlag flag = true) ∧ ∃ pieces, splitText ',' text = flags ++ pieces ∧
      List.Forall₂ (fun piece item => cpuItem? piece = some item) pieces items := by
  have hsplit : (splitText ',' text).takeWhile isFlag ++ (splitText ',' text).dropWhile isFlag =
      splitText ',' text := List.takeWhile_append_dropWhile
  rw [flaggedList?] at h
  split at h
  · cases h
  · rename_i piece pieces hdrop
    obtain ⟨items', hitems, heq⟩ := Option.map_eq_some_iff.mp h
    obtain ⟨rfl, rfl⟩ := Prod.mk.inj heq
    exact ⟨fun flag hflag => List.mem_takeWhile_imp hflag, _, (hdrop ▸ hsplit).symm,
      mapM_eq_some.mp hitems⟩

theorem chars_of_flaggedList? {text : String} {flags : List String} {items : List CpuItem}
    (h : flaggedList? text = some (flags, items)) {c : Char} (hc : c ∈ text.toList) :
    isListChar c = true := by
  obtain ⟨hflags, pieces, hsplit, hpieces⟩ := flaggedList?_eq_some h
  by_cases hcomma : c = ','
  · simp [isListChar, hcomma]
  rw [← joinText_splitText ',' text, mem_joinText hcomma, hsplit] at hc
  obtain ⟨piece, hpiece, hc⟩ := hc
  rcases List.mem_append.mp hpiece with hflag | hpiece
  · exact isListChar_of_isFlag (hflags _ hflag) hc
  · obtain ⟨item, hitem⟩ : ∃ item, cpuItem? piece = some item := by
      obtain ⟨i, hi, rfl⟩ := List.getElem_of_mem hpiece
      exact ⟨_, hpieces.get hi (hpieces.length_eq ▸ hi)⟩
    rcases chars_of_cpuItem? hitem hc with hdigit | rfl
    · simp [isListChar, hdigit]
    · rfl

end Machinery
