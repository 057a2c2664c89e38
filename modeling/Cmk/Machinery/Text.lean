import Mathlib.Data.List.DropRight
import Mathlib.Tactic

/-!
# Machinery/Text — splitting, joining and reading decimal integers

`splitText` and `joinText` cut a string at a separator and glue the pieces back; `intOfText?` reads
an integer the way an interpreter's `int` does (surrounding blanks, a sign, digits grouped by single
underscores).  The round trips are `splitText_joinText`, `intOfText?_toString` and
`decodeInts_encodeInts`.
-/

namespace Machinery

/-! ## Split and join -/

/-- The pieces of a string between the occurrences of a separator; an empty string has one. -/
def splitText (c : Char) (s : String) : List String := (s.toList.splitOn c).map String.ofList

/-- The strings glued with a separator between any two. -/
def joinText (c : Char) (xs : List String) : String :=
  String.ofList ([c].intercalate (xs.map String.toList))

@[simp] theorem joinText_nil (c : Char) : joinText c [] = "" := rfl

@[simp] theorem joinText_singleton (c : Char) (x : String) : joinText c [x] = x := by
  simp [joinText]

theorem joinText_cons (c : Char) (x : String) {xs : List String} (h : xs ≠ []) :
    joinText c (x :: xs) = x ++ String.ofList [c] ++ joinText c xs := by
  obtain ⟨y, ys, rfl⟩ := List.exists_cons_of_ne_nil h
  rw [← String.toList_inj]
  simp [joinText, List.intercalate_cons_cons]

/-- **Splitting undoes joining**, as long as no piece contains the separator. -/
theorem splitText_joinText {c : Char} {xs : List String} (hc : ∀ x ∈ xs, c ∉ x.toList)
    (h : xs ≠ []) : splitText c (joinText c xs) = xs := by
  have hs : List.splitOn c ([c].intercalate (xs.map String.toList)) = xs.map String.toList :=
    List.splitOn_intercalate c (by simpa using hc) (by simpa using h)
  rw [splitText, joinText, String.toList_ofList, hs, List.map_map]
  exact (List.map_congr_left fun x _ => String.ofList_toList).trans (List.map_id _)

/-- **Joining undoes splitting.** -/
theorem joinText_splitText (c : Char) (s : String) : joinText c (splitText c s) = s := by
  rw [joinText, splitText, List.map_map]
  have hid : String.toList ∘ String.ofList = id := funext fun cs => String.toList_ofList
  rw [hid, List.map_id, List.intercalate_splitOn, String.ofList_toList]

theorem splitText_inj {c : Char} {x y : String} : splitText c x = splitText c y ↔ x = y :=
  (Function.LeftInverse.injective (joinText_splitText c)).eq_iff

theorem splitText_ne_nil (c : Char) (s : String) : splitText c s ≠ [] :=
  fun h => List.splitOn_ne_nil c s.toList (List.map_eq_nil_iff.mp h)

/-- Any character but the separator is in a join as it is in the parts. -/
theorem mem_joinText {c x : Char} (hx : x ≠ c) {xs : List String} :
    x ∈ (joinText c xs).toList ↔ ∃ y ∈ xs, x ∈ y.toList := by
  induction xs with
  | nil => simp
  | cons y xs ih =>
    by_cases hxs : xs = []
    · simp [hxs]
    · rw [joinText_cons c y hxs, List.exists_mem_cons_iff, ← ih]
      simp [hx]

theorem splitText_append (c : Char) (x y : String) :
    splitText c (x ++ String.ofList [c] ++ y) = splitText c x ++ splitText c y := by
  simp only [splitText, String.toList_append, String.toList_ofList, List.append_assoc,
    List.singleton_append, List.splitOn_append_cons_self, List.map_append]

theorem splitText_eq_singleton {c : Char} {x : String} (h : c ∉ x.toList) :
    splitText c x = [x] := by
  rw [splitText, List.splitOn_eq_singleton h, List.map_singleton, String.ofList_toList]

theorem exists_append_of_mem {c : Char} {x : String} (h : c ∈ x.toList) :
    ∃ y z : String, x = y ++ String.ofList [c] ++ z := by
  obtain ⟨ys, zs, hx⟩ := List.append_of_mem h
  refine ⟨String.ofList ys, String.ofList zs, ?_⟩
  rw [← String.toList_inj]
  simp [hx]

/-- A separator cuts a text in two. -/
theorem mem_toList_iff {c : Char} {x : String} : c ∈ x.toList ↔ 2 ≤ (splitText c x).length := by
  constructor
  · intro h
    obtain ⟨y, z, rfl⟩ := exists_append_of_mem h
    have hy := List.length_pos_iff.mpr (splitText_ne_nil c y)
    have hz := List.length_pos_iff.mpr (splitText_ne_nil c z)
    rw [splitText_append, List.length_append]
    omega
  · intro h
    by_contra hno
    rw [splitText_eq_singleton hno] at h
    simp at h

/-- **The pieces of a join are the pieces of the parts**, whatever the parts contain. -/
theorem splitText_joinText_flatMap (c : Char) {xs : List String} (h : xs ≠ []) :
    splitText c (joinText c xs) = xs.flatMap (splitText c) := by
  induction xs with
  | nil => exact absurd rfl h
  | cons x xs ih =>
    by_cases hxs : xs = []
    · simp [hxs]
    · rw [joinText_cons c x hxs, splitText_append, ih hxs, List.flatMap_cons]

/-! ## Decimal integers -/

/-- The blanks an interpreter's `int` ignores at both ends. -/
def blanks : List ℕ :=
  [0x9, 0xa, 0xb, 0xc, 0xd, 0x20, 0x85, 0xa0, 0x1680, 0x2000, 0x2001, 0x2002, 0x2003, 0x2004,
    0x2005, 0x2006, 0x2007, 0x2008, 0x2009, 0x200a, 0x2028, 0x2029, 0x202f, 0x205f, 0x3000]

def isBlank (c : Char) : Bool := c.toNat ∈ blanks

/-- The zeros of the scripts whose decimal digits an interpreter's `int` reads. -/
def digitZeros : List ℕ :=
  [0x30, 0x660, 0x6f0, 0x7c0, 0x966, 0x9e6, 0xa66, 0xae6, 0xb66, 0xbe6, 0xc66, 0xce6, 0xd66,
    0xde6, 0xe50, 0xed0, 0xf20, 0x1040, 0x1090, 0x17e0, 0x1810, 0x1946, 0x19d0, 0x1a80, 0x1a90,
    0x1b50, 0x1bb0, 0x1c40, 0x1c50, 0xa620, 0xa8d0, 0xa900, 0xa9d0, 0xa9f0, 0xaa50, 0xabf0,
    0xff10, 0x104a0, 0x10d30, 0x11066, 0x110f0, 0x11136, 0x111d0, 0x112f0, 0x11450, 0x114d0,
    0x11650, 0x116c0, 0x11730, 0x118e0, 0x11c50, 0x11d50, 0x11da0, 0x16a60, 0x16b50, 0x1d7ce,
    0x1d7d8, 0x1d7e2, 0x1d7ec, 0x1d7f6, 0x1e140, 0x1e2f0, 0x1e950]

/-- The value of a decimal digit of any script. -/
def digit? (c : Char) : Option ℕ :=
  (digitZeros.find? fun z => z ≤ c.toNat ∧ c.toNat < z + 10).map (c.toNat - ·)

/-- Cut the blanks at the right end. -/
def rstrip (cs : List Char) : List Char := cs.rdropWhile isBlank

/-- Cut the blanks at both ends. -/
def strip (cs : List Char) : List Char := rstrip (cs.dropWhile isBlank)

/-- A natural number from digits that single underscores may group. -/
def natOfDigits? (cs : List Char) : Option ℕ :=
  if (cs.splitOn '_').all fun group => !group.isEmpty then
    ((cs.filter (· ≠ '_')).mapM digit?).map fun ds => ds.foldl (fun n d => 10 * n + d) 0
  else none

/-- An integer as an interpreter's `int` reads it from text. -/
def intOfText? (s : String) : Option ℤ :=
  match strip s.toList with
  | '-' :: ds => (natOfDigits? ds).map fun n => -(n : ℤ)
  | '+' :: ds => (natOfDigits? ds).map fun n => (n : ℤ)
  | ds => (natOfDigits? ds).map fun n => (n : ℤ)

/-- The digits that are not decimal digits, as first and last of every run of them. -/
def otherDigits : List (ℕ × ℕ) :=
  [(0xb2, 0xb3), (0xb9, 0xb9), (0x1369, 0x1371), (0x19da, 0x19da), (0x2070, 0x2070),
    (0x2074, 0x2079), (0x2080, 0x2089), (0x2460, 0x2468), (0x2474, 0x247c), (0x2488, 0x2490),
    (0x24ea, 0x24ea), (0x24f5, 0x24fd), (0x24ff, 0x24ff), (0x2776, 0x277e), (0x2780, 0x2788),
    (0x278a, 0x2792), (0x10a40, 0x10a43), (0x10e60, 0x10e68), (0x11052, 0x1105a),
    (0x1f100, 0x1f10a)]

/-- `isdigit` of a string: not empty, and digits of any kind throughout. -/
def isDigitText (s : String) : Bool :=
  s ≠ "" && s.toList.all fun c =>
    (digit? c).isSome || otherDigits.any fun run => run.1 ≤ c.toNat && c.toNat ≤ run.2

/-- The characters `split` and `rstrip` take for white space. -/
def isSpace (c : Char) : Bool := isBlank c || (0x1c ≤ c.toNat && c.toNat ≤ 0x1f)

/-- `split` without a separator: the pieces between white space, none of them empty. -/
def splitSpace (s : String) : List String :=
  ((s.toList.splitOnP isSpace).filter fun piece => !piece.isEmpty).map String.ofList

/-- `rstrip`. -/
def rstripText (s : String) : String := String.ofList (s.toList.rdropWhile isSpace)

/-- Strings glued with a separator string between any two. -/
def joinWith (sep : String) (xs : List String) : String := sep.intercalate xs

theorem toNat_of_isDigit {c : Char} (h : c.isDigit) : 48 ≤ c.toNat ∧ c.toNat ≤ 57 := by
  simp only [Char.isDigit, Bool.and_eq_true, decide_eq_true_eq, ge_iff_le,
    UInt32.le_iff_toNat_le] at h
  exact h

theorem toNat_of_isUpper {c : Char} (h : c.isUpper) : 65 ≤ c.toNat ∧ c.toNat ≤ 90 := by
  obtain ⟨hl, hu⟩ := of_decide_eq_true (p := c.val ≥ 'A'.val ∧ c.val ≤ 'Z'.val) h
  exact ⟨UInt32.le_iff_toNat_le.mp hl, UInt32.le_iff_toNat_le.mp hu⟩

theorem toNat_of_isLower {c : Char} (h : c.isLower) : 97 ≤ c.toNat ∧ c.toNat ≤ 122 := by
  obtain ⟨hl, hu⟩ := (Bool.and_eq_true _ _).mp h
  exact ⟨UInt32.le_iff_toNat_le.mp (of_decide_eq_true hl),
    UInt32.le_iff_toNat_le.mp (of_decide_eq_true hu)⟩

theorem isBlank_of_isDigit {c : Char} (h : c.isDigit) : isBlank c = false := by
  obtain ⟨hl, hu⟩ := toNat_of_isDigit h
  simp only [isBlank, blanks, List.mem_cons, List.not_mem_nil, decide_eq_false_iff_not, or_false]
  omega

theorem isSpace_of_isDigit {c : Char} (h : c.isDigit) : isSpace c = false := by
  obtain ⟨hl, hu⟩ := toNat_of_isDigit h
  rw [isSpace, isBlank_of_isDigit h, Bool.false_or, Bool.and_eq_false_iff]
  simp only [decide_eq_false_iff_not]
  omega

theorem digit?_of_isDigit {c : Char} (h : c.isDigit) : digit? c = some (c.toNat - 48) := by
  obtain ⟨hl, hu⟩ := toNat_of_isDigit h
  rw [digit?, digitZeros, List.find?_cons_of_pos (by simp; omega), Option.map_some]

theorem strip_eq_self {cs : List Char} (h : ∀ c ∈ cs, isBlank c = false) : strip cs = cs := by
  have hl : cs.dropWhile isBlank = cs := by
    cases cs with
    | nil => rfl
    | cons c cs => simp [h c (by simp)]
  rw [strip, hl, rstrip, List.rdropWhile_eq_self_iff]
  intro hne
  simp [h _ (List.getLast_mem hne)]

theorem mapM_digit? {cs : List Char} (h : ∀ c ∈ cs, c.isDigit) :
    cs.mapM digit? = some (cs.map fun c => c.toNat - 48) := by
  induction cs with
  | nil => rfl
  | cons c cs ih =>
    rw [List.mapM_cons, digit?_of_isDigit (h c (by simp)), ih fun d hd => h d (by simp [hd])]
    rfl

theorem natOfDigits?_toDigits (n : ℕ) : natOfDigits? (Nat.toDigits 10 n) = some n := by
  have hd : ∀ c ∈ Nat.toDigits 10 n, c.isDigit := fun c hc =>
    Nat.isDigit_of_mem_toDigits (by decide) (by decide) hc
  have hs : (Nat.toDigits 10 n).splitOn '_' = [Nat.toDigits 10 n] :=
    List.splitOn_eq_singleton Nat.underscore_not_in_toDigits
  have hf : (Nat.toDigits 10 n).filter (· ≠ '_') = Nat.toDigits 10 n := by
    rw [List.filter_eq_self]
    intro c hc
    simpa using fun he : c = '_' => Nat.underscore_not_in_toDigits (he ▸ hc)
  have hv : ((Nat.toDigits 10 n).map fun c => c.toNat - 48).foldl (fun n d => 10 * n + d) 0 =
      n := by
    rw [List.foldl_map]
    exact Nat.ofDigitChars_eq_foldl.symm.trans (Nat.ofDigitChars_ten_toDigits)
  rw [natOfDigits?, hs, hf, if_pos (by simp [Nat.toDigits_ne_nil]), mapM_digit? hd, Option.map_some,
    hv]

theorem toList_toString_ofNat (n : ℕ) : (toString (n : ℤ)).toList = Nat.toDigits 10 n :=
  Nat.toList_repr

theorem toList_toString_negSucc (n : ℕ) :
    (toString (Int.negSucc n)).toList = '-' :: Nat.toDigits 10 (n + 1) := by
  change ("-" ++ Nat.repr (n + 1)).toList = _
  rw [String.toList_append, Nat.toList_repr]
  rfl

/-- A decimal integer is written with digits and a sign only. -/
theorem mem_toString_int {z : ℤ} {c : Char} (h : c ∈ (toString z).toList) :
    c.isDigit ∨ c = '-' := by
  cases z with
  | ofNat n =>
    rw [Int.ofNat_eq_natCast, toList_toString_ofNat] at h
    exact Or.inl (Nat.isDigit_of_mem_toDigits (by decide) (by decide) h)
  | negSucc n =>
    rw [toList_toString_negSucc, List.mem_cons] at h
    exact h.symm.imp_left fun h => Nat.isDigit_of_mem_toDigits (by decide) (by decide) h

theorem notMem_toString_int {z : ℤ} {c : Char} (hd : c.isDigit = false) (hm : c ≠ '-') :
    c ∉ (toString z).toList := fun h =>
  (mem_toString_int h).elim (fun h => by simp [hd] at h) hm

/-- **Reading undoes writing.** -/
theorem intOfText?_toString (z : ℤ) : intOfText? (toString z) = some z := by
  have hs : strip (toString z).toList = (toString z).toList := by
    refine strip_eq_self fun c hc => ?_
    rcases mem_toString_int hc with h | rfl
    · exact isBlank_of_isDigit h
    · rfl
  rw [intOfText?, hs]
  cases z with
  | ofNat n =>
    rw [Int.ofNat_eq_natCast, toList_toString_ofNat]
    have hd : ∀ c ∈ Nat.toDigits 10 n, c.isDigit := fun c hc =>
      Nat.isDigit_of_mem_toDigits (by decide) (by decide) hc
    split
    · rename_i h
      exact absurd (hd '-' (by simp [h])) (by decide)
    · rename_i h
      exact absurd (hd '+' (by simp [h])) (by decide)
    · rw [natOfDigits?_toDigits]
      rfl
  | negSucc n =>
    rw [toList_toString_negSucc]
    simp only [natOfDigits?_toDigits]
    rfl

theorem toString_int_injective : Function.Injective (toString : ℤ → String) := fun a b h =>
  Option.some.inj ((intOfText?_toString a).symm.trans ((congrArg intOfText? h).trans
    (intOfText?_toString b)))

/-! ## Comma-separated integers -/

/-- Integers written with commas between them. -/
def encodeInts (zs : List ℤ) : String := joinText ',' (zs.map toString)

/-- The integers between the commas; `none` when a piece is not an integer. -/
def decodeInts (s : String) : Option (List ℤ) := (splitText ',' s).mapM intOfText?

theorem mapM_intOfText?_toString (zs : List ℤ) :
    (zs.map toString).mapM intOfText? = some zs := by
  induction zs with
  | nil => rfl
  | cons z zs ih =>
    rw [List.map_cons, List.mapM_cons, intOfText?_toString, ih]
    rfl

theorem splitText_encodeInts {zs : List ℤ} (h : zs ≠ []) :
    splitText ',' (encodeInts zs) = zs.map toString :=
  splitText_joinText (by simpa using fun z _ => notMem_toString_int (by decide) (by decide))
    (by simpa using h)

/-- **A non-empty list of integers survives the round trip through text.** -/
theorem decodeInts_encodeInts {zs : List ℤ} (h : zs ≠ []) :
    decodeInts (encodeInts zs) = some zs := by
  rw [decodeInts, splitText_encodeInts h, mapM_intOfText?_toString]

theorem encodeInts_injective {xs ys : List ℤ} (hx : xs ≠ []) (hy : ys ≠ [])
    (h : encodeInts xs = encodeInts ys) : xs = ys :=
  Option.some.inj ((decodeInts_encodeInts hx).symm.trans ((congrArg decodeInts h).trans
    (decodeInts_encodeInts hy)))

/-! ## White space and digits -/

/-- White space is no digit of any kind. -/
theorem isDigitText_char {s : String} (h : isDigitText s) {c : Char} (hc : c ∈ s.toList) :
    isSpace c = false ∧ c ≠ '-' ∧ c ≠ '+' := by
  have hdigit : ∀ n, (digitZeros.any fun z => z ≤ n && n < z + 10) = true ∨
      (otherDigits.any fun run => run.1 ≤ n && n ≤ run.2) = true →
        n ∉ blanks ∧ ¬ (0x1c ≤ n ∧ n ≤ 0x1f) ∧ n ≠ 45 ∧ n ≠ 43 := by
    have hno : ∀ n ∈ [0x1c, 0x1d, 0x1e, 0x1f, 45, 43] ++ blanks,
        ¬ ((digitZeros.any fun z => z ≤ n && n < z + 10) = true ∨
          (otherDigits.any fun run => run.1 ≤ n && n ≤ run.2) = true) := by decide
    refine fun n hn => ⟨fun hb => hno n (by simp [hb]) hn, fun hb => hno n ?_ hn,
      fun hb => hno n (by simp [hb]) hn, fun hb => hno n (by simp [hb]) hn⟩
    have hcases : n = 0x1c ∨ n = 0x1d ∨ n = 0x1e ∨ n = 0x1f := by omega
    rcases hcases with rfl | rfl | rfl | rfl <;> simp
  rw [isDigitText, Bool.and_eq_true] at h
  have hall := List.all_eq_true.mp h.2 c hc
  rw [Bool.or_eq_true] at hall
  obtain ⟨hb, hctl, hm, hp⟩ := hdigit c.toNat (hall.imp_left fun hd => by
    rw [digit?, Option.isSome_map, List.find?_isSome] at hd
    obtain ⟨z, hz, hle⟩ := hd
    exact List.any_eq_true.mpr ⟨z, hz, by simpa using hle⟩)
  refine ⟨?_, fun he => hm (he ▸ rfl), fun he => hp (he ▸ rfl)⟩
  rw [isSpace, isBlank]
  simp only [hb, decide_false, Bool.false_or, Bool.and_eq_false_iff, decide_eq_false_iff_not]
  omega

/-- **Digits read as a natural number**, or not at all. -/
theorem intOfText?_of_isDigitText {s : String} (h : isDigitText s) :
    intOfText? s = (natOfDigits? s.toList).map fun n => (n : ℤ) := by
  have hstrip : strip s.toList = s.toList := strip_eq_self fun c hc => by
    have hspace := (isDigitText_char h hc).1
    rw [isSpace, Bool.or_eq_false_iff] at hspace
    exact hspace.1
  rw [intOfText?, hstrip]
  split
  · rename_i heq
    exact absurd rfl (isDigitText_char h (heq ▸ .head _)).2.1
  · rename_i heq
    exact absurd rfl (isDigitText_char h (heq ▸ .head _)).2.2
  · rfl

theorem splitSpace_append (x y : String) :
    splitSpace (x ++ " " ++ y) = splitSpace x ++ splitSpace y := by
  have hlist : (x ++ " " ++ y).toList = x.toList ++ ' ' :: y.toList := by simp
  rw [splitSpace, hlist, List.splitOnP_append_cons _ _ (by decide), List.filter_append,
    List.map_append]
  rfl

theorem splitSpace_eq_singleton {x : String} (hne : x ≠ "")
    (h : ∀ c ∈ x.toList, isSpace c = false) : splitSpace x = [x] := by
  rw [splitSpace, List.splitOnP_eq_singleton h]
  simp [hne]

/-- **Pieces without white space** come back from between blanks. -/
theorem splitSpace_joinWith {xs : List String}
    (h : ∀ x ∈ xs, x ≠ "" ∧ ∀ c ∈ x.toList, isSpace c = false) :
    splitSpace (joinWith " " xs) = xs := by
  induction xs with
  | nil => rfl
  | cons x xs ih =>
    obtain ⟨hx, hxs⟩ := List.forall_mem_cons.mp h
    rcases xs with - | ⟨y, ys⟩
    · exact splitSpace_eq_singleton hx.1 hx.2
    · have hjoin : joinWith " " (x :: y :: ys) = x ++ " " ++ joinWith " " (y :: ys) := by
        rw [← String.toList_inj]
        simp [joinWith]
      rw [hjoin, splitSpace_append, splitSpace_eq_singleton hx.1 hx.2, ih hxs]
      rfl

end Machinery
