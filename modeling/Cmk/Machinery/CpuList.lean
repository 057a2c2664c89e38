import Cmk.Machinery.Text

/-!
# Machinery/CpuList — CPU lists, bit masks and hexadecimal numbers

A CPU list in the Linux format is a comma-separated sequence of decimal ids and ranges `a-b`
(`cpuList?`); lists glued with commas are a list of all their CPUs (`cpusIn_joinText`), and ids
glued with commas are the list of these (`cpusIn_encodeInts`).  A bit mask is the number with the
bits of the ids set (`testBit_bitmask`), written in hexadecimal digits that read back as that number
(`hexNat?_hexText`).
-/

namespace Machinery

/-! ## The Linux format -/

/-- The number that decimal digits stand for, if there are any and nothing else. -/
def decimal? (cs : List Char) : Option ℕ :=
  if cs ≠ [] ∧ cs.all Char.isDigit then some (Nat.ofDigitChars 10 cs 0) else none

/-- One piece of a CPU list. -/
inductive CpuItem
  | one (id : ℕ)
  | range (first last : ℕ)
deriving DecidableEq

/-- The CPUs of a piece: a range counts both its ends. -/
def CpuItem.cpus : CpuItem → List ℕ
  | one id => [id]
  | range first last => List.range' first (last + 1 - first)

def cpuItem? (text : String) : Option CpuItem :=
  match splitText '-' text with
  | [id] => (decimal? id.toList).map .one
  | [first, last] => (decimal? first.toList).bind fun a =>
      (decimal? last.toList).map fun b => .range a b
  | _ => none

/-- The pieces of a CPU list; `none` if the text is not one. -/
def cpuList? (text : String) : Option (List CpuItem) := (splitText ',' text).mapM cpuItem?

def IsCpuList (text : String) : Prop := (cpuList? text).isSome

instance (text : String) : Decidable (IsCpuList text) :=
  inferInstanceAs (Decidable ((cpuList? text).isSome = true))

/-- The CPUs of a CPU list. -/
def cpusIn (text : String) : List ℕ := ((cpuList? text).getD []).flatMap CpuItem.cpus

example : cpusIn "0-2,8" = [0, 1, 2, 8] := by decide

/-! ## Numbers -/

theorem mapM_eq_none {α β : Type} {f : α → Option β} {xs : List α} :
    xs.mapM f = none ↔ ∃ x ∈ xs, f x = none := by
  induction xs with
  | nil => simp
  | cons x xs ih =>
    rw [List.mapM_cons, List.exists_mem_cons_iff, ← ih]
    cases f x <;> cases xs.mapM f <;> simp

theorem mapM_eq_some {α β : Type} {f : α → Option β} {xs : List α} {ys : List β} :
    xs.mapM f = some ys ↔ List.Forall₂ (fun x y => f x = some y) xs ys := by
  induction xs generalizing ys with
  | nil => simp [eq_comm]
  | cons x xs ih =>
    rw [List.mapM_cons]
    cases hx : f x with
    | none =>
      refine iff_of_false (by simp) fun h => ?_
      cases h with
      | cons hy _ => simp [hx] at hy
    | some y =>
      change (xs.mapM f).bind (fun zs => some (y :: zs)) = some ys ↔ _
      rw [Option.bind_eq_some_iff]
      constructor
      · rintro ⟨zs, hzs, h⟩
        exact Option.some.inj h ▸ .cons hx (ih.mp hzs)
      · rintro (_ | ⟨hy, hys⟩)
        exact ⟨_, ih.mpr hys, by rw [Option.some.inj (hx.symm.trans hy)]⟩

theorem decimal?_eq_some {cs : List Char} {n : ℕ} :
    decimal? cs = some n ↔ (cs ≠ [] ∧ ∀ c ∈ cs, c.isDigit) ∧ Nat.ofDigitChars 10 cs 0 = n := by
  rw [decimal?]
  split <;> simp_all

theorem notMem_of_decimal? {cs : List Char} {n : ℕ} (h : decimal? cs = some n) {c : Char}
    (hc : c.isDigit = false) : c ∉ cs := fun hmem => by
  simp [(decimal?_eq_some.mp h).1.2 c hmem] at hc

theorem natOfDigits?_of_decimal? {cs : List Char} {n : ℕ} (h : decimal? cs = some n) :
    natOfDigits? cs = some n := by
  have hscore : '_' ∉ cs := notMem_of_decimal? h (by decide)
  obtain ⟨⟨hne, hdigit⟩, hvalue⟩ := decimal?_eq_some.mp h
  have hsplit : cs.splitOn '_' = [cs] := List.splitOn_eq_singleton hscore
  have hfilter : cs.filter (· ≠ '_') = cs :=
    List.filter_eq_self.mpr fun c hc => by simpa using fun he : c = '_' => hscore (he ▸ hc)
  rw [natOfDigits?, hsplit, hfilter, if_pos (by simpa using hne), mapM_digit? hdigit,
    Option.map_some, List.foldl_map, ← hvalue]
  exact congrArg some Nat.ofDigitChars_eq_foldl.symm

/-- A text that starts with a digit and has digits and hyphens only has neither blanks nor a sign.
-/
theorem intOfText?_of_digit {s : String} {c : Char} {cs : List Char} (hs : s.toList = c :: cs)
    (hc : c.isDigit) (hcs : ∀ d ∈ cs, d.isDigit ∨ d = '-') :
    intOfText? s = Option.map Int.ofNat (natOfDigits? s.toList) := by
  have hstrip : strip s.toList = s.toList := by
    refine strip_eq_self fun d hd => ?_
    rw [hs] at hd
    rcases List.mem_cons.mp hd with rfl | hd
    · exact isBlank_of_isDigit hc
    · rcases hcs d hd with hd | rfl
      · exact isBlank_of_isDigit hd
      · rfl
  rw [intOfText?, hstrip, hs]
  split
  · rename_i heq
    rw [(List.cons.inj heq).1] at hc
    cases hc
  · rename_i heq
    rw [(List.cons.inj heq).1] at hc
    cases hc
  · cases natOfDigits? (c :: cs) <;> rfl

/-- **A decimal id reads as the integer it stands for.** -/
theorem intOfText?_of_decimal? {s : String} {n : ℕ} (h : decimal? s.toList = some n) :
    intOfText? s = some (n : ℤ) := by
  obtain ⟨⟨hne, hdigit⟩, -⟩ := decimal?_eq_some.mp h
  obtain ⟨c, cs, hs⟩ := List.exists_cons_of_ne_nil hne
  rw [hs] at hdigit
  obtain ⟨hc, hcs⟩ := List.forall_mem_cons.mp hdigit
  rw [intOfText?_of_digit hs hc fun d hd => .inl (hcs d hd), natOfDigits?_of_decimal? h]
  rfl

/-- **A range does not read as an integer.** -/
theorem intOfText?_range {s t : String} {a b : ℕ} (hs : decimal? s.toList = some a)
    (ht : decimal? t.toList = some b) : intOfText? (s ++ "-" ++ t) = none := by
  obtain ⟨⟨hne, hdigit⟩, -⟩ := decimal?_eq_some.mp hs
  have htdigit := (decimal?_eq_some.mp ht).1.2
  obtain ⟨c, cs, hcons⟩ := List.exists_cons_of_ne_nil hne
  have hlist : (s ++ "-" ++ t).toList = c :: (cs ++ '-' :: t.toList) := by
    simp [hcons]
  rw [hcons] at hdigit
  obtain ⟨hc, hcs⟩ := List.forall_mem_cons.mp hdigit
  have hrest : ∀ d ∈ cs ++ '-' :: t.toList, d.isDigit ∨ d = '-' := by
    intro d hd
    rcases List.mem_append.mp hd with hd | hd
    · exact .inl (hcs d hd)
    · exact (List.mem_cons.mp hd).symm.imp_left (htdigit d)
  have hnone : ((c :: (cs ++ '-' :: t.toList)).filter (· ≠ '_')).mapM digit? = none := by
    refine mapM_eq_none.mpr ⟨'-', ?_, by decide⟩
    exact List.mem_filter.mpr ⟨by simp, by decide⟩
  rw [intOfText?_of_digit hlist hc hrest, hlist, natOfDigits?, hnone]
  split <;> rfl

/-! ## Pieces -/

/-- A piece is an id, or a range between two. -/
theorem cpuItem?_eq_some {text : String} {item : CpuItem} (h : cpuItem? text = some item) :
    (∃ id, decimal? text.toList = some id ∧ item = .one id) ∨
      ∃ first last a b, splitText '-' text = [first, last] ∧ decimal? first.toList = some a ∧
        decimal? last.toList = some b ∧ item = .range a b := by
  rw [cpuItem?] at h
  split at h
  · rename_i id hsplit
    obtain ⟨n, hn, rfl⟩ := Option.map_eq_some_iff.mp h
    have htext := joinText_splitText '-' text
    rw [hsplit, joinText_singleton] at htext
    exact .inl ⟨n, htext ▸ hn, rfl⟩
  · rename_i first last hsplit
    obtain ⟨a, ha, h⟩ := Option.bind_eq_some_iff.mp h
    obtain ⟨b, hb, rfl⟩ := Option.map_eq_some_iff.mp h
    exact .inr ⟨first, last, a, b, hsplit, ha, hb, rfl⟩
  · cases h

/-- **A piece reads as an integer exactly when it has no hyphen**, and then it is an id. -/
theorem intOfText?_of_cpuItem? {text : String} {item : CpuItem} (h : cpuItem? text = some item) :
    if '-' ∈ text.toList then intOfText? text = none
    else ∃ id, item = .one id ∧ intOfText? text = some (id : ℤ) := by
  rcases cpuItem?_eq_some h with ⟨id, hid, rfl⟩ | ⟨first, last, a, b, hsplit, ha, hb, -⟩
  · rw [if_neg (notMem_of_decimal? hid (by decide))]
    exact ⟨id, rfl, intOfText?_of_decimal? hid⟩
  · have htext : text = first ++ "-" ++ last := by
      rw [← joinText_splitText '-' text, hsplit, joinText_cons _ _ (List.cons_ne_nil _ _),
        joinText_singleton]
    rw [htext, if_pos (by simp)]
    exact intOfText?_range ha hb

/-! ## Lists -/

/-- The pieces of glued CPU lists are the pieces of each. -/
theorem cpuList?_joinText {names : List String} (hne : names ≠ [])
    (h : ∀ name ∈ names, IsCpuList name) :
    cpuList? (joinText ',' names) = some (names.flatMap fun name => (cpuList? name).getD []) := by
  rw [cpuList?, splitText_joinText_flatMap ',' hne]
  clear hne
  induction names with
  | nil => rfl
  | cons name names ih =>
    obtain ⟨hname, hnames⟩ := List.forall_mem_cons.mp h
    obtain ⟨items, hitems⟩ := Option.isSome_iff_exists.mp hname
    rw [List.flatMap_cons, List.mapM_append, ih hnames, ← cpuList?, hitems, List.flatMap_cons,
      hitems]
    rfl

/-- **Glued CPU lists** have the CPUs of each. -/
theorem cpusIn_joinText {names : List String} (hne : names ≠ [])
    (h : ∀ name ∈ names, IsCpuList name) :
    cpusIn (joinText ',' names) = names.flatMap cpusIn := by
  rw [cpusIn, cpuList?_joinText hne h, Option.getD_some, List.flatMap_assoc]
  rfl

theorem isCpuList_joinText {names : List String} (hne : names ≠ [])
    (h : ∀ name ∈ names, IsCpuList name) : IsCpuList (joinText ',' names) := by
  rw [IsCpuList, cpuList?_joinText hne h]
  rfl

/-- **Ids written with commas between them** are a CPU list of just these. -/
theorem cpuList?_encodeInts {ids : List ℕ} (hne : ids ≠ []) :
    cpuList? (encodeInts (ids.map Int.ofNat)) = some (ids.map .one) := by
  rw [cpuList?, splitText_encodeInts (by simpa using hne), List.map_map, mapM_eq_some,
    List.forall₂_map_left_iff, List.forall₂_map_right_iff]
  refine List.forall₂_same.mpr fun id _ => ?_
  have hid : decimal? (toString (Int.ofNat id)).toList = some id := by
    rw [Int.ofNat_eq_natCast, toList_toString_ofNat]
    exact decimal?_eq_some.mpr ⟨⟨Nat.toDigits_ne_nil, fun c hc =>
      Nat.isDigit_of_mem_toDigits (by decide) (by decide) hc⟩, Nat.ofDigitChars_ten_toDigits⟩
  rw [Function.comp_apply, cpuItem?, splitText_eq_singleton (notMem_of_decimal? hid (by decide))]
  exact congrArg (Option.map CpuItem.one) hid

theorem isCpuList_encodeInts {ids : List ℕ} (hne : ids ≠ []) :
    IsCpuList (encodeInts (ids.map Int.ofNat)) := by
  rw [IsCpuList, cpuList?_encodeInts hne]
  rfl

theorem cpusIn_encodeInts {ids : List ℕ} (hne : ids ≠ []) :
    cpusIn (encodeInts (ids.map Int.ofNat)) = ids := by
  rw [cpusIn, cpuList?_encodeInts hne, Option.getD_some, List.flatMap_map]
  exact List.flatMap_singleton' ids

/-! ## Bit masks -/

/-- The number with the bits of the ids set. -/
def bitmask (ids : List ℕ) : ℕ := ids.foldl (fun mask id => mask ||| 1 <<< id) 0

theorem testBit_foldl_or (ids : List ℕ) (mask i : ℕ) :
    (ids.foldl (fun mask id => mask ||| 1 <<< id) mask).testBit i =
      (mask.testBit i || decide (i ∈ ids)) := by
  induction ids generalizing mask with
  | nil => simp
  | cons id ids ih =>
    have hbit : (1 <<< id).testBit i = decide (i = id) := by
      rw [Nat.one_shiftLeft, Nat.testBit_two_pow]
      exact decide_eq_decide.mpr eq_comm
    rw [List.foldl_cons, ih, Nat.testBit_or, hbit, Bool.or_assoc, ← Bool.decide_or]
    simp only [List.mem_cons]

/-- **The bits of a mask are the ids.** -/
theorem testBit_bitmask (ids : List ℕ) (i : ℕ) : (bitmask ids).testBit i = decide (i ∈ ids) := by
  rw [bitmask, testBit_foldl_or, Nat.zero_testBit, Bool.false_or]

/-! ## Hexadecimal numbers -/

/-- A number in hexadecimal digits, the letters in capitals. -/
def hexText (n : ℕ) : String := String.ofList ((Nat.toDigits 16 n).map Char.toUpper)

def hexDigit? (c : Char) : Option ℕ :=
  if '0' ≤ c ∧ c ≤ '9' then some (c.toNat - 48)
  else if 'A' ≤ c ∧ c ≤ 'F' then some (c.toNat - 55)
  else if 'a' ≤ c ∧ c ≤ 'f' then some (c.toNat - 87)
  else none

/-- The number that hexadecimal digits stand for, if there are any and nothing else. -/
def hexNat? (s : String) : Option ℕ :=
  if s = "" then none else (s.toList.mapM hexDigit?).map (List.foldl (fun n d => 16 * n + d) 0)

theorem hexDigit?_digitChar {d : ℕ} (h : d < 16) :
    hexDigit? (Nat.digitChar d).toUpper = some d := by
  revert h
  revert d
  decide

/-- The digits of a number read as it. -/
theorem mapM_hexDigit?_toDigits (n : ℕ) :
    (((Nat.toDigits 16 n).map Char.toUpper).mapM hexDigit?).map
      (List.foldl (fun n d => 16 * n + d) 0) = some n := by
  induction n using Nat.strong_induction_on with
  | _ n ih =>
    by_cases hn : n < 16
    · rw [Nat.toDigits_of_lt_base hn, List.map_singleton, List.mapM_cons, hexDigit?_digitChar hn]
      simp
    · have hsmall := ih (n / 16) (by omega)
      obtain ⟨ds, hds, hvalue⟩ := Option.map_eq_some_iff.mp hsmall
      rw [Nat.toDigits_of_base_le (by decide) (by omega), List.map_append, List.mapM_append, hds,
        List.map_singleton, List.mapM_cons, hexDigit?_digitChar (Nat.mod_lt n (by decide))]
      simp [hvalue, List.foldl_append]
      omega

/-- **Reading undoes writing.** -/
theorem hexNat?_hexText (n : ℕ) : hexNat? (hexText n) = some n := by
  have hne : hexText n ≠ "" := by
    rw [hexText, ne_eq, ← String.toList_inj, String.toList_ofList]
    simp
  rw [hexNat?, if_neg hne, hexText, String.toList_ofList, mapM_hexDigit?_toDigits]

end Machinery
